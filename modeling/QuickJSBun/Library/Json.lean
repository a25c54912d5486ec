import QuickJSBun.Library.Utf8

/-! The texts that `JSON.stringify` writes without indentation: quoted strings, and the items of arrays and objects
between their brackets.
-/

set_option autoImplicit false

namespace QuickJSBun.Library

def text (literal : String) : Text := literal.toList.map fun c => .ofNat c.toNat

def unit (c : Char) : UInt16 := .ofNat c.toNat

def hexDigit (n : Nat) : UInt16 := .ofNat (if n < 10 then 0x30 + n else 0x61 + (n - 10))

def unicodeEscape (c : Nat) : Text :=
  [unit '\\', unit 'u', hexDigit (c / 4096 % 16), hexDigit (c / 256 % 16), hexDigit (c / 16 % 16),
    hexDigit (c % 16)]

/-- `QuoteJSONString` for one code point. -/
def escapePoint (c : Nat) : Text :=
  if c = 0x08 then text "\\b"
  else if c = 0x09 then text "\\t"
  else if c = 0x0A then text "\\n"
  else if c = 0x0C then text "\\f"
  else if c = 0x0D then text "\\r"
  else if c = 0x22 then text "\\\""
  else if c = 0x5C then text "\\\\"
  else if c < 0x20 || isSurrogate c then unicodeEscape c
  else fromCodePoint c

def quote (value : Text) : Text := unit '"' :: (codePoints value).flatMap escapePoint ++ [unit '"']

def listText (opening closing : UInt16) : List Text → Text
  | [] => [opening, closing]
  | first :: rest => opening :: first ++ rest.flatMap (fun item => unit ',' :: item) ++ [closing]

end QuickJSBun.Library
