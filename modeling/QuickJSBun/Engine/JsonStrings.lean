import QuickJSBun.Engine.Strings
import QuickJSBun.Library.Json
import Mathlib.Tactic.IntervalCases

/-! Strings from JSON texts: `json_parse_string` and what `JS_ParseJSON2` makes of a text
that is one string. It reads back any text that was quoted, which is how texts with lone
surrogates come to the engine.

The source ends with a terminator behind `buf_end`; at most that one byte is left there.
-/

set_option autoImplicit false

namespace QuickJSBun.Engine.Strings

open Library

def fromHex (c : UInt8) : Option Nat :=
  let n := c.toNat
  if 0x30 ≤ n ∧ n ≤ 0x39 then some (n - 0x30)
  else if 0x41 ≤ n ∧ n ≤ 0x46 then some (n - 0x41 + 10)
  else if 0x61 ≤ n ∧ n ≤ 0x66 then some (n - 0x61 + 10)
  else none

/-- The loop over the digits of `\u`. -/
def hexDigits : Nat → Nat → Bytes → Except StringFailure (Nat × Bytes)
  | 0, c, p => .ok (c, p)
  | _ + 1, _, [] => .error .undefined
  | left + 1, c, digit :: p =>
    match fromHex digit with
    | none => .error (.syntaxError "Bad Unicode escape")
    | some h => hexDigits left (c * 16 + h) p

def jsonEscape (sep : UInt8) : Bytes → Except StringFailure (Nat × Bytes)
  | [] => .error .undefined
  | c :: p =>
    if c = 0x62 then .ok (0x08, p)
    else if c = 0x66 then .ok (0x0C, p)
    else if c = 0x6E then .ok (0x0A, p)
    else if c = 0x72 then .ok (0x0D, p)
    else if c = 0x74 then .ok (0x09, p)
    else if c = 0x5C ∨ c = 0x2F then .ok (c.toNat, p)
    else if c = 0x75 then hexDigits 4 0 p
    else if c = sep then .ok (c.toNat, p)
    else if p = [] then .error (.syntaxError "Unexpected end of JSON input")
    else .error (.syntaxError "Bad escaped character")

def jsonChar (sep c : UInt8) (p : Bytes) : Except StringFailure (Nat × Bytes) :=
  if c.toNat < 0x20 then .error (.syntaxError "Bad control character in string literal")
  else if c = 0x5C then jsonEscape sep p
  else if 0x80 ≤ c.toNat then
    match unicodeFromUtf8 6 (c :: p) with
    | none => .error (.syntaxError "Bad UTF-8 sequence")
    | some (code, next) =>
      if 0x10FFFF < code then .error (.syntaxError "Bad UTF-8 sequence") else .ok (code, next)
  else .ok (c.toNat, p)

inductive Token where
  | eof
  | string (str : JSString)
  | other
  deriving DecidableEq, Repr

section
variable (memory : Memory)

/-- The loop of `json_parse_string`. Every turn takes a byte, so that as many turns as there are
bytes are enough. -/
def jsonParseLoop (sep : UInt8) : Nat → StringBuffer → Bytes → Making (StringBuffer × Bytes)
  | 0, _, _ => Effect.throw .undefined
  | _ + 1, _, [] => Effect.throw (.syntaxError "Unexpected end of JSON input")
  | _ + 1, _, [_] => Effect.throw (.syntaxError "Unexpected end of JSON input")
  | left + 1, b, c :: p =>
    if c = sep then pure (b, p)
    else match jsonChar sep c p with
      | .error failure => Effect.throw failure
      | .ok (code, next) => do
        let b ← stringBufferPutc memory b code
        jsonParseLoop sep left b next

def jsonParseString (sep : UInt8) (p : Bytes) : Making (JSString × Bytes) := do
  let b ← stringBufferInit memory 32
  let (b, p) ← jsonParseLoop memory sep p.length b p
  let str ← stringBufferEnd b
  pure (str, p)

/-- `json_next_token`, which knows only strings and the end of the source. -/
def jsonNextToken : Bytes → Making (Token × Bytes)
  | [] => Effect.throw .undefined
  | c :: p =>
    if c = 0 ∧ p = [] then pure (.eof, c :: p)
    else if c = 0x22 then do
      let (str, p) ← jsonParseString memory c p
      pure (.string str, p)
    else if c = 0x0D ∨ c = 0x0A ∨ c = 0x20 ∨ c = 0x09 then jsonNextToken p
    else pure (.other, c :: p)

/-- `JS_ParseJSON2` without flags. -/
def jsParseJson (source : Bytes) : Making JSString := do
  let (token, p) ← jsonNextToken memory source
  match token with
  | .string str => do
    let (token, _) ← jsonNextToken memory p
    if token = .eof then pure str else Effect.throw (.syntaxError "unexpected data at the end")
  | .eof => Effect.throw (.syntaxError "Unexpected end of JSON input")
  | .other => Effect.throw .otherValue

end

/-! ### Quoted texts -/

-- What does not start with a low surrogate completes no pair.
theorem codePoints_append {front back : Text}
    (start : ∀ u rest, back = u :: rest → isLow u.toNat = false) :
    codePoints (front ++ back) = codePoints front ++ codePoints back := by
  induction front using codePoints.induct with
  | case1 => rfl
  | case2 u =>
    cases back with
    | nil => rfl
    | cons v rest =>
      have alone : ¬(isHigh u.toNat && isLow v.toNat) = true := by simp [start v rest rfl]
      show codePoints (u :: v :: rest) = u.toNat :: codePoints (v :: rest)
      rw [codePoints, if_neg alone]
  | case3 u v rest pair ih =>
    rw [List.cons_append, List.cons_append, codePoints, if_pos pair, ih, codePoints, if_pos pair]
    rfl
  | case4 u v rest alone ih =>
    rw [List.cons_append, List.cons_append, codePoints, if_neg alone, ← List.cons_append, ih,
      codePoints, if_neg alone]
    rfl

theorem encode_append {front back : Text}
    (start : ∀ u rest, back = u :: rest → isLow u.toNat = false) :
    encode (front ++ back) = encode front ++ encode back := by
  rw [encode, codePoints_append start, List.flatMap_append]
  rfl

theorem encode_ascii {text : Text} (ascii : ∀ u ∈ text, u.toNat < 0x80) :
    encode text = text.map UInt16.toUInt8 := by
  have plain : ∀ u ∈ text, isHigh u.toNat = false := by
    intro u member
    have := ascii u member
    simp only [isHigh, Bool.and_eq_false_iff, decide_eq_false_iff_not]
    omega
  rw [encode_wellFormed (wellFormed_ascii ascii), encodeAll, codePoints_plain plain,
    List.flatMap_map]
  induction text with
  | nil => rfl
  | cons u rest ih =>
    have small := ascii u List.mem_cons_self
    have others := ih (fun v member => ascii v (List.mem_cons_of_mem u member)) fun v member =>
      plain v (List.mem_cons_of_mem u member)
    have same : UInt8.ofNat u.toNat = u.toUInt8 := rfl
    rw [List.flatMap_cons, others, encodePoint_ascii small, List.map_cons, same]
    rfl

theorem codePoints_fromCodePoint {c : Nat} (below : c < 0x110000) :
    codePoints (fromCodePoint c) = [c] := by
  by_cases pair : 0x10000 ≤ c
  · have units := surrogates_units below
    have high : isHigh (getHiSurrogate c) = true := by
      rw [isHigh, getHiSurrogate, decide_eq_true (by omega), decide_eq_true (by omega)]
      rfl
    have low : isLow (getLoSurrogate c) = true := by
      rw [isLow, getLoSurrogate, decide_eq_true (by omega), decide_eq_true (by omega)]
      rfl
    rw [fromCodePoint_pair pair, List.singleton_append, codePoints,
      UInt16.toNat_ofNat_of_lt' units.1, UInt16.toNat_ofNat_of_lt' units.2, high, low]
    simp only [Bool.and_self, if_true, codePoints, List.cons.injEq, and_true]
    unfold getHiSurrogate getLoSurrogate
    omega
  · rw [fromCodePoint, if_pos (by omega), codePoints,
      UInt16.toNat_ofNat_of_lt' (Nat.not_le.mp pair)]

theorem encode_fromCodePoint {c : Nat} (below : c < 0x110000) (scalar : isSurrogate c = false) :
    encode (fromCodePoint c) = encodePoint c := by
  rw [encode, codePoints_fromCodePoint below, List.flatMap_singleton, scalar]
  rfl

theorem fromHex_hexDigit {n : Nat} (digit : n < 16) : fromHex (hexDigit n).toUInt8 = some n := by
  interval_cases n <;> rfl

theorem hexDigit_ascii {n : Nat} (digit : n < 16) : (hexDigit n).toNat < 0x80 := by
  interval_cases n <;> decide

theorem encode_unicodeEscape (c : Nat) : encode (unicodeEscape c) =
    [0x5C, 0x75, (hexDigit (c / 4096 % 16)).toUInt8, (hexDigit (c / 256 % 16)).toUInt8,
      (hexDigit (c / 16 % 16)).toUInt8, (hexDigit (c % 16)).toUInt8] := by
  rw [encode_ascii]
  · rfl
  · intro u member
    simp only [unicodeEscape, List.mem_cons, List.not_mem_nil, or_false] at member
    rcases member with rfl | rfl | rfl | rfl | rfl | rfl
    · decide
    · decide
    all_goals exact hexDigit_ascii (Nat.mod_lt _ (by decide))

/-- A turn of the loop gives back the code point that was escaped. -/
structure Unescapes (c : Nat) (first : UInt8) (others : Bytes) : Prop where
  bytes : encode (escapePoint c) = first :: others
  sep : first ≠ 0x22
  back : ∀ p, jsonChar 0x22 first (others ++ p) = .ok (c, p)

theorem unescapes_letter {c : Nat} {letter : UInt8} (ascii : letter.toNat < 0x80)
    (escapes : escapePoint c = [unit '\\', letter.toUInt16])
    (back : ∀ p, jsonEscape 0x22 (letter :: p) = .ok (c, p)) : Unescapes c 0x5C [letter] where
  bytes := by
    rw [escapes, encode_ascii]
    · simp [unit]
    · intro u member
      simp only [List.mem_cons, List.not_mem_nil, or_false] at member
      rcases member with rfl | rfl
      · decide
      · rwa [UInt8.toNat_toUInt16]
  sep := by decide
  back := back

theorem hexDigits_digit {left c n : Nat} (digit : n < 16) (p : Bytes) :
    hexDigits (left + 1) c ((hexDigit n).toUInt8 :: p) = hexDigits left (c * 16 + n) p := by
  rw [hexDigits, fromHex_hexDigit digit]

theorem unescapes_unicode {c : Nat} (below : c < 0x10000)
    (escapes : escapePoint c = unicodeEscape c) : ∃ others, Unescapes c 0x5C others := by
  refine ⟨_, by rw [escapes, encode_unicodeEscape], by decide, fun p => ?_⟩
  show hexDigits 4 0 ((hexDigit (c / 4096 % 16)).toUInt8 :: (hexDigit (c / 256 % 16)).toUInt8 ::
    (hexDigit (c / 16 % 16)).toUInt8 :: (hexDigit (c % 16)).toUInt8 :: p) = _
  rw [hexDigits_digit (Nat.mod_lt _ (by decide)), hexDigits_digit (Nat.mod_lt _ (by decide)),
    hexDigits_digit (Nat.mod_lt _ (by decide)),
    hexDigits_digit (Nat.mod_lt _ (by decide)), hexDigits]
  congr 2
  omega

theorem unescapes_plain {c : Nat} (below : c < 0x110000) (printable : 0x20 ≤ c)
    (scalar : isSurrogate c = false) (noQuote : c ≠ 0x22) (noBackslash : c ≠ 0x5C)
    (escapes : escapePoint c = fromCodePoint c) : ∃ first others, Unescapes c first others := by
  have bytes := encode_fromCodePoint below scalar
  by_cases ascii : c < 0x80
  · have value := toNat_byte (show c < 256 by omega)
    have differs {n : Nat} (small : n < 256) (other : c ≠ n) : UInt8.ofNat c ≠ .ofNat n :=
      fun same =>
      other (by rw [← value, same, toNat_byte small])
    refine ⟨.ofNat c, [], ?_, differs (by decide) noQuote, fun p => ?_⟩
    · rw [escapes, bytes, encodePoint_ascii ascii]
    · have noEscape : UInt8.ofNat c ≠ 0x5C := differs (by decide) noBackslash
      unfold jsonChar
      rw [value, if_neg (by omega), if_neg noEscape, if_neg (by omega)]
      rfl
  · obtain ⟨first, others, shape, head⟩ := encodePoint_head (Nat.not_lt.mp ascii) below
    have differs {n : Nat} (small : n < 0x80) : first ≠ .ofNat n := by
      rintro rfl
      rw [toNat_byte (by omega)] at head
      omega
    refine ⟨first, others, ?_, differs (by decide), fun p => ?_⟩
    · rw [escapes, bytes, shape]
    · have most : (encodePoint c).length ≤ 6 := by
        unfold encodePoint
        split_ifs <;> simp
      have decoded := unicodeFromUtf8_encodePoint (Nat.not_lt.mp ascii) below most p
      rw [shape, List.cons_append] at decoded
      have noEscape : first ≠ 0x5C := differs (by decide)
      unfold jsonChar
      rw [if_neg (by omega), if_neg noEscape, if_pos head, decoded]
      exact if_neg (by omega)

theorem escapePoint_unescapes {c : Nat} (below : c < 0x110000) :
    ∃ first others, Unescapes c first others := by
  by_cases letter : c = 0x08 ∨ c = 0x09 ∨ c = 0x0A ∨ c = 0x0C ∨ c = 0x0D ∨ c = 0x22 ∨ c = 0x5C
  · rcases letter with rfl | rfl | rfl | rfl | rfl | rfl | rfl
    · exact ⟨_, [0x62], unescapes_letter (by decide) (by decide) fun _ => rfl⟩
    · exact ⟨_, [0x74], unescapes_letter (by decide) (by decide) fun _ => rfl⟩
    · exact ⟨_, [0x6E], unescapes_letter (by decide) (by decide) fun _ => rfl⟩
    · exact ⟨_, [0x66], unescapes_letter (by decide) (by decide) fun _ => rfl⟩
    · exact ⟨_, [0x72], unescapes_letter (by decide) (by decide) fun _ => rfl⟩
    · exact ⟨_, [0x22], unescapes_letter (by decide) (by decide) fun _ => rfl⟩
    · exact ⟨_, [0x5C], unescapes_letter (by decide) (by decide) fun _ => rfl⟩
  · have shape : escapePoint c = if c < 0x20 || isSurrogate c then unicodeEscape c
        else fromCodePoint c := by
      unfold escapePoint
      rw [if_neg (by omega), if_neg (by omega), if_neg (by omega), if_neg (by omega),
        if_neg (by omega), if_neg (by omega), if_neg (by omega)]
    by_cases escaped : (decide (c < 0x20) || isSurrogate c) = true
    · have unit : c < 0x10000 := by
        simp only [isSurrogate, Bool.or_eq_true, Bool.and_eq_true, decide_eq_true_eq] at escaped
        omega
      obtain ⟨others, unescapes⟩ := unescapes_unicode unit (shape.trans (if_pos escaped))
      exact ⟨_, others, unescapes⟩
    · have plain : ¬c < 0x20 ∧ isSurrogate c = false := by simpa using escaped
      exact unescapes_plain below (by omega) plain.2 (by omega) (by omega)
        (shape.trans (if_neg escaped))

-- No escape starts with a low surrogate.
theorem escapePoint_start {c : Nat} (below : c < 0x110000) {u : UInt16} {rest : Text}
    (starts : escapePoint c = u :: rest) : isLow u.toNat = false := by
  have backslash : isLow (unit '\\').toNat = false := by decide
  unfold escapePoint at starts
  by_cases letter : c = 0x08 ∨ c = 0x09 ∨ c = 0x0A ∨ c = 0x0C ∨ c = 0x0D ∨ c = 0x22 ∨ c = 0x5C
  · rcases letter with rfl | rfl | rfl | rfl | rfl | rfl | rfl <;> cases starts <;> exact backslash
  rw [if_neg (by omega), if_neg (by omega), if_neg (by omega), if_neg (by omega), if_neg (by omega),
    if_neg (by omega), if_neg (by omega)] at starts
  by_cases escaped : (decide (c < 0x20) || isSurrogate c) = true
  · rw [if_pos escaped] at starts
    cases starts
    exact backslash
  rw [if_neg escaped] at starts
  by_cases pair : 0x10000 ≤ c
  · rw [fromCodePoint_pair pair] at starts
    have head : UInt16.ofNat (getHiSurrogate c) = u := (List.cons.inj starts).1
    have unit := (surrogates_units below).1
    rw [← head, UInt16.toNat_ofNat_of_lt' unit, isLow, getHiSurrogate]
    simp only [Bool.and_eq_false_iff, decide_eq_false_iff_not]
    omega
  · have scalar : isSurrogate c = false :=
      (Bool.or_eq_false_iff.mp (Bool.eq_false_iff.mpr escaped)).2
    rw [fromCodePoint, if_pos (by omega)] at starts
    have head : UInt16.ofNat c = u := (List.cons.inj starts).1
    rw [← head, UInt16.toNat_ofNat_of_lt' (Nat.not_le.mp pair)]
    simp only [isSurrogate, isLow, Bool.and_eq_false_iff, decide_eq_false_iff_not] at scalar ⊢
    omega

theorem escapePoint_ne_nil {c : Nat} (below : c < 0x110000) : escapePoint c ≠ [] := by
  obtain ⟨first, others, unescapes⟩ := escapePoint_unescapes below
  intro none
  have bytes := unescapes.bytes
  rw [none] at bytes
  cases bytes

theorem encode_escapes {points : List Nat} {back : Text} (bounded : ∀ c ∈ points, c < 0x110000)
    (start : ∀ u rest, back = u :: rest → isLow u.toNat = false) :
    encode (points.flatMap escapePoint ++ back) =
      points.flatMap (fun c => encode (escapePoint c)) ++ encode back ∧
      ∀ u rest, points.flatMap escapePoint ++ back = u :: rest → isLow u.toNat = false := by
  induction points with
  | nil => exact ⟨rfl, start⟩
  | cons c points ih =>
    have below := bounded c List.mem_cons_self
    obtain ⟨encoded, starts⟩ := ih fun d member => bounded d (List.mem_cons_of_mem _ member)
    constructor
    · rw [List.flatMap_cons, List.append_assoc, encode_append starts, encoded, List.flatMap_cons,
        List.append_assoc]
    · intro u rest shape
      obtain ⟨first, others, escape⟩ := List.exists_cons_of_ne_nil (escapePoint_ne_nil below)
      rw [List.flatMap_cons, escape] at shape
      cases shape
      exact escapePoint_start below escape

-- The bytes of a quoted text and of what stands behind it.
theorem encode_quote {value back : Text} (ascii : ∀ u ∈ back, u.toNat < 0x80) :
    encode (quote value ++ back) =
      0x22 :: ((codePoints value).flatMap (fun c => encode (escapePoint c)) ++ 0x22 ::
        back.map UInt16.toUInt8) := by
  have behind : ∀ u ∈ unit '"' :: back, u.toNat < 0x80 := by
    intro u member
    rcases List.mem_cons.mp member with rfl | later
    · decide
    · exact ascii u later
  have start : ∀ u rest, unit '"' :: back = u :: rest → isLow u.toNat = false := by
    intro u rest shape
    cases shape
    decide
  obtain ⟨encoded, starts⟩ := encode_escapes (codePoints_lt value) start
  have shape : quote value ++ back = [unit '"'] ++
      ((codePoints value).flatMap escapePoint ++ unit '"' :: back) := by
    simp [quote]
  rw [shape, encode_append starts, encoded, encode_ascii behind]
  rfl

section
variable {memory : Memory}

theorem length_escapes {points : List Nat} (bounded : ∀ c ∈ points, c < 0x110000) :
    points.length ≤ (points.flatMap fun c => encode (escapePoint c)).length := by
  induction points with
  | nil => exact Nat.le_refl _
  | cons c rest ih =>
    obtain ⟨first, others, unescapes⟩ := escapePoint_unescapes (bounded c List.mem_cons_self)
    have others := ih fun d member => bounded d (List.mem_cons_of_mem _ member)
    rw [List.flatMap_cons, List.length_append, unescapes.bytes, List.length_cons, List.length_cons]
    omega

-- The loop reads the escapes of code points and the quote behind them.
theorem jsonParseLoop_makes {points : List Nat} {left : Nat} {s : StringBuffer} {rest : Bytes}
    (bounded : ∀ c ∈ points, c < 0x110000) (sound : s.Sound) (turns : points.length < left)
    (short : s.str.len + (units points).length ≤ lenMax) (behind : rest ≠ []) :
    Makes memory (jsonParseLoop memory 0x22 left s
      (points.flatMap (fun c => encode (escapePoint c)) ++ 0x22 :: rest))
      fun made => Put s (units points) made.1 ∧ made.2 = rest := by
  induction points generalizing left s with
  | nil =>
    obtain ⟨left, rfl⟩ := Nat.exists_eq_add_of_lt turns
    obtain ⟨byte, others, rfl⟩ := List.exists_cons_of_ne_nil behind
    rw [List.flatMap_nil, List.nil_append, jsonParseLoop, if_pos rfl]
    · exact Makes.pure ⟨⟨sound, (List.append_nil _).symm, id⟩, rfl⟩
    · exact fun same => List.cons_ne_nil _ _ same
  | cons c points ih =>
    obtain ⟨left, rfl⟩ := Nat.exists_eq_add_of_lt turns
    have below := bounded c List.mem_cons_self
    obtain ⟨first, others, unescapes⟩ := escapePoint_unescapes below
    rw [units, List.flatMap_cons, List.length_append] at short
    rw [List.flatMap_cons, unescapes.bytes, List.append_assoc, List.cons_append, jsonParseLoop,
      if_neg unescapes.sep, unescapes.back, units, List.flatMap_cons]
    · refine Makes.bind (stringBufferPutc_makes sound below (by omega)) fun middle put => ?_
      have len : middle.str.len = s.str.len + (fromCodePoint c).length := by
        rw [middle.len_eq, put.text, s.len_eq, List.length_append]
        simp
      have fewer : points.length < points.length + 1 + left := by omega
      refine (ih (fun d member => bounded d (List.mem_cons_of_mem _ member)) put.sound
        fewer ?_).weaken
        fun made ends => ⟨put.trans ends.1, ends.2⟩
      change middle.str.len + ((points.flatMap fromCodePoint).length : Int) ≤ lenMax
      omega
    · intro none
      have some := congrArg List.length none
      simp at some

theorem jsonParseString_makes {value : Text} {rest : Bytes} (short : (value.length : Int) ≤ lenMax)
    (behind : rest ≠ []) :
    Makes memory (jsonParseString memory 0x22
      ((codePoints value).flatMap (fun c => encode (escapePoint c)) ++ 0x22 :: rest)) fun made =>
        (made.1.text = value ∧ made.1.isWideChar = isWide value) ∧ made.2 = rest := by
  have all : units (codePoints value) = value := flatMap_fromCodePoint value
  have sound : (StringBuffer.mk (.str8 []) 32).Sound := ⟨by decide, by decide, fun _ => by decide⟩
  have fits : (StringBuffer.mk (.str8 []) 32).str.len +
      (units (codePoints value)).length ≤ lenMax := by
    rw [all]
    show (0 : Int) + value.length ≤ lenMax
    omega
  have each := length_escapes (codePoints_lt value)
  unfold jsonParseString stringBufferInit stringBufferInit2
  rw [bind_assoc]
  refine Makes.bind (jsAllocString_narrow (by decide) (by decide)) fun _ _ => ?_
  rw [pure_bind]
  simp only [Bool.false_eq_true, if_false]
  refine Makes.bind (jsonParseLoop_makes (codePoints_lt value) sound ?_ fits behind) ?_
  · rw [List.length_append, List.length_cons]
    omega
  rintro ⟨b, p⟩ ⟨put, remains⟩
  have text : b.text = value := put.text.trans all
  have tight : b.Tight := put.tight rfl
  refine Makes.bind (stringBufferEnd_makes b) fun str ends =>
    Makes.pure ⟨⟨ends.1.trans text, ?_⟩, remains⟩
  rw [ends.2.2 tight, ends.1, text]

-- A quoted text is read back, whatever surrogates stand alone in it.
theorem jsParseJson_makes {value : Text} (short : (value.length : Int) ≤ lenMax) :
    Makes memory (jsParseJson memory (encode (quote value ++ [0]))) fun str =>
      str.text = value ∧ str.isWideChar = isWide value := by
  have terminator : ∀ u ∈ [(0 : UInt16)], u.toNat < 0x80 := by
    intro u member
    rw [List.mem_singleton.mp member]
    decide
  have source := @encode_quote value [0] terminator
  unfold jsParseJson
  rw [source, jsonNextToken, if_neg (by simp), if_pos rfl, bind_assoc]
  refine Makes.bind (jsonParseString_makes short (by decide)) ?_
  rintro ⟨str, p⟩ ⟨made, rest⟩
  change p = [0] at rest
  subst rest
  exact Makes.pure made

end

end QuickJSBun.Engine.Strings
