import QuickJSBun.Engine.Strings

/-! Strings and ropes of the engine as C strings: `js_linearize_string_rope` makes one
string of a rope and keeps it there, `JS_ToCStringLen2` encodes it.
-/

set_option autoImplicit false

namespace QuickJSBun.Engine.Strings

open Library

/-! ### Ropes -/

/-- A value with the tag `JS_TAG_STRING` or `JS_TAG_STRING_ROPE`; nothing here depends on the depth
of a rope. -/
inductive StringValue where
  | string (p : JSString)
  | rope (len : Int) (isWideChar : Bool) (left right : StringValue)
  deriving DecidableEq, Repr

namespace StringValue

def len : StringValue → Int
  | string p => p.len
  | rope len _ _ _ => len

def isWideChar : StringValue → Bool
  | string p => p.isWideChar
  | rope _ isWideChar _ _ => isWideChar

def text : StringValue → Text
  | string p => p.text
  | rope _ _ left right => left.text ++ right.text

def isString : StringValue → Bool
  | string _ => true
  | rope .. => false

/-- `JS_VALUE_GET_TAG(v) == JS_TAG_STRING && JS_VALUE_GET_STRING(v)->len == 0` -/
def isEmptyString : StringValue → Bool
  | string p => p.len == 0
  | rope .. => false

/-- Lengths and widths add up, no rope is empty, and only one that has been made one string ends
with an empty string, that of the atom `empty_string`. -/
def Valid : StringValue → Prop
  | string p => p.len ≤ lenMax
  | rope len isWideChar left right =>
    left.Valid ∧ right.Valid ∧ len = left.len + right.len ∧ 0 < len ∧ len ≤ lenMax ∧
      isWideChar = (left.isWideChar || right.isWideChar) ∧
        (right.isEmptyString = true → left.isString = true ∧ right.isWideChar = false)

theorem len_eq {v : StringValue} (valid : v.Valid) : v.len = v.text.length := by
  induction v with
  | string p => exact p.len_eq
  | rope len isWideChar left right ihLeft ihRight =>
    obtain ⟨validLeft, validRight, sum, -⟩ := valid
    have first := ihLeft validLeft
    have second := ihRight validRight
    show len = ((left.text ++ right.text).length : Int)
    rw [List.length_append, sum, first, second]
    omega

theorem len_le {v : StringValue} (valid : v.Valid) : v.len ≤ lenMax := by
  cases v with
  | string p => exact valid
  | rope len isWideChar left right => exact valid.2.2.2.2.1

end StringValue

section
variable (memory : Memory)

def stringBufferConcat (s : StringBuffer) (p : JSString) : Making StringBuffer :=
  if p.len = 0 then pure s
  else match p with
    | .str16 units => stringBufferWrite16 memory s units
    | .str8 units => stringBufferWrite8 memory s units

def stringBufferConcatValue (s : StringBuffer) : StringValue → Making StringBuffer
  | .string p => stringBufferConcat memory s p
  | .rope _ _ left right => do
    let s ← stringBufferConcatValue s left
    stringBufferConcatValue s right

def jsLinearizeStringRope (len : Int) (isWideChar : Bool) (left right : StringValue) :
    Making (JSString × StringValue) :=
  if right.isEmptyString then
    match left with
    | .string p => pure (p, .rope len isWideChar left right)
    | .rope .. => Effect.throw .undefined
  else do
    let b ← stringBufferInit2 memory len isWideChar
    let b ← stringBufferConcatValue memory b (.rope len isWideChar left right)
    let ret ← stringBufferEnd b
    pure (ret, .rope len isWideChar (.string ret) (.string (.str8 [])))

def jsToString : StringValue → Making (JSString × StringValue)
  | .string p => pure (p, .string p)
  | .rope len isWideChar left right => jsLinearizeStringRope memory len isWideChar left right

end

/-! ### Encoding -/

def unicodeToUtf8 (c : Nat) : Bytes :=
  let tail (k : Nat) : UInt8 := .ofNat (0x80 + c / k % 64)
  if c < 0x80 then [.ofNat c]
  else if c < 0x800 then [.ofNat (0xC0 + c / 0x40), tail 1]
  else if c < 0x10000 then [.ofNat (0xE0 + c / 0x1000), tail 0x40, tail 1]
  else if c < 0x200000 then [.ofNat (0xF0 + c / 0x40000), tail 0x1000, tail 0x40, tail 1]
  else if c < 0x4000000 then
    [.ofNat (0xF8 + c / 0x1000000), tail 0x40000, tail 0x1000, tail 0x40, tail 1]
  else if c < 0x80000000 then
    [.ofNat (0xFC + c / 0x40000000), tail 0x1000000, tail 0x40000, tail 0x1000, tail 0x40, tail 1]
  else []

def fromSurrogate (hi lo : Nat) : Nat := 0x10000 + 0x400 * (hi - 0xD800) + (lo - 0xDC00)

def encode8 (src : Bytes) : Bytes := src.flatMap fun c =>
  if c.toNat < 0x80 then [c] else [.ofNat (c.toNat / 64 + 0xC0), .ofNat (c.toNat % 64 + 0x80)]

def encode16 : Text → Bytes
  | [] => []
  | [c] => if c.toNat < 0x80 then [.ofNat c.toNat] else unicodeToUtf8 c.toNat
  | c :: c1 :: rest =>
    if c.toNat < 0x80 then .ofNat c.toNat :: encode16 (c1 :: rest)
    else if isHigh c.toNat && isLow c1.toNat then
      unicodeToUtf8 (fromSurrogate c.toNat c1.toNat) ++ encode16 rest
    else unicodeToUtf8 c.toNat ++ encode16 (c1 :: rest)

/-- What a C string points at, and the length told. -/
structure CString where
  bytes : Bytes
  len : Nat
  deriving DecidableEq, Repr

/-- The field `len` of the new string has 31 bits. -/
def CString.made (q : Bytes) : CString := ⟨q, q.length % 2 ^ 31⟩

/-- `JS_ToCStringLen2` without `cesu8`: the C string, and the value that may have been updated. -/
def jsToCStringLen2 (memory : Memory) (val1 : StringValue) : Making (CString × StringValue) := do
  let (str, val1) ← jsToString memory val1
  match str with
  | .str8 src =>
    let count := src.foldl (fun count c => count + c.toNat / 128) (0 : Nat)
    if count = 0 then pure (⟨src, src.length⟩, val1)
    else do
      jsAllocString memory (toInt (src.length + count : Nat)) false
      pure (.made (encode8 src), val1)
  | .str16 src => do
    jsAllocString memory (toInt (src.length * 3 : Nat)) false
    pure (.made (encode16 src), val1)

/-! ### What they are made of -/

section
variable {memory : Memory}

/-- What appending makes of a buffer with room whose units are wide enough. -/
structure Appended (s : StringBuffer) (units : Text) (appended : StringBuffer) : Prop where
  text : appended.text = s.text ++ units
  wide : appended.str.isWideChar = s.str.isWideChar
  size : appended.size = s.size

theorem stringBufferWrite8_appends {s : StringBuffer} {p : Bytes}
    (room : s.str.len + p.length ≤ s.size) :
    Makes memory (stringBufferWrite8 memory s p) (Appended s (p.map UInt8.toUInt16)) := by
  obtain ⟨str, size⟩ := s
  unfold stringBufferWrite8
  rw [if_neg (by omega), pure_bind]
  cases str with
  | str8 units => exact Makes.pure ⟨by simp [StringBuffer.text, JSString.text], rfl, rfl⟩
  | str16 units => exact Makes.pure ⟨rfl, rfl, rfl⟩

theorem stringBufferWrite16_appends {s : StringBuffer} {p : Text}
    (room : s.str.len + p.length ≤ s.size) (wide : s.str.isWideChar = true) :
    Makes memory (stringBufferWrite16 memory s p) (Appended s p) := by
  obtain ⟨str, size⟩ := s
  cases str with
  | str8 units => cases wide
  | str16 units =>
    unfold stringBufferWrite16
    have fits : ¬size < (JSString.str16 units).len + p.length := Int.not_lt.mpr room
    dsimp only
    rw [if_neg fits, if_neg (by simp [JSString.isWideChar]), pure_bind]
    exact Makes.pure ⟨rfl, rfl, rfl⟩

theorem stringBufferConcat_appends {s : StringBuffer} {p : JSString}
    (room : s.str.len + p.len ≤ s.size) (fits : p.isWideChar = true → s.str.isWideChar = true) :
    Makes memory (stringBufferConcat memory s p) (Appended s p.text) := by
  unfold stringBufferConcat
  by_cases empty : p.len = 0
  · have none : p.text = [] := List.eq_nil_of_length_eq_zero (by have := p.len_eq; omega)
    rw [if_pos empty, none]
    exact Makes.pure ⟨(List.append_nil _).symm, rfl, rfl⟩
  · rw [if_neg empty]
    cases p with
    | str8 units => exact stringBufferWrite8_appends room
    | str16 units => exact stringBufferWrite16_appends room (fits rfl)

theorem stringBufferConcatValue_appends {v : StringValue} {s : StringBuffer} (valid : v.Valid)
    (room : s.str.len + v.len ≤ s.size) (fits : v.isWideChar = true → s.str.isWideChar = true) :
    Makes memory (stringBufferConcatValue memory s v) (Appended s v.text) := by
  induction v generalizing s with
  | string p => exact stringBufferConcat_appends room fits
  | rope len isWideChar left right ihLeft ihRight =>
    obtain ⟨validLeft, validRight, sum, -, -, wide, -⟩ := valid
    have lenLeft := StringValue.len_eq validLeft
    have lenRight := StringValue.len_eq validRight
    change s.str.len + len ≤ s.size at room
    change isWideChar = true → _ at fits
    have first : left.isWideChar = true → s.str.isWideChar = true :=
      fun narrow => fits (by rw [wide, narrow, Bool.true_or])
    have second : right.isWideChar = true → s.str.isWideChar = true :=
      fun narrow => fits (by rw [wide, narrow, Bool.or_true])
    refine Makes.bind (ihLeft validLeft (by omega) first) fun middle front => ?_
    have len : middle.str.len = s.str.len + left.len := by
      rw [middle.len_eq, front.text, s.len_eq, lenLeft, List.length_append]
      simp
    have space := front.size
    refine (ihRight validRight (by omega) ?_).weaken fun appended back => ⟨?_, ?_, ?_⟩
    · rw [front.wide]
      exact second
    · rw [back.text, front.text, List.append_assoc]
      rfl
    · rw [back.wide, front.wide]
    · rw [back.size, front.size]

/-- A value reads the same after it has been made one string. -/
structure Linearized (v : StringValue) (made : JSString × StringValue) : Prop where
  text : made.1.text = v.text
  wide : v.text ≠ [] → made.1.isWideChar = v.isWideChar
  valid : made.2.Valid
  same : made.2.text = v.text
  sameWide : made.2.isWideChar = v.isWideChar

theorem jsLinearizeStringRope_makes {len : Int} {isWideChar : Bool} {left right : StringValue}
    (valid : (StringValue.rope len isWideChar left right).Valid) :
    Makes memory (jsLinearizeStringRope memory len isWideChar left right)
      (Linearized (.rope len isWideChar left right)) := by
  obtain ⟨validLeft, validRight, sum, positive, short, wide, flat⟩ := id valid
  unfold jsLinearizeStringRope
  by_cases done : right.isEmptyString = true
  · rw [if_pos done]
    obtain ⟨isString, narrow⟩ := flat done
    cases right with
    | rope => cases done
    | string empty =>
      have noLen : empty.len = 0 := by simpa [StringValue.isEmptyString] using done
      have none : empty.text = [] := List.eq_nil_of_length_eq_zero (by have := empty.len_eq; omega)
      cases left with
      | rope => cases isString
      | string p =>
        refine Makes.pure ⟨?_, fun _ => ?_, valid, rfl, rfl⟩
        · simp [StringValue.text, none]
        · show p.isWideChar = isWideChar
          rw [wide, narrow, Bool.or_false]
          rfl
  · rw [if_neg done]
    unfold stringBufferInit2
    rw [bind_assoc]
    refine Makes.bind (jsAllocString_makes (by omega) ?_) fun _ _ => ?_
    · simp only [lenMax] at short
      split <;> omega
    rw [pure_bind]
    obtain ⟨start, starts⟩ : ∃ start : StringBuffer,
      start = ⟨if isWideChar = true then .str16 [] else .str8 [], len⟩ := ⟨_, rfl⟩
    have noText : start.text = [] := by
      rw [starts]
      cases isWideChar <;> rfl
    have startWide : start.str.isWideChar = isWideChar := by
      rw [starts]
      cases isWideChar <;> rfl
    have noLen : start.str.len = 0 := by rw [start.len_eq, noText]; rfl
    have size : start.size = len := by rw [starts]
    rw [← starts]
    refine Makes.bind (stringBufferConcatValue_appends valid ?_ ?_) fun b appends => ?_
    · show start.str.len + len ≤ start.size
      omega
    · rw [startWide]
      exact id
    have text : b.text = StringValue.text (.rope len isWideChar left right) := by
      rw [appends.text, noText, List.nil_append]
    refine Makes.bind (stringBufferEnd_makes b) fun ret ends => Makes.pure ?_
    have retText : ret.text = StringValue.text (.rope len isWideChar left right) :=
      ends.1.trans text
    have retLen : ret.len = len := by
      rw [ret.len_eq, retText, ← StringValue.len_eq valid]
      rfl
    have some : b.text ≠ [] := by
      intro none
      rw [ret.len_eq, ends.1, none] at retLen
      simp only [List.length_nil] at retLen
      omega
    have retWide : ret.isWideChar = isWideChar := by rw [ends.2.1 some, appends.wide, startWide]
    refine ⟨retText, fun _ =>
      retWide, ⟨?_, ?_, ?_, positive, short, ?_, fun _ => ⟨rfl, rfl⟩⟩, ?_, rfl⟩
    · show ret.len ≤ lenMax
      omega
    · show (0 : Int) ≤ lenMax
      decide
    · show len = ret.len + 0
      omega
    · show isWideChar = (ret.isWideChar || false)
      rw [retWide, Bool.or_false]
    · show ret.text ++ [] = _
      rw [List.append_nil, retText]

theorem jsToString_makes {v : StringValue} (valid : v.Valid) :
    Makes memory (jsToString memory v) (Linearized v) := by
  cases v with
  | string p => exact Makes.pure ⟨rfl, fun _ => rfl, valid, rfl, rfl⟩
  | rope => exact jsLinearizeStringRope_makes valid

/-! ### What they encode -/

theorem unicodeToUtf8_eq {c : Nat} (below : c < 0x110000) : unicodeToUtf8 c = encodePoint c := by
  unfold unicodeToUtf8 encodePoint
  simp only [if_pos (show c < 0x200000 by omega), Nat.div_one]

theorem encode8_eq (src : Bytes) : encode8 src = encodeAll (src.map UInt8.toUInt16) := by
  have plain : ∀ u ∈ src.map UInt8.toUInt16, isHigh u.toNat = false := by
    intro u member
    obtain ⟨byte, -, rfl⟩ := List.mem_map.mp member
    have := byte.toNat_lt
    simp only [isHigh, UInt8.toNat_toUInt16, Bool.and_eq_false_iff, decide_eq_false_iff_not]
    omega
  rw [encodeAll, codePoints_plain plain, List.map_map, List.flatMap_map, encode8]
  refine List.flatMap_congr fun byte _ => ?_
  have bounded := byte.toNat_lt
  simp only [Function.comp_apply, UInt8.toNat_toUInt16, encodePoint]
  split_ifs
  · rw [UInt8.ofNat_toNat]
  · rw [Nat.add_comm (byte.toNat / 64), Nat.add_comm (byte.toNat % 64)]
  · omega
  · omega

theorem unicodeToUtf8_ascii {c : Nat} (ascii : c < 0x80) : unicodeToUtf8 c = [.ofNat c] :=
  if_pos ascii

theorem encode16_eq (src : Text) : encode16 src = encodeAll src := by
  induction src using codePoints.induct with
  | case1 => rfl
  | case2 c =>
    have below := c.toNat_lt
    rw [encode16, encodeAll, codePoints, List.flatMap_singleton, ← unicodeToUtf8_eq (by omega)]
    split_ifs with ascii
    · exact (unicodeToUtf8_ascii ascii).symm
    · rfl
  | case3 c c1 rest pair ih =>
    have halves := pair
    simp only [isHigh, isLow, Bool.and_eq_true, decide_eq_true_eq] at halves
    have above : ¬c.toNat < 0x80 := by omega
    have below : fromSurrogate c.toNat c1.toNat < 0x110000 := by
      unfold fromSurrogate
      omega
    have same : 0x10000 + (c.toNat - 0xD800) * 0x400 + (c1.toNat - 0xDC00) =
        fromSurrogate c.toNat c1.toNat := by
      unfold fromSurrogate
      omega
    rw [encode16, if_neg above, if_pos pair, unicodeToUtf8_eq below, ih, encodeAll, encodeAll,
      codePoints, if_pos pair, List.flatMap_cons, same]
  | case4 c c1 rest alone ih =>
    have step : encode16 (c :: c1 :: rest) = encodePoint c.toNat ++ encode16 (c1 :: rest) := by
      have := c.toNat_lt
      rw [encode16, if_neg alone]
      by_cases ascii : c.toNat < 0x80
      · rw [if_pos ascii, encodePoint_ascii ascii]
        rfl
      · rw [if_neg ascii, unicodeToUtf8_eq (by omega)]
    rw [step, ih, encodeAll, encodeAll, codePoints, if_neg alone, List.flatMap_cons]

theorem length_encode8 (src : Bytes) (count : Nat) :
    src.foldl (fun count c => count + c.toNat / 128) count + src.length = count +
      (encode8 src).length := by
  induction src generalizing count with
  | nil => rfl
  | cons byte rest ih =>
    have bounded := byte.toNat_lt
    have later := ih (count + byte.toNat / 128)
    rw [List.foldl_cons, List.length_cons, encode8, List.flatMap_cons, List.length_append]
    change _ = count + (_ + (encode8 rest).length)
    split_ifs <;> simp only [List.length_cons, List.length_nil] <;> omega

theorem encode8_ascii {src : Bytes} (same : (encode8 src).length = src.length) :
    encode8 src = src := by
  have longer : ∀ src : Bytes, src.length ≤ (encode8 src).length := fun src => by
    have := length_encode8 src 0
    omega
  induction src with
  | nil => rfl
  | cons byte rest ih =>
    have others := longer rest
    rw [encode8, List.flatMap_cons, List.length_append, List.length_cons] at same
    change _ + (encode8 rest).length = _ at same
    rw [encode8, List.flatMap_cons]
    change _ ++ encode8 rest = _
    split_ifs at same ⊢ with ascii
    · rw [ih (by simp at same; omega), List.singleton_append]
    · simp at same
      omega

theorem isWide_str8 (src : Bytes) : isWide (src.map UInt8.toUInt16) = false := by
  simp only [isWide, List.any_map, List.any_eq_false, Function.comp_apply, UInt8.toNat_toUInt16]
  intro byte _
  have := byte.toNat_lt
  simp only [decide_eq_true_eq]
  omega

theorem StringValue.narrow_text {v : StringValue} (valid : v.Valid)
    (narrow : v.isWideChar = false) : isWide v.text = false := by
  induction v with
  | string p =>
    cases p with
    | str8 src => exact isWide_str8 src
    | str16 src => cases narrow
  | rope len isWideChar left right ihLeft ihRight =>
    obtain ⟨validLeft, validRight, -, -, -, wide, -⟩ := valid
    have both : (left.isWideChar || right.isWideChar) = false := wide.symm.trans narrow
    rw [Bool.or_eq_false_iff] at both
    show isWide (left.text ++ right.text) = false
    rw [isWide_append, ihLeft validLeft both.1, ihRight validRight both.2]
    rfl

-- The bytes of a string that can be encoded.
theorem StringValue.length_encoded {v : StringValue} (valid : v.Valid)
    (fits : v.isWideChar = true → 3 * v.text.length < 0x80000000) :
    (encodeAll v.text).length < 0x80000000 := by
  have short := len_le valid
  have len := len_eq valid
  simp only [lenMax] at short
  cases wide : v.isWideChar with
  | true =>
    have most := length_encodeAll_le v.text
    have := fits wide
    omega
  | false =>
    have most := length_encodeAll_narrow (narrow_text valid wide)
    omega

-- A C string that holds a text.
structure Encoded (v : StringValue) (made : CString × StringValue) : Prop where
  bytes : made.1.bytes = encodeAll v.text
  len : made.1.len = (encodeAll v.text).length
  valid : made.2.Valid
  same : made.2.text = v.text
  sameWide : made.2.isWideChar = v.isWideChar

-- Every string is encoded but wide ones whose units are too many to be tripled.
theorem jsToCStringLen2_makes {v : StringValue} (valid : v.Valid)
    (fits : v.isWideChar = true → 3 * v.text.length < 0x80000000) :
    Makes memory (jsToCStringLen2 memory v) (Encoded v) := by
  have short := StringValue.len_le valid
  have len := StringValue.len_eq valid
  simp only [lenMax] at short
  unfold jsToCStringLen2
  refine Makes.bind (jsToString_makes valid) ?_
  rintro ⟨str, v'⟩ ⟨text, wide, valid', same, sameWide⟩
  have most := length_encodeAll_le v.text
  change str.text = v.text at text
  cases str with
  | str8 src =>
    have bytes : encode8 src = encodeAll v.text := by
      rw [encode8_eq, ← text]
      rfl
    have length : src.length = v.text.length := by
      rw [← text]
      exact (List.length_map _).symm
    have counted := length_encode8 src 0
    have narrow : (encodeAll v.text).length ≤ 2 * v.text.length := by
      rw [← text]
      exact length_encodeAll_narrow (isWide_str8 src)
    dsimp only
    split
    · next none =>
        rw [none] at counted
        have plain := @encode8_ascii src (by omega)
        refine Makes.pure ⟨plain.symm.trans bytes, ?_, valid', same, sameWide⟩
        rw [← bytes, plain]
    · rw [bytes] at counted
      rw [toInt_small (by omega) (by omega)]
      refine Makes.bind (jsAllocString_narrow (by omega) (by omega)) fun _ _ =>
        Makes.pure ⟨bytes, ?_, valid', same, sameWide⟩
      · show (encode8 src).length % 2 ^ 31 = _
        rw [bytes]
        exact Nat.mod_eq_of_lt (by omega)
  | str16 src =>
    change src = v.text at text
    subst text
    have bytes := encode16_eq v.text
    have few : 3 * v.text.length < 0x80000000 := by
      by_cases none : v.text = []
      · rw [none]
        decide
      · exact fits (wide none).symm
    dsimp only
    rw [toInt_small (by omega) (by omega)]
    refine Makes.bind (jsAllocString_narrow (by omega) (by omega)) fun _ _ =>
      Makes.pure ⟨bytes, ?_, valid', same, sameWide⟩
    · show (encode16 v.text).length % 2 ^ 31 = _
      rw [bytes]
      exact Nat.mod_eq_of_lt (by omega)

theorem jsToCStringLen2_never {v : StringValue} (valid : v.Valid) (wide : v.isWideChar = true)
    (large : 0x80000000 ≤ 3 * v.text.length) : Never (jsToCStringLen2 memory v) := by
  have short := StringValue.len_le valid
  have len := StringValue.len_eq valid
  simp only [lenMax] at short
  unfold jsToCStringLen2
  refine Never.after (jsToString_makes valid) ?_
  rintro ⟨str, v'⟩ ⟨text, sameWide, -⟩
  have some : v.text ≠ [] := by
    intro none
    rw [none] at large
    exact absurd large (by decide)
  have isWide : str.isWideChar = true := (sameWide some).trans wide
  cases str with
  | str8 src => cases isWide
  | str16 src =>
    change src = v.text at text
    subst text
    dsimp only
    rw [toInt_large (by omega) (by omega)]
    exact Never.bind (jsAllocString_never (by omega) (by omega))

end

end QuickJSBun.Engine.Strings
