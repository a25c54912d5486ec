import QuickJSBun.Library.Effect
import QuickJSBun.Library.Utf8
import Mathlib.Data.Nat.Bitwise

/-! The strings of the engine, of units of one byte or of two, and the buffer that collects
the units of one: `js_alloc_string` and the `string_buffer_*` functions.

Lengths and sizes are `int`: they wrap where the source multiplies them, and a negative
one asks the allocator for nearly 2^64 bytes. A failure stays in `error_status` until
`string_buffer_end`, and what comes between does nothing; here it is thrown.
-/

set_option autoImplicit false

namespace QuickJSBun.Engine.Strings

open Library

/-! ### Integers and memory -/

/-- What an `int` holds of a result. -/
def toInt (n : Int) : Int := (n + 0x80000000) % 0x100000000 - 0x80000000

theorem toInt_small {n : Int} (low : -0x80000000 ≤ n) (high : n < 0x80000000) : toInt n = n := by
  unfold toInt
  omega

theorem toInt_large {n : Int} (low : 0x80000000 ≤ n) (high : n < 0x100000000) :
    toInt n = n - 0x100000000 := by
  unfold toInt
  omega

def toSize (n : Int) : Nat := (n % 0x10000000000000000).toNat

def lenMax : Int := 0x3FFFFFFF

/-- `sizeof(JSString)` -/
def headerBytes : Nat := 12

inductive StringFailure where
  | outOfMemory
  /-- `"string too long"` -/
  | tooLong
  | syntaxError (message : String)
  /-- A JSON text that is no string; how the others are parsed is left out. -/
  | otherValue
  /-- A block is used that is too small for it, or bytes outside of the source are read. -/
  | undefined
  deriving DecidableEq, Repr

/-- The allocator: how many bytes it gives to the call with a number that asks for some. -/
structure Memory where
  malloc : Nat → Nat → Option Nat
  usable : ∀ call bytes given, malloc call bytes = some given → bytes ≤ given ∧
    given ≤ bytes + 0x10000
  bounded : ∀ call bytes, 2 ^ 63 ≤ bytes → malloc call bytes = none

-- It has four gigabytes for whoever asks.
def Memory.Ample (memory : Memory) : Prop :=
  ∀ call bytes, bytes < 2 ^ 32 → memory.malloc call bytes ≠ none

-- The state is the number of calls of the allocator.
abbrev Making := Effect Nat StringFailure

/-- `js_malloc` and `js_realloc2`, which return the slack. What is not enough for the header is not
enough for what the callers write. -/
def jsMalloc (memory : Memory) (bytes : Nat) : Making Nat := ⟨fun calls =>
  if bytes < headerBytes then (.error .undefined, calls + 1)
  else match memory.malloc calls bytes with
    | some given => (.ok (given - bytes), calls + 1)
    | none => (.error .outOfMemory, calls + 1)⟩

/-! ### Strings -/

inductive JSString where
  | str8 (units : Bytes)
  | str16 (units : Text)
  deriving DecidableEq, Repr

namespace JSString

def len : JSString → Int
  | str8 units => units.length
  | str16 units => units.length

def isWideChar : JSString → Bool
  | str8 _ => false
  | str16 _ => true

def text : JSString → Text
  | str8 units => units.map UInt8.toUInt16
  | str16 units => units

/-- `s->str->u.str16[s->len++] = c`, or the same in `str8`. -/
def push (c : Nat) : JSString → JSString
  | str8 units => str8 (units ++ [.ofNat c])
  | str16 units => str16 (units ++ [.ofNat c])

theorem len_eq (s : JSString) : s.len = s.text.length := by
  cases s with
  | str8 units => simp [len, text]
  | str16 units => rfl

@[simp] theorem isWideChar_push (c : Nat) (s : JSString) :
    (s.push c).isWideChar = s.isWideChar := by
  cases s <;> rfl

theorem toUInt16_ofNat {c : Nat} (small : c < 0x100) :
    (UInt8.ofNat c).toUInt16 = UInt16.ofNat c := by
  apply UInt16.toNat_inj.mp
  rw [UInt8.toNat_toUInt16, UInt8.toNat_ofNat_of_lt' small, UInt16.toNat_ofNat_of_lt' (Nat.lt_trans small (by decide))]

theorem text_push {s : JSString} {c : Nat} (fits : s.isWideChar = true ∨ c < 0x100) :
    (s.push c).text = s.text ++ [.ofNat c] := by
  cases s with
  | str8 units =>
    have small : c < 0x100 := fits.resolve_left Bool.false_ne_true
    simp [push, text, toUInt16_ofNat small]
  | str16 units => rfl

end JSString

/-- `sizeof(JSString) + (size << is_wide_char) + 1 - is_wide_char` -/
def stringBytes (size : Int) (isWideChar : Bool) : Nat :=
  if isWideChar then toSize (headerBytes + toInt (size * 2)) else toSize (headerBytes + toInt size + 1)

/-! ### The buffer -/

structure StringBuffer where
  str : JSString
  size : Int

def StringBuffer.push (s : StringBuffer) (c : Nat) : StringBuffer := { s with str := s.str.push c }

section
variable (memory : Memory)

def jsAllocString (maxLen : Int) (isWideChar : Bool) : Making Unit := do
  let _ ← jsMalloc memory (stringBytes maxLen isWideChar)
  pure ()

def stringBufferInit2 (size : Int) (isWide : Bool) : Making StringBuffer := do
  jsAllocString memory size isWide
  pure ⟨if isWide then .str16 [] else .str8 [], size⟩

def stringBufferInit (size : Int) : Making StringBuffer := stringBufferInit2 memory size false

def stringBufferWiden (s : StringBuffer) (size : Int) : Making StringBuffer := do
  let slack ← jsMalloc memory (stringBytes size true)
  pure ⟨.str16 s.str.text, toInt (size + slack / 2)⟩

def stringBufferRealloc (s : StringBuffer) (newLen : Int) (c : Nat) : Making StringBuffer :=
  if lenMax < newLen then Effect.throw .tooLong
  else
    let newSize := min (max newLen ((toInt (s.size * 3)).tdiv 2)) lenMax
    if s.str.isWideChar = false ∧ 0x100 ≤ c then stringBufferWiden memory s newSize
    else do
      let slack ← jsMalloc memory (stringBytes newSize s.str.isWideChar)
      let units := if s.str.isWideChar then slack / 2 else slack
      pure ⟨s.str, min (toInt (newSize + units)) lenMax⟩

def stringBufferPutc16Slow (s : StringBuffer) (c : Nat) : Making StringBuffer := do
  let s ← if s.size ≤ s.str.len then stringBufferRealloc memory s (s.str.len + 1) c else pure s
  if s.str.isWideChar then pure (s.push c)
  else if c < 0x100 then pure (s.push c)
  else do
    let s ← stringBufferWiden memory s s.size
    pure (s.push c)

/-- `0 <= c <= 0xff` -/
def stringBufferPutc8 (s : StringBuffer) (c : Nat) : Making StringBuffer := do
  let s ← if s.size ≤ s.str.len then stringBufferRealloc memory s (s.str.len + 1) c else pure s
  pure (s.push c)

/-- `0 <= c <= 0xffff` -/
def stringBufferPutc16 (s : StringBuffer) (c : Nat) : Making StringBuffer :=
  if s.str.len < s.size then
    if s.str.isWideChar then pure (s.push c)
    else if c < 0x100 then pure (s.push c)
    else stringBufferPutc16Slow memory s c
  else stringBufferPutc16Slow memory s c

def getHiSurrogate (c : Nat) : Nat := c / 0x400 - 0x10000 / 0x400 + 0xD800

def getLoSurrogate (c : Nat) : Nat := c % 0x400 + 0xDC00

def stringBufferPutcSlow (s : StringBuffer) (c : Nat) : Making StringBuffer :=
  if 0x10000 ≤ c then do
    let s ← stringBufferPutc16 memory s (getHiSurrogate c)
    stringBufferPutc16 memory s (getLoSurrogate c)
  else stringBufferPutc16 memory s c

/-- `0 <= c <= 0x10ffff` -/
def stringBufferPutc (s : StringBuffer) (c : Nat) : Making StringBuffer :=
  if s.str.len < s.size then
    if s.str.isWideChar then
      if c < 0x10000 then pure (s.push c)
      else if s.str.len + 1 < s.size then pure ((s.push (getHiSurrogate c)).push (getLoSurrogate c))
      else stringBufferPutcSlow memory s c
    else if c < 0x100 then pure (s.push c)
    else stringBufferPutcSlow memory s c
  else stringBufferPutcSlow memory s c

def stringBufferWrite8 (s : StringBuffer) (p : Bytes) : Making StringBuffer := do
  let s ← if s.size < s.str.len + p.length then stringBufferRealloc memory s (s.str.len + p.length) 0 else pure s
  match s.str with
  | .str16 units => pure { s with str := .str16 (units ++ p.map UInt8.toUInt16) }
  | .str8 units => pure { s with str := .str8 (units ++ p) }

def stringBufferWrite16 (s : StringBuffer) (p : Text) : Making StringBuffer := do
  let c := p.foldl (fun c u => c ||| u.toNat) 0
  let s ←
    if s.size < s.str.len + p.length then stringBufferRealloc memory s (s.str.len + p.length) c
    else if s.str.isWideChar = false ∧ 0x100 ≤ c then stringBufferWiden memory s s.size
    else pure s
  match s.str with
  | .str16 units => pure { s with str := .str16 (units ++ p) }
  | .str8 units => pure { s with str := .str8 (units ++ p.map UInt16.toUInt8) }

-- Whether the block can be made smaller does not matter.
def stringBufferEnd (s : StringBuffer) : Making JSString :=
  if s.str.len = 0 then pure (.str8 [])
  else if s.str.len < s.size then do
    Effect.modify fun calls => calls + 1
    pure s.str
  else pure s.str

end

/-! ### What is made -/

section
variable {memory : Memory} {α β : Type}

/-- It ends as described, or for want of memory where that is not ample. -/
structure Makes (memory : Memory) (x : Making α) (post : α → Prop) : Prop where
  triple : Effect.Triple (fun _ => True) x (fun a _ => post a) fun e _ => e = .outOfMemory ∧
    ¬memory.Ample

-- It fails, whatever memory there is.
structure Never (x : Making α) : Prop where
  triple : Effect.Triple (fun _ => True) x (fun _ _ => False) fun _ _ => True

theorem Makes.pure {a : α} {post : α → Prop} (holds : post a) : Makes memory (pure a) post :=
  ⟨Effect.Triple.pure a fun _ _ => holds⟩

theorem Makes.bind {x : Making α} {f : α → Making β} {mid : α → Prop} {post : β → Prop}
    (first : Makes memory x mid) (next : ∀ a, mid a → Makes memory (f a) post) :
    Makes memory (x >>= f) post :=
  ⟨Effect.Triple.bind first.triple fun a s holds => (next a holds).triple s trivial⟩

theorem Makes.weaken {x : Making α} {mid post : α → Prop} (makes : Makes memory x mid)
    (implies : ∀ a, mid a → post a) : Makes memory x post :=
  ⟨makes.triple.weaken (fun _ _ => trivial) (fun a _ => implies a) fun _ _ fails => fails⟩

theorem Never.bind {x : Making α} {f : α → Making β} (never : Never x) : Never (x >>= f) :=
  ⟨Effect.Triple.bind never.triple fun _ _ impossible => impossible.elim⟩

theorem Never.after {x : Making α} {f : α → Making β} {mid : α → Prop} (first : Makes memory x mid)
    (never : ∀ a, mid a → Never (f a)) : Never (x >>= f) := by
  have any :=
    first.triple.weaken (fun _ start => start) (fun _ _ holds => holds) fun _ _ _ => trivial
  exact ⟨Effect.Triple.bind any fun a s holds => (never a holds).triple s trivial⟩

theorem jsMalloc_makes {bytes : Nat} (header : headerBytes ≤ bytes) (small : bytes < 2 ^ 32) :
    Makes memory (jsMalloc memory bytes) fun slack => slack ≤ 0x10000 := by
  constructor
  intro calls _
  simp only [jsMalloc, if_neg (Nat.not_lt.mpr header)]
  cases given : memory.malloc calls bytes with
  | none => exact ⟨rfl, fun ample => ample calls bytes small given⟩
  | some n =>
    have bounds := memory.usable calls bytes n given
    show n - bytes ≤ 0x10000
    omega

theorem jsMalloc_never {bytes : Nat} (odd : bytes < headerBytes ∨ 2 ^ 63 ≤ bytes) :
    Never (jsMalloc memory bytes) := by
  constructor
  intro calls _
  by_cases header : bytes < headerBytes
  · simp only [jsMalloc, if_pos header]
  · have large := memory.bounded calls bytes (odd.resolve_left header)
    simp only [jsMalloc, if_neg header, large]

theorem stringBytes_small {size : Int} {isWideChar : Bool} (nonnegative : 0 ≤ size)
    (small : size < if isWideChar then 0x40000000 else 0x80000000) :
    headerBytes ≤ stringBytes size isWideChar ∧ stringBytes size isWideChar < 2 ^ 32 := by
  cases isWideChar with
  | false =>
    simp only [Bool.false_eq_true, if_false] at small
    simp only [stringBytes, Bool.false_eq_true, if_false, toSize, toInt, headerBytes]
    omega
  | true =>
    simp only [if_true] at small
    simp only [stringBytes, if_true, toSize, toInt, headerBytes]
    omega

theorem jsAllocString_makes {size : Int} {isWideChar : Bool} (nonnegative : 0 ≤ size)
    (small : size < if isWideChar then 0x40000000 else 0x80000000) :
    Makes memory (jsAllocString memory size isWideChar) fun _ => True := by
  have bytes := stringBytes_small nonnegative small
  exact Makes.bind (jsMalloc_makes bytes.1 bytes.2) fun _ _ => Makes.pure trivial

theorem jsAllocString_narrow {size : Int} (nonnegative : 0 ≤ size) (small : size < 0x80000000) :
    Makes memory (jsAllocString memory size false) fun _ => True :=
  jsAllocString_makes nonnegative (by simpa using small)

-- What has wrapped below zero asks for far too much, or for less than the header.
theorem jsAllocString_never {size : Int} (low : -0x80000000 ≤ size) (high : size ≤ -2) :
    Never (jsAllocString memory size false) := by
  refine Never.bind (jsMalloc_never ?_)
  simp only [stringBytes, Bool.false_eq_true, if_false, toSize, toInt, headerBytes]
  omega

/-! ### One unit more -/

-- Some unit needs two bytes.
def isWide (text : Text) : Bool := text.any fun u => decide (0x100 ≤ u.toNat)

theorem isWide_append (front back : Text) :
    isWide (front ++ back) = (isWide front || isWide back) := List.any_append

theorem isWide_unit {c : Nat} (small : c < 0x10000) : isWide [.ofNat c] = decide (0x100 ≤ c) := by
  simp [isWide, UInt16.toNat_ofNat_of_lt' small]

namespace StringBuffer

def text (s : StringBuffer) : Text := s.str.text

/-- The size is no less than the length, and the bytes of a block of that size fit. -/
structure Sound (s : StringBuffer) : Prop where
  room : s.str.len ≤ s.size
  bounded : s.size ≤ 0x40010000
  narrow : s.str.isWideChar = false → s.size ≤ lenMax

-- Units of two bytes are used only where one needs them.
def Tight (s : StringBuffer) : Prop := s.str.isWideChar = isWide s.text

theorem len_eq (s : StringBuffer) : s.str.len = s.text.length := s.str.len_eq

theorem push_text {s : StringBuffer} {c : Nat} (fits : s.str.isWideChar = true ∨ c < 0x100) :
    (s.push c).text = s.text ++ [.ofNat c] := JSString.text_push fits

@[simp] theorem push_size (s : StringBuffer) (c : Nat) : (s.push c).size = s.size := rfl

@[simp] theorem push_isWideChar (s : StringBuffer) (c : Nat) :
    (s.push c).str.isWideChar = s.str.isWideChar :=
  JSString.isWideChar_push c s.str

theorem push_len {s : StringBuffer} {c : Nat} : (s.push c).str.len = s.str.len + 1 := by
  obtain ⟨str, size⟩ := s
  cases str <;> simp [push, JSString.push, JSString.len]

theorem push_sound {s : StringBuffer} {c : Nat} (sound : s.Sound) (room : s.str.len < s.size) :
    (s.push c).Sound where
  room := by
    rw [push_len, push_size]
    omega
  bounded := sound.bounded
  narrow := by
    rw [push_isWideChar]
    exact sound.narrow

end StringBuffer

theorem stringBufferWiden_makes {s : StringBuffer} {size : Int} (nonnegative : 0 ≤ size)
    (small : size ≤ lenMax) :
    Makes memory (stringBufferWiden memory s size) fun widened =>
      widened.str = .str16 s.text ∧ size ≤ widened.size ∧ widened.size ≤ 0x40010000 := by
  have bytes := @stringBytes_small size true nonnegative (by simp [lenMax] at small ⊢; omega)
  refine Makes.bind (jsMalloc_makes bytes.1 bytes.2) fun slack bounded => Makes.pure ⟨rfl, ?_, ?_⟩
  · simp only [toInt, lenMax] at small ⊢
    omega
  · simp only [toInt, lenMax] at small ⊢
    omega

-- Sizes from 2^30 on wrap when they are doubled.
theorem stringBufferWiden_never {s : StringBuffer} {size : Int} (low : 0x40000000 ≤ size)
    (high : size < 0x80000000) : Never (stringBufferWiden memory s size) := by
  refine Never.bind (jsMalloc_never ?_)
  simp only [stringBytes, if_true, toSize, toInt, headerBytes]
  omega

/-- What growing makes of a buffer: the same text, with units wide enough for one more. -/
structure Grown (s : StringBuffer) (newLen : Int) (c : Nat) (grown : StringBuffer) : Prop where
  sound : grown.Sound
  text : grown.text = s.text
  wide : grown.str.isWideChar = (s.str.isWideChar || decide (0x100 ≤ c))
  room : newLen ≤ grown.size

theorem stringBufferRealloc_makes {s : StringBuffer} {newLen : Int} {c : Nat}
    (longer : s.str.len ≤ newLen) (fits : newLen ≤ lenMax) :
    Makes memory (stringBufferRealloc memory s newLen c) (Grown s newLen c) := by
  have nonnegative : 0 ≤ newLen := by
    have := s.len_eq
    omega
  unfold stringBufferRealloc
  rw [if_neg (by omega)]
  generalize (toInt (s.size * 3)).tdiv 2 = grown
  obtain ⟨newSize, chosen⟩ : ∃ newSize, min (max newLen grown) lenMax = newSize := ⟨_, rfl⟩
  have low : newLen ≤ newSize := by omega
  have high : newSize ≤ lenMax := by omega
  simp only [chosen]
  by_cases widens : s.str.isWideChar = false ∧ 0x100 ≤ c
  · rw [if_pos widens]
    refine (stringBufferWiden_makes (by omega) high).weaken fun widened ends => ?_
    obtain ⟨str, larger, bounded⟩ := ends
    have len : widened.str.len = s.str.len := by rw [str, s.len_eq, JSString.len_eq]; rfl
    have wide : widened.str.isWideChar = true := by rw [str]; rfl
    refine ⟨⟨by omega, bounded, fun narrow => ?_⟩, ?_, ?_, by omega⟩
    · rw [wide] at narrow
      cases narrow
    · rw [StringBuffer.text, str]
      rfl
    · rw [wide, widens.1, decide_eq_true widens.2]
      rfl
  · rw [if_neg widens]
    have bytes := @stringBytes_small newSize s.str.isWideChar (by omega) (by
      cases s.str.isWideChar <;> simp [lenMax] at high ⊢ <;> omega)
    refine Makes.bind (jsMalloc_makes bytes.1 bytes.2) fun slack bounded => Makes.pure ?_
    obtain ⟨units, chosenUnits⟩ : ∃ units, (if s.str.isWideChar = true then slack / 2 else slack) =
        units := ⟨_, rfl⟩
    have few : units ≤ 0x10000 := by
      rw [← chosenUnits]
      split <;> omega
    have size : min (toInt (newSize + units)) lenMax ≤ lenMax ∧
        newLen ≤ min (toInt (newSize + units)) lenMax := by
      simp only [toInt, lenMax] at high fits ⊢
      omega
    simp only [chosenUnits]
    refine ⟨⟨?_, ?_, fun _ => size.1⟩, rfl, ?_, size.2⟩
    · exact Int.le_trans longer size.2
    · exact Int.le_trans size.1 (by decide)
    · cases wide : s.str.isWideChar with
      | true => rfl
      | false =>
        rw [Bool.false_or]
        exact (decide_eq_false fun above => widens ⟨wide, above⟩).symm

theorem stringBufferPutc16_room {s : StringBuffer} {c : Nat} (room : s.str.len < s.size)
    (fits : s.str.isWideChar = true ∨ c < 0x100) :
    stringBufferPutc16 memory s c = pure (s.push c) := by
  unfold stringBufferPutc16
  rw [if_pos room]
  split
  · rfl
  · next narrow => rw [if_pos (fits.resolve_left narrow)]

structure Put (s : StringBuffer) (units : Text) (put : StringBuffer) : Prop where
  sound : put.Sound
  text : put.text = s.text ++ units
  tight : s.Tight → put.Tight

theorem Put.trans {s middle put : StringBuffer} {front back : Text} (first : Put s front middle)
    (second : Put middle back put) : Put s (front ++ back) put where
  sound := second.sound
  text := by rw [second.text, first.text, List.append_assoc]
  tight := fun tight => second.tight (first.tight tight)

theorem Put.push {s wider : StringBuffer} {c : Nat} (unit : c < 0x10000) (sound : wider.Sound)
    (text : wider.text = s.text)
    (wide : wider.str.isWideChar = (s.str.isWideChar || decide (0x100 ≤ c)))
    (room : wider.str.len < wider.size) : Put s [.ofNat c] (wider.push c) := by
  have fits : wider.str.isWideChar = true ∨ c < 0x100 := by
    rw [wide]
    rcases Nat.lt_or_ge c 0x100 with below | above
    · exact .inr below
    · exact .inl (by simp [above])
  refine ⟨StringBuffer.push_sound sound room, ?_, fun tight => ?_⟩
  · rw [StringBuffer.push_text fits, text]
  · show (wider.push c).str.isWideChar = isWide (wider.push c).text
    rw [StringBuffer.push_isWideChar, wide, StringBuffer.push_text fits, text, isWide_append,
      isWide_unit unit, tight]

theorem stringBufferPutc16Slow_makes {s : StringBuffer} {c : Nat} (sound : s.Sound)
    (unit : c < 0x10000) (short : s.str.len < lenMax) :
    Makes memory (stringBufferPutc16Slow memory s c) (Put s [.ofNat c]) := by
  have nonnegative : 0 ≤ s.str.len := by
    have := s.len_eq
    omega
  -- A buffer with room: it may still have to be widened.
  have finish : ∀ s' : StringBuffer, s'.Sound → s'.text = s.text → s'.str.len < s'.size →
      (s'.str.isWideChar = s.str.isWideChar ∨
        s'.str.isWideChar = (s.str.isWideChar || decide (0x100 ≤ c))) →
      Makes memory (if s'.str.isWideChar then pure (s'.push c)
        else if c < 0x100 then pure (s'.push c)
        else do
          let s ← stringBufferWiden memory s' s'.size
          pure (s.push c)) (Put s [.ofNat c]) := by
    intro s' sound' text room wide
    by_cases isWide : s'.str.isWideChar = true
    · rw [if_pos isWide]
      refine Makes.pure (Put.push unit sound' text ?_ room)
      rcases wide with same | wider
      · rw [isWide, ← same, isWide]
        rfl
      · exact wider
    rw [if_neg isWide]
    have narrow : s'.str.isWideChar = false := Bool.eq_false_iff.mpr isWide
    by_cases small : c < 0x100
    · rw [if_pos small]
      refine Makes.pure (Put.push unit sound' text ?_ room)
      rcases wide with same | wider
      · rw [same, decide_eq_false (Nat.not_le.mpr small), Bool.or_false]
      · exact wider
    · rw [if_neg small]
      have within := sound'.narrow narrow
      have start := s'.len_eq
      refine Makes.bind (stringBufferWiden_makes (by omega) within) fun widened ends =>
        Makes.pure ?_
      obtain ⟨str, larger, bounded⟩ := ends
      have len : widened.str.len = s'.str.len := by rw [str, s'.len_eq, JSString.len_eq]; rfl
      have isWide : widened.str.isWideChar = true := by rw [str]; rfl
      refine Put.push unit ⟨by omega, bounded, fun narrow => ?_⟩ ?_ ?_ (by omega)
      · rw [isWide] at narrow
        cases narrow
      · rw [StringBuffer.text, str]
        exact text
      · rw [isWide, decide_eq_true (Nat.not_lt.mp small), Bool.or_true]
  unfold stringBufferPutc16Slow
  by_cases full : s.size ≤ s.str.len
  · rw [if_pos full]
    refine Makes.bind (stringBufferRealloc_makes (by omega) (by omega)) fun grown ends => ?_
    have same : grown.str.len = s.str.len := by rw [grown.len_eq, ends.text, s.len_eq]
    exact finish grown ends.sound ends.text (by have := ends.room; omega) (.inr ends.wide)
  · rw [if_neg full]
    exact finish s sound rfl (by omega) (.inl rfl)

theorem stringBufferPutc16_makes {s : StringBuffer} {c : Nat} (sound : s.Sound) (unit : c < 0x10000)
    (short : s.str.len < lenMax) :
    Makes memory (stringBufferPutc16 memory s c) (Put s [.ofNat c]) := by
  by_cases room : s.str.len < s.size ∧ (s.str.isWideChar = true ∨ c < 0x100)
  · rw [stringBufferPutc16_room room.1 room.2]
    refine Makes.pure (Put.push unit sound rfl ?_ room.1)
    rcases room.2 with wide | small
    · rw [wide, Bool.true_or]
    · rw [decide_eq_false (Nat.not_le.mpr small), Bool.or_false]
  · have slow : stringBufferPutc16 memory s c = stringBufferPutc16Slow memory s c := by
      unfold stringBufferPutc16
      split_ifs with free wide small
      · exact absurd ⟨free, .inl wide⟩ room
      · exact absurd ⟨free, .inr small⟩ room
      · rfl
      · rfl
    rw [slow]
    exact stringBufferPutc16Slow_makes sound unit short

-- A buffer of a size that can be doubled takes any unit for which it has room.
theorem stringBufferPutc16_filling {s : StringBuffer} {c : Nat} (room : s.str.len < s.size)
    (small : s.str.isWideChar = true ∨ c < 0x100 ∨ s.size ≤ lenMax) :
    Makes memory (stringBufferPutc16 memory s c) fun put =>
      put.text = s.text ++ [.ofNat c] ∧
      put.str.isWideChar = (s.str.isWideChar || decide (0x100 ≤ c)) ∧
        s.size ≤ put.size ∧ (put.str.isWideChar = true ∨ put.size = s.size) := by
  by_cases fits : s.str.isWideChar = true ∨ c < 0x100
  · rw [stringBufferPutc16_room room fits]
    refine Makes.pure ⟨StringBuffer.push_text fits, ?_, Int.le_refl _, .inr rfl⟩
    rw [StringBuffer.push_isWideChar]
    rcases fits with wide | below
    · rw [wide, Bool.true_or]
    · rw [decide_eq_false (Nat.not_le.mpr below), Bool.or_false]
  · have narrow : s.str.isWideChar = false := Bool.eq_false_iff.mpr fun wide => fits (.inl wide)
    have above : ¬c < 0x100 := fun below => fits (.inr below)
    have within : s.size ≤ lenMax :=
      (small.resolve_left fun wide => fits (.inl wide)).resolve_left above
    have start := s.len_eq
    unfold stringBufferPutc16 stringBufferPutc16Slow
    rw [if_pos room, if_neg (by simp [narrow]), if_neg above, if_neg (by omega)]
    show Makes memory (if s.str.isWideChar = true then _ else _) _
    rw [if_neg (by simp [narrow]), if_neg above]
    refine Makes.bind (stringBufferWiden_makes (by omega) within) fun widened ends => Makes.pure ?_
    obtain ⟨str, larger, -⟩ := ends
    have wide : widened.str.isWideChar = true := by rw [str]; rfl
    have text : widened.text = s.text := by
      rw [StringBuffer.text, str]
      rfl
    refine ⟨?_, ?_, larger, .inl ?_⟩
    · rw [StringBuffer.push_text (.inl wide), text]
    · rw [StringBuffer.push_isWideChar, wide, decide_eq_true (Nat.not_lt.mp above), Bool.or_true]
    · rw [StringBuffer.push_isWideChar, wide]

-- One of a size that cannot be doubled takes no unit of two bytes.
theorem stringBufferPutc16_never {s : StringBuffer} {c : Nat} (room : s.str.len < s.size)
    (narrow : s.str.isWideChar = false) (above : 0x100 ≤ c) (low : 0x40000000 ≤ s.size)
    (high : s.size < 0x80000000) : Never (stringBufferPutc16 memory s c) := by
  unfold stringBufferPutc16 stringBufferPutc16Slow
  rw [if_pos room, if_neg (by simp [narrow]), if_neg (Nat.not_lt.mpr above), if_neg (by omega)]
  show Never (if s.str.isWideChar = true then _ else _)
  rw [if_neg (by simp [narrow]), if_neg (Nat.not_lt.mpr above)]
  exact Never.bind (stringBufferWiden_never low high)

theorem fromCodePoint_pair {c : Nat} (above : 0x10000 ≤ c) :
    fromCodePoint c = [.ofNat (getHiSurrogate c)] ++ [.ofNat (getLoSurrogate c)] := by
  have high : getHiSurrogate c = 0xD800 + (c - 0x10000) / 0x400 := by
    unfold getHiSurrogate
    omega
  have low : getLoSurrogate c = 0xDC00 + (c - 0x10000) % 0x400 := by
    unfold getLoSurrogate
    omega
  rw [fromCodePoint, if_neg (Nat.not_lt.mpr above), high, low]
  rfl

theorem surrogates_units {c : Nat} (below : c < 0x110000) :
    getHiSurrogate c < 0x10000 ∧ getLoSurrogate c < 0x10000 := by
  unfold getHiSurrogate getLoSurrogate
  omega

theorem stringBufferPutcSlow_makes {s : StringBuffer} {c : Nat} (sound : s.Sound)
    (below : c < 0x110000) (short : s.str.len + (fromCodePoint c).length ≤ lenMax) :
    Makes memory (stringBufferPutcSlow memory s c) (Put s (fromCodePoint c)) := by
  unfold stringBufferPutcSlow
  by_cases pair : 0x10000 ≤ c
  · rw [fromCodePoint_pair pair] at short ⊢
    simp only [List.cons_append, List.nil_append, List.length_cons, List.length_nil] at short
    have units := surrogates_units below
    rw [if_pos pair]
    refine Makes.bind (stringBufferPutc16_makes sound units.1 (by omega)) fun first put => ?_
    have len : first.str.len = s.str.len + 1 := by
      rw [first.len_eq, put.text, s.len_eq]
      simp
    exact (stringBufferPutc16_makes put.sound units.2 (by omega)).weaken fun second putSecond =>
      put.trans putSecond
  · rw [if_neg pair]
    have single : fromCodePoint c = [.ofNat c] := if_pos (Nat.not_le.mp pair)
    rw [single] at short ⊢
    simp only [List.length_cons, List.length_nil] at short
    exact stringBufferPutc16_makes sound (Nat.not_le.mp pair) (by omega)

theorem stringBufferPutc_makes {s : StringBuffer} {c : Nat} (sound : s.Sound) (below : c < 0x110000)
    (short : s.str.len + (fromCodePoint c).length ≤ lenMax) :
    Makes memory (stringBufferPutc memory s c) (Put s (fromCodePoint c)) := by
  unfold stringBufferPutc
  split_ifs with free wide single pair small
  · have unit : fromCodePoint c = [.ofNat c] := if_pos single
    rw [unit]
    exact Makes.pure (Put.push single sound rfl (by rw [wide, Bool.true_or]) free)
  · have units := surrogates_units below
    rw [fromCodePoint_pair (Nat.not_lt.mp single)]
    have first := Put.push units.1 sound rfl (by rw [wide, Bool.true_or]) free
    refine Makes.pure (first.trans (Put.push units.2 first.sound rfl ?_ ?_))
    · rw [StringBuffer.push_isWideChar, wide, Bool.true_or]
    · rw [StringBuffer.push_len, StringBuffer.push_size]
      exact pair
  · exact stringBufferPutcSlow_makes sound below short
  · have unit : fromCodePoint c = [.ofNat c] := if_pos (by omega)
    rw [unit]
    refine Makes.pure (Put.push (by omega) sound rfl ?_ free)
    rw [decide_eq_false (Nat.not_le.mpr small), Bool.or_false]
  · exact stringBufferPutcSlow_makes sound below short
  · exact stringBufferPutcSlow_makes sound below short

theorem stringBufferEnd_makes (s : StringBuffer) : Makes memory (stringBufferEnd s) fun str =>
    str.text = s.text ∧ (s.text ≠ [] → str = s.str) ∧
    (s.Tight → str.isWideChar = isWide str.text) := by
  unfold stringBufferEnd
  by_cases empty : s.str.len = 0
  · rw [if_pos empty]
    have none : s.text = [] := List.eq_nil_of_length_eq_zero (by have := s.len_eq; omega)
    exact Makes.pure ⟨none.symm, fun some => absurd none some, fun _ => rfl⟩
  have modified : Makes memory (Effect.modify fun calls => calls + 1) fun _ => True :=
    ⟨fun _ _ => trivial⟩
  rw [if_neg empty]
  split
  · exact Makes.bind modified fun _ _ => Makes.pure ⟨rfl, fun _ => rfl, id⟩
  · exact Makes.pure ⟨rfl, fun _ => rfl, id⟩

end

end QuickJSBun.Engine.Strings
