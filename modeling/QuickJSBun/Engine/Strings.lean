import QuickJSBun.Engine.StringBuffer
import Mathlib.Data.List.TakeWhile

/-! Strings from UTF-8 and to it: `JS_NewStringLen`, and `JS_ToCStringLen2` with the
ropes that it makes one string of.

The encoding of the engine keeps surrogates that have no partner, as three bytes. From
2^30 bytes on a text with wide units cannot be read, and from 2^31 / 3 units on a wide
string cannot be written: both products wrap.
-/

set_option autoImplicit false

namespace QuickJSBun.Engine.Strings

open Library

/-! ### UTF-8 -/

def followers (c : Nat) : Option Nat :=
  if 0xC0 ≤ c ∧ c ≤ 0xDF then some 1
  else if 0xE0 ≤ c ∧ c ≤ 0xEF then some 2
  else if 0xF0 ≤ c ∧ c ≤ 0xF7 then some 3
  else if 0xF8 ≤ c ∧ c ≤ 0xFB then some 4
  else if 0xFC ≤ c ∧ c ≤ 0xFD then some 5
  else none

def utf8MinCode (l : Nat) : Nat :=
  if l = 1 then 0x80 else if l = 2 then 0x800 else if l = 3 then 0x10000 else if l = 4 then 0x200000
    else 0x4000000

/-- The loop of `unicode_from_utf8`. -/
def followerBits : Nat → Nat → Bytes → Option (Nat × Bytes)
  | 0, c, p => some (c, p)
  | _ + 1, _, [] => none
  | l + 1, c, b :: p => if !isTail b then none else followerBits l (c * 64 + b.toNat % 64) p

def unicodeFromUtf8 (maxLen : Nat) : Bytes → Option (Nat × Bytes)
  | [] => none
  | first :: p =>
    if first.toNat < 0x80 then some (first.toNat, p)
    else match followers first.toNat with
      | none => none
      | some l =>
        if maxLen - 1 < l then none
        else match followerBits l (first.toNat % 2 ^ (6 - l)) p with
          | none => none
          | some (c, p) => if c < utf8MinCode l then none else some (c, p)

theorem followerBits_length {l c : Nat} {p : Bytes} {result : Nat × Bytes}
    (found : followerBits l c p = some result) : result.2.length ≤ p.length := by
  induction l generalizing c p with
  | zero =>
    cases found
    exact Nat.le_refl _
  | succ l ih =>
    cases p with
    | nil => cases found
    | cons b p =>
      simp only [followerBits] at found
      split at found
      · cases found
      · exact Nat.le_succ_of_le (ih found)

theorem unicodeFromUtf8_length {maxLen : Nat} {p : Bytes} {result : Nat × Bytes}
    (found : unicodeFromUtf8 maxLen p = some result) : result.2.length < p.length := by
  cases p with
  | nil => cases found
  | cons first p =>
    simp only [unicodeFromUtf8] at found
    split at found
    · cases found
      exact Nat.lt_succ_self _
    · split at found
      · cases found
      · split at found
        · cases found
        · split at found
          · cases found
          · next bits =>
              split at found
              · cases found
              · cases found
                exact Nat.lt_succ_of_le (followerBits_length bits)

theorem unicodeFromUtf8_encodePoint {c maxLen : Nat} (above : 0x80 ≤ c) (below : c < 0x110000)
    (room : (encodePoint c).length ≤ maxLen) (rest : Bytes) :
    unicodeFromUtf8 maxLen (encodePoint c ++ rest) = some (c, rest) := by
  have follow (n : Nat) : (UInt8.ofNat (0x80 + n % 64)).toNat = 0x80 + n % 64 :=
    toNat_byte (by omega)
  have isFollower (n : Nat) : isTail (.ofNat (0x80 + n % 64)) = true :=
    isTail_byte (by omega) (by omega)
  unfold encodePoint at room ⊢
  rw [if_neg (by omega)] at room ⊢
  by_cases two : c < 0x800
  · rw [if_pos two] at room ⊢
    have lead := toNat_byte (show 0xC0 + c / 64 < 256 by omega)
    have count : followers (0xC0 + c / 64) = some 1 := if_pos (by omega)
    simp only [List.length_cons, List.length_nil] at room
    simp only [List.cons_append, List.nil_append, unicodeFromUtf8, lead, count, followerBits,
      isFollower, follow, Bool.not_true, Bool.false_eq_true, if_false]
    have least : utf8MinCode 1 = 0x80 := rfl
    rw [if_neg (by omega), if_neg (by omega), if_neg (by rw [least]; omega)]
    congr 2
    omega
  rw [if_neg two] at room ⊢
  by_cases three : c < 0x10000
  · rw [if_pos three] at room ⊢
    have lead := toNat_byte (show 0xE0 + c / 4096 < 256 by omega)
    have count : followers (0xE0 + c / 4096) = some 2 := by
      unfold followers
      rw [if_neg (by omega), if_pos (by omega)]
    simp only [List.length_cons, List.length_nil] at room
    simp only [List.cons_append, List.nil_append, unicodeFromUtf8, lead, count, followerBits,
      isFollower, follow, Bool.not_true, Bool.false_eq_true, if_false]
    have least : utf8MinCode 2 = 0x800 := rfl
    rw [if_neg (by omega), if_neg (by omega), if_neg (by rw [least]; omega)]
    congr 2
    omega
  · rw [if_neg three] at room ⊢
    have lead := toNat_byte (show 0xF0 + c / 262144 < 256 by omega)
    have count : followers (0xF0 + c / 262144) = some 3 := by
      unfold followers
      rw [if_neg (by omega), if_neg (by omega), if_pos (by omega)]
    simp only [List.length_cons, List.length_nil] at room
    simp only [List.cons_append, List.nil_append, unicodeFromUtf8, lead, count, followerBits,
      isFollower, follow, Bool.not_true, Bool.false_eq_true, if_false]
    have least : utf8MinCode 3 = 0x10000 := rfl
    rw [if_neg (by omega), if_neg (by omega), if_neg (by rw [least]; omega)]
    congr 2
    omega

/-! ### `JS_NewStringLen` -/

def skipInvalid (p : Bytes) : Bytes :=
  match p.dropWhile isTail with
  | [] => []
  | _ :: p => p.dropWhile isTail

def nextChar (p : Bytes) : Nat × Bytes :=
  match unicodeFromUtf8 p.length p with
  | some (c, next) => if c ≤ 0x10FFFF then (c, next) else (0xFFFD, skipInvalid p)
  | none => (0xFFFD, skipInvalid p)

theorem length_dropWhile_le (p : Bytes) : (p.dropWhile isTail).length ≤ p.length :=
  (List.dropWhile_suffix _).length_le

theorem skipInvalid_length {p : Bytes} (some : p ≠ []) : (skipInvalid p).length < p.length := by
  unfold skipInvalid
  have all := length_dropWhile_le p
  split
  · exact List.length_pos_of_ne_nil some
  · next _ rest dropped =>
      have fewer := length_dropWhile_le rest
      rw [dropped, List.length_cons] at all
      omega

theorem nextChar_length {p : Bytes} (some : p ≠ []) : (nextChar p).2.length < p.length := by
  unfold nextChar
  split
  · next found =>
      split
      · exact unicodeFromUtf8_length found
      · exact skipInvalid_length some
  · exact skipInvalid_length some

theorem nextChar_encodePoint {c : Nat} (above : 0x80 ≤ c) (below : c < 0x110000) (rest : Bytes) :
    nextChar (encodePoint c ++ rest) = (c, rest) := by
  unfold nextChar
  rw [unicodeFromUtf8_encodePoint above below (by simp)]
  exact if_pos (by omega)

section
variable (memory : Memory)

def jsNewString8Len (buf : Bytes) : Making JSString :=
  if buf = [] then pure (.str8 [])
  else do
    jsAllocString memory buf.length false
    pure (.str8 buf)

/-- The loop of `JS_NewStringLen`. -/
def newStringLoop (b : StringBuffer) (p : Bytes) : Making StringBuffer :=
  match p with
  | [] => pure b
  | byte :: rest =>
    if byte.toNat < 128 then do
      let b ← stringBufferPutc8 memory b byte.toNat
      newStringLoop b rest
    else do
      let c := (nextChar (byte :: rest)).1
      let b ←
        if 0x10000 ≤ c then do
          let b ← stringBufferPutc16 memory b (getHiSurrogate c)
          stringBufferPutc16 memory b (getLoSurrogate c)
        else stringBufferPutc16 memory b c
      newStringLoop b (nextChar (byte :: rest)).2
termination_by p.length
decreasing_by
  · exact Nat.lt_succ_self _
  · exact nextChar_length (List.cons_ne_nil _ _)

def jsNewStringLen (buf : Bytes) : Making JSString :=
  let len1 := (buf.takeWhile fun b => decide (b.toNat < 128)).length
  if lenMax < len1 then Effect.throw .tooLong
  else if len1 = buf.length then jsNewString8Len memory buf
  else do
    let b ← stringBufferInit memory (toInt buf.length)
    let b ← stringBufferWrite8 memory b (buf.take len1)
    let b ← newStringLoop memory b (buf.drop len1)
    stringBufferEnd b

end

section
variable {memory : Memory}

theorem encodePoint_ascii {c : Nat} (ascii : c < 0x80) : encodePoint c = [.ofNat c] := if_pos ascii

theorem encodePoint_head {c : Nat} (above : 0x80 ≤ c) (below : c < 0x110000) :
    ∃ byte rest, encodePoint c = byte :: rest ∧ 0x80 ≤ byte.toNat := by
  unfold encodePoint
  rw [if_neg (by omega)]
  split_ifs
  · exact ⟨_, _, rfl, by rw [toNat_byte (by omega)]; omega⟩
  · exact ⟨_, _, rfl, by rw [toNat_byte (by omega)]; omega⟩
  · exact ⟨_, _, rfl, by rw [toNat_byte (by omega)]; omega⟩

theorem fromCodePoint_ascii {c : Nat} (ascii : c < 0x80) : fromCodePoint c = [.ofNat c] :=
  if_pos (by omega)

theorem length_fromCodePoint_le (c : Nat) : (fromCodePoint c).length ≤ (encodePoint c).length := by
  unfold fromCodePoint encodePoint
  split_ifs <;> first | omega | simp

theorem isWide_fromCodePoint {c : Nat} (below : c < 0x110000) :
    isWide (fromCodePoint c) = decide (0x100 ≤ c) := by
  by_cases pair : 0x10000 ≤ c
  · have units := surrogates_units below
    have high : 0x100 ≤ getHiSurrogate c := by
      unfold getHiSurrogate
      omega
    rw [fromCodePoint_pair pair, isWide_append, isWide_unit units.1, decide_eq_true high,
      Bool.true_or, decide_eq_true (by omega)]
  · rw [fromCodePoint, if_pos (by omega)]
    exact isWide_unit (by omega)

theorem newStringLoop_ascii {c : Nat} (ascii : c < 0x80) (b : StringBuffer) (p : Bytes) :
    newStringLoop memory b (encodePoint c ++ p) =
      stringBufferPutc8 memory b c >>= fun b => newStringLoop memory b p := by
  rw [encodePoint_ascii ascii, List.singleton_append, newStringLoop.eq_def]
  simp only [toNat_byte (show c < 256 by omega), if_pos ascii]

theorem newStringLoop_other {c : Nat} (above : 0x80 ≤ c) (below : c < 0x110000) (b : StringBuffer)
    (p : Bytes) :
    newStringLoop memory b (encodePoint c ++ p) =
      (if 0x10000 ≤ c then do
        let b ← stringBufferPutc16 memory b (getHiSurrogate c)
        stringBufferPutc16 memory b (getLoSurrogate c)
      else stringBufferPutc16 memory b c) >>= fun b => newStringLoop memory b p := by
  obtain ⟨byte, rest, shape, head⟩ := encodePoint_head above below
  have next := nextChar_encodePoint above below p
  rw [shape, List.cons_append] at next ⊢
  rw [newStringLoop.eq_def]
  simp only [next, if_neg (Nat.not_lt.mpr head)]
  by_cases pair : 0x10000 ≤ c
  · rw [if_pos pair, if_pos pair, bind_assoc]
  · rw [if_neg pair, if_neg pair]

/-- A buffer filled with a text, whose size was chosen beforehand. -/
structure Filled (s : StringBuffer) (units : Text) (filled : StringBuffer) : Prop where
  text : filled.text = s.text ++ units
  wide : filled.str.isWideChar = (s.str.isWideChar || isWide units)
  size : s.size ≤ filled.size
  same : filled.str.isWideChar = true ∨ filled.size = s.size

theorem Filled.trans {s middle filled : StringBuffer} {front back : Text}
    (first : Filled s front middle) (second : Filled middle back filled) :
    Filled s (front ++ back) filled where
  text := by rw [second.text, first.text, List.append_assoc]
  wide := by rw [second.wide, first.wide, isWide_append, Bool.or_assoc]
  size := Int.le_trans first.size second.size
  same := by
    rcases second.same with wide | same
    · exact .inl wide
    · rcases first.same with wide | before
      · exact .inl (by rw [second.wide, wide, Bool.true_or])
      · exact .inr (same.trans before)

theorem Filled.len {s filled : StringBuffer} {units : Text} (fills : Filled s units filled) :
    filled.str.len = s.str.len + units.length := by
  rw [filled.len_eq, fills.text, s.len_eq, List.length_append]
  simp

theorem stringBufferPutc16_fills {s : StringBuffer} {c : Nat} (room : s.str.len < s.size)
    (unit : c < 0x10000) (small : s.str.isWideChar = true ∨ c < 0x100 ∨ s.size ≤ lenMax) :
    Makes memory (stringBufferPutc16 memory s c) (Filled s [.ofNat c]) :=
  (stringBufferPutc16_filling room small).weaken fun _ ends =>
    ⟨ends.1, by rw [ends.2.1, isWide_unit unit], ends.2.2.1, ends.2.2.2⟩

theorem newStringLoop_step {s : StringBuffer} {c : Nat} (below : c < 0x110000)
    (room : s.str.len + (encodePoint c).length ≤ s.size)
    (small : s.str.isWideChar = true ∨ c < 0x100 ∨ s.size ≤ lenMax) :
    ∃ put : Making StringBuffer, Makes memory put (Filled s (fromCodePoint c)) ∧
      ∀ p, newStringLoop memory s (encodePoint c ++ p) = put >>= fun b =>
        newStringLoop memory b p := by
  have fewer := length_fromCodePoint_le c
  by_cases ascii : c < 0x80
  · refine ⟨stringBufferPutc8 memory s c, ?_, newStringLoop_ascii ascii s⟩
    rw [encodePoint_ascii ascii, List.length_singleton] at room
    unfold stringBufferPutc8
    rw [if_neg (by omega), fromCodePoint_ascii ascii]
    refine Makes.pure ⟨StringBuffer.push_text (.inr (by omega)), ?_, Int.le_refl _, .inr rfl⟩
    rw [StringBuffer.push_isWideChar, isWide_unit (by omega), decide_eq_false (by omega),
      Bool.or_false]
  refine ⟨_, ?_, newStringLoop_other (by omega) below s⟩
  by_cases pair : 0x10000 ≤ c
  · have units := surrogates_units below
    rw [fromCodePoint_pair pair, List.length_append, List.length_singleton,
      List.length_singleton] at fewer
    rw [if_pos pair, fromCodePoint_pair pair]
    have doubled : s.str.isWideChar = true ∨ getHiSurrogate c < 0x100 ∨ s.size ≤ lenMax := by
      rcases small with wide | low | within
      · exact .inl wide
      · exact absurd low (by omega)
      · exact .inr (.inr within)
    refine Makes.bind (stringBufferPutc16_fills (by omega) units.1 doubled) fun first fills => ?_
    have high : 0x100 ≤ getHiSurrogate c := by
      unfold getHiSurrogate
      omega
    have wide : first.str.isWideChar = true := by
      rw [fills.wide, isWide_unit units.1, decide_eq_true high, Bool.or_true]
    have len := fills.len
    have size := fills.size
    rw [List.length_singleton] at len
    exact (stringBufferPutc16_fills (by omega) units.2 (.inl wide)).weaken fun second filled =>
      fills.trans filled
  · rw [if_neg pair]
    have single : fromCodePoint c = [.ofNat c] := if_pos (by omega)
    rw [single, List.length_singleton] at fewer
    rw [single]
    exact stringBufferPutc16_fills (by omega) (by omega) small

abbrev units (points : List Nat) : Text := points.flatMap fromCodePoint

theorem newStringLoop_makes {points : List Nat} {s : StringBuffer}
    (bounded : ∀ c ∈ points, c < 0x110000)
    (room : s.str.len + (points.flatMap encodePoint).length ≤ s.size)
    (small : s.str.isWideChar = true ∨ (∀ c ∈ points, c < 0x100) ∨ s.size ≤ lenMax) :
    Makes memory (newStringLoop memory s (points.flatMap encodePoint))
      (Filled s (units points)) := by
  induction points generalizing s with
  | nil =>
    rw [List.flatMap_nil, newStringLoop.eq_def]
    exact Makes.pure ⟨by simp, by simp [isWide], Int.le_refl _, .inr rfl⟩
  | cons c rest ih =>
    rw [List.flatMap_cons, List.length_append] at room
    have here : s.str.isWideChar = true ∨ c < 0x100 ∨ s.size ≤ lenMax := by
      rcases small with wide | low | within
      · exact .inl wide
      · exact .inr (.inl (low c List.mem_cons_self))
      · exact .inr (.inr within)
    obtain ⟨put, puts, step⟩ :=
      @newStringLoop_step memory _ _ (bounded c List.mem_cons_self) (by omega) here
    rw [List.flatMap_cons, step, units, List.flatMap_cons]
    refine Makes.bind puts fun middle fills => ?_
    have len := fills.len
    have size := fills.size
    have fewer := length_fromCodePoint_le c
    refine (ih (fun d member => bounded d (List.mem_cons_of_mem _ member)) (by omega) ?_).weaken
      fun filled fillsRest => fills.trans fillsRest
    rcases small with wide | low | within
    · exact .inl (by rw [fills.wide, wide, Bool.true_or])
    · exact .inr (.inl fun d member => low d (List.mem_cons_of_mem _ member))
    · rcases fills.same with wide | same
      · exact .inl wide
      · exact .inr (.inr (by omega))

-- A narrow buffer that cannot be doubled comes to the first unit of two bytes.
theorem newStringLoop_never {points : List Nat} {s : StringBuffer}
    (bounded : ∀ c ∈ points, c < 0x110000)
    (room : s.str.len + (points.flatMap encodePoint).length ≤ s.size)
    (narrow : s.str.isWideChar = false) (low : 0x40000000 ≤ s.size) (high : s.size < 0x80000000)
    (wide : ∃ c ∈ points, 0x100 ≤ c) :
    Never (newStringLoop memory s (points.flatMap encodePoint)) := by
  induction points generalizing s with
  | nil =>
    obtain ⟨c, member, -⟩ := wide
    cases member
  | cons c rest ih =>
    rw [List.flatMap_cons, List.length_append] at room
    have below := bounded c List.mem_cons_self
    have fewer := length_fromCodePoint_le c
    by_cases small : c < 0x100
    · have room' : s.str.len + (encodePoint c).length ≤ s.size := by omega
      obtain ⟨put, puts, step⟩ := @newStringLoop_step memory _ _ below room' (.inr (.inl small))
      rw [List.flatMap_cons, step]
      refine Never.after puts fun middle fills => ?_
      have len := fills.len
      have stays : middle.str.isWideChar = false := by
        rw [fills.wide, narrow, isWide_fromCodePoint below, decide_eq_false (by omega)]
        rfl
      have size : middle.size = s.size := fills.same.resolve_left (by simp [stays])
      have left : middle.str.len + (rest.flatMap encodePoint).length ≤ middle.size := by omega
      refine ih (fun d member => bounded d (List.mem_cons_of_mem _ member)) left stays (by omega)
        (by omega) ?_
      obtain ⟨d, member, above⟩ := wide
      rcases List.mem_cons.mp member with rfl | later
      · exact absurd small (by omega)
      · exact ⟨d, later, above⟩
    · have free : s.str.len < s.size := by
        have : 0 < (fromCodePoint c).length := by
          unfold fromCodePoint
          split_ifs <;> simp
        omega
      rw [List.flatMap_cons, newStringLoop_other (by omega) below]
      refine Never.bind ?_
      by_cases pair : 0x10000 ≤ c
      · rw [if_pos pair]
        refine Never.bind (stringBufferPutc16_never free narrow ?_ low high)
        unfold getHiSurrogate
        omega
      · rw [if_neg pair]
        exact stringBufferPutc16_never free narrow (by omega) low high

/-! ### Texts -/

theorem isWide_units {points : List Nat} (bounded : ∀ c ∈ points, c < 0x110000) :
    isWide (units points) = points.any fun c => decide (0x100 ≤ c) := by
  induction points with
  | nil => rfl
  | cons c rest ih =>
    rw [units, List.flatMap_cons, isWide_append,
      isWide_fromCodePoint (bounded c List.mem_cons_self), List.any_cons, ih fun d member =>
        bounded d (List.mem_cons_of_mem _ member)]

theorem isWide_codePoints (text : Text) :
    isWide text = (codePoints text).any fun c => decide (0x100 ≤ c) := by
  rw [← isWide_units (codePoints_lt text), units, flatMap_fromCodePoint]

theorem length_encodePoint_le {c : Nat} (below : c < 0x110000) :
    (encodePoint c).length ≤ 3 * (fromCodePoint c).length := by
  unfold fromCodePoint encodePoint
  split_ifs <;> first | omega | simp

theorem length_encodePoint_narrow {c : Nat} (narrow : c < 0x100) :
    (encodePoint c).length ≤ 2 * (fromCodePoint c).length := by
  unfold fromCodePoint encodePoint
  split_ifs <;> first | omega | simp

theorem length_flatMap_le {points : List Nat} {k : Nat}
    (each : ∀ c ∈ points, (encodePoint c).length ≤ k * (fromCodePoint c).length) :
    (points.flatMap encodePoint).length ≤ k * (units points).length := by
  induction points with
  | nil => simp
  | cons c rest ih =>
    rw [units, List.flatMap_cons, List.flatMap_cons, List.length_append, List.length_append,
      Nat.mul_add]
    exact Nat.add_le_add (each c List.mem_cons_self)
      (ih fun d member => each d (List.mem_cons_of_mem _ member))

theorem length_encodeAll_le (text : Text) : (encodeAll text).length ≤ 3 * text.length := by
  have sum := length_flatMap_le fun c member => length_encodePoint_le (codePoints_lt text c member)
  rwa [units, flatMap_fromCodePoint] at sum

theorem length_encodeAll_narrow {text : Text} (narrow : isWide text = false) :
    (encodeAll text).length ≤ 2 * text.length := by
  rw [isWide_codePoints, List.any_eq_false] at narrow
  have sum :=
    length_flatMap_le fun c member => length_encodePoint_narrow (by simpa using narrow c member)
  rwa [units, flatMap_fromCodePoint] at sum

-- The ASCII bytes in front are those of the code points in front.
theorem takeWhile_ascii {points : List Nat} (bounded : ∀ c ∈ points, c < 0x110000) :
    (points.flatMap encodePoint).takeWhile (fun b => decide (b.toNat < 128)) =
      (points.takeWhile fun c => decide (c < 128)).flatMap encodePoint := by
  induction points with
  | nil => rfl
  | cons c rest ih =>
    by_cases ascii : c < 128
    · rw [List.takeWhile_cons_of_pos (by simpa using ascii), List.flatMap_cons, List.flatMap_cons,
        encodePoint_ascii ascii, List.singleton_append, List.singleton_append,
        List.takeWhile_cons_of_pos (by simpa [toNat_byte (show c < 256 by omega)] using ascii),
        ih fun d member => bounded d (List.mem_cons_of_mem _ member)]
    · obtain ⟨byte, others, shape, head⟩ :=
        encodePoint_head (Nat.not_lt.mp ascii) (bounded c List.mem_cons_self)
      rw [List.takeWhile_cons_of_neg (by simpa using ascii), List.flatMap_cons, shape,
        List.cons_append, List.takeWhile_cons_of_neg (by simpa using head), List.flatMap_nil]

theorem map_ascii {points : List Nat} (ascii : ∀ c ∈ points, c < 128) :
    (points.flatMap encodePoint).map UInt8.toUInt16 = units points := by
  induction points with
  | nil => rfl
  | cons c rest ih =>
    have small := ascii c List.mem_cons_self
    have same := JSString.toUInt16_ofNat (Nat.lt_trans small (by decide : 128 < 0x100))
    rw [units, List.flatMap_cons, List.flatMap_cons, List.map_append, ih fun d member =>
      ascii d (List.mem_cons_of_mem _ member),
      encodePoint_ascii small, fromCodePoint_ascii small, List.map_singleton, same]

/-- A text in two parts, of which the first is what `count_ascii` counts. -/
structure Split (text : Text) (front back : List Nat) : Prop where
  points : codePoints text = front ++ back
  joined : text = units front ++ units back
  bytes : encodeAll text = front.flatMap encodePoint ++ back.flatMap encodePoint
  ascii : ∀ c ∈ front, c < 128
  counted : (encodeAll text).takeWhile (fun b => decide (b.toNat < 128)) = front.flatMap encodePoint

theorem split_ascii (text : Text) : ∃ front back, Split text front back := by
  have joined : (codePoints text).takeWhile (fun c => decide (c < 128)) ++
      (codePoints text).dropWhile (fun c => decide (c < 128)) = codePoints text :=
    List.takeWhile_append_dropWhile
  refine ⟨_, _, joined.symm, ?_, ?_, fun c member => ?_, takeWhile_ascii (codePoints_lt text)⟩
  · rw [units, units, ← List.flatMap_append, joined, flatMap_fromCodePoint]
  · rw [← List.flatMap_append, joined]
    rfl
  · simpa using List.mem_takeWhile_imp member

namespace Split

variable {text : Text} {front back : List Nat}

theorem bounded (split : Split text front back) : ∀ c ∈ back, c < 0x110000 := fun c member =>
  codePoints_lt text c (by rw [split.points]; exact List.mem_append_right _ member)

theorem length_front (split : Split text front back) :
    (front.flatMap encodePoint).length ≤ text.length := by
  have mapped := congrArg List.length (map_ascii split.ascii)
  have total := congrArg List.length split.joined
  rw [List.length_map] at mapped
  rw [List.length_append] at total
  omega

theorem narrow_front (split : Split text front back) : isWide (units front) = false := by
  have below : ∀ c ∈ front, c < 0x110000 :=
    fun c member => Nat.lt_trans (split.ascii c member) (by decide)
  rw [isWide_units below, List.any_eq_false]
  intro c member
  have := split.ascii c member
  simp only [decide_eq_true_eq]
  omega

theorem wide_back (split : Split text front back) (wide : isWide text = true) :
    ∃ c ∈ back, 0x100 ≤ c := by
  rw [split.joined, isWide_append, split.narrow_front, Bool.false_or, isWide_units split.bounded,
    List.any_eq_true] at wide
  obtain ⟨c, member, above⟩ := wide
  exact ⟨c, member, of_decide_eq_true above⟩

end Split

theorem encodePoint_ne_nil (c : Nat) : encodePoint c ≠ [] := by
  unfold encodePoint
  split_ifs <;> exact List.cons_ne_nil _ _

theorem stringBufferWrite8_start {size : Int} {p : Bytes} (room : p.length ≤ size) :
    stringBufferWrite8 memory ⟨.str8 [], size⟩ p = pure ⟨.str8 p, size⟩ := by
  have fits : ¬size < JSString.len (.str8 []) + p.length := by
    simp only [JSString.len, List.length_nil]
    omega
  unfold stringBufferWrite8
  simp only [if_neg fits]
  rfl

-- Every text is made but those with wide units whose bytes are too many to be doubled.
theorem jsNewStringLen_makes {text : Text} (short : (text.length : Int) ≤ lenMax)
    (fits : isWide text = true → (encodeAll text).length < 0x40000000) :
    Makes memory (jsNewStringLen memory (encodeAll text)) fun str =>
      str.text = text ∧ str.isWideChar = isWide text := by
  obtain ⟨front, back, split⟩ := split_ascii text
  have few := split.length_front
  have total := congrArg List.length split.bytes
  rw [List.length_append] at total
  simp only [lenMax] at short
  unfold jsNewStringLen
  rw [split.counted]
  dsimp only
  rw [if_neg (by simp only [lenMax]; omega)]
  by_cases all : (front.flatMap encodePoint).length = (encodeAll text).length
  · rw [if_pos all]
    have none : back = [] := by
      cases back with
      | nil => rfl
      | cons c rest =>
        have some := List.length_pos_of_ne_nil (encodePoint_ne_nil c)
        rw [List.flatMap_cons, List.length_append] at total
        omega
    subst none
    have bytes : encodeAll text = front.flatMap encodePoint := by simpa using split.bytes
    have same : text = units front := by simpa using split.joined
    have narrow : isWide text = false := by rw [same]; exact split.narrow_front
    unfold jsNewString8Len
    split
    · next empty =>
        have noText : text = [] := by rw [same, ← map_ascii split.ascii, ← bytes, empty]; rfl
        exact Makes.pure ⟨noText.symm, narrow.symm⟩
    · refine Makes.bind (jsAllocString_narrow (by omega) (by omega)) fun _ _ =>
        Makes.pure ⟨?_, narrow.symm⟩
      · rw [bytes, JSString.text, map_ascii split.ascii, ← same]
  · rw [if_neg all, split.bytes, List.take_left, List.drop_left, ← split.bytes]
    have small : (encodeAll text).length < 0x80000000 := by
      cases wide : isWide text with
      | true =>
        have := fits wide
        omega
      | false =>
        have := length_encodeAll_narrow wide
        omega
    have size : toInt (encodeAll text).length = (encodeAll text).length :=
      toInt_small (by omega) (by omega)
    unfold stringBufferInit stringBufferInit2
    rw [size]
    have allocates : Makes memory (jsAllocString memory (encodeAll text).length false) fun _ =>
        True :=
      jsAllocString_narrow (by omega) (by omega)
    rw [bind_assoc]
    refine Makes.bind allocates fun _ _ => ?_
    rw [pure_bind]
    simp only [Bool.false_eq_true, if_false]
    rw [stringBufferWrite8_start (by omega), pure_bind]
    refine Makes.bind (newStringLoop_makes split.bounded ?_ ?_) fun b fills => ?_
    · simp only [JSString.len]
      omega
    · right
      cases wide : isWide text with
      | true =>
        right
        have := fits wide
        simp only [lenMax]
        omega
      | false =>
        left
        intro c member
        rw [isWide_codePoints, List.any_eq_false] at wide
        have small := wide c (by rw [split.points]; exact List.mem_append_right _ member)
        simpa using small
    · have made : b.text = text := by
        rw [fills.text, split.joined]
        exact congrArg (· ++ units back) (map_ascii split.ascii)
      have tight : b.Tight := by
        show b.str.isWideChar = isWide b.text
        rw [made, fills.wide, split.joined, isWide_append, split.narrow_front]
        rfl
      exact (stringBufferEnd_makes b).weaken fun str ends =>
        ⟨ends.1.trans made, by rw [ends.2.2 tight, ends.1, made]⟩

theorem jsNewStringLen_never {text : Text} (short : (text.length : Int) ≤ lenMax)
    (wide : isWide text = true) (large : 0x40000000 ≤ (encodeAll text).length) :
    Never (jsNewStringLen memory (encodeAll text)) := by
  obtain ⟨front, back, split⟩ := split_ascii text
  have few := split.length_front
  have total := congrArg List.length split.bytes
  have most := length_encodeAll_le text
  rw [List.length_append] at total
  simp only [lenMax] at short
  unfold jsNewStringLen
  rw [split.counted]
  dsimp only
  rw [if_neg (by simp only [lenMax]; omega), if_neg (by omega), split.bytes, List.take_left,
    List.drop_left, ← split.bytes]
  unfold stringBufferInit stringBufferInit2
  by_cases fits : (encodeAll text).length < 0x80000000
  · have size : toInt (encodeAll text).length = (encodeAll text).length :=
      toInt_small (by omega) (by omega)
    have allocates : Makes memory (jsAllocString memory (encodeAll text).length false) fun _ =>
        True :=
      jsAllocString_narrow (by omega) (by omega)
    rw [size, bind_assoc]
    refine Never.after allocates fun _ _ => ?_
    rw [pure_bind]
    simp only [Bool.false_eq_true, if_false]
    rw [stringBufferWrite8_start (by omega), pure_bind]
    refine Never.bind (newStringLoop_never split.bounded ?_ rfl ?_ ?_ (split.wide_back wide))
    · simp only [JSString.len]
      omega
    · show (0x40000000 : Int) ≤ (encodeAll text).length
      omega
    · show ((encodeAll text).length : Int) < 0x80000000
      omega
  · rw [bind_assoc, toInt_large (by omega) (by omega)]
    exact Never.bind (jsAllocString_never (by omega) (by omega))

end

end QuickJSBun.Engine.Strings
