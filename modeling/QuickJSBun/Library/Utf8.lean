import Mathlib.Data.List.Basic
import Mathlib.Data.UInt

/-! Texts of UTF-16 code units, their code points, and the bytes of both: UTF-8 where
no surrogate stands alone, and its extension that encodes those like other code points.
The decoder is the replacing one: every maximal part that cannot be decoded gives U+FFFD.
-/

set_option autoImplicit false

namespace QuickJSBun.Library

abbrev Text := List UInt16
abbrev Bytes := List UInt8

def isHigh (u : Nat) : Bool := decide (0xD800 ≤ u) && decide (u < 0xDC00)
def isLow (u : Nat) : Bool := decide (0xDC00 ≤ u) && decide (u < 0xE000)
def isSurrogate (c : Nat) : Bool := decide (0xD800 ≤ c) && decide (c < 0xE000)

def codePoints : Text → List Nat
  | [] => []
  | [u] => [u.toNat]
  | u :: v :: rest =>
    if isHigh u.toNat && isLow v.toNat then
      (0x10000 + (u.toNat - 0xD800) * 0x400 + (v.toNat - 0xDC00)) :: codePoints rest
    else u.toNat :: codePoints (v :: rest)

def fromCodePoint (c : Nat) : Text :=
  if c < 0x10000 then [.ofNat c]
  else [.ofNat (0xD800 + (c - 0x10000) / 0x400), .ofNat (0xDC00 + (c - 0x10000) % 0x400)]

def isWellFormed (text : Text) : Bool := (codePoints text).all fun c => !isSurrogate c

def encodePoint (c : Nat) : Bytes :=
  if c < 0x80 then [.ofNat c]
  else if c < 0x800 then [.ofNat (0xC0 + c / 64), .ofNat (0x80 + c % 64)]
  else if c < 0x10000 then [.ofNat (0xE0 + c / 4096), .ofNat (0x80 + c / 64 % 64),
    .ofNat (0x80 + c % 64)]
  else [.ofNat (0xF0 + c / 262144), .ofNat (0x80 + c / 4096 % 64), .ofNat (0x80 + c / 64 % 64),
    .ofNat (0x80 + c % 64)]

-- UTF-8; a lone surrogate becomes U+FFFD.
def encode (text : Text) : Bytes :=
  (codePoints text).flatMap fun c => encodePoint (if isSurrogate c then 0xFFFD else c)

-- Lone surrogates are encoded as they are.
def encodeAll (text : Text) : Bytes := (codePoints text).flatMap encodePoint

def isTail (b : UInt8) : Bool := decide (0x80 ≤ b.toNat) && decide (b.toNat < 0xC0)

/-- The second byte must not make an overlong form, a surrogate, or a code point above U+10FFFF. -/
def isSecond (a b : UInt8) : Bool :=
  decide ((if a.toNat = 0xE0 then 0xA0 else if a.toNat = 0xF0 then 0x90 else 0x80) ≤ b.toNat) &&
  decide (b.toNat < if a.toNat = 0xED then 0xA0 else if a.toNat = 0xF4 then 0x90 else 0xC0)

def decodeReplacing : Bytes → List Nat
  | [] => []
  | a :: rest =>
    if a.toNat < 0x80 then a.toNat :: decodeReplacing rest
    else if a.toNat < 0xC2 ∨ 0xF5 ≤ a.toNat then 0xFFFD :: decodeReplacing rest
    else match rest with
      | [] => [0xFFFD]
      | b :: rest =>
        if !isSecond a b then 0xFFFD :: decodeReplacing (b :: rest)
        else if a.toNat < 0xE0 then (a.toNat % 32 * 64 + b.toNat % 64) :: decodeReplacing rest
        else match rest with
          | [] => [0xFFFD]
          | c :: rest =>
            if !isTail c then 0xFFFD :: decodeReplacing (c :: rest)
            else if a.toNat < 0xF0 then
              (a.toNat % 16 * 4096 + b.toNat % 64 * 64 + c.toNat % 64) :: decodeReplacing rest
            else match rest with
              | [] => [0xFFFD]
              | d :: rest =>
                if !isTail d then 0xFFFD :: decodeReplacing (d :: rest)
                else
                  (a.toNat % 8 * 262144 + b.toNat % 64 * 4096 + c.toNat % 64 * 64 +
                    d.toNat % 64) :: decodeReplacing rest

theorem codePoints_lt (text : Text) : ∀ c ∈ codePoints text, c < 0x110000 := by
  induction text using codePoints.induct with
  | case1 => simp [codePoints]
  | case2 u =>
    have := u.toNat_lt
    simp [codePoints]
    omega
  | case3 u v rest pair ih =>
    simp only [isHigh, isLow, Bool.and_eq_true, decide_eq_true_eq] at pair
    simp only [codePoints, isHigh, isLow, pair, decide_true, Bool.and_self, if_true, List.mem_cons,
      forall_eq_or_imp]
    exact ⟨by omega, ih⟩
  | case4 u v rest alone ih =>
    have := u.toNat_lt
    simp only [codePoints, alone, Bool.false_eq_true, if_false, List.mem_cons, forall_eq_or_imp]
    exact ⟨by omega, ih⟩

theorem ofNat_toNat_add (u : UInt16) (n : Nat) (same : n = u.toNat) : UInt16.ofNat n = u := by
  subst same
  exact UInt16.ofNat_toNat

theorem flatMap_fromCodePoint (text : Text) : (codePoints text).flatMap fromCodePoint = text := by
  induction text using codePoints.induct with
  | case1 => rfl
  | case2 u =>
    have := u.toNat_lt
    simp [codePoints, fromCodePoint, show u.toNat < 0x10000 from this]
  | case3 u v rest pair ih =>
    have high := pair
    simp only [isHigh, isLow, Bool.and_eq_true, decide_eq_true_eq] at high
    rw [codePoints, if_pos pair, List.flatMap_cons, ih]
    have split : fromCodePoint
        (0x10000 + (u.toNat - 0xD800) * 0x400 + (v.toNat - 0xDC00)) = [u, v] := by
      rw [fromCodePoint, if_neg (by omega), ofNat_toNat_add u _ (by omega),
        ofNat_toNat_add v _ (by omega)]
    rw [split]
    rfl
  | case4 u v rest alone ih =>
    have := u.toNat_lt
    rw [codePoints, if_neg alone, List.flatMap_cons, ih]
    simp [fromCodePoint, show u.toNat < 0x10000 from this]

theorem encode_wellFormed {text : Text} (wellFormed : isWellFormed text = true) :
    encode text = encodeAll text := by
  simp only [isWellFormed, List.all_eq_true, Bool.not_eq_true'] at wellFormed
  unfold encode encodeAll
  refine List.flatMap_congr fun c member => ?_
  simp [wellFormed c member]

-- Where there is no high surrogate, the code points are the code units.
theorem codePoints_plain {text : Text} (plain : ∀ u ∈ text, isHigh u.toNat = false) :
    codePoints text = text.map UInt16.toNat := by
  induction text using codePoints.induct with
  | case1 => rfl
  | case2 u => rfl
  | case3 u v rest pair ih =>
    rw [plain u List.mem_cons_self] at pair
    cases pair
  | case4 u v rest alone ih =>
    rw [codePoints, if_neg alone, ih fun w member => plain w (List.mem_cons_of_mem u member)]
    rfl

theorem wellFormed_ascii {text : Text} (ascii : ∀ u ∈ text, u.toNat < 0x80) :
    isWellFormed text = true := by
  have plain : ∀ u ∈ text, isHigh u.toNat = false := by
    intro u member
    have := ascii u member
    simp only [isHigh, Bool.and_eq_false_iff, decide_eq_false_iff_not]
    omega
  rw [isWellFormed, codePoints_plain plain, List.all_map, List.all_eq_true]
  intro u member
  have := ascii u member
  simp only [Function.comp_apply, isSurrogate, Bool.not_eq_true', Bool.and_eq_false_iff,
    decide_eq_false_iff_not]
  omega

theorem length_codePoints_le (text : Text) : (codePoints text).length ≤ text.length := by
  induction text using codePoints.induct with
  | case1 => exact Nat.le_refl 0
  | case2 u => exact Nat.le_refl 1
  | case3 u v rest pair ih =>
    rw [codePoints, if_pos pair]
    simp only [List.length_cons]
    omega
  | case4 u v rest alone ih =>
    rw [codePoints, if_neg alone]
    simp only [List.length_cons] at ih ⊢
    omega

theorem length_encodePoint_le (c : Nat) : (encodePoint c).length ≤ 4 := by
  unfold encodePoint
  split
  · simp
  split
  · simp
  split <;> simp

theorem length_encode_le (text : Text) : (encode text).length ≤ 4 * text.length := by
  have points := length_codePoints_le text
  have bytes : ∀ cs : List Nat,
      (cs.flatMap fun c => encodePoint (if isSurrogate c then 0xFFFD else c)).length ≤
      4 * cs.length := by
    intro cs
    induction cs with
    | nil => exact Nat.le_refl 0
    | cons c cs ih =>
      have first := length_encodePoint_le (if isSurrogate c then 0xFFFD else c)
      rw [List.flatMap_cons, List.length_append, List.length_cons]
      omega
  exact (bytes _).trans (by omega)

theorem toNat_byte {n : Nat} (bounded : n < 256) : (UInt8.ofNat n).toNat = n :=
  UInt8.toNat_ofNat_of_lt' bounded

theorem isTail_byte {n : Nat} (low : 0x80 ≤ n) (high : n < 0xC0) : isTail (.ofNat n) = true := by
  simp [isTail, toNat_byte (show n < 256 by omega), low, high]

theorem decodeReplacing_tail {n : Nat} (low : 0x80 ≤ n) (high : n < 0xC0) (rest : Bytes) :
    decodeReplacing (.ofNat n :: rest) = 0xFFFD :: decodeReplacing rest := by
  rw [decodeReplacing.eq_def]
  dsimp only
  rw [toNat_byte (by omega), if_neg (by omega), if_pos (by omega)]

theorem decodeReplacing_two {c : Nat} (low : 0x80 ≤ c) (high : c < 0x800) (rest : Bytes) :
    decodeReplacing (.ofNat (0xC0 + c / 64) :: .ofNat (0x80 + c % 64) :: rest) = c ::
      decodeReplacing rest := by
  have lead := toNat_byte (show 0xC0 + c / 64 < 256 by omega)
  have tail := toNat_byte (show 0x80 + c % 64 < 256 by omega)
  have second : isSecond (.ofNat (0xC0 + c / 64)) (.ofNat (0x80 + c % 64)) = true := by
    simp only [isSecond, lead, tail, Bool.and_eq_true, decide_eq_true_eq]
    constructor <;> split_ifs <;> omega
  rw [decodeReplacing.eq_def]
  dsimp only
  rw [lead, if_neg (by omega), if_neg (by omega)]
  simp only [second, tail, Bool.not_true, Bool.false_eq_true, if_false]
  rw [if_pos (by omega)]
  congr 1
  omega

theorem decodeReplacing_three {c : Nat} (low : 0x800 ≤ c) (high : c < 0x10000)
    (scalar : isSurrogate c = false) (rest : Bytes) :
    decodeReplacing
      (.ofNat (0xE0 + c / 4096) :: .ofNat (0x80 + c / 64 % 64) :: .ofNat (0x80 + c % 64) :: rest) =
      c :: decodeReplacing rest := by
  have lead := toNat_byte (show 0xE0 + c / 4096 < 256 by omega)
  have middle := toNat_byte (show 0x80 + c / 64 % 64 < 256 by omega)
  have tail := toNat_byte (show 0x80 + c % 64 < 256 by omega)
  simp only [isSurrogate, Bool.and_eq_false_iff, decide_eq_false_iff_not] at scalar
  have second : isSecond (.ofNat (0xE0 + c / 4096)) (.ofNat (0x80 + c / 64 % 64)) = true := by
    simp only [isSecond, lead, middle, Bool.and_eq_true, decide_eq_true_eq]
    constructor <;> split_ifs <;> omega
  rw [decodeReplacing.eq_def]
  dsimp only
  rw [lead, if_neg (by omega), if_neg (by omega)]
  simp only [second, isTail_byte (show 0x80 ≤ 0x80 + c % 64 by omega) (by omega), middle, tail,
    Bool.not_true, Bool.false_eq_true, if_false]
  rw [if_neg (by omega), if_pos (by omega)]
  congr 1
  omega

theorem decodeReplacing_surrogate {c : Nat} (surrogate : isSurrogate c = true) (rest : Bytes) :
    decodeReplacing
      (.ofNat (0xE0 + c / 4096) :: .ofNat (0x80 + c / 64 % 64) :: .ofNat (0x80 + c % 64) :: rest) =
      0xFFFD :: 0xFFFD :: 0xFFFD :: decodeReplacing rest := by
  simp only [isSurrogate, Bool.and_eq_true, decide_eq_true_eq] at surrogate
  have lead := toNat_byte (show 0xE0 + c / 4096 < 256 by omega)
  have middle := toNat_byte (show 0x80 + c / 64 % 64 < 256 by omega)
  have second : isSecond (.ofNat (0xE0 + c / 4096)) (.ofNat (0x80 + c / 64 % 64)) = false := by
    simp only [isSecond, lead, middle, Bool.and_eq_false_iff, decide_eq_false_iff_not]
    right
    split_ifs <;> omega
  rw [decodeReplacing.eq_def]
  dsimp only
  rw [lead, if_neg (by omega), if_neg (by omega)]
  simp only [second, Bool.not_false, if_true]
  rw [decodeReplacing_tail (by omega) (by omega), decodeReplacing_tail (by omega) (by omega)]

theorem decodeReplacing_four {c : Nat} (low : 0x10000 ≤ c) (high : c < 0x110000) (rest : Bytes) :
    decodeReplacing
      (.ofNat (0xF0 + c / 262144) :: .ofNat (0x80 + c / 4096 % 64) :: .ofNat (0x80 + c / 64 % 64) ::
      .ofNat (0x80 + c % 64) :: rest) = c :: decodeReplacing rest := by
  have lead := toNat_byte (show 0xF0 + c / 262144 < 256 by omega)
  have first := toNat_byte (show 0x80 + c / 4096 % 64 < 256 by omega)
  have middle := toNat_byte (show 0x80 + c / 64 % 64 < 256 by omega)
  have tail := toNat_byte (show 0x80 + c % 64 < 256 by omega)
  have second : isSecond (.ofNat (0xF0 + c / 262144)) (.ofNat (0x80 + c / 4096 % 64)) = true := by
    simp only [isSecond, lead, first, Bool.and_eq_true, decide_eq_true_eq]
    constructor <;> split_ifs <;> omega
  rw [decodeReplacing.eq_def]
  dsimp only
  rw [lead, if_neg (by omega), if_neg (by omega)]
  simp only [second, isTail_byte (show 0x80 ≤ 0x80 + c / 64 % 64 by omega) (by omega),
    isTail_byte (show 0x80 ≤ 0x80 + c % 64 by omega) (by omega), first, middle, tail, Bool.not_true,
    Bool.false_eq_true, if_false]
  rw [if_neg (by omega), if_neg (by omega)]
  congr 1
  omega

-- One code point is decoded to itself; a surrogate gives three replacements.
theorem decodeReplacing_encodePoint {c : Nat} (bounded : c < 0x110000) (rest : Bytes) :
    decodeReplacing (encodePoint c ++ rest) =
      (if isSurrogate c then [0xFFFD, 0xFFFD, 0xFFFD] else [c]) ++ decodeReplacing rest := by
  have outside : c < 0x800 ∨ 0x10000 ≤ c → isSurrogate c = false := by
    intro far
    simp only [isSurrogate, Bool.and_eq_false_iff, decide_eq_false_iff_not]
    omega
  unfold encodePoint
  by_cases one : c < 0x80
  · rw [if_pos one, if_neg (by simp [outside (by omega)]), List.singleton_append,
      List.singleton_append, decodeReplacing.eq_def]
    simp [toNat_byte (show c < 256 by omega), one]
  rw [if_neg one]
  by_cases two : c < 0x800
  · rw [if_pos two, if_neg (by simp [outside (by omega)])]
    exact decodeReplacing_two (by omega) two rest
  rw [if_neg two]
  by_cases three : c < 0x10000
  · rw [if_pos three]
    cases surrogate : isSurrogate c with
    | true => exact decodeReplacing_surrogate surrogate rest
    | false => exact decodeReplacing_three (by omega) three surrogate rest
  · rw [if_neg three, if_neg (by simp [outside (by omega)])]
    exact decodeReplacing_four (by omega) bounded rest

theorem decodeReplacing_flatMap {points : List Nat} (bounded : ∀ c ∈ points, c < 0x110000) :
    decodeReplacing (points.flatMap encodePoint) =
      points.flatMap fun c => if isSurrogate c then [0xFFFD, 0xFFFD, 0xFFFD] else [c] := by
  induction points with
  | nil => rw [List.flatMap_nil, List.flatMap_nil, decodeReplacing]
  | cons c rest ih =>
    rw [List.flatMap_cons, decodeReplacing_encodePoint (bounded c List.mem_cons_self), List.flatMap_cons,
      ih fun d member => bounded d (List.mem_cons_of_mem _ member)]

-- A text that the replacing decoder renders without a replacement is rendered as it is.
theorem decodeReplacing_encodeAll {text : Text}
    (clean : (0xFFFD : UInt16) ∉ (decodeReplacing (encodeAll text)).flatMap fromCodePoint) :
    (decodeReplacing (encodeAll text)).flatMap fromCodePoint = text := by
  have shape : decodeReplacing (encodeAll text) = _ := decodeReplacing_flatMap (codePoints_lt text)
  have scalars : ∀ c ∈ codePoints text, isSurrogate c = false := by
    intro c member
    cases surrogate : isSurrogate c with
    | false => rfl
    | true =>
      refine absurd (List.mem_flatMap.mpr ⟨0xFFFD, ?_, by decide⟩) clean
      rw [shape]
      exact List.mem_flatMap.mpr ⟨c, member, by simp [surrogate]⟩
  have same : decodeReplacing (encodeAll text) = codePoints text := by
    rw [shape]
    calc (codePoints text).flatMap (fun c => if isSurrogate c then [0xFFFD, 0xFFFD, 0xFFFD] else [c])
        = (codePoints text).flatMap (fun c => [c]) :=
          List.flatMap_congr fun c member => by simp [scalars c member]
      _ = codePoints text := by simp
  rw [same, flatMap_fromCodePoint]

end QuickJSBun.Library
