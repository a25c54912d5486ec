import Mathlib.Tactic.NormNum
import QuickJSBun.Library.Decimal
import QuickJSBun.Library.Limbs

/-! The engine's bigints: short ones in a value, others as limbs in a block of their own. They are
made from words of 64 bits, from two of them, or from decimals, and read as two words if they fit.
-/

set_option autoImplicit false

namespace QuickJSBun.Engine

open Library

/-- `JS_LIMB_BITS`: 64 where the compiler has integers of 128 bits. -/
inductive LimbBits where
  | thirtyTwo
  | sixtyFour
  deriving DecidableEq, Repr

def LimbBits.bits : LimbBits → Nat
  | .thirtyTwo => 32
  | .sixtyFour => 64

def LimbBits.half (width : LimbBits) : Nat := 2 ^ (width.bits - 1)

def LimbBits.maxSize (width : LimbBits) : Nat := 1024 * 1024 / width.bits

variable {width : LimbBits}

theorem half_pos (width : LimbBits) : 0 < width.half := Nat.two_pow_pos _

/-- The limbs of a `JSBigInt`, the least first. -/
structure JSBigInt (width : LimbBits) where
  tab : List Nat
  small : ∀ limb ∈ tab, limb < 2 * width.half
  nonempty : tab ≠ []
  deriving DecidableEq, Repr

def JSBigInt.toInt (p : JSBigInt width) : Int := Limbs.signed width.half p.tab

/-- `JS_TAG_SHORT_BIG_INT` and `JS_TAG_BIG_INT` -/
inductive BigInt (width : LimbBits) where
  | short (value : Int)
  | heap (p : JSBigInt width)
  deriving DecidableEq, Repr

def BigInt.toInt : BigInt width → Int
  | .short value => value
  | .heap p => p.toInt

/-- The value is the integer; a short one has the bits of a limb. -/
def BigInt.Is (n : Int) : BigInt width → Prop
  | .short value => value = n ∧ -width.half ≤ n ∧ n < width.half
  | .heap p => p.toInt = n

/-- What an operation of the engine makes, or why it does not. -/
inductive Allocated (α : Type) where
  | ok (value : α)
  | outOfMemory
  /-- "BigInt is too large to allocate" -/
  | tooLarge
  deriving DecidableEq, Repr

/-- The integer that the bits of an `int64_t` stand for. -/
def toInt64 (word : Nat) : Int := if word < 2 ^ 63 then word else word - 2 ^ 64

/-! ### Making -/

/-- `js_bigint_normalize`; the smaller block is not needed. -/
def jsBigintNormalize (p : JSBigInt width) : JSBigInt width :=
  have small : ∀ limb ∈ p.tab.reverse, limb < 2 * width.half :=
    fun limb member => p.small limb (List.mem_reverse.mp member)
  have nonempty : p.tab.reverse ≠ [] := fun none => p.nonempty (List.reverse_eq_nil_iff.mp none)
  have trimmed := Limbs.trim_spec (half_pos width) small nonempty
  ⟨(Limbs.trim width.half p.tab.reverse).reverse,
    fun limb member => trimmed.2.2 limb (List.mem_reverse.mp member),
    fun none => trimmed.2.1 (List.reverse_eq_nil_iff.mp none)⟩

def jsCompactBigInt (p : JSBigInt width) : BigInt width :=
  if p.tab.length = 1 then .short p.toInt else .heap p

def JSBigInt.ofInt (width : LimbBits) (count : Nat) (n : Int) : JSBigInt width where
  tab := Limbs.ofInt width.half (count + 1) n
  small := Limbs.ofInt_lt (half_pos width) (count + 1) n
  nonempty := List.cons_ne_nil _ _

/-- `js_bigint_new` of a number of limbs -/
def jsBigintNew {α : Type} (width : LimbBits) (memory : Bool) (len : Nat) (made : α) :
    Allocated α :=
  if width.maxSize < len then .tooLarge else if memory then .ok made else .outOfMemory

def jsNewBigInt64 (memory : Bool) (v : Int) : (width : LimbBits) → Allocated (BigInt width)
  | .sixtyFour => .ok (.short v)
  | .thirtyTwo =>
    if -2 ^ 31 ≤ v ∧ v ≤ 2 ^ 31 - 1 then .ok (.short v)
    else jsBigintNew .thirtyTwo memory 2 (.heap (.ofInt .thirtyTwo 1 v))

def words (low high : Nat) : LimbBits → List Nat
  | .sixtyFour => [low, high]
  | .thirtyTwo => [low % 2 ^ 32, low / 2 ^ 32, high % 2 ^ 32, high / 2 ^ 32]

theorem words_lt {low high : Nat} (lowFits : low < 2 ^ 64) (highFits : high < 2 ^ 64)
    (width : LimbBits) : ∀ limb ∈ words low high width, limb < 2 * width.half := by
  intro limb member
  cases width with
  | sixtyFour =>
    simp only [words, List.mem_cons, List.not_mem_nil, or_false] at member
    rcases member with rfl | rfl <;> simpa [LimbBits.half, LimbBits.bits]
  | thirtyTwo =>
    simp only [words, List.mem_cons, List.not_mem_nil, or_false] at member
    rcases member with rfl | rfl | rfl | rfl <;> simp only [LimbBits.half, LimbBits.bits] <;> omega

theorem words_ne_nil (low high : Nat) (width : LimbBits) : words low high width ≠ [] := by
  cases width <;> exact List.cons_ne_nil _ _

/-- `JS_NewBigInt128`: `-(low >> 63)` has every bit set, or none. -/
def jsNewBigInt128 (width : LimbBits) (memory : Bool) (low high : Fin (2 ^ 64)) :
    Allocated (BigInt width) :=
  if high.val = (if low.val < 2 ^ 63 then 0 else 2 ^ 64 - 1) then
    jsNewBigInt64 memory (toInt64 low.val) width
  else
    jsBigintNew width memory (128 / width.bits)
      (jsCompactBigInt (jsBigintNormalize
        ⟨words low.val high.val width, words_lt low.isLt high.isLt width,
          words_ne_nil low.val high.val width⟩))

/-- The digits that `js_bigint_from_string` counts. -/
def significant (str : Text) : Text :=
  (match str with
    | u :: rest => if u = 0x2D then rest else u :: rest
    | [] => []).dropWhile (· == 0x30)

/-- `js_bigint_from_string` on a decimal of the integer. That the limbs it computes are those of the
integer is assumed; how many it makes room for is not. -/
def jsBigintFromString (width : LimbBits) (memory : Bool) (str : Text) (n : Int) :
    Allocated (JSBigInt width) :=
  let nDigits := (significant str).length
  if width.maxSize * width.bits < nDigits then .tooLarge
  else
    let nBits := (nDigits * 27 + 7) / 8
    jsBigintNew width memory (nBits / width.bits + 1)
      (jsBigintNormalize (.ofInt width (nBits / width.bits) n))

/-- `JS_StringToBigIntErr` on a decimal. -/
def jsStringToBigInt (width : LimbBits) (memory : Bool) (str : Text) (n : Int) :
    Allocated (BigInt width) :=
  match jsBigintFromString width memory str n with
  | .ok p => .ok (jsCompactBigInt p)
  | .outOfMemory => .outOfMemory
  | .tooLarge => .tooLarge

/-! ### Reading -/

/-- `JS_ToBigInt128SatFree`: the status and the two words. -/
def jsToBigInt128SatFree : BigInt width → Int × Nat × Nat
  | .short value =>
    let r0 := (value % 2 ^ 64).toNat
    (0, r0, if r0 < 2 ^ 63 then 0 else 2 ^ 64 - 1)
  | .heap p =>
    if 128 / width.bits < p.tab.length then
      if Limbs.negative width.half p.tab then (1, 0, 2 ^ 63) else (1, 2 ^ 64 - 1, 2 ^ 63 - 1)
    else
      match width, Limbs.extend width.half (128 / width.bits - p.tab.length) p.tab with
      | .sixtyFour, [r0, r1] => (0, r0, r1)
      | .thirtyTwo, [a, b, c, d] => (0, a + b * 2 ^ 32, c + d * 2 ^ 32)
      | _, _ => (0, 0, 0)

/-! ### What is made is the integer -/

theorem toInt_normalize (p : JSBigInt width) : (jsBigintNormalize p).toInt = p.toInt := by
  have small : ∀ limb ∈ p.tab.reverse, limb < 2 * width.half :=
    fun limb member => p.small limb (List.mem_reverse.mp member)
  have nonempty : p.tab.reverse ≠ [] := fun none => p.nonempty (List.reverse_eq_nil_iff.mp none)
  have trimmed := (Limbs.trim_spec (half_pos width) small nonempty).1
  rw [List.reverse_reverse] at trimmed
  exact trimmed

theorem toInt_ofInt {count : Nat} {n : Int}
    (least : -((2 * width.half) ^ (count + 1) : Nat) ≤ 2 * n)
    (most : 2 * n < ((2 * width.half) ^ (count + 1) : Nat)) :
    (JSBigInt.ofInt width count n).toInt = n :=
  Limbs.signed_ofInt (half_pos width) (count + 1) n least most

theorem is_jsCompactBigInt (p : JSBigInt width) : (jsCompactBigInt p).Is p.toInt := by
  unfold jsCompactBigInt
  split
  · next one =>
      have bounded := Limbs.unsigned_lt p.small
      have sign := Limbs.negative_iff p.small p.nonempty
      have value := Limbs.signed_eq p.small p.nonempty
      rw [Limbs.range, one, Nat.pow_one] at bounded sign value
      refine ⟨rfl, ?_⟩
      show -(width.half : Int) ≤ Limbs.signed width.half p.tab ∧
          Limbs.signed width.half p.tab < width.half
      rw [value]
      split
      · next below =>
          have above := sign.mp below
          omega
      · next above =>
          have below : ¬2 * width.half ≤ 2 * Limbs.unsigned width.half p.tab :=
            fun high => above (sign.mpr high)
          omega
  · exact rfl

theorem BigInt.Is.toInt_eq {value : BigInt width} {n : Int} (is : value.Is n) :
    value.toInt = n := by
  cases value with
  | short value => exact is.1
  | heap p => exact is

-- The integer is made, unless there is no memory.
def Allocated.Is (n : Int) (memory : Bool) (made : Allocated (BigInt width)) : Prop :=
  (∃ value, made = .ok value ∧ value.Is n) ∨ memory = false ∧ made = .outOfMemory

theorem jsBigintNew_is {memory : Bool} {len : Nat} {value : BigInt width} {n : Int}
    (fits : len ≤ width.maxSize) (is : value.Is n) :
    (jsBigintNew width memory len value).Is n memory := by
  unfold jsBigintNew
  rw [if_neg (Nat.not_lt.mpr fits)]
  cases memory with
  | true => exact .inl ⟨value, rfl, is⟩
  | false => exact .inr ⟨rfl, rfl⟩

theorem jsNewBigInt64_is (width : LimbBits) (memory : Bool) {v : Int} (least : -2 ^ 63 ≤ v)
    (most : v < 2 ^ 63) : (jsNewBigInt64 memory v width).Is v memory := by
  cases width with
  | sixtyFour => exact .inl ⟨_, rfl, rfl, least, most⟩
  | thirtyTwo =>
    unfold jsNewBigInt64
    split
    · next short =>
        have bits : (LimbBits.half .thirtyTwo : Int) = 2 ^ 31 := rfl
        exact .inl ⟨_, rfl, rfl, by omega, by omega⟩
    · refine jsBigintNew_is (by decide) (toInt_ofInt ?_ ?_)
      · show -(2 ^ 64 : Int) ≤ 2 * v
        omega
      · show 2 * v < (2 ^ 64 : Int)
        omega

theorem signed_words (width : LimbBits) {n : Int} (least : -2 ^ 127 ≤ n) (most : n < 2 ^ 127) :
    Limbs.signed width.half (words (n % 2 ^ 64).toNat (n / 2 ^ 64 % 2 ^ 64).toNat width) = n := by
  have sum :
      (Limbs.unsigned width.half (words (n % 2 ^ 64).toNat (n / 2 ^ 64 % 2 ^ 64).toNat width) :
        Int) = n % 2 ^ 128 := by
    cases width with
    | sixtyFour =>
      simp only [words, Limbs.unsigned, LimbBits.half, LimbBits.bits, Nat.ofDigits_cons,
        Nat.ofDigits_nil]
      omega
    | thirtyTwo =>
      simp only [words, Limbs.unsigned, LimbBits.half, LimbBits.bits, Nat.ofDigits_cons,
        Nat.ofDigits_nil]
      omega
  have all : Limbs.range width.half
      (words (n % 2 ^ 64).toNat (n / 2 ^ 64 % 2 ^ 64).toNat width) = 2 ^ 128 := by
    cases width <;> norm_num [Limbs.range, words, LimbBits.half, LimbBits.bits]
  rw [Limbs.signed, sum, all]
  show Int.bmod (n % ((2 ^ 128 : Nat) : Int)) (2 ^ 128) = n
  rw [Int.emod_bmod]
  exact Int.bmod_eq_of_le_mul_two (by omega) (by omega)

theorem jsNewBigInt128_is (width : LimbBits) (memory : Bool) {n : Int} (least : -2 ^ 127 ≤ n)
    (most : n < 2 ^ 127) {low high : Fin (2 ^ 64)} (isLow : low.val = (n % 2 ^ 64).toNat)
    (isHigh : high.val = (n / 2 ^ 64 % 2 ^ 64).toNat) :
    (jsNewBigInt128 width memory low high).Is n memory := by
  unfold jsNewBigInt128
  by_cases small : high.val = if low.val < 2 ^ 63 then 0 else 2 ^ 64 - 1
  · rw [if_pos small]
    have parts := Int.mul_ediv_add_emod n (2 ^ 64)
    revert isLow isHigh parts
    generalize n / 2 ^ 64 = upper
    intro isLow isHigh parts
    have same : toInt64 low.val = n := by
      unfold toInt64
      split_ifs at small ⊢ <;> omega
    have fits : -2 ^ 63 ≤ toInt64 low.val ∧ toInt64 low.val < 2 ^ 63 := by
      have bounded := low.isLt
      unfold toInt64
      split_ifs <;> omega
    rw [same] at fits ⊢
    exact jsNewBigInt64_is width memory fits.1 fits.2
  · rw [if_neg small]
    have sized : 128 / width.bits ≤ width.maxSize := by cases width <;> decide
    have value := signed_words width least most
    rw [← isLow, ← isHigh] at value
    refine jsBigintNew_is sized ?_
    have compact := is_jsCompactBigInt (jsBigintNormalize
      ⟨words low.val high.val width, words_lt low.isLt high.isLt width,
        words_ne_nil low.val high.val width⟩)
    rw [toInt_normalize, JSBigInt.toInt, value] at compact
    exact compact

/-- The most digits for which `js_bigint_from_string` makes room. -/
@[irreducible] def maxDigits : Nat := 310688

theorem pow_ten_le (count : Nat) : 10 ^ count ≤ 2 ^ ((count * 27 + 7) / 8) := by
  refine (Nat.pow_le_pow_iff_left (n := 8) (by decide)).mp ?_
  calc (10 ^ count) ^ 8 = (10 ^ 8) ^ count := by rw [← Nat.pow_mul, ← Nat.pow_mul, Nat.mul_comm]
    _ ≤ (2 ^ 27) ^ count := Nat.pow_le_pow_left (by decide) count
    _ = 2 ^ (27 * count) := (Nat.pow_mul ..).symm
    _ ≤ 2 ^ ((count * 27 + 7) / 8 * 8) := Nat.pow_le_pow_right (by decide) (by omega)
    _ = (2 ^ ((count * 27 + 7) / 8)) ^ 8 := Nat.pow_mul ..

theorem range_half (width : LimbBits) (count : Nat) :
    (2 * width.half) ^ count = 2 ^ (width.bits * count) := by
  rw [Nat.pow_mul]
  cases width <;> rfl

theorem jsStringToBigInt_is (width : LimbBits) (memory : Bool) {str : Text} {n : Int}
    (few : (significant str).length ≤ maxDigits)
    (bounded : n.natAbs < 10 ^ (significant str).length) :
    (jsStringToBigInt width memory str n).Is n memory := by
  have room : ((significant str).length * 27 + 7) / 8 / width.bits + 1 ≤ width.maxSize := by
    unfold maxDigits at few
    cases width <;> simp only [LimbBits.maxSize, LimbBits.bits] <;> omega
  have counted : ¬width.maxSize * width.bits < (significant str).length := by
    unfold maxDigits at few
    cases width <;> simp only [LimbBits.maxSize, LimbBits.bits] <;> omega
  have enough : 2 * 2 ^ (((significant str).length * 27 + 7) / 8) ≤
      (2 * width.half) ^ (((significant str).length * 27 + 7) / 8 / width.bits + 1) := by
    rw [range_half, ← Nat.pow_succ']
    refine Nat.pow_le_pow_right (by decide) ?_
    have := Nat.lt_mul_div_succ (((significant str).length * 27 + 7) / 8) (b := width.bits)
      (by cases width <;> decide)
    exact this
  have less := Nat.lt_of_lt_of_le bounded (pow_ten_le (significant str).length)
  have value :
      (JSBigInt.ofInt width (((significant str).length * 27 + 7) / 8 / width.bits) n).toInt = n :=
    toInt_ofInt (by omega) (by omega)
  unfold jsStringToBigInt jsBigintFromString jsBigintNew
  rw [if_neg counted, if_neg (Nat.not_lt.mpr room)]
  cases memory with
  | true =>
    have compact := is_jsCompactBigInt (jsBigintNormalize
      (JSBigInt.ofInt width (((significant str).length * 27 + 7) / 8 / width.bits) n))
    rw [toInt_normalize, value] at compact
    exact .inl ⟨_, rfl, compact⟩
  | false => exact .inr ⟨rfl, rfl⟩

theorem jsStringToBigInt_tooLarge (width : LimbBits) (memory : Bool) {str : Text} (n : Int)
    (many : maxDigits < (significant str).length) :
    jsStringToBigInt width memory str n = .tooLarge := by
  have room : width.maxSize < ((significant str).length * 27 + 7) / 8 / width.bits + 1 := by
    unfold maxDigits at many
    cases width <;> simp only [LimbBits.maxSize, LimbBits.bits] <;> omega
  unfold jsStringToBigInt jsBigintFromString jsBigintNew
  dsimp only
  rw [if_pos room]
  split
  · next p same => split at same <;> cases same
  · next same => split at same <;> cases same
  · rfl

theorem length_digits {m : Nat} (positive : m ≠ 0) :
    (digits m).length = (Nat.digits 10 m).length := by
  rw [digits, if_neg positive, List.length_map, List.length_reverse]

-- The first digit is not zero.
theorem dropWhile_digits {m : Nat} (positive : m ≠ 0) :
    (digits m).dropWhile (· == 0x30) = digits m := by
  have nonempty := Nat.digits_ne_nil_iff_ne_zero (b := 10).mpr positive
  have last := Nat.getLast_digit_ne_zero 10 positive
  obtain ⟨first, top, same⟩ := (List.eq_nil_or_concat' (Nat.digits 10 m)).resolve_left nonempty
  have lead : top ≠ 0 := by simpa [same] using last
  have small : top < 10 :=
    Nat.digits_lt_base (by decide)
      (same ▸ List.mem_append_right first List.mem_cons_self : top ∈ Nat.digits 10 m)
  have notZero : ¬(UInt16.ofNat (0x30 + top) == 0x30) = true := by
    intro zero
    have counted := congrArg UInt16.toNat (eq_of_beq zero)
    rw [toNat_digit small] at counted
    exact lead (by simpa using counted)
  rw [digits, if_neg positive, same, List.reverse_append, List.reverse_singleton,
    List.singleton_append, List.map_cons]
  exact List.dropWhile_cons_of_neg notZero

-- The digits of an integer, as `js_bigint_from_string` counts them.
theorem significant_decimal {n : Int} (large : n ≠ 0) :
    significant (decimal n) = digits n.natAbs := by
  cases n with
  | ofNat m =>
    have positive : m ≠ 0 := fun zero => large (congrArg Int.ofNat zero)
    have drops := dropWhile_digits positive
    show significant (digits m) = digits m
    cases written : digits m with
    | nil => exact absurd written (digits_ne_nil m)
    | cons u rest =>
      have digit := isDigit_digits m u (written ▸ List.mem_cons_self)
      have notMinus : ¬u = 0x2D := by
        rintro rfl
        simp [isDigit] at digit
      rw [written] at drops
      simp only [significant, if_neg notMinus]
      exact drops
  | negSucc m =>
    show significant (0x2D :: digits (m + 1)) = digits (m + 1)
    simp only [significant, if_true]
    exact dropWhile_digits (Nat.succ_ne_zero m)

theorem few_digits_iff {n : Int} (large : n ≠ 0) (limit : Nat) :
    (significant (decimal n)).length ≤ limit ↔ n.natAbs < 10 ^ limit := by
  have positive : n.natAbs ≠ 0 := Int.natAbs_ne_zero.mpr large
  rw [significant_decimal large, length_digits positive]
  constructor
  · intro few
    exact Nat.lt_of_lt_of_le (Nat.lt_base_pow_length_digits (by decide))
      (Nat.pow_le_pow_right (by decide) few)
  · intro small
    have written := Nat.base_pow_length_digits_le 10 n.natAbs (by decide) positive
    by_contra many
    have longer : 10 ^ (limit + 1) ≤ 10 ^ (Nat.digits 10 n.natAbs).length :=
      Nat.pow_le_pow_right (by decide) (Nat.not_le.mp many)
    rw [Nat.pow_succ] at longer
    omega

/-! ### What is read is the integer -/

def asIntN (bits word : Nat) : Int := Int.bmod word (2 ^ bits)

theorem asIntN_word {word : Nat} (fits : word < 2 ^ 128) :
    asIntN 128 word = if word < 2 ^ 127 then (word : Int) else word - 2 ^ 128 := by
  have all : (2 ^ 128 : Int) = ((2 ^ 128 : Nat) : Int) := by norm_num
  unfold asIntN
  split
  · exact Int.bmod_eq_of_le_mul_two (by omega) (by omega)
  · rw [all, ← Int.sub_bmod_right]
    exact Int.bmod_eq_of_le_mul_two (by omega) (by omega)

theorem asIntN_eq {word : Nat} {n : Int} (least : -2 ^ 127 ≤ n) (most : n < 2 ^ 127)
    (same : (word : Int) = n % 2 ^ 128) : asIntN 128 word = n := by
  have all : (2 ^ 128 : Int) = ((2 ^ 128 : Nat) : Int) := by norm_num
  rw [asIntN, same, all, Int.emod_bmod]
  exact Int.bmod_eq_of_le_mul_two (by omega) (by omega)

theorem jsToBigInt128SatFree_short {value : Int} (least : -(width.half : Int) ≤ value)
    (most : value < width.half) :
    ∃ low high, jsToBigInt128SatFree (.short value : BigInt width) = (0, low, high) ∧ low < 2 ^ 64 ∧
    high < 2 ^ 64 ∧
      asIntN 128 (low + 2 ^ 64 * high) = value := by
  have narrow : (width.half : Int) ≤ 2 ^ 63 := by
    cases width <;> norm_num [LimbBits.half, LimbBits.bits]
  refine ⟨(value % 2 ^ 64).toNat, if (value % 2 ^ 64).toNat < 2 ^ 63 then 0 else 2 ^ 64 - 1,
    rfl, ?_, ?_, ?_⟩
  · omega
  · split <;> omega
  · refine asIntN_eq (by omega) (by omega) ?_
    split <;> omega

theorem jsToBigInt128SatFree_heap (p : JSBigInt width) (fits : p.tab.length ≤ 128 / width.bits) :
    ∃ low high, jsToBigInt128SatFree (.heap p) = (0, low, high) ∧ low < 2 ^ 64 ∧ high < 2 ^ 64 ∧
      asIntN 128 (low + 2 ^ 64 * high) = p.toInt := by
  have small := Limbs.small_extend (half_pos width) p.small (128 / width.bits - p.tab.length)
  have value :=
    Limbs.signed_extend (half_pos width) p.small p.nonempty (128 / width.bits - p.tab.length)
  have length : (Limbs.extend width.half (128 / width.bits - p.tab.length) p.tab).length =
      p.tab.length + (128 / width.bits - p.tab.length) := Limbs.length_extend _
  rw [Nat.add_sub_cancel' fits] at length
  simp only [jsToBigInt128SatFree, if_neg (Nat.not_lt.mpr fits)]
  revert small value length
  rw [JSBigInt.toInt]
  generalize Limbs.extend width.half (128 / width.bits - p.tab.length) p.tab = limbs
  intro small value length
  rw [← value]
  clear value fits
  cases width with
  | sixtyFour =>
    obtain ⟨r0, r1, rfl⟩ := List.length_eq_two.mp length
    have bounds : ∀ limb ∈ [r0, r1], limb < 2 ^ 64 := small
    refine ⟨r0, r1, rfl, bounds r0 (by simp), bounds r1 (by simp), ?_⟩
    have same : r0 + 2 ^ 64 * r1 = Limbs.unsigned (LimbBits.half .sixtyFour) [r0, r1] := by
      simp [Limbs.unsigned, Nat.ofDigits_cons, LimbBits.half, LimbBits.bits]
    have all : LimbBits.sixtyFour.bits * [r0, r1].length = 128 := rfl
    rw [asIntN, same, Limbs.signed, Limbs.range, range_half, all]
  | thirtyTwo =>
    obtain ⟨a, b, c, d, rfl⟩ := List.length_eq_four.mp length
    have bounds : ∀ limb ∈ [a, b, c, d], limb < 2 ^ 32 := small
    have first := bounds a (by simp)
    have second := bounds b (by simp)
    have third := bounds c (by simp)
    have fourth := bounds d (by simp)
    refine ⟨a + b * 2 ^ 32, c + d * 2 ^ 32, rfl, by omega, by omega, ?_⟩
    have same : a + b * 2 ^ 32 + 2 ^ 64 * (c + d * 2 ^ 32) =
        Limbs.unsigned (LimbBits.half .thirtyTwo) [a, b, c, d] := by
      simp only [Limbs.unsigned, Nat.ofDigits_cons, Nat.ofDigits_nil, LimbBits.half, LimbBits.bits]
      omega
    have all : LimbBits.thirtyTwo.bits * [a, b, c, d].length = 128 := rfl
    rw [asIntN, same, Limbs.signed, Limbs.range, range_half, all]

theorem jsToBigInt128SatFree_reads {value : BigInt width} {n : Int} (is : value.Is n) :
    ∃ status low high, jsToBigInt128SatFree value = (status, low, high) ∧ 0 ≤ status ∧
      (status = 0 → low < 2 ^ 64 ∧ high < 2 ^ 64 ∧ asIntN 128 (low + 2 ^ 64 * high) = n) := by
  cases value with
  | short value =>
    obtain ⟨rfl, least, most⟩ := is
    obtain ⟨low, high, reads, rest⟩ := jsToBigInt128SatFree_short least most
    exact ⟨0, low, high, reads, Int.le_refl 0, fun _ => rest⟩
  | heap p =>
    obtain rfl := is
    by_cases fits : p.tab.length ≤ 128 / width.bits
    · obtain ⟨low, high, reads, rest⟩ := jsToBigInt128SatFree_heap p fits
      exact ⟨0, low, high, reads, Int.le_refl 0, fun _ => rest⟩
    · refine ⟨1, (jsToBigInt128SatFree (.heap p)).2.1, (jsToBigInt128SatFree (.heap p)).2.2, ?_,
        Int.one_nonneg, nofun⟩
      simp only [jsToBigInt128SatFree, if_pos (Nat.not_le.mp fits)]
      split <;> rfl

end QuickJSBun.Engine
