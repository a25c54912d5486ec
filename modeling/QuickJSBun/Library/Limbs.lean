import Mathlib.Algebra.Order.Ring.Int
import Mathlib.Data.Nat.Digits.Defs
import Mathlib.Data.Nat.Digits.Lemmas

/-! Integers as limbs in two's complement, the least limb first. The base is even, and the
highest limb has the sign: a limb that only repeats it can be added or taken away.
-/

set_option autoImplicit false

namespace QuickJSBun.Library.Limbs

/-- The limbs as digits; the base is twice `half`. -/
def unsigned (half : Nat) (tab : List Nat) : Nat := Nat.ofDigits (2 * half) tab

def range (half : Nat) (tab : List Nat) : Nat := (2 * half) ^ tab.length

def signed (half : Nat) (tab : List Nat) : Int := Int.bmod (unsigned half tab) (range half tab)

def negative (half : Nat) (tab : List Nat) : Bool := decide (half ≤ tab.getLast?.getD 0)

-- The limb that repeats the sign.
def fill (half : Nat) (tab : List Nat) : Nat := if negative half tab then 2 * half - 1 else 0

/-- The limbs with the sign repeated in each limb that is missing. -/
def extend (half missing : Nat) (tab : List Nat) : List Nat :=
  tab ++ List.replicate missing (fill half tab)

/-- The limbs, the highest first, without those that repeat the sign. -/
def trim (half : Nat) : List Nat → List Nat
  | top :: below :: rest =>
    if (top ≠ 0 ∧ top ≠ 2 * half - 1) ∨ top % 2 ≠ below / half then top :: below :: rest
      else trim half (below :: rest)
  | rest => rest

def ofInt (half : Nat) : Nat → Int → List Nat
  | 0, _ => []
  | count + 1, n => (n % (2 * half : Nat)).toNat :: ofInt half count (n / (2 * half : Nat))

variable {half : Nat} {tab : List Nat}

theorem unsigned_append (last : Nat) :
    unsigned half (tab ++ [last]) = unsigned half tab + range half tab * last := by
  rw [unsigned, Nat.ofDigits_append, Nat.ofDigits_singleton]
  rfl

theorem range_append (last : Nat) : range half (tab ++ [last]) = range half tab * (2 * half) := by
  rw [range, List.length_append, List.length_singleton, Nat.pow_succ]
  rfl

theorem negative_append (last : Nat) : negative half (tab ++ [last]) = decide (half ≤ last) := by
  rw [negative, List.getLast?_append, List.getLast?_singleton, Option.some_or, Option.getD_some]

theorem unsigned_lt (small : ∀ limb ∈ tab, limb < 2 * half) :
    unsigned half tab < range half tab := by
  cases half with
  | zero =>
    cases tab with
    | nil => exact Nat.one_pos
    | cons limb rest => exact absurd (small limb List.mem_cons_self) (Nat.not_lt_zero limb)
  | succ half => exact Nat.ofDigits_lt_base_pow_length' small

-- The sign says on which side of the middle the limbs are.
theorem negative_iff (small : ∀ limb ∈ tab, limb < 2 * half) (nonempty : tab ≠ []) :
    negative half tab = true ↔ range half tab ≤ 2 * unsigned half tab := by
  obtain ⟨first, last, rfl⟩ := (List.eq_nil_or_concat' tab).resolve_left nonempty
  have low := unsigned_lt fun limb member => small limb (List.mem_append_left [last] member)
  have twice : range half first * (2 * half) = 2 * (range half first * half) := by ring
  rw [negative_append, unsigned_append, range_append, decide_eq_true_eq, twice]
  constructor
  · intro above
    have := Nat.mul_le_mul_left (range half first) above
    omega
  · intro above
    by_contra below
    have := Nat.mul_le_mul_left (range half first) (Nat.succ_le_of_lt (Nat.not_le.mp below))
    rw [Nat.mul_succ] at this
    omega

theorem range_even (nonempty : tab ≠ []) : ∃ middle, range half tab = 2 * middle := by
  obtain ⟨first, last, rfl⟩ := (List.eq_nil_or_concat' tab).resolve_left nonempty
  refine ⟨range half first * half, ?_⟩
  rw [range_append]
  ring

theorem signed_eq (small : ∀ limb ∈ tab, limb < 2 * half) (nonempty : tab ≠ []) :
    signed half tab = if negative half tab then (unsigned half tab : Int) -
      range half tab else unsigned half tab := by
  have bounded := unsigned_lt small
  have sign := negative_iff small nonempty
  obtain ⟨middle, even⟩ : ∃ middle, range half tab = 2 * middle := range_even nonempty
  unfold signed
  rw [even] at bounded sign ⊢
  split
  · next below =>
      have above := sign.mp below
      rw [← Int.sub_bmod_right]
      exact Int.bmod_eq_of_le_mul_two (by omega) (by omega)
  · next above =>
      have below : ¬2 * middle ≤ 2 * unsigned half tab := fun high => above (sign.mpr high)
      exact Int.bmod_eq_of_le_mul_two (by omega) (by omega)

theorem fill_lt (positive : 0 < half) : fill half tab < 2 * half := by
  unfold fill
  split <;> omega

theorem small_fill (small : ∀ limb ∈ tab, limb < 2 * half) (positive : 0 < half) :
    ∀ limb ∈ tab ++ [fill half tab], limb < 2 * half := by
  intro limb member
  rcases List.mem_append.mp member with inside | last
  · exact small limb inside
  · exact List.mem_singleton.mp last ▸ fill_lt positive

theorem negative_fill (positive : 0 < half) :
    negative half (tab ++ [fill half tab]) = negative half tab := by
  rw [negative_append, fill]
  cases negative half tab with
  | true => exact decide_eq_true (by rw [if_pos rfl]; omega)
  | false => exact decide_eq_false (by rw [if_neg Bool.false_ne_true]; omega)

theorem signed_fill (small : ∀ limb ∈ tab, limb < 2 * half) (nonempty : tab ≠ [])
    (positive : 0 < half) : signed half (tab ++ [fill half tab]) = signed half tab := by
  rw [signed_eq (small_fill small positive) (List.append_ne_nil_of_left_ne_nil nonempty _),
    signed_eq small nonempty, negative_fill positive, unsigned_append, range_append, fill]
  cases negative half tab with
  | true =>
    have spread : range half tab * (2 * half - 1) + range half tab =
        range half tab * (2 * half) := by
      rw [← Nat.mul_succ, Nat.succ_eq_add_one, Nat.sub_add_cancel (by omega)]
    simp only [if_true]
    omega
  | false =>
    rw [if_neg Bool.false_ne_true, if_neg Bool.false_ne_true, if_neg Bool.false_ne_true,
      Nat.mul_zero, Nat.add_zero]

theorem extend_succ (positive : 0 < half) (missing : Nat) :
    extend half (missing + 1) tab = extend half missing tab ++
      [fill half (extend half missing tab)] := by
  have same : fill half (extend half missing tab) = fill half tab := by
    induction missing with
    | zero => rw [extend, List.replicate_zero, List.append_nil]
    | succ missing ih =>
      have next : extend half (missing + 1) tab = extend half missing tab ++
          [fill half (extend half missing tab)] := by
        rw [ih, extend, extend, List.replicate_succ', List.append_assoc]
      rw [next, fill, negative_fill positive]
      exact ih
  rw [same, extend, extend, List.replicate_succ', List.append_assoc]

theorem small_extend (positive : 0 < half) (small : ∀ limb ∈ tab, limb < 2 * half) (missing : Nat) :
    ∀ limb ∈ extend half missing tab, limb < 2 * half := by
  induction missing with
  | zero =>
    rw [extend, List.replicate_zero, List.append_nil]
    exact small
  | succ missing ih => exact extend_succ positive missing ▸ small_fill ih positive

theorem signed_extend (positive : 0 < half) (small : ∀ limb ∈ tab, limb < 2 * half)
    (nonempty : tab ≠ []) (missing : Nat) :
    signed half (extend half missing tab) = signed half tab := by
  induction missing with
  | zero => rw [extend, List.replicate_zero, List.append_nil]
  | succ missing ih =>
    rw [extend_succ positive,
      signed_fill (small_extend positive small missing)
        (List.append_ne_nil_of_left_ne_nil nonempty _) positive, ih]

theorem length_extend (missing : Nat) :
    (extend half missing tab).length = tab.length + missing := by
  rw [extend, List.length_append, List.length_replicate]

-- A limb that only repeats the sign is the one that fills.
theorem eq_fill {top below : Nat} {rest : List Nat} (positive : 0 < half)
    (bounded : below < 2 * half)
    (repeats : ¬((top ≠ 0 ∧ top ≠ 2 * half - 1) ∨ top % 2 ≠ below / half)) :
    top = fill half (rest ++ [below]) := by
  obtain ⟨known, parity⟩ := not_or.mp repeats
  have side : below / half = if half ≤ below then 1 else 0 := by
    split
    · next above => exact Nat.div_eq_of_lt_le (by omega) (by omega)
    · next less => exact Nat.div_eq_of_lt (Nat.not_le.mp less)
  rw [fill, negative_append]
  simp only [decide_eq_true_eq]
  rw [side] at parity
  split_ifs at parity ⊢ <;> omega

theorem trim_spec (positive : 0 < half) (small : ∀ limb ∈ tab, limb < 2 * half)
    (nonempty : tab ≠ []) :
    signed half (trim half tab).reverse = signed half tab.reverse ∧ trim half tab ≠ [] ∧
      ∀ limb ∈ trim half tab, limb < 2 * half := by
  induction tab with
  | nil => exact absurd rfl nonempty
  | cons top rest ih =>
    cases rest with
    | nil => exact ⟨rfl, nonempty, small⟩
    | cons below rest =>
      unfold trim
      split
      · exact ⟨rfl, nonempty, small⟩
      · next repeats =>
          have inside : ∀ limb ∈ below :: rest, limb < 2 * half :=
            fun limb member => small limb (List.mem_cons_of_mem top member)
          obtain ⟨same, some_, fits⟩ := ih inside (List.cons_ne_nil below rest)
          refine ⟨same.trans ?_, some_, fits⟩
          have filled : top = fill half (below :: rest).reverse := by
            rw [List.reverse_cons]
            exact eq_fill positive (inside below List.mem_cons_self) repeats
          have last : (top :: below :: rest).reverse = (below :: rest).reverse ++ [top] :=
            List.reverse_cons
          rw [last, filled]
          refine (signed_fill (fun limb member => inside limb (List.mem_reverse.mp member)) ?_
            positive).symm
          exact fun none => List.cons_ne_nil below rest (List.reverse_eq_nil_iff.mp none)

theorem length_ofInt (count : Nat) (n : Int) : (ofInt half count n).length = count := by
  induction count generalizing n with
  | zero => rfl
  | succ count ih => rw [ofInt, List.length_cons, ih]

theorem ofInt_lt (positive : 0 < half) (count : Nat) (n : Int) :
    ∀ limb ∈ ofInt half count n, limb < 2 * half := by
  induction count generalizing n with
  | zero => exact nofun
  | succ count ih =>
    intro limb member
    rcases List.mem_cons.mp member with rfl | inside
    · have bounded := Int.emod_lt_of_pos n (show (0 : Int) < (2 * half : Nat) by omega)
      omega
    · exact ih _ limb inside

theorem emod_mul (n : Int) (b m : Nat) : n % (b * m : Nat) = n % b + b * (n / b % m) := by
  rw [Int.emod_def, Int.emod_def, Int.emod_def, Int.ediv_ediv_of_nonneg (Int.natCast_nonneg b),
    Int.natCast_mul]
  ring

theorem unsigned_ofInt (positive : 0 < half) (count : Nat) (n : Int) :
    (unsigned half (ofInt half count n) : Int) = n % ((2 * half) ^ count : Nat) := by
  induction count generalizing n with
  | zero => exact (Int.emod_one n).symm
  | succ count ih =>
    have known := Int.emod_nonneg n (show ((2 * half : Nat) : Int) ≠ 0 by omega)
    have cons : unsigned half (ofInt half (count + 1) n) =
        (n % (2 * half : Nat)).toNat + 2 * half *
          unsigned half (ofInt half count (n / (2 * half : Nat))) :=
      Nat.ofDigits_cons ..
    rw [cons, Int.natCast_add, Int.natCast_mul (2 * half) (unsigned half _), ih,
      Int.toNat_of_nonneg known, Nat.pow_succ', emod_mul n (2 * half)]

theorem signed_ofInt (positive : 0 < half) (count : Nat) (n : Int)
    (least : -((2 * half) ^ count : Nat) ≤ 2 * n) (most : 2 * n < ((2 * half) ^ count : Nat)) :
    signed half (ofInt half count n) = n := by
  rw [signed, unsigned_ofInt positive, range, length_ofInt, Int.emod_bmod]
  exact Int.bmod_eq_of_le_mul_two (by omega) (by omega)

end QuickJSBun.Library.Limbs
