import Mathlib.Data.Nat.Digits.Defs
import Mathlib.Data.Nat.Digits.Lemmas
import QuickJSBun.Library.Utf8

/-! Integers in decimal. -/

set_option autoImplicit false

namespace QuickJSBun.Library

def digits (n : Nat) : Text :=
  if n = 0 then [0x30] else (Nat.digits 10 n).reverse.map fun d => .ofNat (0x30 + d)

def decimal : Int → Text
  | .ofNat n => digits n
  | .negSucc n => 0x2D :: digits (n + 1)

def isDigit (u : UInt16) : Bool := decide (0x30 ≤ u.toNat) && decide (u.toNat ≤ 0x39)

def readDigits (source : Text) : Option Nat :=
  if source ≠ [] ∧ source.all isDigit = true then
    some (source.foldl (fun n u => n * 10 + (u.toNat - 0x30)) 0)
  else none

def readDecimal : Text → Option Int
  | [] => none
  | u :: rest =>
    if u = 0x2D then (readDigits rest).map fun n => -(n : Int)
      else (readDigits (u :: rest)).map fun n => (n : Int)

theorem toNat_digit {d : Nat} (small : d < 10) : (UInt16.ofNat (0x30 + d)).toNat = 0x30 + d :=
  UInt16.toNat_ofNat_of_lt' (show 0x30 + d < 65536 by omega)

theorem isDigit_digits (n : Nat) : ∀ u ∈ digits n, isDigit u = true := by
  unfold digits
  split
  · simp [isDigit]
  · intro u member
    obtain ⟨d, inside, rfl⟩ := List.mem_map.mp member
    have small : d < 10 := Nat.digits_lt_base (by omega) (List.mem_reverse.mp inside)
    simp only [isDigit, toNat_digit small, Bool.and_eq_true, decide_eq_true_eq]
    omega

theorem decimal_ascii (i : Int) : ∀ u ∈ decimal i, u.toNat < 0x80 := by
  have digit : ∀ n, ∀ u ∈ digits n, u.toNat < 0x80 := by
    intro n u member
    have := isDigit_digits n u member
    simp only [isDigit, Bool.and_eq_true, decide_eq_true_eq] at this
    omega
  cases i with
  | ofNat n => exact digit n
  | negSucc n =>
    intro u member
    rcases List.mem_cons.mp member with rfl | inside
    · decide
    · exact digit (n + 1) u inside

theorem digits_ne_nil (n : Nat) : digits n ≠ [] := by
  unfold digits
  split
  · simp
  · next positive => simp [Nat.digits_ne_nil_iff_ne_zero.mpr positive]

theorem foldl_digits (ds : List Nat) (small : ∀ d ∈ ds, d < 10) :
    (ds.reverse.map fun d => UInt16.ofNat (0x30 + d)).foldl
      (fun n u => n * 10 + (u.toNat - 0x30)) 0 = Nat.ofDigits 10 ds := by
  induction ds with
  | nil => rfl
  | cons d rest ih =>
    have rest_small := ih fun other member => small other (List.mem_cons_of_mem _ member)
    rw [List.reverse_cons, List.map_append, List.foldl_append, rest_small]
    simp only [List.map_cons, List.map_nil, List.foldl_cons, List.foldl_nil, Nat.ofDigits_cons,
      toNat_digit (small d List.mem_cons_self)]
    simp only [Nat.add_sub_cancel_left]
    ring

theorem readDigits_digits (n : Nat) : readDigits (digits n) = some n := by
  unfold readDigits
  rw [if_pos ⟨digits_ne_nil n, List.all_eq_true.mpr (isDigit_digits n)⟩]
  congr 1
  unfold digits
  split
  · next zero =>
      subst zero
      rfl
  · rw [foldl_digits _ fun d member => Nat.digits_lt_base (by omega) member, Nat.ofDigits_digits]

theorem readDecimal_decimal (i : Int) : readDecimal (decimal i) = some i := by
  cases i with
  | ofNat n =>
    have digit := isDigit_digits n
    have read := readDigits_digits n
    simp only [decimal]
    cases written : digits n with
    | nil => exact absurd written (digits_ne_nil n)
    | cons u rest =>
      have notMinus : u ≠ 0x2D := by
        rintro rfl
        have := digit 0x2D (by simp [written])
        simp [isDigit] at this
      rw [written] at read
      simp [readDecimal, notMinus, read]
  | negSucc n =>
    simp only [decimal, readDecimal, if_true, readDigits_digits]
    rfl

theorem foldl_of_digits (n : Nat) :
    (digits n).foldl (fun n u => n * 10 + (u.toNat - 0x30)) 0 = n := by
  have read := readDigits_digits n
  unfold readDigits at read
  rw [if_pos ⟨digits_ne_nil n, List.all_eq_true.mpr (isDigit_digits n)⟩] at read
  exact Option.some.inj read

theorem digits_injective : Function.Injective digits := by
  intro m n same
  rw [← foldl_of_digits m, same, foldl_of_digits]

theorem digits_small {d : Nat} (small : d < 10) : digits d = [.ofNat (0x30 + d)] := by
  unfold digits
  split
  · next zero =>
      subst zero
      rfl
  · next some =>
      rw [Nat.digits_of_lt 10 d some small]
      rfl

theorem digits_concat {n d : Nat} (positive : 0 < n) (small : d < 10) :
    digits (n * 10 + d) = digits n ++ [.ofNat (0x30 + d)] := by
  have more : Nat.digits 10 (n * 10 + d) = d :: Nat.digits 10 n := by
    rw [Nat.add_comm, Nat.mul_comm]
    exact Nat.digits_add 10 (by omega) d n small (.inr (Nat.ne_of_gt positive))
  unfold digits
  rw [if_neg (by omega), if_neg (by omega), more, List.reverse_cons, List.map_append,
    List.map_singleton]

theorem digits_step {n : Nat} (large : 10 ≤ n) :
    digits n = digits (n / 10) ++ [.ofNat (0x30 + n % 10)] := by
  have split : n / 10 * 10 + n % 10 = n := by omega
  rw [← digits_concat (show 0 < n / 10 by omega) (Nat.mod_lt n (by omega)), split]

-- No number but 0 begins with a 0.
theorem digits_head {n : Nat} (positive : 0 < n) : (digits n).head? ≠ some 0x30 := by
  induction n using Nat.strongRecOn with
  | ind n ih =>
    by_cases small : n < 10
    · rw [digits_small small, List.head?_cons]
      intro same
      have units := congrArg UInt16.toNat (Option.some.inj same)
      rw [toNat_digit small] at units
      change 0x30 + n = 0x30 at units
      omega
    · have shorter := ih (n / 10) (by omega) (by omega)
      rw [digits_step (Nat.not_lt.mp small), List.head?_append_of_ne_nil _ (digits_ne_nil _)]
      exact shorter

theorem length_digits_le {n k : Nat} (below : n < 10 ^ k) (some : 0 < k) :
    (digits n).length ≤ k := by
  unfold digits
  split
  · exact some
  · rw [List.length_map, List.length_reverse]
    exact (Nat.digits_length_le_iff (by omega) n).mpr below

theorem digit_of_unit {u : UInt16} (digit : isDigit u = true) :
    u.toNat - 0x30 < 10 ∧ UInt16.ofNat (0x30 + (u.toNat - 0x30)) = u := by
  simp only [isDigit, Bool.and_eq_true, decide_eq_true_eq] at digit
  refine ⟨by omega, ?_⟩
  rw [Nat.add_sub_cancel' digit.1, UInt16.ofNat_toNat]

theorem foldl_digits_ge (rest : Text) (n : Nat) :
    n ≤ rest.foldl (fun n u => n * 10 + (u.toNat - 0x30)) n := by
  induction rest generalizing n with
  | nil => exact Nat.le_refl n
  | cons u rest ih =>
    have further := ih (n * 10 + (u.toNat - 0x30))
    rw [List.foldl_cons]
    omega

-- A number whose digits begin with those of another is no less.
theorem le_of_digits_append {m n : Nat} {rest : Text} (written : digits m = digits n ++ rest) :
    n ≤ m := by
  rw [← foldl_of_digits m, written, List.foldl_append, foldl_of_digits]
  exact foldl_digits_ge rest n

end QuickJSBun.Library
