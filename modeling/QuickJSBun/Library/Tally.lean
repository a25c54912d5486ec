import Mathlib.Data.List.Basic
import Mathlib.Algebra.Order.Group.Nat
import Mathlib.Algebra.BigOperators.Group.List.Basic
import Mathlib.Algebra.GroupWithZero.Nat
import Mathlib.Algebra.Order.BigOperators.Group.List
import Mathlib.Algebra.Order.BigOperators.Group.Finset
import Mathlib.Algebra.BigOperators.Group.Finset.Piecewise

/-! Tallies: the sum of a measure over the entries of a list, and how it moves
when one entry is replaced or added. Used to count who holds a token. Counters:
lists of numbers, zero outside their bounds.
-/

set_option autoImplicit false

namespace QuickJSBun.Library

variable {α : Type} (f : α → Nat)

def tally (entries : List α) : Nat := (entries.map f).sum

@[simp] theorem tally_nil : tally f [] = 0 := rfl

@[simp] theorem tally_cons (entry : α) (entries : List α) :
    tally f (entry :: entries) = f entry + tally f entries := by
  simp [tally]

@[simp] theorem tally_append (front back : List α) :
    tally f (front ++ back) = tally f front + tally f back := by
  simp [tally]

variable {f}

-- Replacing one entry trades its measure for the new one's.
theorem tally_set {entries : List α} {i : Nat} {old : α} (found : entries[i]? = some old)
    (new : α) : tally f (entries.set i new) + f old = tally f entries + f new := by
  induction entries generalizing i with
  | nil => simp at found
  | cons entry rest ih =>
    cases i with
    | zero =>
      obtain rfl : entry = old := by simpa using found
      simp only [List.set_cons_zero, tally_cons]
      omega
    | succ i =>
      have later := ih (i := i) (by simpa using found)
      simp only [List.set_cons_succ, tally_cons]
      omega

theorem tally_set_same {entries : List α} {i : Nat} {old : α} (found : entries[i]? = some old)
    {new : α} (same : f new = f old) : tally f (entries.set i new) = tally f entries := by
  have := tally_set (f := f) found new
  omega

theorem le_tally {entries : List α} {entry : α} (member : entry ∈ entries) :
    f entry ≤ tally f entries := by
  induction entries with
  | nil => cases member
  | cons first rest ih =>
    rw [tally_cons]
    rcases List.mem_cons.mp member with rfl | later
    · omega
    · have := ih later
      omega

theorem add_le_tally {entries : List α} {i j : Nat} {x y : α} (distinct : i ≠ j)
    (first : entries[i]? = some x) (second : entries[j]? = some y) :
    f x + f y ≤ tally f entries := by
  induction entries generalizing i j with
  | nil => simp at first
  | cons entry rest ih =>
    rw [tally_cons]
    cases i with
    | zero =>
      obtain ⟨j, rfl⟩ : ∃ k, j = k + 1 := ⟨j - 1, by omega⟩
      obtain rfl : entry = x := by simpa using first
      have later : f y ≤ tally f rest := le_tally (List.mem_of_getElem? (by simpa using second))
      omega
    | succ i =>
      cases j with
      | zero =>
        obtain rfl : entry = y := by simpa using second
        have later : f x ≤ tally f rest := le_tally (List.mem_of_getElem? (by simpa using first))
        omega
      | succ j =>
        have later := ih (i := i) (j := j) (by omega) (by simpa using first) (by simpa using second)
        omega

-- One entry is taken out by its key, which the others do not have.
theorem tally_filter_ne {β : Type} [DecidableEq β] {key : α → β} {entries : List α}
    (distinct : entries.Pairwise fun x y => key x ≠ key y) {entry : α} (member : entry ∈ entries) :
    tally f (entries.filter (key · != key entry)) + f entry = tally f entries := by
  induction entries with
  | nil => cases member
  | cons first rest ih =>
    obtain ⟨apart, others⟩ := List.pairwise_cons.mp distinct
    rcases List.mem_cons.mp member with rfl | later
    · have all : rest.filter (key · != key entry) = rest :=
        List.filter_eq_self.mpr fun other found => bne_iff_ne.mpr (Ne.symm (apart other found))
      rw [List.filter_cons_of_neg (by simp), all, tally_cons, Nat.add_comm]
    · have kept : (key first != key entry) = true := bne_iff_ne.mpr (apart entry later)
      have fewer := ih others later
      rw [List.filter_cons_of_pos (p := fun x => key x != key entry) kept, tally_cons, tally_cons]
      omega

theorem tally_mono {g : α → Nat} {entries : List α} (below : ∀ entry ∈ entries, f entry ≤ g entry) :
    tally f entries ≤ tally g entries :=
  List.sum_le_sum below

theorem tally_lt {g : α → Nat} {entries : List α} (below : ∀ entry ∈ entries, f entry ≤ g entry)
    {entry : α} (member : entry ∈ entries) (less : f entry < g entry) :
    tally f entries < tally g entries :=
  List.sum_lt_sum f g below ⟨entry, member, less⟩

theorem tally_sublist {fewer entries : List α} (within : fewer.Sublist entries) :
    tally f fewer ≤ tally f entries := by
  induction within with
  | slnil => exact Nat.le_refl _
  | cons entry _ ih =>
    rw [tally_cons]
    omega
  | cons_cons entry _ ih =>
    rw [tally_cons, tally_cons]
    omega

theorem tally_le {entries : List α} {bound : Nat} (each : ∀ entry ∈ entries, f entry ≤ bound) :
    tally f entries ≤ bound * entries.length := by
  induction entries with
  | nil => exact Nat.le_refl _
  | cons entry rest ih =>
    have first := each entry List.mem_cons_self
    have later := ih fun entry member => each entry (List.mem_cons_of_mem _ member)
    rw [tally_cons, List.length_cons, Nat.mul_succ]
    omega

theorem tally_eq_zero {entries : List α} :
    tally f entries = 0 ↔ ∀ entry ∈ entries, f entry = 0 := by
  induction entries with
  | nil => simp
  | cons first rest ih => simp [Nat.add_eq_zero_iff, ih]

section Groups
variable {label : α → Option Nat} {entries : List α} {labels : Finset Nat}
  (covered : ∀ entry ∈ entries, ∀ n, label entry = some n → n ∈ labels)
include covered

theorem tally_groups : tally (fun entry => if (label entry).isSome then f entry else 0) entries =
    ∑ n ∈ labels, tally (fun entry => if label entry = some n then f entry else 0) entries := by
  induction entries with
  | nil => simp
  | cons entry rest ih =>
    have one : (if (label entry).isSome then f entry else 0) = ∑ n ∈ labels,
        if label entry = some n then f entry else 0 := by
      cases is : label entry with
      | none => simp
      | some n =>
        have known := covered entry List.mem_cons_self n is
        simp [Finset.sum_ite_eq, known]
    simp only [tally_cons, Finset.sum_add_distrib]
    rw [one, ih fun other member => covered other (List.mem_cons_of_mem _ member)]

theorem tally_groups_le {bound : Nat}
    (each : ∀ n, tally (fun entry => if label entry = some n then f entry else 0) entries ≤ bound) :
    tally (fun entry => if (label entry).isSome then f entry else 0) entries ≤
      labels.card * bound := by
  rw [tally_groups covered]
  exact Finset.sum_le_card_nsmul labels _ bound fun n _ => each n

end Groups

/-! ### Counters -/

def counter (counts : List Nat) (i : Nat) : Nat := counts[i]?.getD 0

@[simp] theorem counter_nil (i : Nat) : counter [] i = 0 := rfl

theorem counter_modify {counts : List Nat} {i : Nat} (known : i < counts.length)
    (change : Nat → Nat) (j : Nat) :
    counter (counts.modify i change) j =
      if i = j then change (counter counts j) else counter counts j := by
  simp only [counter, List.getElem?_modify]
  by_cases same : i = j
  · subst same
    simp [List.getElem?_eq_getElem known]
  · simp [same]

theorem counter_append (counts : List Nat) (n j : Nat) :
    counter (counts ++ [n]) j = if j = counts.length then n else counter counts j := by
  simp only [counter, List.getElem?_append]
  rcases Nat.lt_trichotomy j counts.length with below | rfl | above
  · rw [if_pos below, if_neg (Nat.ne_of_lt below)]
  · simp
  · rw [if_neg (Nat.not_lt_of_gt above), if_neg (Nat.ne_of_gt above), List.getElem?_singleton,
      if_neg (Nat.sub_ne_zero_of_lt above), List.getElem?_eq_none (Nat.le_of_lt above)]

@[simp] theorem counter_length (counts : List Nat) : counter counts counts.length = 0 := by
  simp [counter]

/-- Raising the counters of a list of places, once for each occurrence. -/
def raise (counts : List Nat) (places : List Nat) : List Nat :=
  places.foldl (fun counts i => counts.modify i (· + 1)) counts

def lower (counts : List Nat) (places : List Nat) : List Nat :=
  places.foldl (fun counts i => counts.modify i (· - 1)) counts

@[simp] theorem length_raise (counts places : List Nat) :
    (raise counts places).length = counts.length := by
  induction places generalizing counts with
  | nil => rfl
  | cons i rest ih => simpa [raise] using ih (counts.modify i (· + 1))

@[simp] theorem length_lower (counts places : List Nat) :
    (lower counts places).length = counts.length := by
  induction places generalizing counts with
  | nil => rfl
  | cons i rest ih => simpa [lower] using ih (counts.modify i (· - 1))

theorem counter_raise {counts places : List Nat} (known : ∀ i ∈ places, i < counts.length)
    (j : Nat) : counter (raise counts places) j = counter counts j + places.count j := by
  induction places generalizing counts with
  | nil => rfl
  | cons i rest ih =>
    have step := @ih (counts.modify i (· + 1)) (fun k member => by
      simpa using known k (List.mem_cons_of_mem _ member))
    rw [counter_modify (known i List.mem_cons_self)] at step
    simp only [raise, List.foldl_cons] at step ⊢
    rw [step, List.count_cons]
    by_cases same : i = j
    · subst same
      simp
      omega
    · simp [same]

theorem counter_lower (counts places : List Nat) (j : Nat) :
    counter (lower counts places) j = counter counts j - places.count j := by
  induction places generalizing counts with
  | nil => rfl
  | cons i rest ih =>
    have step := ih (counts.modify i (· - 1))
    have one : counter (counts.modify i (· - 1)) j = counter counts j - if i = j then 1 else 0 := by
      by_cases known : i < counts.length
      · rw [counter_modify known]
        split <;> rfl
      · have unchanged : counts.modify i (· - 1) = counts := by
          rw [List.modify_eq_self (Nat.le_of_not_lt known)]
        rw [unchanged]
        split
        · next same =>
            subst same
            simp [counter, List.getElem?_eq_none (Nat.le_of_not_lt known)]
        · rfl
    simp only [lower, List.foldl_cons] at step ⊢
    rw [step, one, List.count_cons]
    by_cases same : i = j
    · subst same
      simp
      omega
    · simp [same]

theorem counter_raise_one {counts : List Nat} {i : Nat} (known : i < counts.length) (j : Nat) :
    counter (raise counts [i]) j = counter counts j + if i = j then 1 else 0 := by
  simp only [raise, List.foldl_cons, List.foldl_nil, counter_modify known]
  split <;> rfl

theorem counter_lower_one (counts : List Nat) (i j : Nat) :
    counter (lower counts [i]) j = counter counts j - if i = j then 1 else 0 := by
  rw [counter_lower, List.count_cons, List.count_nil, Nat.zero_add]
  simp only [beq_iff_eq]

theorem lower_raise_one (counts : List Nat) (i : Nat) : lower (raise counts [i]) [i] = counts := by
  simp only [lower, raise, List.foldl_cons, List.foldl_nil]
  refine List.ext_getElem? fun j => ?_
  simp only [List.getElem?_modify]
  cases counts[j]? with
  | none => simp
  | some n => by_cases same : i = j <;> simp [same]

theorem lt_length_of_counter {counts : List Nat} {i : Nat} (counted : counter counts i ≠ 0) :
    i < counts.length := by
  by_contra outside
  simp [counter, List.getElem?_eq_none (Nat.le_of_not_lt outside)] at counted

end QuickJSBun.Library
