import Mathlib.Data.List.Basic
import Mathlib.Data.List.Nodup
import Mathlib.Logic.Function.Basic

/-! Lists whose members know their own position, and removal in constant time: the
last member takes the place of the one that leaves.
-/

set_option autoImplicit false

namespace QuickJSBun.Library

variable {α : Type}

/-- `slot` gives the position of each member of the list, and `none` for everything else. -/
def Slotted (entries : List α) (slot : α → Option Nat) : Prop :=
  ∀ i a, entries[i]? = some a ↔ slot a = some i

namespace Slotted
variable {entries : List α} {slot : α → Option Nat} (slotted : Slotted entries slot)
include slotted

theorem nodup : entries.Nodup := by
  rw [List.nodup_iff_injective_get]
  intro i j same
  have atI := (slotted i (entries.get i)).mp (List.getElem?_eq_getElem i.isLt)
  have atJ := (slotted j (entries.get j)).mp (List.getElem?_eq_getElem j.isLt)
  rw [same, atJ] at atI
  exact Fin.ext (Option.some.inj atI).symm

theorem mem_iff (a : α) : a ∈ entries ↔ (slot a).isSome := by
  rw [List.mem_iff_getElem?, Option.isSome_iff_exists]
  exact exists_congr fun i => slotted i a

-- Only the positions matter: an extensionally equal slot function will do.
theorem congr {slot' : α → Option Nat} (same : ∀ a, slot' a = slot a) : Slotted entries slot' :=
  fun i a =>
  (slotted i a).trans (by rw [same])

variable [DecidableEq α]

theorem push {a : α} (absent : slot a = none) :
    Slotted (entries ++ [a]) (Function.update slot a (some entries.length)) := by
  intro i b
  rw [List.getElem?_append]
  by_cases same : b = a
  · subst same
    have missing : entries[i]? ≠ some b := fun found => by
      have := (slotted i b).mp found
      simp [absent] at this
    rw [Function.update_self]
    split
    · next inside => simp only [missing, false_iff, Option.some.injEq]; omega
    · rw [List.getElem?_singleton]
      split
      · simp only [Option.some.injEq, true_iff]; omega
      · simp only [Option.some.injEq, reduceCtorEq, false_iff]; omega
  · rw [Function.update_of_ne same, ← slotted i b]
    split
    · rfl
    · next outside =>
        rw [List.getElem?_eq_none (Nat.le_of_not_lt outside), List.getElem?_singleton]
        split <;> simp [Ne.symm same]

theorem pop {a : α} (last : entries.getLast? = some a) :
    Slotted entries.dropLast (Function.update slot a none) := by
  intro i b
  have atLast : entries[entries.length - 1]? = some a := by rwa [List.getLast?_eq_getElem?] at last
  have slotLast := (slotted _ a).mp atLast
  rw [List.getElem?_dropLast]
  by_cases same : b = a
  · subst same
    rw [Function.update_self]
    split
    · next inside =>
        refine ⟨fun found => ?_, fun impossible => by cases impossible⟩
        have := (slotted i b).mp found
        rw [slotLast] at this
        simp only [Option.some.injEq] at this
        omega
    · simp
  · rw [Function.update_of_ne same, ← slotted i b]
    split
    · rfl
    · next outside =>
        refine ⟨fun impossible => by simp at impossible, fun found => ?_⟩
        have inside := (List.getElem?_eq_some_iff.mp found).1
        obtain rfl : i = entries.length - 1 := by omega
        exact absurd (Option.some.inj (found.symm.trans atLast)) same

-- The last member takes the place of another one.
theorem swapRemove {a last : α} {i : Nat} (here : slot a = some i)
    (atEnd : entries.getLast? = some last) (other : last ≠ a) :
    Slotted (entries.dropLast.set i last)
      (Function.update (Function.update slot a none) last (some i)) := by
  have popped := slotted.pop atEnd
  have atI := (slotted i a).mpr here
  have atLast : entries[entries.length - 1]? = some last := by
    rwa [List.getLast?_eq_getElem?] at atEnd
  have inside : i < entries.dropLast.length := by
    have bound := (List.getElem?_eq_some_iff.mp atI).1
    have notLast : i ≠ entries.length - 1 := by
      rintro rfl
      exact other (Option.some.inj (atLast.symm.trans atI))
    rw [List.length_dropLast]
    omega
  intro j b
  by_cases place : j = i
  · subst place
    rw [List.getElem?_set_self inside, Option.some.injEq]
    by_cases same : b = last
    · simp [same]
    · rw [Function.update_of_ne same]
      refine ⟨fun impossible => absurd impossible.symm same, fun found => ?_⟩
      by_cases removed : b = a
      · simp [removed] at found
      · rw [Function.update_of_ne removed, ← slotted] at found
        exact absurd (Option.some.inj (found.symm.trans atI)) removed
  · rw [List.getElem?_set_ne (Ne.symm place), popped j b]
    by_cases same : b = last
    · subst same
      simp [Ne.symm place]
    · rw [Function.update_of_ne same, Function.update_of_ne same]
      by_cases removed : b = a
      · subst removed
        simp [here, Ne.symm place]
      · rw [Function.update_of_ne removed]

end Slotted

end QuickJSBun.Library
