import Mathlib.Data.List.Basic
import Mathlib.Data.List.Nodup

/-! Pools with recycled numbers: a table of optional entries and a stack of the
numbers whose entry is empty. Taking a number reuses the last one given back.
-/

set_option autoImplicit false

namespace QuickJSBun.Library

structure Pool (α : Type) where
  entries : List (Option α)
  free : List Nat
  deriving DecidableEq, Repr

namespace Pool
variable {α : Type}

def empty : Pool α := ⟨[], []⟩

def lookup (pool : Pool α) (id : Nat) : Option α := (pool.entries[id]?).join

/-- The number the next `take` hands out. -/
def next (pool : Pool α) : Nat := pool.free.headD pool.entries.length

def take (pool : Pool α) (value : α) : Pool α :=
  match pool.free with
  | [] => ⟨pool.entries ++ [some value], []⟩
  | id :: rest => ⟨pool.entries.set id (some value), rest⟩

-- Giving back an empty number has no effect.
def give (pool : Pool α) (id : Nat) : Pool α :=
  match pool.lookup id with
  | none => pool
  | some _ => ⟨pool.entries.set id none, id :: pool.free⟩

/-- The stack holds each empty number once, and no other number. -/
structure WellFormed (pool : Pool α) : Prop where
  nodup : pool.free.Nodup
  exact : ∀ id, id ∈ pool.free ↔ pool.entries[id]? = some none

theorem wellFormed_empty : (empty : Pool α).WellFormed := ⟨List.nodup_nil, by simp [empty]⟩

theorem lookup_eq_some {pool : Pool α} {id : Nat} {value : α} :
    pool.lookup id = some value ↔ pool.entries[id]? = some (some value) := by
  simp [lookup, Option.join_eq_some_iff]

section Take
variable {pool : Pool α} (wellFormed : pool.WellFormed) (value : α)
include wellFormed

theorem lookup_next : pool.lookup pool.next = none := by
  cases stack : pool.free with
  | nil => simp [lookup, next, stack]
  | cons id rest =>
    have isEmpty := (wellFormed.exact id).mp (stack ▸ List.mem_cons_self)
    simp [lookup, next, stack, isEmpty]

theorem lookup_take (id : Nat) :
    (pool.take value).lookup id = if id = pool.next then some value else pool.lookup id := by
  cases stack : pool.free with
  | nil =>
    simp only [take, stack, lookup, next, List.headD_nil]
    rcases Nat.lt_trichotomy id pool.entries.length with below | same | above
    · simp [List.getElem?_append_left below, Nat.ne_of_lt below]
    · simp [same]
    · rw [List.getElem?_eq_none (by simp; omega), List.getElem?_eq_none (by omega),
        if_neg (Nat.ne_of_gt above)]
  | cons top rest =>
    have isEmpty := (wellFormed.exact top).mp (stack ▸ List.mem_cons_self)
    have inside := (List.getElem?_eq_some_iff.mp isEmpty).1
    simp only [take, stack, lookup, next, List.headD_cons]
    by_cases same : id = top
    · simp [same, List.getElem?_set_self inside]
    · simp [same, List.getElem?_set_ne (Ne.symm same)]

theorem WellFormed.take : (pool.take value).WellFormed := by
  cases stack : pool.free with
  | nil =>
    refine ⟨by simp [Pool.take, stack], fun id => ?_⟩
    have noneEmpty : pool.entries[id]? ≠ some none := fun found => by
      simpa [stack] using (wellFormed.exact id).mpr found
    simp only [Pool.take, stack, List.not_mem_nil, false_iff]
    rw [List.getElem?_append]
    split
    · exact noneEmpty
    · rw [List.getElem?_singleton]
      split <;> simp
  | cons top rest =>
    have distinct := List.nodup_cons.mp (stack ▸ wellFormed.nodup)
    have isEmpty := (wellFormed.exact top).mp (stack ▸ List.mem_cons_self)
    have inside := (List.getElem?_eq_some_iff.mp isEmpty).1
    refine ⟨by simpa [Pool.take, stack] using distinct.2, fun id => ?_⟩
    simp only [Pool.take, stack]
    by_cases same : id = top
    · subst same
      simp [List.getElem?_set_self inside, distinct.1]
    · rw [List.getElem?_set_ne (Ne.symm same), ← wellFormed.exact id, stack]
      simp [same]

end Take

section Give
variable {pool : Pool α}

theorem lookup_give (id other : Nat) :
    (pool.give id).lookup other = if other = id then none else pool.lookup other := by
  unfold give
  split
  · next isEmpty =>
      split
      · next same => exact same ▸ isEmpty
      · rfl
  · next value found =>
      have inside := (List.getElem?_eq_some_iff.mp (lookup_eq_some.mp found)).1
      by_cases same : other = id
      · simp [lookup, same, List.getElem?_set_self inside]
      · simp [lookup, same, List.getElem?_set_ne (Ne.symm same)]

theorem WellFormed.give (wellFormed : pool.WellFormed) (id : Nat) : (pool.give id).WellFormed := by
  unfold Pool.give
  split
  · exact wellFormed
  · next value found =>
      have at_ := lookup_eq_some.mp found
      have inside := (List.getElem?_eq_some_iff.mp at_).1
      refine ⟨List.nodup_cons.mpr ⟨fun member => ?_, wellFormed.nodup⟩, fun other => ?_⟩
      · have isEmpty := (wellFormed.exact id).mp member
        simp [at_] at isEmpty
      · by_cases same : other = id
        · simp [same, List.getElem?_set_self inside]
        · simp [same, List.getElem?_set_ne (Ne.symm same), wellFormed.exact]

end Give

end Pool

end QuickJSBun.Library
