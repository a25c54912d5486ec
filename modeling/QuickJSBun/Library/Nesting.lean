import Mathlib.Order.Lattice
import Mathlib.Order.BoundedOrder.Basic
import Mathlib.Data.List.Basic

/-! Nested scopes over a linear order: the tightest of several bounds, and state
transformers that put an observation back to where they found it. Nothing here
depends on what the bounds limit or on what the state holds.
-/

set_option autoImplicit false

namespace QuickJSBun.Library.Nesting

section Bounds
variable {T : Type} [LinearOrder T] [OrderTop T]

/-- The tightest of the bounds in force; no bound at all is the top element. -/
def tightest (bounds : List T) : T := bounds.foldr min ⊤

@[simp] theorem tightest_nil : tightest ([] : List T) = ⊤ := rfl

@[simp] theorem tightest_cons (bound : T) (bounds : List T) :
    tightest (bound :: bounds) = min bound (tightest bounds) := rfl

theorem tightest_le {bounds : List T} {bound : T} (member : bound ∈ bounds) :
    tightest bounds ≤ bound := by
  induction bounds with
  | nil => cases member
  | cons first rest ih =>
    rcases List.mem_cons.mp member with same | later
    · exact same ▸ min_le_left _ _
    · exact (min_le_right _ _).trans (ih later)

omit [OrderTop T] in
-- Lowering a bound only when the new one is smaller is taking the minimum.
theorem lower_eq_min (new old : T) : (if new < old then new else old) = min new old := by
  rcases lt_or_ge new old with below | above
  · rw [if_pos below, min_eq_left below.le]
  · rw [if_neg above.not_gt, min_eq_right above]

end Bounds

section Restoring
variable {S O : Type} (good : S → Prop) (observe : S → O)

/-- A transformer that keeps the invariant and returns to the observation it started from. -/
structure Restores (f : S → S) : Prop where
  keeps : ∀ s, good s → good (f s)
  returns : ∀ s, good s → observe (f s) = observe s

variable {good observe}

theorem Restores.id : Restores good observe (fun s => s) := ⟨fun _ h => h, fun _ _ => rfl⟩

theorem Restores.comp {f g : S → S} (first : Restores good observe f)
    (second : Restores good observe g) : Restores good observe (fun s => g (f s)) where
  keeps s h := second.keeps _ (first.keeps s h)
  returns s h := (second.returns _ (first.keeps s h)).trans (first.returns s h)

theorem Restores.ite {f g : S → S} (decided : S → Bool) (first : Restores good observe f)
    (second : Restores good observe g) :
    Restores good observe (fun s => if decided s then f s else g s) where
  keeps s h := by split <;> [exact first.keeps s h; exact second.keeps s h]
  returns s h := by split <;> [exact first.returns s h; exact second.returns s h]

end Restoring

end QuickJSBun.Library.Nesting
