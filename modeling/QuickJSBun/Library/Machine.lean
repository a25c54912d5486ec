import Mathlib.Logic.Basic

/-! Machines with a partial step function, the states they reach by steps that
meet a condition, and the rule that turns a step lemma into a run lemma.
-/

set_option autoImplicit false

namespace QuickJSBun.Library

/-- A machine refuses an event by answering `none`. -/
structure Machine (S E : Type) where
  init : S
  step : S → E → Option S

namespace Machine
variable {S E : Type} (m : Machine S E)

/-- The states of all runs whose steps meet the condition `allowed`. -/
inductive Reaches (allowed : S → E → Prop) : S → Prop where
  | init : Reaches allowed m.init
  | step {s s' : S} {e : E} :
      Reaches allowed s → allowed s e → m.step s e = some s' → Reaches allowed s'

/-- A run computed from its events; it stops when the machine refuses or the condition fails. -/
def run (allowed : S → E → Prop) [∀ s e, Decidable (allowed s e)] : S → List E → Option S
  | s, [] => some s
  | s, e :: rest => if allowed s e then (m.step s e).bind fun s => run allowed s rest else none

def Keeping (safe : S → Prop) (s : S) (e : E) : Prop := ∀ s', m.step s e = some s' → safe s'

/-- An invariant under a condition on the steps. -/
structure Invariant (allowed : S → E → Prop) (good : S → Prop) : Prop where
  init : good m.init
  step : ∀ {s s' : S} {e : E}, good s → allowed s e → m.step s e = some s' → good s'

variable {m} {allowed : S → E → Prop} {good : S → Prop}

theorem Invariant.reached {s : S} (kept : m.Invariant allowed good)
    (reaches : m.Reaches allowed s) : good s := by
  induction reaches with
  | init => exact kept.init
  | step _ meets steps ih => exact kept.step ih meets steps

theorem Reaches.mono {allowed' : S → E → Prop} {s : S} (weaker : ∀ s e, allowed s e → allowed' s e)
    (reaches : m.Reaches allowed s) : m.Reaches allowed' s := by
  induction reaches with
  | init => exact .init
  | step _ meets steps ih => exact ih.step (weaker _ _ meets) steps

section Keeping
variable {safe seen : S → Prop} (kept : m.Invariant (fun _ _ => True) good) (start : safe m.init)
  (shows : ∀ {s : S}, good s → safe s → seen s)
  (exact_ : ∀ {s s' : S} {e : E}, good s → safe s → m.step s e = some s' →
    (seen s' → allowed s e) ∧ (allowed s e → safe s'))
include kept start shows exact_

theorem Reaches.keeping {s : S} (reaches : m.Reaches allowed s) :
    m.Reaches (m.Keeping seen) s ∧ safe s := by
  induction reaches with
  | init => exact ⟨.init, start⟩
  | step _ meets steps ih =>
    have known := kept.reached (ih.1.mono fun _ _ _ => trivial)
    have still := (exact_ known ih.2 steps).2 meets
    have known' := kept.step known trivial steps
    refine ⟨ih.1.step (fun other same => ?_) steps, still⟩
    exact Option.some.inj (steps.symm.trans same) ▸ shows known' still

omit shows in
theorem Reaches.meets {s : S} (reaches : m.Reaches (m.Keeping seen) s) :
    m.Reaches allowed s ∧ safe s := by
  induction reaches with
  | init => exact ⟨.init, start⟩
  | step _ keeping steps ih =>
    have known := kept.reached (ih.1.mono fun _ _ _ => trivial)
    have meets := (exact_ known ih.2 steps).1 (keeping _ steps)
    exact ⟨ih.1.step meets steps, (exact_ known ih.2 steps).2 meets⟩

-- A step that shows a property meets a condition, and one that meets it keeps what the property
-- rests on: the runs that show the property in every state are those whose steps all meet the
-- condition.
theorem reaches_iff_showing {s : S} :
    (m.Reaches allowed s → seen s) ∧ (m.Reaches allowed s ↔ m.Reaches (m.Keeping seen) s) := by
  refine ⟨fun reaches => ?_, fun reaches => (reaches.keeping kept start shows exact_).1,
    fun reaches => (reaches.meets kept start exact_).1⟩
  exact shows (kept.reached (reaches.mono fun _ _ _ => trivial))
    (reaches.keeping kept start shows exact_).2

omit shows exact_ in
-- Where a step keeps a property exactly when it meets a condition, the runs that have the property
-- in every state are those whose steps all meet the condition.
theorem reaches_iff_keeping
    (exact_ : ∀ {s s' : S} {e : E}, good s → safe s → m.step s e = some s' →
      (safe s' ↔ allowed s e))
    {s : S} :
    (m.Reaches allowed s → safe s) ∧ (m.Reaches allowed s ↔ m.Reaches (m.Keeping safe) s) :=
  reaches_iff_showing kept start (fun _ safe => safe) fun known safe steps =>
    ⟨(exact_ known safe steps).mp, (exact_ known safe steps).mpr⟩

end Keeping

-- Where a step leaves the clean states exactly when it fails a condition, and no step comes back,
-- the clean runs are those whose steps all meet the condition.
theorem reaches_iff_clean {clean : S → Prop} (kept : m.Invariant (fun _ _ => True) good)
    (start : clean m.init) (exact_ : ∀ {s s' : S} {e : E}, good s → m.step s e = some s' →
      (clean s' ↔ clean s ∧ allowed s e))
    {s : S} : m.Reaches allowed s ↔ m.Reaches (fun _ _ => True) s ∧ clean s := by
  constructor
  · intro reaches
    induction reaches with
    | init => exact ⟨.init, start⟩
    | step _ meets steps ih =>
      refine ⟨ih.1.step trivial steps, ?_⟩
      exact (exact_ (kept.reached ih.1) steps).mpr ⟨ih.2, meets⟩
  · rintro ⟨reaches, ends⟩
    induction reaches with
    | init => exact .init
    | step before _ steps ih =>
      obtain ⟨still, meets⟩ := (exact_ (kept.reached before) steps).mp ends
      exact (ih still).step meets steps

theorem Reaches.run [∀ s e, Decidable (allowed s e)] {s s' : S} (events : List E)
    (reaches : m.Reaches allowed s) (runs : m.run allowed s events = some s') :
    m.Reaches allowed s' := by
  induction events generalizing s with
  | nil => exact Option.some.inj runs ▸ reaches
  | cons e rest ih =>
    simp only [Machine.run] at runs
    split at runs
    · next meets =>
        obtain ⟨next, steps, continues⟩ := Option.bind_eq_some_iff.mp runs
        exact ih (reaches.step meets steps) continues
    · cases runs

end Machine

end QuickJSBun.Library
