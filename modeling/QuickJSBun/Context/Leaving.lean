import QuickJSBun.Context.Conserving

/-! What a function owes while it has handles of its own, and while it is on its way out with an exception:
the handles in `kept` may be disposed, and disposing them settles it.
-/

set_option autoImplicit false

namespace QuickJSBun.Context

open Library Effect

variable {σ V α : Type}

section
variable {flight : List Nat} {w w' w'' : World σ} {e : HostValue V}

theorem Made.fresh {h : JSValue} (made : Made w w' h) : Fresh w w' h := by
  obtain ⟨above, kept, value, found⟩ := made
  exact ⟨(List.getElem?_eq_some_iff.mp found).1, .inl ⟨above, kept⟩⟩

theorem Made.step {h : JSValue} {left : JSValue → Prop} (made : Made w w' h)
    (step : Step w' w'' nobody left) : Made w w'' h := by
  obtain ⟨above, kept, value, found⟩ := made
  refine ⟨above, fun lost => ?_, value, ?_⟩
  · rcases step.lost h lost with earlier | outside
    · exact kept earlier
    · exact absurd (List.getElem?_eq_some_iff.mp found).1 (Nat.not_lt.mpr outside)
  · obtain same | ⟨exposed | freed, -⟩ := step.handles h _ found
    · exact same
    · cases exposed
    · exact freed.elim

theorem Fresh.earlier {h : JSValue} {left : JSValue → Prop} (fresh : Fresh w' w'' h)
    (step : Step w w' nobody left) : Fresh w w'' h :=
  ⟨fresh.1, fresh.2.imp (fun new => ⟨Nat.le_trans step.length_le new.1, new.2⟩) id⟩

/-- New handles are left, and those of `kept` may be disposed. -/
structure Leaving (flight : List Nat) (w : World σ) (left : JSValue → Prop) (kept : List JSValue)
    (w' : World σ) : Prop where
  sound : Sound flight w'
  step : Step w w' nobody fun h => h ∈ kept ∨ left h
  fresh : ∀ h ∈ kept, Fresh w w' h

theorem Leaving.quiet {left : JSValue → Prop} {kept : List JSValue}
    (leaving : Leaving flight w left kept w') (sound : Sound flight w'')
    (step : Step w' w'' nobody nobody) : Leaving flight w left kept w'' where
  sound := sound
  step :=
    (leaving.step.trans step).weaken (fun _ _ freed => freed.elim id id) fun _ _ _ _ leftOver =>
      leftOver.resolve_right id
  fresh h member := (leaving.fresh h member).step step

/-- What the walk throws, and its own handle. -/
structure Fleeing (flight : List Nat) (w : World σ) (kept : List JSValue) (e : HostValue V)
    (w' : World σ) : Prop
    extends Leaving flight w (carried e) kept w' where
  yields : ∀ h ∈ e.handles, New w w' h ∨ ∃ handle, w'.handles[h]? = some handle ∧
    (handle.exposed = true ∨ handle.owned = false)

theorem Fleeing.quiet {kept : List JSValue} (fleeing : Fleeing flight w kept e w')
    (sound : Sound flight w'') (step : Step w' w'' nobody nobody) :
    Fleeing flight w kept e w'' where
  toLeaving := fleeing.toLeaving.quiet sound step
  yields h member := (fleeing.yields h member).imp (·.step step) step.known

theorem Leaving.throws {kept : List JSValue} (leaving : Leaving flight w nobody kept w')
    (sound : Sound flight w'') (throws : Throws e w' w'') : Fleeing flight w kept e w'' where
  sound := sound
  step :=
    (leaving.step.trans throws.step).weaken (fun _ _ freed => freed.elim id id)
      fun _ _ _ _ leftOver =>
    leftOver.imp (·.resolve_right id) id
  fresh h member := (leaving.fresh h member).step throws.step
  yields h member := (throws.yields h member).imp (·.earlier leaving.step.length_le) id

theorem Leaving.plain {kept : List JSValue} (leaving : Leaving flight w nobody kept w')
    (plain : e.handles = []) : Fleeing flight w kept e w' :=
  leaving.throws leaving.sound (.plain (Step.refl w') plain)

end

theorem dispose_returns (engine : Engine σ) (h : JSValue) :
    Returns (dispose engine h : Run σ V Unit) :=
  Returns.bind Returns.get fun _ =>
    Returns.ite (Returns.pure ()) (Returns.bind (Returns.modify _) fun _ =>
    Returns.ite (Returns.lift _) (Returns.pure ()))

-- An exposed handle may be disposed by anybody.
theorem Step.exposed {w w' : World σ} {h : JSValue} {left : JSValue → Prop}
    (step : Step w w' (· = h) left) {handle : Handle} (found : w.handles[h]? = some handle)
    (exposed : handle.exposed = true) : Step w w' nobody left where
  cells := step.cells
  handles k other at_k := by
    refine (step.handles k other at_k).imp id fun marked => ⟨.inl ?_, marked.2⟩
    rcases marked.1 with same | rfl
    · exact same
    · obtain rfl := Option.some.inj (at_k.symm.trans found)
      exact exposed
  created := step.created
  undescribed := step.undescribed
  lost := step.lost
  hostDepth := step.hostDepth
  inOutOfMemory := step.inOutOfMemory

section
variable {engine : LawfulEngine σ} {flight : List Nat} {w : World σ}

theorem Released.unlisted {w : World σ} {h : JSValue} (released : Released w h) {handle : Handle}
    (found : w.handles[h]? = some handle) (listed : handle.listed = true) : False := by
  simp only [Handle.listed, Bool.and_eq_true, Bool.not_eq_true'] at listed
  rcases released handle found with gone | unowned
  · simp [gone] at listed
  · simp [unowned] at listed

-- The exception that another one replaces is disposed, also one that host code has.
theorem Fleeing.disposed {kept : List JSValue} {e : HostValue V} {w' : World σ}
    (fleeing : Fleeing flight w kept e w') :
    Triple (· = w') (disposeException (V := V) engine.toEngine e)
      (fun _ s => Leaving flight w nobody kept s)
      (fun _ _ => False) := by
  cases e with
  | exception h name message =>
    refine (?_ : Triple (· = w') (dispose (V := V) engine.toEngine h) _ _)
    have first : Step w w' nobody fun k => k = h ∨ k ∈ kept ∨ nobody k :=
      fleeing.step.weaken (fun _ _ freed => freed) fun _ _ _ _ leftOver => leftOver.symm.imp id .inl
    have still {s : World σ} {freed : JSValue → Prop} (step : Step w' s freed nobody) (k : JSValue)
        (member : k ∈ kept) : Fresh w s k :=
      (fleeing.fresh k member).step step
    have owned (fresh : Fresh w w' h) : Triple (· = w') (dispose (V := V) engine.toEngine h)
        (fun _ s => Leaving flight w nobody kept s) (fun _ _ => False) :=
      (dispose_left engine fleeing.sound first fresh).weaken (fun _ same => same)
        (fun _ _ ends => ⟨ends.1, ends.2.1, still ends.2.2⟩) fun _ _ never => never
    rcases fleeing.yields h List.mem_cons_self with new | ⟨handle, found, exposed | unowned⟩
    · exact owned ⟨new.2.1, .inl ⟨new.1, new.2.2⟩⟩
    · have known : h ∉ w'.undescribed := fun lost => by
        obtain ⟨value, its⟩ := fleeing.sound.lost h lost
        obtain rfl := Option.some.inj (found.symm.trans its)
        cases exposed
      refine (dispose_frees engine h fleeing.sound (.inl known)).weaken (fun _ same => same)
        (fun _ s ends => ?_)
        fun _ _ never => never
      obtain ⟨later, step, released⟩ := ends
      have frees : Step w' s (· = h) nobody :=
        step.weaken (fun _ _ freed => freed.1) fun _ _ _ _ leftOver => leftOver
      refine ⟨later,
        (first.trans (frees.exposed found exposed)).weaken (fun _ _ freed => freed.elim id id)
        fun k its at_k listed leftOver => ?_, still step⟩
      rcases leftOver.resolve_right id with rfl | other
      · exact (released.unlisted at_k listed).elim
      · exact other
    · exact owned ⟨(List.getElem?_eq_some_iff.mp found).1, .inr fun other at_h => .inr <| by
        obtain rfl := Option.some.inj (found.symm.trans at_h)
        exact unowned⟩
  | _ =>
    refine Triple.pure () fun s isW => ?_
    subst isW
    exact ⟨fleeing.sound, fleeing.step, fleeing.fresh⟩

theorem Leaving.disposed {left : JSValue → Prop} {kept : List JSValue} {w' : World σ}
    (leaving : Leaving flight w left kept w') :
    Triple (· = w') (Effect.forEach (dispose (V := V) engine.toEngine) kept)
      (fun _ s => Sound flight s ∧ Step w s nobody left ∧ Step w' s (· ∈ kept) nobody)
        (fun _ _ => False) := by
  induction kept generalizing w' with
  | nil =>
    refine Triple.pure () fun s isW => ?_
    subst isW
    refine ⟨leaving.sound, leaving.step.weaken (fun _ _ freed => freed) fun _ _ _ _ leftOver =>
      leftOver.resolve_left nofun, ?_⟩
    exact (Step.refl s).weaken (fun _ _ freed => freed.elim) fun _ _ _ _ leftOver => leftOver
  | cons h rest ih =>
    have first : Step w w' nobody fun k => k = h ∨ k ∈ rest ∨ left k :=
      leaving.step.weaken (fun _ _ freed => freed) fun _ _ _ _ leftOver => by
        rcases leftOver with member | other
        · exact (List.mem_cons.mp member).imp id .inl
        · exact .inr (.inr other)
    refine Triple.bind
      (dispose_left engine leaving.sound first (leaving.fresh h List.mem_cons_self)) fun _ =>
        Triple.each fun s ends => ?_
    obtain ⟨later, done, disposed⟩ := ends
    have others :=
      ih ⟨later, done, fun k member =>
        (leaving.fresh k (List.mem_cons_of_mem _ member)).step disposed⟩
    refine others.weaken (fun _ same => same) (fun _ s' ends => ⟨ends.1, ends.2.1, ?_⟩)
      fun _ _ never => never
    exact (disposed.trans ends.2.2).weaken (fun _ _ freed => List.mem_cons.mpr freed)
      fun _ _ _ _ leftOver => leftOver.elim id id

end

end QuickJSBun.Context
