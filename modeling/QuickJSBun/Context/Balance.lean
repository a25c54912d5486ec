import QuickJSBun.Context.Lawful

/-! The library's functions keep the books: whatever the engine and the host do meanwhile,
the handles a function makes are disposed when it ends, except the one it returns
and those of exceptions. One rule for each way the functions are put together.
-/

set_option autoImplicit false

namespace QuickJSBun.Context

open Library Effect

variable {σ V α β : Type}

/-- The handle of a thrown `JSException`. -/
def carried (error : HostValue V) : JSValue → Prop := fun h =>
  match error with
  | .exception value _ _ => h = value
  | _ => False

-- A new handle that may be disposed.
def New (w w' : World σ) (h : JSValue) : Prop :=
  w.handles.length ≤ h ∧ h < w'.handles.length ∧ h ∉ w'.undescribed

/-- What is thrown has its own handle only, or handles that host code has. -/
structure Throws (e : HostValue V) (w w' : World σ) : Prop where
  step : Step w w' nobody (carried e)
  yields : ∀ h ∈ e.handles, New w w' h ∨
    ∃ handle, w'.handles[h]? = some handle ∧ (handle.exposed = true ∨ handle.owned = false)

/-- A function that keeps the books whatever else is on the way; `post` relates its worlds when it
returns. -/
def Ends (x : Run σ V α) (post : α → World σ → World σ → Prop) : Prop :=
  ∀ flight w, Sound flight w →
    Triple (· = w) x (fun a w' => Sound flight w' ∧ post a w w')
      (fun e w' => Sound flight w' ∧ Throws e w w')

-- A function that leaves no handle behind.
def Quiet (x : Run σ V α) : Prop := Ends x fun _ w w' => Step w w' nobody nobody

/-- A handle whose `dispose` does nothing, if it is one. -/
def Released (w : World σ) (h : JSValue) : Prop :=
  ∀ handle, w.handles[h]? = some handle → handle.disposed = true ∨ handle.owned = false

-- A handle that a function has made and may dispose.
def Fresh (w w' : World σ) (h : JSValue) : Prop :=
  h < w'.handles.length ∧ (w.handles.length ≤ h ∧ h ∉ w'.undescribed ∨ Released w' h)

/-- A function that leaves no handle but the one it returns, which is new or one that nobody has to
dispose. -/
def Makes (x : Run σ V JSValue) : Prop :=
  Ends x fun h w w' => Step w w' nobody (· = h) ∧ Fresh w w' h

-- The handle is new and nobody else has it.
def Made (w w' : World σ) (h : JSValue) : Prop :=
  w.handles.length ≤ h ∧ h ∉ w'.undescribed ∧
    ∃ value, w'.handles[h]? = some ⟨false, value, true, false, false⟩

def MakesNew (x : Run σ V JSValue) : Prop :=
  Ends x fun h w w' => Step w w' nobody (· = h) ∧ Made w w' h

theorem MakesNew.makes {x : Run σ V JSValue} (made : MakesNew x) : Makes x := fun flight w sound =>
  (made flight w sound).weaken (fun _ same => same)
    (fun _ _ ends => by
      obtain ⟨later, step, above, kept, value, found⟩ := ends
      exact ⟨later, step, (List.getElem?_eq_some_iff.mp found).1, .inl ⟨above, kept⟩⟩)
    (fun _ _ ends => ends)

theorem Step.any {w w' : World σ} {left : JSValue → Prop} (step : Step w w' nobody nobody) :
    Step w w' nobody left :=
  step.weaken (fun _ _ freed => freed) (fun _ _ _ _ leftOver => leftOver.elim)

-- A handle that is exposed or has no owner stays so.
theorem Step.known {w w' : World σ} {freed left : JSValue → Prop} (step : Step w w' freed left)
    {h : JSValue} (known : ∃ handle, w.handles[h]? = some handle ∧
      (handle.exposed = true ∨ handle.owned = false)) :
    ∃ handle, w'.handles[h]? = some handle ∧ (handle.exposed = true ∨ handle.owned = false) := by
  obtain ⟨handle, found, its⟩ := known
  obtain same | ⟨-, same⟩ := step.handles h handle found
  · exact ⟨handle, same, its⟩
  · exact ⟨_, same, its⟩

theorem New.earlier {w w' w'' : World σ} {h : JSValue} (new : New w' w'' h)
    (longer : w.handles.length ≤ w'.handles.length) : New w w'' h :=
  ⟨Nat.le_trans longer new.1, new.2⟩

theorem New.step {w w' w'' : World σ} {h : JSValue} {freed left : JSValue → Prop} (new : New w w' h)
    (step : Step w' w'' freed left) : New w w'' h := by
  refine ⟨new.1, Nat.lt_of_lt_of_le new.2.1 step.length_le, fun member => ?_⟩
  rcases step.lost h member with earlier | above
  · exact new.2.2 earlier
  · exact absurd new.2.1 (Nat.not_lt.mpr above)

theorem Throws.after {w w' w'' : World σ} {e : HostValue V} (throws : Throws e w' w'')
    (step : Step w w' nobody nobody) : Throws e w w'' :=
  ⟨step.trans_quiet throws.step, fun h member =>
    (throws.yields h member).imp (·.earlier step.length_le) id⟩

theorem Throws.known {w w' : World σ} {e : HostValue V} (step : Step w w' nobody nobody)
    (known : Known w' e) : Throws e w w' :=
  ⟨step.any, fun h member => .inr (known h member)⟩

theorem Throws.plain {w w' : World σ} {e : HostValue V} (step : Step w w' nobody nobody)
    (plain : e.handles = []) : Throws e w w' :=
  ⟨step.any, fun h member => by rw [plain] at member; cases member⟩

theorem Quiet.pure (a : α) : Quiet (Pure.pure a : Run σ V α) := fun flight w sound => by
  refine Triple.pure a fun s isW => ?_
  subst isW
  exact ⟨sound, Step.refl s⟩

-- The library's own errors have no handle.
theorem Ends.throw {post : α → World σ → World σ → Prop} {e : HostValue V}
    (plain : e.handles = []) : Ends (Effect.throw e : Run σ V α) post := fun flight w sound => by
  refine Triple.throw e fun s isW => ?_
  subst isW
  exact ⟨sound, .plain (Step.refl s) plain⟩

theorem Quiet.check (condition : Bool) {e : HostValue V} (plain : e.handles = []) :
    Quiet (Effect.check condition e : Run σ V Unit) := by
  cases condition with
  | true => exact Quiet.pure ()
  | false => exact Ends.throw plain

theorem Ends.get {f : World σ → Run σ V β} {post : β → World σ → World σ → Prop}
    (next : ∀ w, Ends (f w) post) : Ends (Effect.get >>= f) post := fun flight w sound => by
  refine Triple.bind (Q := fun a w' => a = w ∧ w' = w)
    (Triple.get fun _ same => ⟨same, same⟩) fun a => ?_
  refine Triple.each fun w' both => ?_
  obtain ⟨rfl, rfl⟩ := both
  exact next _ flight _ sound

theorem Ends.bind {x : Run σ V α} {f : α → Run σ V β} {post : β → World σ → World σ → Prop}
    (closed : ∀ b w w' w'', Step w w' nobody nobody → post b w' w'' → post b w w'')
    (first : Quiet x) (next : ∀ a, Ends (f a) post) : Ends (x >>= f) post :=
  fun flight w sound => by
  refine Triple.bind (first flight w sound) fun a => Triple.each fun w' ⟨later, step⟩ => ?_
  exact (next a flight w' later).weaken (fun _ same => same)
    (fun b w'' ends => ⟨ends.1, closed b w w' w'' step ends.2⟩)
    (fun e w'' ends => ⟨ends.1, ends.2.after step⟩)

theorem Quiet.bind {x : Run σ V α} {f : α → Run σ V β} (first : Quiet x) (next : ∀ a, Quiet (f a)) :
    Quiet (x >>= f) :=
  Ends.bind (fun _ _ _ _ step ends => step.trans_quiet ends) first next

theorem Makes.bind {x : Run σ V α} {f : α → Run σ V JSValue} (first : Quiet x)
    (next : ∀ a, Makes (f a)) : Makes (x >>= f) :=
  Ends.bind (fun _ _ _ _ step ends =>
    ⟨step.trans_quiet ends.1, ends.2.1,
      ends.2.2.imp (fun new => ⟨Nat.le_trans step.length_le new.1, new.2⟩) id⟩)
    first next

theorem MakesNew.bind {x : Run σ V α} {f : α → Run σ V JSValue} (first : Quiet x)
    (next : ∀ a, MakesNew (f a)) : MakesNew (x >>= f) :=
  Ends.bind (fun _ _ _ _ step ends =>
    ⟨step.trans_quiet ends.1, Nat.le_trans step.length_le ends.2.1, ends.2.2⟩) first next

theorem Quiet.ite {condition : Prop} [Decidable condition] {x y : Run σ V α} (yes : Quiet x)
    (no : Quiet y) : Quiet (if condition then x else y) := by
  split
  · exact yes
  · exact no

theorem Quiet.forEach {body : β → Run σ V Unit} {items : List β}
    (round : ∀ item, Quiet (body item)) : Quiet (Effect.forEach body items) := by
  induction items with
  | nil => exact Quiet.pure ()
  | cons item rest ih => exact Quiet.bind (round item) fun _ => ih

-- Fields that neither cells nor handles depend on.
theorem Quiet.modify {f : World σ → World σ}
    (same : ∀ w : World σ, (f w).cells = w.cells ∧ (f w).references = w.references ∧
      (f w).engine = w.engine ∧ (f w).handles = w.handles ∧ (f w).undescribed = w.undescribed ∧
      (f w).hostDepth = w.hostDepth ∧ (f w).inOutOfMemory = w.inOutOfMemory) :
    Quiet (Effect.modify f : Run σ V Unit) := fun flight w sound => by
  refine Triple.modify fun s isW => ?_
  subst isW
  obtain ⟨cells, references, engine, handles, undescribed, hostDepth, inOutOfMemory⟩ := same s
  have step := Step.refl s
  refine ⟨⟨?_, ?_, ?_, ?_, ?_, ?_, ?_, ?_⟩, ⟨?_, ?_, ?_, ?_, ?_, hostDepth, inOutOfMemory⟩⟩
  · simpa only [references, cells] using sound.references_length
  · simpa only [engine, cells] using sound.engine_length
  · simpa only [references, engine, World.held, handles] using sound.accounts
  · simpa only [references, World.address, cells] using sound.distinct
  · simpa only [references, World.address, cells] using sound.nonzero
  · simpa only [handles] using sound.owned
  · simpa only [handles] using sound.constants
  · simpa only [handles, undescribed] using sound.lost
  · simpa only [cells] using step.cells
  · simpa only [handles] using step.handles
  · simpa only [handles, undescribed] using step.created
  · simpa only [undescribed] using step.undescribed
  · simpa only [handles, undescribed] using step.lost

/-! ### Natives and handles -/

variable (engine : LawfulEngine σ)

theorem quiet_call {native : Native} (consumes : native.consumed = [])
    (gives : ∀ w, native.given (engine.call native w).1 = []) :
    Quiet (V := V) (call engine.toEngine native) :=
  fun flight w sound => by
    refine Triple.lift fun s isW => ?_
    subst isW
    have acts := (engine.acts native flight s (by rwa [consumes])).frame flight
    rw [consumes, gives] at acts
    exact acts.kept sound

/-- A native that gives a value, which becomes a handle or an exception at once. -/
def Gives (x : Run σ V Value) : Prop :=
  ∀ flight w, Sound flight w →
    Triple (· = w) x (fun value w' => Sound (value.cells ++ flight) w' ∧ Step w w' nobody nobody)
      (fun e w' => Sound flight w' ∧ Throws e w w')

theorem lost_append {w : World σ} {flight : List Nat} (sound : Sound flight w) (handle : Handle) :
    ∀ h ∈ w.undescribed, ∃ value,
    (w.handles ++ [handle])[h]? = some ⟨false, value, true, false, false⟩ := by
  intro h member
  obtain ⟨value, found⟩ := sound.lost h member
  exact ⟨value, (List.getElem?_append_left (List.getElem?_eq_some_iff.mp found).1).trans found⟩

theorem sound_handle {w : World σ} {value : Value} {flight : List Nat}
    (sound : Sound (value.cells ++ flight) w) (exposed : Bool) :
    Sound flight { w with handles := w.handles ++ [⟨false, value, true, exposed, false⟩] } where
  references_length := sound.references_length
  engine_length := sound.engine_length
  accounts cell := by
    have accounts := sound.accounts cell
    simp only [World.held, tally_append, tally_cons, tally_nil, Handle.holds, Bool.not_false,
      Bool.and_self, if_true, List.count_append] at accounts ⊢
    omega
  distinct := sound.distinct
  nonzero := sound.nonzero
  owned h handle found shared := by
    rcases Nat.lt_or_ge h w.handles.length with inside | outside
    · exact sound.owned h handle ((List.getElem?_append_left inside).symm.trans found) shared
    · rw [List.getElem?_append_right outside, List.getElem?_singleton] at found
      split at found
      · exact Option.some.inj found ▸ rfl
      · cases found
  constants h handle isConstant := by
    have found := sound.constants h handle isConstant
    exact (List.getElem?_append_left (List.getElem?_eq_some_iff.mp found).1).trans found
  lost := lost_append sound _

theorem step_handle (w : World σ) (handle : Handle) :
    Step w { w with handles := w.handles ++ [handle] } nobody (· = w.handles.length) where
  cells := List.prefix_rfl
  handles h other found :=
    .inl ((List.getElem?_append_left (List.getElem?_eq_some_iff.mp found).1).trans found)
  created h other above found _ := by
    have bound := (List.getElem?_eq_some_iff.mp found).1
    rw [List.length_append, List.length_singleton] at bound
    exact .inr (.inl (Nat.le_antisymm (Nat.lt_succ_iff.mp bound) above))
  undescribed := List.suffix_rfl
  lost _ member := .inl member
  hostDepth := rfl
  inOutOfMemory := rfl

-- A handle of a cell that holds no value is not listed.
theorem step_exception (w : World σ) :
    Step w { w with handles := w.handles ++ [⟨false, .exception, true, false, false⟩] }
      nobody nobody :=
  (step_handle w _).weaken (fun _ _ freed => freed) fun h handle found listed isNew => by
    subst isNew
    obtain rfl : (⟨false, .exception, true, false, false⟩ : Handle) = handle := by simpa using found
    simp [Handle.listed, Value.tag] at listed

theorem new_not_lost {flight : List Nat} {w : World σ} (sound : Sound flight w) :
    w.handles.length ∉ w.undescribed := by
  intro member
  obtain ⟨value, found⟩ := sound.lost _ member
  exact absurd (List.getElem?_eq_some_iff.mp found).1 (Nat.lt_irrefl _)

theorem makesNew_newHandle {x : Run σ V Value} (gives : Gives x) :
    MakesNew (x >>= fun value => newHandle value true) :=
  fun flight w sound => by
    refine Triple.bind (gives flight w sound) fun value => Triple.each fun w' ⟨given, step⟩ => ?_
    refine Triple.lift fun s isW => ?_
    subst isW
    refine ⟨sound_handle given false, step.trans_quiet (step_handle s _), step.length_le,
      new_not_lost given, value, ?_⟩
    simp

theorem makesNew_plain {value : Value} (plain : value.cells = []) :
    MakesNew (newHandle value true : Run σ V JSValue) :=
  fun flight w sound => by
    refine Triple.lift fun s isW => ?_
    subst isW
    refine ⟨sound_handle (by rwa [plain]) false, step_handle s _, Nat.le_refl _,
      new_not_lost sound, value, ?_⟩
    simp

theorem makes_unowned {value : Value} (plain : value.cells = []) :
    Makes (newHandle value false : Run σ V JSValue) :=
  fun flight w sound => by
    refine Triple.lift fun s isW => ?_
    subst isW
    refine ⟨⟨sound.references_length, sound.engine_length, fun cell => ?_, sound.distinct,
      sound.nonzero,
      fun h handle found shared => ?_, fun h handle isConstant => ?_, lost_append sound _⟩,
      step_handle s _, by simp, .inl ⟨Nat.le_refl _, new_not_lost sound⟩⟩
    · simpa [World.held, Handle.holds] using sound.accounts cell
    · rcases Nat.lt_or_ge h s.handles.length with inside | outside
      · exact sound.owned h handle ((List.getElem?_append_left inside).symm.trans found) shared
      · rw [List.getElem?_append_right outside, List.getElem?_singleton] at found
        split at found
        · exact absurd (Option.some.inj found ▸ plain) shared
        · cases found
    · have found := sound.constants h handle isConstant
      exact (List.getElem?_append_left (List.getElem?_eq_some_iff.mp found).1).trans found

/-- The world in which a handle is marked, and its reference is on the way to the engine. -/
def World.mark (w : World σ) (h : JSValue) (handle : Handle) : World σ :=
  { w with handles := w.handles.set h { handle with disposed := true } }

theorem mark_gone {w : World σ} {h : JSValue} {handle : Handle}
    (found : w.handles[h]? = some handle) :
    (w.mark h handle).handles[h]? = some { handle with disposed := true } :=
  List.getElem?_set_self (List.getElem?_eq_some_iff.mp found).1

theorem mark_other (w : World σ) {h k : JSValue} (handle : Handle) (different : k ≠ h) :
    (w.mark h handle).handles[k]? = w.handles[k]? :=
  List.getElem?_set_ne (Ne.symm different)

theorem step_mark {w : World σ} {h : JSValue} {handle : Handle}
    (found : w.handles[h]? = some handle) : Step w (w.mark h handle) (· = h) nobody where
  cells := List.prefix_rfl
  handles k other at_k := by
    by_cases isThis : k = h
    · subst isThis
      obtain rfl := Option.some.inj (found.symm.trans at_k)
      exact .inr ⟨.inr rfl, mark_gone found⟩
    · exact .inl ((mark_other w handle isThis).trans at_k)
  created k other above at_k _ := by
    have inside := (List.getElem?_eq_some_iff.mp at_k).1
    rw [World.mark, List.length_set] at inside
    exact absurd inside (Nat.not_lt.mpr above)
  undescribed := List.suffix_rfl
  lost _ member := .inl member
  hostDepth := rfl
  inOutOfMemory := rfl

theorem sound_mark {w : World σ} {flight : List Nat} (sound : Sound flight w) {h : JSValue}
    {handle : Handle} (found : w.handles[h]? = some handle) (owned : handle.owned = true)
    (alive : handle.disposed = false) (kept : h ∉ w.undescribed) :
    Sound (handle.value.cells ++ flight) (w.mark h handle) where
  references_length := sound.references_length
  engine_length := sound.engine_length
  accounts cell := by
    have accounts := sound.accounts cell
    have traded := held_dispose found owned alive cell
    simp only [World.held, World.mark, List.count_append] at accounts traded ⊢
    omega
  distinct := sound.distinct
  nonzero := sound.nonzero
  owned k other at_k shared := by
    by_cases isThis : k = h
    · subst isThis
      rw [mark_gone found] at at_k
      exact Option.some.inj at_k ▸ owned
    · exact sound.owned k other ((mark_other w handle isThis).symm.trans at_k) shared
  constants k other isConstant := by
    have at_k := sound.constants k other isConstant
    rw [mark_other w handle fun isThis => ?_]
    · exact at_k
    · subst isThis
      obtain rfl := Option.some.inj (found.symm.trans at_k)
      rw [constants_unowned isConstant] at owned
      cases owned
  lost k member := by
    obtain ⟨value, at_k⟩ := sound.lost k member
    refine ⟨value, (mark_other w handle fun isThis => ?_).trans at_k⟩
    subst isThis
    exact kept member

theorem Value.cells_of_tag {value : Value} (plain : ¬value.tag < 0) : value.cells = [] := by
  cases value with
  | heap tag cell => cases tag <;> simp [Value.tag] at plain
  | _ => rfl

-- After `dispose` the handle holds nothing; it never throws.
theorem dispose_frees (h : JSValue) {w : World σ} {flight : List Nat} (sound : Sound flight w)
    (kept : h ∉ w.undescribed ∨ Released w h) :
    Triple (· = w) (dispose (V := V) engine.toEngine h)
      (fun _ w' => Sound flight w' ∧ Step w w' (fun k => k = h ∧ ¬Released w h) nobody ∧
        Released w' h)
      (fun _ _ => False) := by
  refine Triple.bind (Q := fun a w' => a = w ∧ w' = w)
    (Triple.get fun _ same => ⟨same, same⟩) fun a => ?_
  refine Triple.each fun s both => ?_
  obtain ⟨rfl, rfl⟩ := both
  dsimp only
  split
  · next released =>
      refine Triple.pure _ fun _ isS => ?_
      subst isS
      refine ⟨sound,
        (Step.refl _).weaken (fun _ _ freed => freed.elim)
          (fun _ _ _ _ leftOver => leftOver.elim), ?_⟩
      intro handle found
      simp only [World.handle, found, Option.getD_some, Bool.or_eq_true,
        Bool.not_eq_true'] at released
      exact released.symm
  · next holding =>
      simp only [Bool.or_eq_true, Bool.not_eq_true', not_or, Bool.not_eq_false,
        Bool.not_eq_true] at holding
      obtain ⟨owned, alive⟩ := holding
      obtain ⟨handle, found, same⟩ : ∃ handle, s.handles[h]? = some handle ∧
          s.handle h = handle := by
        cases found : s.handles[h]? with
        | none => simp [World.handle, found] at owned
        | some handle => exact ⟨handle, rfl, by simp [World.handle, found]⟩
      rw [same] at owned alive ⊢
      have unreleased : ¬Released s h := fun released => by
        rcases released handle found with gone | unowned
        · rw [alive] at gone
          cases gone
        · rw [owned] at unowned
          cases unowned
      have step : Step s (s.mark h handle) (fun k => k = h ∧ ¬Released s h) nobody :=
        (step_mark found).weaken (fun _ _ isThis => ⟨isThis, unreleased⟩)
          (fun _ _ _ _ leftOver => leftOver.elim)
      refine Triple.bind (Q := fun _ w' => w' = s.mark h handle)
        (Triple.modify fun _ isS => by rw [isS]; rfl)
        fun _ => ?_
      have marked := sound_mark sound found owned alive (kept.resolve_right unreleased)
      have gone := mark_gone found
      by_cases heap : handle.value.tag < 0
      · rw [if_pos heap]
        refine Triple.lift fun s' isS => ?_
        have acts := (engine.acts (.freeValue handle.value) flight s' (isS ▸ marked)).frame flight
        obtain ⟨sound', step'⟩ := acts.kept (by simpa [Native.consumed, isS] using marked)
        rw [isS] at step' sound' ⊢
        refine ⟨sound', (step.trans step').weaken (fun _ _ freed => freed.resolve_right id)
          (fun _ _ _ _ leftOver => (leftOver.elim id id).elim), fun other at_h => .inl ?_⟩
        rw [step'.disposed gone rfl] at at_h
        exact Option.some.inj at_h ▸ rfl
      · rw [if_neg heap]
        refine Triple.pure _ fun s' isS => ?_
        rw [isS]
        refine ⟨by rwa [Value.cells_of_tag heap] at marked, step, fun other at_h => .inl ?_⟩
        rw [gone] at at_h
        exact Option.some.inj at_h ▸ rfl

theorem Released.step {w w' : World σ} {h : JSValue} {freed left : JSValue → Prop}
    (released : Released w h) (known : h < w.handles.length) (step : Step w w' freed left) :
    Released w' h := by
  intro handle found
  obtain same | ⟨-, same⟩ := step.handles h _ (List.getElem?_eq_getElem known)
  · exact released handle (by rw [List.getElem?_eq_getElem known, ← same, found])
  · rw [same] at found
    exact .inl (Option.some.inj found ▸ rfl)

theorem Fresh.step {w w' w'' : World σ} {h : JSValue} {freed left : JSValue → Prop}
    (fresh : Fresh w w' h) (step : Step w' w'' freed left) : Fresh w w'' h := by
  obtain ⟨known, its⟩ := fresh
  refine ⟨Nat.lt_of_lt_of_le known step.length_le,
    its.imp (fun new => ⟨new.1, fun member => ?_⟩) (·.step known step)⟩
  rcases step.lost h member with earlier | above
  · exact new.2 earlier
  · exact absurd known (Nat.not_lt.mpr above)

theorem dispose_left {h : JSValue} {w w' : World σ} {flight : List Nat} {left : JSValue → Prop}
    (sound : Sound flight w') (step : Step w w' nobody fun k => k = h ∨ left k)
    (fresh : Fresh w w' h) :
    Triple (· = w') (dispose (V := V) engine.toEngine h)
      (fun _ w'' => Sound flight w'' ∧ Step w w'' nobody left ∧ Step w' w'' (· = h) nobody)
        (fun _ _ => False) := by
  refine (dispose_frees engine h sound (fresh.2.imp And.right id)).weaken (fun _ same => same)
    (fun _ w'' ends => ?_)
    (fun _ _ fails => fails)
  obtain ⟨later, disposes, released⟩ := ends
  refine ⟨later,
    (step.trans disposes).weaken (fun k old freed => ?_) (fun k handle found listed leftOver => ?_),
    disposes.weaken (fun _ _ freed => freed.1) (fun _ _ _ _ leftOver => leftOver.elim)⟩
  · obtain ⟨rfl, unreleased⟩ := freed.resolve_left id
    exact fresh.2.elim (fun new => absurd old (Nat.not_lt.mpr new.1)) fun idle => unreleased idle
  · rcases leftOver.resolve_right id with rfl | other
    · simp only [Handle.listed, Bool.and_eq_true, Bool.not_eq_true'] at listed
      rcases released handle found with gone | unowned
      · simp [gone] at listed
      · simp [unowned] at listed
    · exact other

-- The same for a handle that is disposed because something was thrown.
theorem dispose_thrown {h : JSValue} {w w' w'' : World σ} {flight : List Nat} {e : HostValue V}
    (sound : Sound flight w'') (step : Step w w' nobody (· = h)) (throws : Throws e w' w'')
    (fresh : Fresh w w' h) :
    Triple (· = w'') (dispose (V := V) engine.toEngine h) (fun _ s => Sound flight s ∧ Throws e w s)
      (fun _ _ => False) := by
  have both : Step w w'' nobody fun k => k = h ∨ carried e k :=
    (step.trans throws.step).weaken (fun _ _ freed => freed.elim id id)
      (fun _ _ _ _ leftOver => leftOver)
  refine (dispose_left engine sound both (fresh.step throws.step)).weaken (fun _ same => same)
    (fun _ s ends => ?_)
    (fun _ _ fails => fails)
  obtain ⟨later, done, disposes⟩ := ends
  exact ⟨later, done, fun k member =>
    (throws.yields k member).imp (fun new => (new.earlier step.length_le).step disposes)
      disposes.known⟩

-- A handle made for a body and disposed after it, on every way out.
theorem Quiet.using {x : Run σ V JSValue} {body : JSValue → Run σ V α} (makes : Makes x)
    (quiet : ∀ h, Quiet (body h)) :
    Quiet (x >>= fun h => Effect.tryFinally (body h) (dispose engine.toEngine h)) :=
  fun flight w sound => by
  refine Triple.bind (makes flight w sound) fun h => Triple.each fun w' made => ?_
  obtain ⟨later, step, fresh⟩ := made
  refine Triple.tryFinally (quiet h flight w' later) (fun a => ?_) (fun e => ?_)
  · refine Triple.each fun w'' ends => ?_
    have both : Step w w'' nobody fun k => k = h ∨ nobody k :=
      (step.trans ends.2).weaken (fun _ _ freed => freed.elim id id)
        (fun _ _ _ _ leftOver => leftOver)
    exact (dispose_left engine ends.1 both (fresh.step ends.2)).weaken (fun _ same => same)
      (fun _ _ after => ⟨after.1, after.2.1⟩) (fun _ _ fails => fails.elim)
  · refine Triple.each fun w'' ends => ?_
    exact (dispose_thrown engine ends.1 step ends.2 fresh).weaken (fun _ same => same)
      (fun _ _ after => after)
      (fun _ _ fails => fails.elim)

-- A handle that is returned, or disposed if the rest throws.
theorem Makes.orDispose {x : Run σ V JSValue} {body : JSValue → Run σ V JSValue} (makes : Makes x)
    (quiet : ∀ h, Ends (body h) fun r w w' => r = h ∧ Step w w' nobody nobody) :
    Makes (x >>= fun h => orDispose engine.toEngine h (body h)) := fun flight w sound => by
  refine Triple.bind (makes flight w sound) fun h => Triple.each fun w' made => ?_
  obtain ⟨later, step, fresh⟩ := made
  refine Triple.tryCatch
    ((quiet h flight w' later).weaken (fun _ same => same) (fun r w'' ends => ?_)
      (fun _ _ ends => ends))
    fun e => ?_
  · obtain ⟨sound'', rfl, after⟩ := ends
    exact ⟨sound'', (step.trans after).weaken (fun _ _ freed => freed.elim id id)
      (fun _ _ _ _ leftOver => leftOver.resolve_right id), fresh.step after⟩
  · refine Triple.each fun w'' ends => ?_
    refine Triple.bind (Q := fun _ s => Sound flight s ∧ Throws e w s) ?_ fun _ =>
      Triple.throw e fun _ after => after
    exact (dispose_thrown engine ends.1 step ends.2 fresh).weaken (fun _ same => same)
      (fun _ _ after => after)
      (fun _ _ fails => fails.elim)

end QuickJSBun.Context
