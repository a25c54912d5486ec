import QuickJSBun.Context.Contained
import QuickJSBun.Context.NotingCalls

/-! A call of a host function moves ownership. What the function returns or throws goes to the engine with one
reference, the handle it came in is disposed, and so are the borrowed handles; nothing else is left in the list
of the context, but the values of exceptions that could not be described.
-/

set_option autoImplicit false

namespace QuickJSBun.Context

open Library Effect

variable {σ V α β : Type}

/-- A handle of another context, which is in that context's list. -/
def World.Astray (w : World σ) (h : JSValue) : Prop :=
  ∃ handle, w.handles[h]? = some handle ∧ handle.foreign = true

theorem Step.astray {w w' : World σ} {freed left : JSValue → Prop} (step : Step w w' freed left)
    {h : JSValue} (astray : w.Astray h) : w'.Astray h := by
  obtain ⟨handle, found, foreign⟩ := astray
  obtain still | ⟨-, gone⟩ := step.handles h handle found
  · exact ⟨handle, still, foreign⟩
  · exact ⟨_, gone, foreign⟩

/-- A handle that is disposed, or an unowned one, which nobody has to dispose. -/
def Spent (w : World σ) (h : JSValue) : Prop :=
  ∃ handle, w.handles[h]? = some handle ∧ (handle.disposed = true ∨ handle.owned = false)

theorem Spent.step {w w' : World σ} {h : JSValue} {freed left : JSValue → Prop} (spent : Spent w h)
    (step : Step w w' freed left) : Spent w' h := by
  obtain ⟨handle, found, idle⟩ := spent
  obtain still | ⟨-, gone⟩ := step.handles h handle found
  · exact ⟨handle, still, idle⟩
  · exact ⟨_, gone, .inl rfl⟩

/-- A handle that may be disposed and is then settled: a new one, or one that host code has. -/
def Owed (w w' : World σ) (h : JSValue) : Prop :=
  Fresh w w' h ∨ ∃ handle, w'.handles[h]? = some handle ∧ handle.exposed = true

theorem Owed.step {w w' w'' : World σ} {h : JSValue} {freed left : JSValue → Prop}
    (owed : Owed w w' h) (step : Step w' w'' freed left) : Owed w w'' h := by
  refine owed.imp (·.step step) fun known => ?_
  obtain ⟨handle, found, exposed⟩ := known
  obtain still | ⟨-, gone⟩ := step.handles h handle found
  · exact ⟨handle, still, exposed⟩
  · exact ⟨_, gone, exposed⟩

theorem Owed.disposable {flight : List Nat} {w w' : World σ} {h : JSValue} (owed : Owed w w' h)
    (sound : Sound flight w') : Disposable w' h := by
  rcases owed with fresh | ⟨handle, found, exposed⟩
  · exact fresh.disposable
  · exact sound.disposable ⟨handle, found, .inl exposed⟩

theorem owed_known {w w' : World σ} {h : JSValue}
    (known : ∃ handle, w'.handles[h]? = some handle ∧
      (handle.exposed = true ∨ handle.owned = false)) :
    Owed w w' h := by
  obtain ⟨handle, found, exposed | unowned⟩ := known
  · exact .inr ⟨handle, found, exposed⟩
  · refine .inl ⟨(List.getElem?_eq_some_iff.mp found).1, .inr fun other at_h => .inr ?_⟩
    obtain rfl := Option.some.inj (found.symm.trans at_h)
    exact unowned

/-- Between two worlds the list of the context has got nothing but the handles in `carrying`, which
are owed. -/
structure Carrying (flight : List Nat) (w : World σ) (carrying : List JSValue)
    (w' : World σ) : Prop where
  sound : Sound flight w'
  step : Step w w' nobody fun h => h ∈ carrying ∨ w'.Astray h
  owed : ∀ h ∈ carrying, Owed w w' h

section
variable {flight flight' : List Nat} {w w' w'' : World σ} {carrying : List JSValue}

theorem Carrying.refl (sound : Sound flight w) : Carrying flight w [] w :=
  ⟨sound, (Step.refl w).any, fun _ member => nomatch member⟩

theorem Carrying.quiet (first : Carrying flight w carrying w') (sound : Sound flight' w'')
    (step : Step w' w'' nobody nobody) : Carrying flight' w carrying w'' where
  sound := sound
  step := (first.step.trans step).weaken (fun _ _ freed => freed.elim id id) fun _ _ _ _ leftOver =>
    (leftOver.resolve_right id).imp id step.astray
  owed h member := (first.owed h member).step step

theorem Carrying.makes {h : JSValue} (first : Carrying flight w [] w') (sound : Sound flight w'')
    (step : Step w' w'' nobody (· = h)) (fresh : Fresh w' w'' h) : Carrying flight w [h] w'' where
  sound := sound
  step :=
    (first.step.trans step).weaken (fun _ _ freed => freed.elim id id) fun _ _ _ _ leftOver => by
    rcases leftOver with (never | astray) | rfl
    · cases never
    · exact .inr (step.astray astray)
    · exact .inl List.mem_cons_self
  owed k member := by
    obtain rfl := List.mem_singleton.mp member
    exact .inl (fresh.earlier first.step)

theorem Carrying.known {h : JSValue} (first : Carrying flight w [] w')
    (known : ∃ handle, w'.handles[h]? = some handle ∧
      (handle.exposed = true ∨ handle.owned = false)) :
    Carrying flight w [h] w' where
  sound := first.sound
  step := first.step.weaken (fun _ _ freed => freed) fun _ _ _ _ leftOver =>
    .inr (leftOver.resolve_left nofun)
  owed k member := by
    obtain rfl := List.mem_singleton.mp member
    exact owed_known known

-- A handle that is not in the list needs no care.
theorem Carrying.drop {h : JSValue} (first : Carrying flight w [h] w')
    (unlisted : (w'.handle h).foreign = true ∨ (w'.handle h).disposed = true) :
    Carrying flight w [] w' where
  sound := first.sound
  step := first.step.weaken (fun _ _ freed => freed) fun k handle found listed leftOver => by
    refine .inr (leftOver.elim (fun member => ?_) id)
    obtain rfl := List.mem_singleton.mp member
    have same : w'.handle k = handle := by rw [World.handle, found, Option.getD_some]
    rw [same] at unlisted
    rcases unlisted with foreign | gone
    · exact ⟨handle, found, foreign⟩
    · simp [Handle.listed, gone] at listed
  owed _ member := nomatch member

end

/-- What `handles` of a thrown value the library itself has put there. -/
def HostValue.own (e : HostValue V) : List JSValue :=
  match e with
  | .exception h _ _ => [h]
  | _ => []

/-- Something is thrown, and its own handle is carried along. -/
structure Flying (flight : List Nat) (w : World σ) (e : HostValue V) (w' : World σ) : Prop where
  carrying : Carrying flight w e.own w'
  owed : ∀ h ∈ e.handles, Owed w w' h

section
variable {flight : List Nat} {w w' w'' : World σ} {e : HostValue V}

theorem Carrying.throws (first : Carrying flight w [] w') (sound : Sound flight w'')
    (throws : Throws e w' w'') : Flying flight w e w'' := by
  have owed : ∀ h ∈ e.handles, Owed w w'' h := fun h member => by
    rcases throws.yields h member with new | known
    · exact .inl ⟨new.2.1, .inl ⟨Nat.le_trans first.step.length_le new.1, new.2.2⟩⟩
    · exact owed_known known
  refine ⟨⟨sound,
    (first.step.trans throws.step).weaken (fun _ _ freed => freed.elim id id)
      fun h _ _ _ leftOver => ?_,
    fun h member => owed h ?_⟩, owed⟩
  · rcases leftOver with (never | astray) | isCarried
    · cases never
    · exact .inr (throws.step.astray astray)
    · cases e with
      | exception => exact .inl (List.mem_singleton.mpr isCarried)
      | _ => exact isCarried.elim
  · cases e with
    | exception => exact member
    | _ => cases member

theorem Carrying.plain (first : Carrying flight w [] w') (plain : e.handles = []) :
    Flying flight w e w' :=
  first.throws first.sound (.plain (Step.refl w') plain)

end

/-- From a world that carries `carrying`. -/
def Carries (carrying : List JSValue) (x : Run σ V α)
    (post : List Nat → World σ → α → World σ → Prop) : Prop :=
  ∀ flight w w', Carrying flight w carrying w' →
    Triple (· = w') x (fun a s => post flight w a s) fun e s => Flying flight w e s

theorem Quiet.carries {x : Run σ V α} (quiet : Quiet x) :
    Carries [] x fun flight w _ s => Carrying flight w [] s := fun flight _ w' carrying =>
  (quiet flight w' carrying.sound).weaken (fun _ same => same)
    (fun _ _ ends => carrying.quiet ends.1 ends.2)
    fun _ _ ends => carrying.throws ends.1 ends.2

theorem Makes.carries {x : Run σ V JSValue} (makes : Makes x) :
    Carries [] x fun flight w h s => Carrying flight w [h] s := fun flight _ w' carrying =>
  (makes flight w' carrying.sound).weaken (fun _ same => same)
    (fun _ _ ends => carrying.makes ends.1 ends.2.1 ends.2.2)
    fun _ _ ends => carrying.throws ends.1 ends.2

-- The carried handle is disposed.
theorem Carrying.disposed (engine : LawfulEngine σ) {flight : List Nat} {w w' : World σ}
    {h : JSValue} (carrying : Carrying flight w [h] w') :
    Triple (· = w') (dispose (V := V) engine.toEngine h)
      (fun _ s => Carrying flight w [] s ∧ Spent s h) fun _ _ => False := by
  have owed := carrying.owed h List.mem_cons_self
  have disposable := owed.disposable carrying.sound
  refine (dispose_frees engine h carrying.sound disposable.kept).weaken (fun _ same => same)
    (fun _ s ends => ?_) fun _ _ never => never
  obtain ⟨later, step, released⟩ := ends
  have frees : Step w' s (· = h) nobody :=
    step.weaken (fun _ _ freed => freed.1) fun _ _ _ _ leftOver => leftOver
  have at_h : s.handles[h]? = some _ :=
    List.getElem?_eq_getElem (Nat.lt_of_lt_of_le disposable.inside step.length_le)
  refine ⟨⟨later, ?_, fun _ member => nomatch member⟩, _, at_h, released _ at_h⟩
  have settled {k : JSValue} {handle : Handle} (found : s.handles[k]? = some handle)
      (listed : handle.listed = true)
      (leftOver : (k ∈ [h] ∨ w'.Astray k) ∨ nobody k) : k ∈ [] ∨ s.Astray k := by
    rcases leftOver.resolve_right id with member | astray
    · obtain rfl := List.mem_singleton.mp member
      exact (released.unlisted found listed).elim
    · exact .inr (step.astray astray)
  rcases owed with fresh | ⟨handle, found, exposed⟩
  · refine (carrying.step.trans step).weaken (fun k old freed => ?_)
      fun _ _ found listed leftOver => settled found listed leftOver
    obtain ⟨rfl, unreleased⟩ := freed.resolve_left id
    exact fresh.2.elim (fun new => absurd old (Nat.not_lt.mpr new.1)) fun idle => unreleased idle
  · exact (carrying.step.trans (frees.exposed found exposed)).weaken
      (fun _ _ freed => freed.elim id id)
      fun _ _ found listed leftOver => settled found listed leftOver

/-! ### What is returned -/

-- A handle of this context that is not disposed.
def World.Alive (w : World σ) (h : JSValue) : Prop :=
  (w.handle h).foreign = false ∧ (w.handle h).disposed = false

theorem World.alive_or (w : World σ) (h : JSValue) :
    w.Alive h ∨ (w.handle h).foreign = true ∨ (w.handle h).disposed = true := by
  unfold World.Alive
  cases (w.handle h).foreign <;> cases (w.handle h).disposed <;> simp

theorem ptr_dead {w : World σ} {h : JSValue} (gone : (w.handle h).disposed = true) :
    (ptr h : Run σ V Value).run w = (.error (assertionError "JSValue is disposed"), w) := by
  have runs : (ptr h : Run σ V Value).run w = (do
      Effect.check (!(w.handle h).disposed) (assertionError "JSValue is disposed")
      pure (w.handle h).value : Run σ V Value).run w := rfl
  rw [runs, gone]
  rfl

theorem assertSameVM_alive {w : World σ} {h : JSValue} (alive : w.Alive h) :
    (assertSameVM h : Run σ V Unit).run w = (.ok (), w) := by
  have checks :
      (Effect.check (!(w.handle h).foreign) (assertionError "JSValue belongs to another VM") :
        Run σ V Unit).run w =
      (.ok (), w) := by
    rw [alive.1]
    rfl
  exact (bind_ok (x := Effect.get) rfl).trans
    ((bind_ok checks).trans ((bind_ok (ptr_alive alive.2)).trans rfl))

theorem assertSameVM_dead {w : World σ} {h : JSValue}
    (dead : (w.handle h).foreign = true ∨ (w.handle h).disposed = true) :
    ∃ message, (assertSameVM h : Run σ V Unit).run w = (.error (assertionError message), w) := by
  cases foreign : (w.handle h).foreign with
  | true =>
    have checks :
        (Effect.check (!(w.handle h).foreign) (assertionError "JSValue belongs to another VM") :
          Run σ V Unit).run w =
        (.error (assertionError "JSValue belongs to another VM"), w) := by
      rw [foreign]
      rfl
    exact ⟨_, (bind_ok (x := Effect.get) rfl).trans (bind_error checks)⟩
  | false =>
    have gone : (w.handle h).disposed = true :=
      dead.resolve_left (by rw [foreign]; exact Bool.false_ne_true)
    have checks :
        (Effect.check (!(w.handle h).foreign) (assertionError "JSValue belongs to another VM") :
          Run σ V Unit).run w =
        (.ok (), w) := by
      rw [foreign]
      rfl
    exact ⟨_, (bind_ok (x := Effect.get) rfl).trans
      ((bind_ok checks).trans (bind_error (ptr_dead gone)))⟩

/-- What `returnResult` does with the handle of the result. -/
def returnHandle (engine : Engine σ) (handle : JSValue) : Run σ V Value := do
  assertSameVM handle
  let value ← ptr handle
  let out : Value ← call engine (.dupValue value)
  dispose engine handle
  pure out

section
variable (engine : ThrowingEngine σ) (host : CallbackHost V σ) {flight : List Nat} {w s : World σ}

theorem resultHandle_carries {result : HostValue V} (carrying : Carrying flight w [] s)
    (known : Known s result) :
    Triple (· = s) (resultHandle engine.toEngine host.toHost result)
      (fun h s' => Carrying flight w [h] s')
      fun e s' => Flying flight w e s' := by
  cases result with
  | handle h =>
    refine Triple.pure h fun s' isS => ?_
    subst isS
    exact carrying.known (known h List.mem_cons_self)
  | _ =>
    refine Triple.bind ((quiet_instanceOf host.toLawfulHost _ _).carries flight w s carrying)
      fun isHandle => ?_
    refine Triple.each fun s' later => ?_
    split
    · refine Triple.throw _ fun s'' isS => ?_
      subst isS
      exact later.plain rfl
    · exact (makes_newValue engine.toLawfulEngine host.toLawfulHost _).carries flight w s' later

theorem Sound.counts (sound : Sound flight s) {h : JSValue} (inside : h < s.handles.length)
    (alive : (s.handle h).disposed = false) :
    ∀ cell ∈ (s.handle h).value.cells, counter s.references cell ≠ 0 := by
  intro cell member
  have found : s.handles[h]? = some (s.handle h) := by
    rw [World.handle, List.getElem?_eq_getElem inside, Option.getD_some]
  have owned := sound.owned h _ found fun none => by
    rw [none] at member
    cases member
  have own : 0 < (s.handle h).holds cell := by
    simpa [Handle.holds, owned, alive] using List.count_pos_iff.mpr member
  have held : (s.handle h).holds cell ≤ s.held cell := le_tally (List.mem_of_getElem? found)
  exact sound.counted (.inr (.inl (by omega)))

theorem Carrying.inside {h : JSValue} (carrying : Carrying flight w [h] s) : h < s.handles.length :=
  ((carrying.owed h List.mem_cons_self).disposable carrying.sound).inside

theorem returnHandle_carries {h : JSValue} (carrying : Carrying flight w [h] s) :
    Triple (· = s) (returnHandle (V := V) engine.toEngine h)
      (fun out s' => Carrying (out.cells ++ flight) w [] s' ∧ s.Alive h ∧
        out = (s.handle h).value ∧ Spent s' h)
      fun e s' => Flying flight w e s' := by
  intro s' isS
  subst isS
  unfold returnHandle
  rcases s'.alive_or h with alive | dead
  · rw [bind_ok (assertSameVM_alive alive), bind_ok (ptr_alive alive.2)]
    have acts := (engine.acts (.dupValue (s'.handle h).value) flight s' carrying.sound).frame flight
    have same :=
      engine.duplicates (s'.handle h).value s' (carrying.sound.counts carrying.inside alive.2)
    obtain ⟨sound, step⟩ := acts.kept carrying.sound
    have runs : (call engine.toEngine (.dupValue (s'.handle h).value) : Run σ V Value).run s' =
      (.ok (engine.call (.dupValue (s'.handle h).value) s').1,
        (engine.call (.dupValue (s'.handle h).value) s').2) := rfl
    have given : Sound ((s'.handle h).value.cells ++ flight)
        (engine.call (.dupValue (s'.handle h).value) s').2 := by
      simpa only [Native.given, same] using sound
    rw [bind_ok runs, same]
    generalize (engine.call (.dupValue (s'.handle h).value) s').2 = s'' at step given
    have disposes := (carrying.quiet given step).disposed (V := V) engine.toLawfulEngine
    cases ends : (dispose (V := V) engine.toEngine h).run s'' with
    | mk outcome last =>
      cases outcome with
      | error e => exact absurd ends (dispose_returns engine.toEngine h s'' e last)
      | ok _ =>
        obtain ⟨done, spent⟩ := disposes.returned rfl ends
        rw [bind_ok ends]
        exact ⟨done, alive, rfl, spent⟩
  · obtain ⟨message, fails⟩ := assertSameVM_dead (V := V) dead
    rw [bind_error fails]
    exact (carrying.drop dead).plain rfl

end

/-! ### What is thrown -/

def HostValue.single (value : HostValue V) : List JSValue :=
  match value with
  | .handle h => [h]
  | _ => []

theorem Flying.handle {flight : List Nat} {w s : World σ} {h : JSValue}
    (flying : Flying (V := V) flight w (.handle h) s) : Carrying flight w [h] s where
  sound := flying.carrying.sound
  step := flying.carrying.step.weaken (fun _ _ freed => freed) fun _ _ _ _ leftOver =>
    .inr (leftOver.resolve_left nofun)
  owed k member := flying.owed k member

section
variable (engine : ThrowingEngine σ) (host : CallbackHost V σ) {flight : List Nat} {w s : World σ}

theorem getKey_carries (error : HostValue V) (key : Text) (carrying : Carrying flight w [] s) :
    Triple (· = s) (host.ask (.getKey error key))
      (fun value s' => Carrying flight w (HostValue.single value) s')
      fun e s' => Flying flight w e s' := fun s' isS => by
  subst isS
  have quiet :=
    (quiet_ask host.toLawfulHost (.getKey error key)).carries flight w s' carrying s' rfl
  split at quiet
  · next value s'' runs =>
      have known := host.given error key s' value s'' runs
      cases value with
      | handle h => exact quiet.known (known h List.mem_cons_self)
      | _ => exact quiet
  · exact quiet

theorem thrownValue_carries {e : HostValue V} (flying : Flying flight w e s) :
    Triple (· = s) (thrownValue host.toHost e) (fun value s' => Carrying flight w value.single s')
      fun f s' => Flying flight w f s' := by
  cases e with
  | exception h name message =>
    refine (Triple.pure (HostValue.handle h) fun s' isS =>
      ?_ : Triple (· = s) (pure (.handle h) : Run σ V (HostValue V)) _ _)
    subst isS
    exact flying.carrying
  | handle h =>
    refine (Triple.pure (HostValue.handle h) fun s' isS =>
      ?_ : Triple (· = s) (pure (.handle h) : Run σ V (HostValue V)) _ _)
    subst isS
    exact flying.handle
  | other v =>
    refine Triple.bind
      ((quiet_instanceOf host.toLawfulHost (.other v) .jsException).carries flight w s
        flying.carrying)
      fun isException => Triple.each fun s' later => ?_
    split
    · exact getKey_carries host _ _ later
    · refine Triple.pure _ fun s'' isS => ?_
      subst isS
      exact later
  | _ =>
    refine Triple.bind
      ((quiet_instanceOf host.toLawfulHost _ .jsException).carries flight w s flying.carrying)
      fun isException => Triple.each fun s' later => ?_
    split
    · exact getKey_carries host _ _ later
    · refine Triple.pure _ fun s'' isS => ?_
      subst isS
      exact later

theorem thrownHandle_carries {error value : HostValue V}
    (carrying : Carrying flight w value.single s) :
    Triple (· = s) (thrownHandle engine.toEngine host.toHost error value)
      (fun h s' => Carrying flight w [h] s')
      fun f s' => Flying flight w f s' := by
  have makes : Makes (do
      let error ← asError engine.toEngine host.toHost error
      newError engine.toEngine host.toHost error) :=
    Makes.bind (quiet_asError engine host error) fun error =>
      makes_newError engine.toLawfulEngine host.toLawfulHost error
  intro s' isS
  subst isS
  unfold thrownHandle
  rw [bind_ok (x := Effect.get) rfl]
  cases value with
  | handle h =>
    dsimp only
    cases foreign : (s'.handle h).foreign with
    | true =>
      rw [if_pos rfl]
      exact makes.carries flight w s' (carrying.drop (.inl foreign)) s' rfl
    | false => exact carrying
  | _ => exact makes.carries flight w s' carrying s' rfl

theorem thrownCell_carries {e : HostValue V} (flying : Flying flight w e s) :
    Triple (· = s) (Callback.thrownCell engine.toEngine host.toHost e)
      (fun thrown s' => Carrying flight w [thrown.1] s' ∧ (s'.handle thrown.1).disposed = false ∧
        (s'.handle thrown.1).value = thrown.2)
      fun f s' => Flying flight w f s' := by
  refine Triple.bind (thrownValue_carries host flying) fun value => Triple.each fun s₁ first => ?_
  refine Triple.bind (thrownHandle_carries engine host first) fun thrown =>
    Triple.each fun s₂ second => ?_
  intro s₃ isS
  subst isS
  cases gone : (s₃.handle thrown).disposed with
  | false =>
    rw [bind_ok (ptr_alive gone)]
    exact ⟨second, gone, rfl⟩
  | true =>
    rw [bind_error (ptr_dead gone)]
    exact (second.drop (.inr gone)).plain rfl

-- The cell is thrown, and its handle disposed.
theorem throwCell_carries {thrown : JSValue} (carrying : Carrying flight w [thrown] s) :
    ∃ s', (throwCell (V := V) engine.toEngine thrown (s.handle thrown).value).run s =
      (.ok .exception, s') ∧
      Carrying flight w [] s' ∧ Spent s' thrown ∧ s'.pending = (s.handle thrown).value := by
  have disposable : Disposable s thrown :=
    (carrying.owed thrown List.mem_cons_self).disposable carrying.sound
  obtain ⟨s', runs, -, pending⟩ := throwCell_runs (V := V) engine carrying.sound disposable
  have throws : Triple (· = s) (throwCell (V := V) engine.toEngine thrown (s.handle thrown).value)
      (fun _ s' => Carrying flight w [] s' ∧ Spent s' thrown) fun _ _ => True := by
    refine Triple.bind (Q := fun _ s' => Carrying flight w [thrown] s')
      (Triple.lift fun s' isS => ?_) fun _ => ?_
    · subst isS
      have acts :=
        (engine.acts (.throw (s'.handle thrown).value) flight s' carrying.sound).frame flight
      obtain ⟨sound, step⟩ := acts.kept carrying.sound
      exact carrying.quiet sound step
    · refine Triple.each fun s' later => ?_
      refine Triple.bind ((later.disposed engine.toLawfulEngine).weaken (fun _ same => same)
        (fun _ _ ends => ends) fun _ _ never => never.elim) fun _ =>
          Triple.pure _ fun _ ends => ends
  obtain ⟨done, spent⟩ := throws.returned rfl runs
  exact ⟨s', runs, done, spent, pending⟩

theorem disposeFailure_carries {f : HostValue V} (flying : Flying flight w f s) :
    Triple (· = s) (disposeFailure engine.toEngine host.toHost f)
      (fun _ s' => Carrying flight w [] s') fun _ _ => True := by
  cases f with
  | exception h name message =>
    refine (?_ : Triple (· = s) (dispose (V := V) engine.toEngine h) _ _)
    have carrying : Carrying flight w [h] s := flying.carrying
    exact (carrying.disposed engine.toLawfulEngine).weaken (fun _ same => same)
      (fun _ _ ends => ends.1) fun _ _ never => never.elim
  | _ =>
    refine Triple.bind
      (((quiet_instanceOf host.toLawfulHost _ _).carries flight w s flying.carrying).weaken
        (fun _ same => same)
      (fun _ _ ends => ends) fun _ _ _ => trivial) fun isException => Triple.each fun s' later => ?_
    split
    · exact ((quiet_ask host.toLawfulHost _).carries flight w s' later).weaken (fun _ same => same)
        (fun _ _ ends => ends) fun _ _ _ => trivial
    · refine Triple.pure _ fun s'' isS => ?_
      subst isS
      exact later

theorem throwFallback_carries {f : HostValue V} (flying : Flying flight w f s) :
    Triple (· = s) (throwFallback engine.toEngine host.toHost f)
      (fun out s' => out = .exception ∧ Carrying flight w [] s')
      fun _ _ => True := by
  refine Triple.bind (disposeFailure_carries engine host flying) fun _ =>
    Triple.each fun s' later => ?_
  have throws (native : Native) (consumes : native.consumed = [])
      (gives : ∀ s, native.given (engine.call native s).1 = []) :
      Triple (· = s') (do
        let _ ← call engine.toEngine native
        pure .exception : Run σ V Value) (fun out s' => out = .exception ∧ Carrying flight w [] s')
          fun _ _ => True := by
    refine Triple.bind
      (((quiet_call engine.toLawfulEngine consumes gives).carries flight w s' later).weaken
        (fun _ same => same)
      (fun _ _ ends => ends) fun _ _ _ => trivial) fun _ => Triple.pure _ fun _ ends => ⟨rfl, ends⟩
  intro s'' isS
  subst isS
  rw [bind_ok (x := Effect.get) rfl]
  by_cases gone : s''.disposed
  · rw [if_pos gone]
    exact throws (.throwError 4 (encode (text "QuickJS context is disposed"))) rfl
      (fun _ => rfl) s'' rfl
  · rw [if_neg gone]
    exact throws .throwOutOfMemory rfl (fun _ => rfl) s'' rfl

end

/-! ### The call -/

section
variable (engine : ThrowingEngine σ) (host : CallbackHost V σ) {flight : List Nat} {w s : World σ}

def callBody (engine : Engine σ) (host : Host V σ) (fn : Run σ V (HostValue V)) :
    Run σ V Value := do
  let result ← fn
  returnResult engine host result

def callCatch (engine : Engine σ) (host : Host V σ) (error : HostValue V) : Run σ V Value :=
  .tryCatch (throwResult engine host error) (throwFallback engine host)

theorem callBody_carries {fn : Run σ V (HostValue V)} {has : List JSValue}
    (code : HostCode has HostValue.handles fn) (sound : Sound flight w) (its : Has w has) :
    Triple (· = w) (callBody engine.toEngine host.toHost fn) (fun _ _ => True) fun e s' =>
      Flying flight w e s' := by
  refine Triple.bind (Q := fun result s' => Carrying flight w [] s' ∧ Known s' result) ?_
    fun result => ?_
  · refine (code.runs sound its).weaken (fun _ same => same) (fun result s' ends => ?_)
      fun e s' thrown => ?_
    · exact ⟨(Carrying.refl sound).quiet ends.1.1 ends.1.2, ends.2⟩
    · exact (Carrying.refl sound).throws thrown.1 thrown.2
  · refine Triple.each fun s₁ known => ?_
    refine Triple.bind (resultHandle_carries engine host known.1 known.2) fun h =>
      Triple.each fun s₂ carrying => ?_
    exact (returnHandle_carries (V := V) engine carrying).weaken (fun _ same => same)
      (fun _ _ _ => trivial) fun _ _ thrown => thrown

-- What is returned goes out with a reference of its own, and its handle is disposed.
theorem callBody_returns {fn : Run σ V (HostValue V)} {has : List JSValue}
    (code : HostCode has HostValue.handles fn) (sound : Sound flight w) (its : Has w has)
    {out : Value} {s' : World σ}
    (runs : (callBody engine.toEngine host.toHost fn).run w = (.ok out, s')) :
    ∃ result s₁ h s₂, fn.run w = (.ok result, s₁) ∧
      (resultHandle engine.toEngine host.toHost result).run s₁ = (.ok h, s₂) ∧
      s₂.Alive h ∧ out = (s₂.handle h).value ∧ Spent s' h ∧
      Carrying (out.cells ++ flight) w [] s' := by
  obtain ⟨result, s₁, ran, rest⟩ := bind_returned runs
  obtain ⟨h, s₂, handled, last⟩ := bind_returned rest
  obtain ⟨ends, known⟩ := (code.runs sound its).returned rfl ran
  have quiet : Carrying flight w [] s₁ := (Carrying.refl sound).quiet ends.1 ends.2
  have carrying := (resultHandle_carries engine host quiet known).returned rfl handled
  obtain ⟨done, alive, same, spent⟩ :=
    (returnHandle_carries (V := V) engine carrying).returned rfl last
  exact ⟨result, s₁, h, s₂, ran, handled, alive, same, spent, done⟩

/-- The guest value of a handle of this context, or of an exception with one. -/
def HostValue.Is (e : HostValue V) (h : JSValue) : Prop :=
  e = .handle h ∨ ∃ name message, e = .exception h name message

theorem thrownCell_alive {e : HostValue V} {h : JSValue} (is : e.Is h) (alive : s.Alive h) :
    (Callback.thrownCell engine.toEngine host.toHost e).run s =
      (.ok (h, (s.handle h).value), s) := by
  have values : (thrownValue host.toHost e).run s = (.ok (.handle h), s) := by
    rcases is with rfl | ⟨name, message, rfl⟩
    · rfl
    · rfl
  have handles : (thrownHandle engine.toEngine host.toHost e (.handle h)).run s = (.ok h, s) := by
    have reads : (thrownHandle engine.toEngine host.toHost e (.handle h)).run s =
        (if (s.handle h).foreign then do
            let error ← asError engine.toEngine host.toHost e
            newError engine.toEngine host.toHost error
          else pure h : Run σ V JSValue).run s := rfl
    rw [reads, alive.1]
    rfl
  exact (bind_ok values).trans ((bind_ok handles).trans ((bind_ok (ptr_alive alive.2)).trans rfl))

-- What is thrown is pending, and its handle disposed.
theorem callCatch_returns {e : HostValue V} (flying : Flying flight w e s) {out : Value}
    {s' : World σ} (runs : (callCatch engine.toEngine host.toHost e).run s = (.ok out, s')) :
    out = .exception ∧ Carrying flight w [] s' ∧
      ∀ h, e.Is h → s.Alive h → s'.pending = (s.handle h).value ∧ Spent s' h := by
  have cells := thrownCell_carries engine host flying
  unfold callCatch at runs
  rw [throwResult_eq] at runs
  cases thrown : (Callback.thrownCell engine.toEngine host.toHost e).run s with
  | mk outcome s₁ =>
    cases outcome with
    | ok both =>
      obtain ⟨carrying, alive, same⟩ := cells.returned rfl thrown
      obtain ⟨s₂, throws, done, spent, pending⟩ := throwCell_carries (V := V) engine carrying
      rw [same] at throws pending
      simp only [Effect.tryCatch, bind_ok thrown, throws] at runs
      cases runs
      refine ⟨rfl, done, fun h is lives => ?_⟩
      rw [thrownCell_alive engine host is lives] at thrown
      cases thrown
      exact ⟨pending, spent⟩
    | error f =>
      have flying' : Flying flight w f s₁ := cells.thrown rfl thrown
      simp only [Effect.tryCatch, bind_error thrown] at runs
      obtain ⟨isException, done⟩ := (throwFallback_carries engine host flying').returned rfl runs
      refine ⟨isException, done, fun h is lives => ?_⟩
      rw [thrownCell_alive engine host is lives] at thrown
      cases thrown

end

-- In the list of the context, and not host code's own.
def World.Owns (w : World σ) (h : JSValue) : Prop :=
  ∃ handle, w.handles[h]? = some handle ∧ handle.listed = true ∧ handle.foreign = false ∧
    handle.exposed = false

/-- What the host function has returned in a call from `w`, and in which world. -/
def Returned (engine : Engine σ) (fn : JSValue → List JSValue → Run σ V (HostValue V))
    (this : Value) (args : List Value) (w : World σ) (result : HostValue V) (s : World σ) : Prop :=
  ∃ h argv w', ((Callback.function true fn this args).enter engine).run w = (.ok (h :: argv), w') ∧
    (fn h argv).run w' = (.ok result, s)

/-- What a call has done when it gives `out` to native code. -/
structure Conserved (engine : Engine σ) (host : Host V σ)
    (fn : JSValue → List JSValue → Run σ V (HostValue V)) (this : Value) (args : List Value)
    (flight : List Nat) (w : World σ) (out : Value) (borrowed : List JSValue)
    (w' : World σ) : Prop where
  disposed : ∀ h ∈ borrowed, ∃ handle, w'.handles[h]? = some handle ∧ handle.disposed = true
  /-- The reference in `out` is the one reference that is new. -/
  accounts : Sound (out.cells ++ ((this :: args).flatMap Value.cells ++ flight)) w'
  outcome :
    (∃ result s h s', Returned engine fn this args w result s ∧
      (resultHandle engine host result).run s = (.ok h, s') ∧ s'.Alive h ∧
      out = (s'.handle h).value) ∨
    (out = .exception ∧ w'.pending ≠ .uninitialized)
  returned : ∀ h s, Returned engine fn this args w (.handle h) s → s.Alive h →
    out = (s.handle h).value ∧ Spent w' h
  thrown : ∀ e s h, (Callback.function true fn this args).Throws engine host w e s →
    e.Is h → s.Alive h → out = .exception ∧ w'.pending = (s.handle h).value ∧ Spent w' h
  handles : ∀ h, w'.Owns h ↔ w.Owns h

theorem Sound.owns_lost {flight : List Nat} {w : World σ} (sound : Sound flight w) {h : JSValue}
    (lost : h ∈ w.undescribed) : w.Owns h ↔ (w.handle h).value.tag < 0 := by
  obtain ⟨value, found⟩ := sound.lost h lost
  rw [World.handle, found, Option.getD_some]
  constructor
  · rintro ⟨handle, its, listed, -⟩
    obtain rfl := Option.some.inj (found.symm.trans its)
    simpa [Handle.listed] using listed
  · exact fun heap => ⟨_, found, by simp [Handle.listed, heap], rfl, rfl⟩

theorem Step.owns_iff {flight flight' : List Nat} {w w' : World σ} (sound : Sound flight w)
    (later : Sound flight' w') (step : Step w w' nobody w'.Astray) :
    (∀ h, w'.Owns h ↔ w.Owns h) ↔ Harmless w w' := by
  have kept : ∀ h, w.Owns h → w'.Owns h := by
    rintro h ⟨handle, found, listed, own, unexposed⟩
    obtain still | ⟨exposed | never, -⟩ := step.handles h handle found
    · exact ⟨handle, still, listed, own, unexposed⟩
    · rw [unexposed] at exposed
      cases exposed
    · exact never.elim
  constructor
  · intro same h undescribed new heap
    obtain ⟨handle, found, -⟩ := (same h).mp ((later.owns_lost undescribed).mpr heap)
    rcases step.lost h undescribed with earlier | above
    · exact new earlier
    · exact absurd (List.getElem?_eq_some_iff.mp found).1 (Nat.not_lt.mpr above)
  · intro harmless h
    refine ⟨fun owns => ?_, kept h⟩
    obtain ⟨handle, found, listed, own, unexposed⟩ := owns
    rcases Nat.lt_or_ge h w.handles.length with old | new
    · obtain same | ⟨-, gone⟩ := step.handles h _ (List.getElem?_eq_getElem old)
      · rw [same] at found
        obtain rfl := Option.some.inj found
        exact ⟨_, List.getElem?_eq_getElem old, listed, own, unexposed⟩
      · rw [gone] at found
        obtain rfl := Option.some.inj found
        simp [Handle.listed] at listed
    · rcases step.created h handle new found
        listed with exposed | ⟨other, at_h, foreign⟩ | undescribed
      · rw [unexposed] at exposed
        cases exposed
      · obtain rfl := Option.some.inj (found.symm.trans at_h)
        rw [own] at foreign
        cases foreign
      · have owns : w'.Owns h := ⟨handle, found, listed, own, unexposed⟩
        refine (harmless h undescribed (fun earlier => ?_)
          ((later.owns_lost undescribed).mp owns)).elim
        obtain ⟨value, before⟩ := sound.lost h earlier
        exact absurd (List.getElem?_eq_some_iff.mp before).1 (Nat.not_lt.mpr new)

section
variable (engine : ThrowingEngine σ) (host : CallbackHost V σ)

theorem returnHandle_alive {s : World σ} {h : JSValue} (alive : s.Alive h) :
    ∃ out s', (returnHandle (V := V) engine.toEngine h).run s = (.ok out, s') := by
  unfold returnHandle
  rw [bind_ok (assertSameVM_alive alive), bind_ok (ptr_alive alive.2)]
  have runs : (call engine.toEngine (.dupValue (s.handle h).value) : Run σ V Value).run s =
    (.ok (engine.call (.dupValue (s.handle h).value) s).1,
      (engine.call (.dupValue (s.handle h).value) s).2) := rfl
  rw [bind_ok runs]
  cases ends : (dispose (V := V) engine.toEngine h).run
    (engine.call (.dupValue (s.handle h).value) s).2 with
  | mk outcome last =>
    cases outcome with
    | ok _ =>
      rw [bind_ok ends]
      exact ⟨_, _, rfl⟩
    | error e => exact absurd ends (dispose_returns engine.toEngine h _ e last)

/-- A call up to the `try`, whose outcome it gives, and the `finally`. -/
structure Called (fn : JSValue → List JSValue → Run σ V (HostValue V)) (this : Value)
    (args : List Value) (flight : List Nat) (w : World σ) (h : JSValue) (argv : List JSValue)
    (w₁ s w' : World σ) (out : Value) : Prop where
  enters : ((Callback.function true fn this args).enter engine.toEngine).run w =
    (.ok (h :: argv), w₁)
  sound : Sound flight w₁
  before : Step w { w₁ with hostDepth := w.hostDepth } nobody nobody
  lent : Lent w₁ (this :: args) (h :: argv)
  guarded : (Effect.tryCatch (callBody engine.toEngine host.toHost (fn h argv))
    (callCatch engine.toEngine host.toHost)).run w₁ = (.ok out, s)
  after : ∀ others, Sound (others ++ flight) s → Step w₁ s nobody s.Astray →
    Sound (others ++ flight) w' ∧
    Step { s with hostDepth := w.hostDepth } w' nobody nobody ∧ w'.pending = s.pending ∧
    ∀ k ∈ h :: argv, ∃ handle, w'.handles[k]? = some handle ∧ handle.disposed = true

theorem callHost_called {fn : JSValue → List JSValue → Run σ V (HostValue V)} {this : Value}
    {args : List Value} {flight : List Nat} {w : World σ} (sound : Sound flight w)
    (kept : ∀ value ∈ this :: args, ∀ cell ∈ value.cells, cell ∈ flight) {out : Value}
    {borrowed : List JSValue} {w' : World σ}
    (returns : (callHost engine.toEngine host.toHost fn this args).run w =
      (.ok (out, borrowed), w')) :
    ∃ h argv w₁ s, borrowed = h :: argv ∧
    Called engine host fn this args flight w h argv w₁ s w' out := by
  obtain ⟨h, w₀, borrows, sound₀, step₀, lent⟩ :=
    borrow_lends (V := V) engine sound (kept this List.mem_cons_self)
  obtain ⟨argv, w₁, others, sound₁, step₁, lents⟩ :=
    borrowAll_lends (V := V) engine (sound₀.deepen (w₀.hostDepth + 1))
    fun value member => kept value (List.mem_cons_of_mem _ member)
  have runs : (callHost engine.toEngine host.toHost fn this args).run w = (do
      let out ← Effect.tryFinally
        (.tryCatch (callBody engine.toEngine host.toHost (fn h argv))
          (callCatch engine.toEngine host.toHost))
        (do
          leaveHost
          .forEach (dispose engine.toEngine) (h :: argv))
      pure (out, h :: argv) : Run σ V (Value × List JSValue)).run w₁ :=
    (bind_ok borrows).trans ((bind_ok (enterHost_run w₀)).trans (bind_ok others))
  rw [runs] at returns
  obtain ⟨out', last, finished, done⟩ := bind_returned returns
  cases done
  cases guarded : (Effect.tryCatch (callBody engine.toEngine host.toHost (fn h argv))
      (callCatch engine.toEngine host.toHost)).run w₁ with
  | mk outcome s =>
    have leaves : (leaveHost : Run σ V Unit).run s =
        (.ok (), { s with hostDepth := s.hostDepth - 1 }) := rfl
    have lent' : Lent w₁ (this :: args) (h :: argv) :=
      .cons (LentAt.step (w := { w₀ with hostDepth := w₀.hostDepth + 1 }) lent step₁) lents
    have depth : w₁.hostDepth = w.hostDepth + 1 :=
      step₁.hostDepth.trans (congrArg (· + 1) step₀.hostDepth)
    have before : Step w { w₁ with hostDepth := w.hostDepth } nobody nobody :=
      (step₀.deepen w.hostDepth).trans_quiet (step₁.deepen w.hostDepth)
    cases outcome with
    | ok out' =>
      refine ⟨h, argv, w₁, s, rfl,
        (bind_ok borrows).trans ((bind_ok (enterHost_run w₀)).trans ((bind_ok others).trans rfl)),
        sound₁, before, lent', ?_, fun extra later step => ?_⟩
      · simp only [Effect.tryFinally, guarded] at finished
        split at finished
        · cases finished
          exact guarded
        · cases finished
      · have still : Lent s (this :: args) (h :: argv) := Lent.step lent' step
        obtain ⟨s', disposes, sound', step', pending, disposed⟩ :=
          disposeAll_lent (V := V) engine (later.deepen (s.hostDepth - 1))
            (show Lent _ _ _ from still)
            fun value member cell inside => List.mem_append_right _ (kept value member cell inside)
        simp only [Effect.tryFinally, guarded, bind_ok leaves, disposes] at finished
        cases finished
        have same : s.hostDepth - 1 = w.hostDepth := by
          rw [step.hostDepth, depth, Nat.add_sub_cancel]
        rw [same] at step'
        exact ⟨sound', step', pending, disposed⟩
    | error e =>
      simp only [Effect.tryFinally, guarded] at finished
      split at finished
      · cases finished
      · cases finished

variable {engine host}

-- What a call leaves is what its `try` and `catch` have left.
theorem Called.closes {fn : JSValue → List JSValue → Run σ V (HostValue V)} {this : Value}
    {args : List Value} {flight : List Nat} {w : World σ} {h : JSValue} {argv : List JSValue}
    {w₁ s w' : World σ} {out : Value}
    (called : Called engine host fn this args flight w h argv w₁ s w' out) (sound : Sound flight w)
    (others : List Nat) (carrying : Carrying (others ++ flight) w₁ [] s) :
    Sound (others ++ flight) w' ∧ w'.pending = s.pending ∧ (∀ k, Spent s k → Spent w' k) ∧
      (∀ k ∈ h :: argv, ∃ handle, w'.handles[k]? = some handle ∧ handle.disposed = true) ∧
      ((∀ k, w'.Owns k ↔ w.Owns k) ↔ Harmless w w') := by
  have during : Step w₁ s nobody s.Astray :=
    carrying.step.weaken (fun _ _ freed => freed) fun _ _ _ _ leftOver =>
      leftOver.resolve_left nofun
  obtain ⟨sound', after, pending, disposed⟩ := called.after others carrying.sound during
  have upToThen : Step w { s with hostDepth := w.hostDepth } nobody s.Astray :=
    called.before.trans_quiet (during.deepen w.hostDepth)
  have step : Step w w' nobody w'.Astray :=
    (upToThen.trans after).weaken (fun _ _ freed => freed.elim id id) fun _ _ _ _ leftOver =>
      after.astray (leftOver.resolve_right id)
  have spends (k : JSValue) (spent : Spent s k) : Spent w' k :=
    Spent.step (w := { s with hostDepth := w.hostDepth }) spent after
  exact ⟨sound', pending, spends, disposed, step.owns_iff sound sound'⟩

section
variable {fn : JSValue → List JSValue → Run σ V (HostValue V)} {this : Value} {args : List Value}
    {flight : List Nat} {w : World σ}
  {h : JSValue} {argv : List JSValue} {w₁ s w' : World σ} {out : Value}

theorem Called.enters_once (called : Called engine host fn this args flight w h argv w₁ s w' out)
    {borrowed : List JSValue} {w₂ : World σ}
    (enters : ((Callback.function true fn this args).enter engine.toEngine).run w =
      (.ok borrowed, w₂)) :
    borrowed = h :: argv ∧ w₂ = w₁ := by
  have same := enters.symm.trans called.enters
  cases same
  exact ⟨rfl, rfl⟩

theorem Called.throws_iff (called : Called engine host fn this args flight w h argv w₁ s w' out)
    (e : HostValue V) (s' : World σ) :
    (Callback.function true fn this args).Throws engine.toEngine host.toHost w e s' ↔
      (callBody engine.toEngine host.toHost (fn h argv)).run w₁ = (.error e, s') := by
  have tries : (Callback.function true fn this args).tries engine.toEngine host.toHost
      (h :: argv) = (do
      let _ ← callBody engine.toEngine host.toHost (fn h argv)
      pure ()) := by simp only [Callback.tries, callBody, bind_assoc]
  rw [← discard_error, ← tries]
  constructor
  · rintro ⟨borrowed, w₂, enters, throws⟩
    obtain ⟨rfl, rfl⟩ := called.enters_once enters
    exact throws
  · exact fun throws => ⟨h :: argv, w₁, called.enters, throws⟩

theorem Called.returned_iff (called : Called engine host fn this args flight w h argv w₁ s w' out)
    (result : HostValue V) (s' : World σ) :
    Returned engine.toEngine fn this args w result s' ↔ (fn h argv).run w₁ = (.ok result, s') := by
  constructor
  · rintro ⟨k, others, w₂, enters, runs⟩
    obtain ⟨same, rfl⟩ := called.enters_once enters
    cases same
    exact runs
  · exact fun runs => ⟨h, argv, w₁, called.enters, runs⟩

end

variable (engine host)

theorem callBody_alive {fn : Run σ V (HostValue V)} {w s s' : World σ} {result : HostValue V}
    {h : JSValue} (ran : fn.run w = (.ok result, s))
    (handled : (resultHandle engine.toEngine host.toHost result).run s = (.ok h, s'))
    (alive : s'.Alive h) :
    ∃ out s'', (callBody engine.toEngine host.toHost fn).run w = (.ok out, s'') := by
  obtain ⟨out, s'', returns⟩ := returnHandle_alive (V := V) engine alive
  exact ⟨out, s'', (bind_ok ran).trans ((bind_ok handled).trans returns)⟩

end

/-! ### Out of memory -/

def Script.throwing (script : Script σ) (duplicates : ∀ value w, script.reply (.dupValue value) w = value)
    (throws : ∀ value w, script.pending (.throw value) w = value)
    (throwsError : ∀ kind message w, script.pending (.throwError kind message) w = .null)
    (throwsOutOfMemory : ∀ w, script.pending .throwOutOfMemory w = if w.inOutOfMemory then w.pending else .null) :
    ThrowingEngine σ where
  toLawfulEngine := script.engine
  duplicates value w counted := by
    have there : ((script.reply (.dupValue value) w : Value).cells.all
        fun cell => decide (counter w.references cell ≠ 0)) = true := by
      rw [duplicates]
      exact List.all_eq_true.mpr fun cell member => decide_eq_true (counted cell member)
    exact (congrArg Prod.fst (if_pos there)).trans (duplicates value w)
  throws := throws
  throwsError kind message w := by
    show script.pending (.throwError kind message) w ≠ .uninitialized
    rw [throwsError]
    exact nofun
  throwsOutOfMemory w outside := by
    show script.pending .throwOutOfMemory w ≠ .uninitialized
    rw [throwsOutOfMemory, outside]
    exact nofun
  nested w inside := (throwsOutOfMemory w).trans (if_pos inside)
  frees _ _ _ := rfl

/-- A world with five cells, of which the first has one more reference in flight. -/
def crowdedWorld : World Unit :=
  { calledWorld with cells := [16, 32, 48, 64, 80], references := [2, 1, 1, 1, 1], engine := [1, 1, 1, 1, 1] }

theorem crowdedWorld_sound : Sound [0] crowdedWorld where
  references_length := rfl
  engine_length := rfl
  accounts
    | 0 => rfl
    | 1 => rfl
    | 2 => rfl
    | 3 => rfl
    | 4 => rfl
    | _ + 5 => rfl
  distinct cell other counted also same := by
    have first : cell < 5 := lt_length_of_counter counted
    have second : other < 5 := lt_length_of_counter also
    interval_cases cell <;> interval_cases other <;> first | rfl | cases same
  nonzero cell counted := by
    have first : cell < 5 := lt_length_of_counter counted
    interval_cases cell <;> exact nofun
  owned := calledWorld_sound.owned
  constants := calledWorld_sound.constants
  lost := calledWorld_sound.lost

/-- No string can be made: that throws cell 1, an `InternalError`. -/
def exhausted : Script Unit where
  reply native w :=
    match native with
    | .dupValue value => value
    | .newStringLen _ => .exception
    | .newAtomLen key => key.length
    | .getException => w.pending
    | .type value => if value = .heap .object 1 then (10 : Int) else 1
    | native => native.idle
  pending native w :=
    match native with
    | .newStringLen _ => .heap .object 1
    | .getException => .uninitialized
    | .throw value => value
    | .throwError _ _ => .null
    | .throwOutOfMemory => if w.inOutOfMemory then w.pending else .null
    | _ => w.pending
  guest _ w := w.guest
  typed value w above := by
    dsimp only at above
    split at above
    · next isError => exact ⟨1, isError⟩
    · cases above

def exhaustedEngine : ThrowingEngine Unit :=
  exhausted.throwing (fun _ _ => rfl) (fun _ _ => rfl) (fun _ _ _ => rfl) fun _ => rfl

theorem unaware_mute (script : Script Unit) : Unaware script.engine.toEngine mute.toHost where
  native := script.untouched
  asked op w := by cases op <;> exact ⟨rfl, Valued.refl w⟩

def naming : JSValue → List JSValue → Run Unit Unit (HostValue Unit) :=
  fun _ _ => pure (.string (text "name"))

/-- Cell 0 is a revoked proxy. Cell 1 is the `TypeError` for that, which inherits its name, cell
3: that text cannot be had, and cell 2 is the `InternalError` for it. Cell 4 is the error that
is made. -/
def longNamed : Script Unit where
  reply native w :=
    match native with
    | .dupValue value => value
    | .newError => .heap .object 4
    | .newAtomLen key => key.length
    | .getException => w.pending
    | .type value =>
      if value = .heap .object 0 then (-1 : Int) else if value = .heap .object 1 then 10 else
        if value = .heap .object 2 then 10 else 1
    | .getDataProperty value atom =>
      if value = .heap .object 1 ∧ atom = 4 then .heap .string 3 else .undefined
    | native => native.idle
  pending native w :=
    match native with
    | .type value => if value = .heap .object 0 then .heap .object 1 else w.pending
    | .getException => .uninitialized
    | .toCString _ => .heap .object 2
    | .throw value => value
    | .throwError _ _ => .null
    | .throwOutOfMemory => if w.inOutOfMemory then w.pending else .null
    | _ => w.pending
  guest _ w := w.guest
  typed value w above := by
    dsimp only at above
    split at above
    · cases above
    · split at above
      · next isError => exact ⟨1, isError⟩
      · split at above
        · next isError => exact ⟨2, isError⟩
        · cases above

def longNamedEngine : ThrowingEngine Unit :=
  longNamed.throwing (fun _ _ => rfl) (fun _ _ => rfl) (fun _ _ _ => rfl) fun _ => rfl

-- An error whose name is the handle 4, if host code has one.
def nameHandle (w : World Unit) : HostValue Unit :=
  if (w.handles[4]?.map Handle.exposed).getD false then .handle 4 else .undefined

def misnaming : CallbackHost Unit Unit where
  callable _ := false
  numeral _ := []
  ask
    | .instanceOf _ c => pure (c == .error)
    | .getKey _ _ => .lift fun w => (nameHandle w, w)
    | op => pure op.idle
  acts op _ _ _ := by cases op <;> exact .nothing
  known op w e w' throws := by cases op <;> cases throws
  given value key w answer w' asked := by
    cases asked
    intro h member
    change h ∈ (nameHandle w).handles at member
    unfold nameHandle at member
    split at member
    · next exposed =>
      obtain rfl := List.mem_singleton.mp member
      obtain ⟨handle, found, shared⟩ : ∃ handle, w.handles[4]? = some handle ∧
          handle.exposed = true := by
        simpa [Option.getD_eq_iff] using exposed
      exact ⟨handle, found, .inl shared⟩
    · cases member

end QuickJSBun.Context
