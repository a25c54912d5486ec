import QuickJSBun.Context.Callbacks
import QuickJSBun.Context.Scripted
import QuickJSBun.Context.Settling
import Mathlib.Tactic.IntervalCases

/-! What comes back to C from a callback. Whatever the host code behind it does, `hostDepth` is what it was and
the handles that were borrowed are disposed. What host code throws stays out of C unless it throws in turn
when the callback reads it: every catch block reads what it has caught.
-/

set_option autoImplicit false

namespace QuickJSBun.Context

open Library Effect

variable {σ V α β : Type}

/-- What the natives do to the pending exception. -/
structure ThrowingEngine (σ : Type) extends LawfulEngine σ where
  duplicates : ∀ value w, (∀ cell ∈ value.cells, counter w.references cell ≠ 0) →
    (call (.dupValue value) w).1 = value
  throws : ∀ value w, (call (.throw value) w).2.pending = value
  throwsError : ∀ kind message w, (call (.throwError kind message) w).2.pending ≠ .uninitialized
  throwsOutOfMemory : ∀ w, w.inOutOfMemory = false →
    (call .throwOutOfMemory w).2.pending ≠ .uninitialized
  /-- `JS_ThrowOutOfMemory` does nothing inside itself. -/
  nested : ∀ w, w.inOutOfMemory = true → (call .throwOutOfMemory w).2.pending = w.pending
  /-- What is pending has its own reference, so freeing one of its references is not freeing the last. -/
  frees : ∀ value w, (value = w.pending ∨ ∀ cell ∈ value.cells, 1 < counter w.references cell) →
    (call (.freeValue value) w).2.pending = w.pending

/-- What host objects give away of handles are handles of host code. -/
structure CallbackHost (V σ : Type) extends LawfulHost V σ where
  given : ∀ value key w answer w', (ask (.getKey value key)).run w = (.ok answer, w') →
    Known w' answer

/-- A callback with what native code passes to it and the host code it runs. -/
inductive Callback (σ V : Type) where
  | loader (registered : Bool) (load : Option (Text → JSValue → Run σ V (HostValue V)))
    (name : Text) (attributes : Value)
  | normalizer (registered : Bool) (normalize : Text → Text → Run σ V (HostValue V))
    (base name : Text)
  | initializer (init : Run σ V Unit)
  | function (registered : Bool) (fn : JSValue → List JSValue → Run σ V (HostValue V))
    (this : Value) (args : List Value)
  | finalizer (callback : Run σ V Unit)
  | tracker (registered : Bool) (track : Option (JSValue → JSValue → Run σ V Unit))
    (promise reason : Value)

namespace Callback

section
variable (engine : Engine σ) (host : Host V σ)

/-- Whether C gets the failure result, and the handles that were borrowed. -/
def run : Callback σ V → Run σ V (Bool × List JSValue)
  | .loader registered load name attributes => do
    let (module, borrowed) ← loadModule engine host registered load name attributes
    pure (module.isNone, borrowed)
  | .normalizer registered normalize base name => do
    let resolved ← normalizeModule engine host registered normalize base name
    pure (resolved.isNone, [])
  | .initializer init => do
    let status ← initModule engine host init
    pure (decide (status < 0), [])
  | .function true fn this args => do
    let (out, borrowed) ← callHost engine host fn this args
    pure (decide (out = .exception), borrowed)
  | .function false _ _ _ => do
    let out ← callMissing engine
    pure (decide (out = .exception), [])
  | .finalizer callback => do
    finalizeClass callback
    pure (false, [])
  | .tracker registered track promise reason => do
    let borrowed ← trackRejection engine registered track promise reason
    pure (false, borrowed)

/-- What is done before the `try`. -/
def enter : Callback σ V → Run σ V (List JSValue)
  | .loader registered _ _ attributes => do
    enterHost
    if registered then borrowAll engine [attributes] else pure []
  | .function true _ this args => do
    let this ← borrow engine this
    enterHost
    let argv ← borrowAll engine args
    pure (this :: argv)
  | .function false _ _ _ => pure []
  | .tracker false _ _ _ => pure []
  | .tracker true _ promise reason => do
    let borrowed ← borrowAll engine [promise, reason]
    enterHost
    pure borrowed
  | _ => do
    enterHost
    pure []

/-- The body of the `try`, for its outcome: the host code, and what becomes of its answer. -/
def tries (callback : Callback σ V) (borrowed : List JSValue) : Run σ V Unit :=
  match callback, borrowed with
  | .loader true load name _, imported :: _ => do
    let source ← match load with
      | some load => load name imported
      | none => pure .undefined
    let _ ← loadSource engine host name source
    pure ()
  | .loader _ _ _ _, _ => .throw (assertionError "QuickJS module context is not registered")
  | .normalizer registered normalize base name, _ => do
    .check registered (assertionError "QuickJS module context is not registered")
    let answer ← normalize base name
    let resolved ← cstring host answer
    let buffer : Option Nat ← call engine (.malloc (resolved.length + 1))
    .check buffer.isSome (assertionError "QuickJS could not allocate the module name")
  | .initializer init, _ => init
  | .function true fn _ _, this :: argv => do
    let result ← fn this argv
    let _ ← returnResult engine host result
    pure ()
  | .function _ _ _ _, _ => pure ()
  | .finalizer callback, _ => callback
  | .tracker true (some track) _ _, promise :: reason :: _ => track promise reason
  | .tracker _ _ _ _, _ => pure ()

/-- What is caught in a run of the callback from `w`, and in which world. -/
def Throws (callback : Callback σ V) (w : World σ) (e : HostValue V) (s : World σ) : Prop :=
  ∃ borrowed w', (callback.enter engine).run w = (.ok borrowed, w') ∧
    (callback.tries engine host borrowed).run w' = (.error e, s)

-- Callbacks that can tell C that they failed.
def reports : Callback σ V → Bool
  | .finalizer _ | .tracker _ _ _ _ => false
  | _ => true

/-- Nothing escapes to C, and C finds everything in order. -/
def Contained (callback : Callback σ V) (w : World σ) : Prop :=
  ∃ failed borrowed w', (callback.run engine host).run w = (.ok (failed, borrowed), w') ∧
    w'.hostDepth = w.hostDepth ∧
    (∀ h ∈ borrowed, ∃ handle, w'.handles[h]? = some handle ∧ handle.disposed = true) ∧
    (callback.reports = true → (∃ e s, callback.Throws engine host w e s) → failed = true ∧
      w'.pending ≠ .uninitialized)

/-- The cell that a host function throws for what was thrown in it. -/
def thrownCell (error : HostValue V) : Run σ V (JSValue × Value) := do
  let value ← thrownValue host error
  let thrown ← thrownHandle engine host error value
  let cell ← ptr thrown
  pure (thrown, cell)

/-- What was thrown can be read: its text for a module, its guest value for a host function. If
there is no guest value, then for a reason that can be told from a `JSException`. -/
def Reads (callback : Callback σ V) (e : HostValue V) (s : World σ) : Prop :=
  match callback with
  | .loader _ _ _ _ | .normalizer _ _ _ _ | .initializer _ =>
    ∃ message s', (thrownText engine host e).run s = (.ok message, s')
  | .function _ _ _ _ =>
    (∃ thrown cell s', (thrownCell engine host e).run s = (.ok (thrown, cell), s') ∧
      cell ≠ .uninitialized) ∨
      ∃ failure s' s'', (thrownCell engine host e).run s = (.error failure, s') ∧
        (disposeFailure engine host failure).run s' = (.ok (), s'') ∧
        (s''.disposed = true ∨ s''.inOutOfMemory = false ∨ s''.pending ≠ .uninitialized)
  | .finalizer _ | .tracker _ _ _ _ => True

end

def passed : Callback σ V → List Value
  | .loader _ _ _ attributes => [attributes]
  | .function _ _ this args => this :: args
  | .tracker _ _ promise reason => [promise, reason]
  | _ => []

/-- The host code behind a callback: it has kept `own` from earlier, and gets what is borrowed. -/
def Lawful (own : List JSValue) : Callback σ V → Prop
  | .loader _ load _ _ =>
    ∀ load' ∈ load, ∀ name imported,
    HostCode (own ++ [imported]) HostValue.handles (load' name imported)
  | .normalizer _ normalize _ _ => ∀ base name, HostCode own HostValue.handles (normalize base name)
  | .initializer init => HostCode own none' init
  | .function _ fn _ _ =>
    ∀ this argv, HostCode (own ++ this :: argv) HostValue.handles (fn this argv)
  | .finalizer callback => HostCode own none' callback
  | .tracker _ track _ _ =>
    ∀ track' ∈ track, ∀ promise reason,
    HostCode (own ++ [promise, reason]) none' (track' promise reason)

end Callback

/-! ### The pending exception -/

section
variable (engine : ThrowingEngine σ)

-- Freeing a reference that is not the last leaves the pending exception alone.
theorem dispose_pending {w : World σ} {h : JSValue}
    (spare : (w.handle h).owned = true → (w.handle h).disposed = false →
      (w.handle h).value = w.pending ∨ ∀ cell ∈ (w.handle h).value.cells,
      1 < counter w.references cell) :
    ((dispose (V := V) engine.toEngine h).run w).2.pending = w.pending := by
  have read : (dispose (V := V) engine.toEngine h).run w =
      (if !(w.handle h).owned || (w.handle h).disposed then pure ()
        else do
          .modify fun s =>
            { s with handles := s.handles.set h { w.handle h with disposed := true } }
          if (w.handle h).value.tag < 0 then call engine.toEngine (.freeValue (w.handle h).value)
            else pure () :
        Run σ V Unit).run w := rfl
  rw [read]
  split
  · rfl
  · next holding =>
      simp only [Bool.or_eq_true, Bool.not_eq_true', not_or, Bool.not_eq_false,
        Bool.not_eq_true] at holding
      have marked : (Effect.modify fun s : World σ =>
          { s with handles := s.handles.set h { w.handle h with disposed := true } } :
          Run σ V Unit).run w =
            (.ok (), { w with handles := w.handles.set h { w.handle h with disposed := true } }) :=
          rfl
      rw [bind_ok marked]
      split
      · exact engine.frees _ _ (spare holding.1 holding.2)
      · rfl

-- What a handle holds of a cell that native code holds as well.
theorem Sound.spare {flight : List Nat} {w : World σ} (sound : Sound flight w) {h : JSValue}
    {handle : Handle} (found : w.handles[h]? = some handle) (owned : handle.owned = true)
    (alive : handle.disposed = false) (kept : ∀ cell ∈ handle.value.cells, cell ∈ flight) :
    ∀ cell ∈ handle.value.cells, 1 < counter w.references cell := by
  intro cell member
  have accounts := sound.accounts cell
  have own : 0 < handle.holds cell := by
    simpa [Handle.holds, owned, alive] using List.count_pos_iff.mpr member
  have held : handle.holds cell ≤ w.held cell := le_tally (List.mem_of_getElem? found)
  have flying := List.count_pos_iff.mpr (kept cell member)
  omega

theorem borrow_lends {flight : List Nat} {w : World σ} (sound : Sound flight w) {value : Value}
    (kept : ∀ cell ∈ value.cells, cell ∈ flight) :
    ∃ h w', (borrow (V := V) engine.toEngine value).run w = (.ok h, w') ∧ Sound flight w' ∧
    Step w w' nobody nobody ∧
      LentAt w' value h := by
  have lends {cell : Value} {s : World σ} (same : cell = value)
      (given : Sound (cell.cells ++ flight) s) (step : Step w s nobody nobody) :
      Sound flight { s with handles := s.handles ++ [⟨false, cell, true, true, false⟩] } ∧
        Step w { s with handles := s.handles ++ [⟨false, cell, true, true, false⟩] } nobody nobody ∧
        LentAt { s with handles := s.handles ++ [⟨false, cell, true, true, false⟩] } value
          s.handles.length := by
    refine ⟨sound_handle given true, step.trans_quiet (step_expose s rfl), ?_⟩
    exact ⟨⟨false, cell, true, true, false⟩, by simp, rfl, rfl, same⟩
  unfold borrow
  by_cases heap : value.tag < 0
  · rw [if_pos heap]
    have acts := (engine.acts (.dupValue value) flight w sound).frame flight
    obtain ⟨given, step⟩ := acts.kept sound
    have same := engine.duplicates value w fun cell member =>
      sound.counted
        (.inr (.inr (Nat.pos_iff_ne_zero.mp (List.count_pos_iff.mpr (kept cell member)))))
    have runs : (call engine.toEngine (.dupValue value) : Run σ V Value).run w =
      (.ok (engine.call (.dupValue value) w).1, (engine.call (.dupValue value) w).2) := rfl
    exact ⟨_, _, (bind_ok runs).trans rfl, lends same given step⟩
  · rw [if_neg heap]
    have given : Sound (value.cells ++ flight) w := by rwa [Value.cells_of_tag heap]
    exact ⟨_, _, rfl, lends rfl given (Step.refl w)⟩

theorem borrowAll_lends {flight : List Nat} {w : World σ} (sound : Sound flight w)
    {values : List Value} (kept : ∀ value ∈ values, ∀ cell ∈ value.cells, cell ∈ flight) :
    ∃ handles w', (borrowAll (V := V) engine.toEngine values).run w = (.ok handles, w') ∧
    Sound flight w' ∧
      Step w w' nobody nobody ∧ Lent w' values handles := by
  induction values generalizing w with
  | nil => exact ⟨[], w, rfl, sound, Step.refl w, .nil⟩
  | cons value rest ih =>
    obtain ⟨h, w', runs, later, step, lent⟩ :=
      borrow_lends (V := V) engine sound (kept value List.mem_cons_self)
    obtain ⟨handles, w'', others, later', step', lents⟩ :=
      ih later fun other member => kept other (List.mem_cons_of_mem _ member)
    refine ⟨h :: handles, w'', ?_, later', step.trans_quiet step', .cons (lent.step step') lents⟩
    exact (bind_ok runs).trans ((bind_ok others).trans rfl)

theorem dispose_lent {flight : List Nat} {w : World σ} (sound : Sound flight w) {value : Value}
    {h : JSValue} (lent : LentAt w value h) (kept : ∀ cell ∈ value.cells, cell ∈ flight) :
    ∃ w', (dispose (V := V) engine.toEngine h).run w = (.ok (), w') ∧ Sound flight w' ∧
    Step w w' nobody nobody ∧
      w'.pending = w.pending ∧ ∃ handle, w'.handles[h]? = some handle ∧ handle.disposed = true := by
  obtain ⟨handle, found, exposed, owned, rfl⟩ := lent
  have disposable := sound.disposable ⟨handle, found, .inl exposed⟩
  have same : w.handle h = handle := by rw [World.handle, found, Option.getD_some]
  have pending := dispose_pending (V := V) engine (w := w) (h := h) fun _ alive => by
    rw [same] at alive ⊢
    exact .inr (sound.spare found owned alive kept)
  have frees := dispose_frees (V := V) engine.toLawfulEngine h sound disposable.kept
  cases runs : (dispose (V := V) engine.toEngine h).run w with
  | mk outcome w' =>
    rw [runs] at pending
    cases outcome with
    | error e => exact absurd runs (dispose_returns engine.toEngine h w e w')
    | ok _ =>
      obtain ⟨later, step, released⟩ := frees.returned rfl runs
      have frees : Step w w' (· = h) nobody :=
        step.weaken (fun _ _ freed => freed.1) fun _ _ _ _ leftOver => leftOver
      refine ⟨w', rfl, later, frees.exposed found exposed, pending, ?_⟩
      obtain still | ⟨-, gone⟩ := step.handles h handle found
      · refine ⟨handle, still, (released handle still).resolve_right fun unowned => ?_⟩
        rw [owned] at unowned
        cases unowned
      · exact ⟨_, gone, rfl⟩

theorem disposeAll_lent {flight : List Nat} {w : World σ} (sound : Sound flight w)
    {values : List Value} {handles : List JSValue} (lent : Lent w values handles)
    (kept : ∀ value ∈ values, ∀ cell ∈ value.cells, cell ∈ flight) :
    ∃ w', (Effect.forEach (dispose (V := V) engine.toEngine) handles).run w = (.ok (), w') ∧
    Sound flight w' ∧
      Step w w' nobody nobody ∧ w'.pending = w.pending ∧
      ∀ h ∈ handles, ∃ handle, w'.handles[h]? = some handle ∧ handle.disposed = true := by
  induction values generalizing w handles with
  | nil =>
    cases lent
    exact ⟨w, rfl, sound, Step.refl w, rfl, fun h member => nomatch member⟩
  | cons value rest ih =>
    cases lent with
    | @cons _ h _ others at_h lents =>
    obtain ⟨w', runs, later, step, pending, gone⟩ :=
      dispose_lent (V := V) engine sound at_h (kept value List.mem_cons_self)
    have still : Lent w' rest others := Lent.step lents step
    obtain ⟨w'', again, later', step', pending', disposed⟩ :=
      ih later still fun other member => kept other (List.mem_cons_of_mem _ member)
    refine ⟨w'', (bind_ok runs).trans again, later', step.trans_quiet step', pending'.trans pending,
      fun k member => ?_⟩
    rcases List.mem_cons.mp member with rfl | other
    · obtain ⟨handle, found, disposed⟩ := gone
      exact ⟨handle, step'.disposed found disposed, disposed⟩
    · exact disposed k other

end

/-! ### Host functions -/

theorem lasts_disposables (handles : List JSValue) :
    Lasts (σ := σ) fun w => ∀ h ∈ handles, Disposable w h :=
  fun _ _ step disposables h member => (disposables h member).step step

section
variable (engine : ThrowingEngine σ) (host : CallbackHost V σ)

theorem settles_resultHandle (result : HostValue V) :
    Settles (fun w => ∀ h ∈ result.handles, Disposable w h)
      (resultHandle engine.toEngine host.toHost result) none'
      fun h w => Disposable w h := by
  cases result with
  | handle h => exact Settles.pure rfl fun w known => known h List.mem_cons_self
  | _ =>
    refine Settles.bind
      (((quiet_instanceOf host.toLawfulHost _ _).settles lasts_true).weaken (fun _ _ => trivial)
      fun _ _ done => done) fun isHandle => ?_
    split
    · exact Settles.throw rfl
    · exact (makes_newValue engine.toLawfulEngine host.toLawfulHost _).settles

theorem settles_returnResult (result : HostValue V) :
    Settles (fun w => ∀ h ∈ result.handles, Disposable w h)
      (returnResult engine.toEngine host.toHost result) Value.cells
      fun _ _ => True := by
  refine Settles.bind (settles_resultHandle engine host result) fun handle => ?_
  refine Settles.bind ((quiet_assertSameVM handle).settles (lasts_disposable handle)) fun _ => ?_
  refine Settles.bind ((quiet_ptr handle).settles (lasts_disposable handle))
    fun value flight w sound disposable => ?_
  have gives : Gives (call engine.toEngine (.dupValue value) : Run σ V Value) :=
    gives_lift (engine.acts (.dupValue value))
  refine Triple.bind (Q := fun out s => Sound (out.cells ++ flight) s ∧ Step w s nobody nobody)
    ((gives flight w sound).weaken (fun _ same => same) (fun _ _ ends => ends) fun _ _ thrown =>
      ⟨⟨thrown.1, thrown.2.step.anyhow⟩, thrown.2.disposable thrown.1⟩) fun out =>
        Triple.each fun s given => ?_
  refine Triple.bind
    ((dispose_frees engine.toLawfulEngine handle given.1 (disposable.step given.2).kept).weaken
      (fun _ same => same) (fun _ _ ends => ends) fun _ _ never => never.elim) fun _ =>
        Triple.pure out fun w' ends => ?_
  exact ⟨⟨ends.1, (given.2.trans ends.2.1).anyhow⟩, trivial⟩

theorem settles_getKey (error : HostValue V) (key : Text) {pre : World σ → Prop} :
    Settles pre (host.ask (.getKey error key)) none' fun value w => ∀ h ∈ HostValue.handles value,
    Disposable w h :=
  fun flight w sound _ s isW => by
    subst isW
    have quiet := quiet_ask host.toLawfulHost (.getKey error key) flight s sound s rfl
    split at quiet
    · next value w' runs => exact ⟨⟨quiet.1, quiet.2.anyhow⟩, fun h member =>
        quiet.1.disposable (host.given error key s value w' runs h member)⟩
    · exact ⟨⟨quiet.1, quiet.2.step.anyhow⟩, quiet.2.disposable quiet.1⟩

theorem settles_thrownValue (error : HostValue V) :
    Settles (fun w => ∀ h ∈ error.handles, Disposable w h) (thrownValue host.toHost error) none'
      fun value w => ∀ h ∈ value.handles, Disposable w h := by
  refine Settles.bind ((quiet_instanceOf host.toLawfulHost _ _).settles (lasts_disposables _))
    fun isException => ?_
  split
  · cases error with
    | exception h name message => exact Settles.pure rfl fun w disposables => disposables
    | _ => exact settles_getKey host _ _
  · exact Settles.pure rfl fun w disposables => disposables

theorem quiet_asError (error : HostValue V) :
    Quiet (asError engine.toEngine host.toHost error) := by
  refine Quiet.bind (quiet_instanceOf host.toLawfulHost _ _) fun isError =>
    Quiet.ite (Quiet.pure _) ?_
  exact Quiet.bind (quiet_stringOf engine.toLawfulEngine host.toLawfulHost _) fun message =>
    Quiet.pure _

theorem settles_thrownHandle (error value : HostValue V) :
    Settles (fun w => ∀ h ∈ value.handles, Disposable w h)
      (thrownHandle engine.toEngine host.toHost error value) none'
      fun h w => Disposable w h := by
  have makes {pre : World σ → Prop} : Settles pre (do
      let error ← asError engine.toEngine host.toHost error
      newError engine.toEngine host.toHost error) none' fun h w => Disposable w h :=
    (Makes.bind (quiet_asError engine host error) fun error =>
      makes_newError engine.toLawfulEngine host.toLawfulHost error).settles
  refine Settles.get fun w => ?_
  cases value with
  | handle h =>
    show Settles _ (if (w.handle h).foreign then _ else _) _ _
    split
    · exact makes
    · exact Settles.pure rfl fun w known => known h List.mem_cons_self
  | _ => exact makes

-- The cell is read from a handle that is not disposed.
theorem settles_ptr (h : JSValue) : Settles (fun w => Disposable w h) (ptr h : Run σ V Value) none'
    fun cell w => Disposable w h ∧ (w.handle h).value = cell :=
  fun flight w sound disposable s isW => by
  subst isW
  have runs : (ptr h : Run σ V Value).run s = (do
      Effect.check (!(s.handle h).disposed) (assertionError "JSValue is disposed")
      pure (s.handle h).value : Run σ V Value).run s := rfl
  rw [runs]
  unfold Effect.check
  cases (s.handle h).disposed with
  | true => exact ⟨Later.refl sound, fun k member => nomatch member⟩
  | false => exact ⟨Later.refl sound, disposable, rfl⟩

theorem settles_thrownCell (error : HostValue V) :
    Settles (fun w => ∀ h ∈ error.handles, Disposable w h)
      (Callback.thrownCell engine.toEngine host.toHost error) none'
      fun thrown w => Disposable w thrown.1 ∧ (w.handle thrown.1).value = thrown.2 := by
  refine Settles.bind (settles_thrownValue host error) fun value => ?_
  refine Settles.bind (settles_thrownHandle engine host error value) fun thrown => ?_
  exact Settles.bind (settles_ptr thrown) fun cell => Settles.pure rfl fun w ends => ends

/-- What `throwResult` does with the cell. -/
def throwCell (engine : Engine σ) (thrown : JSValue) (cell : Value) : Run σ V Value := do
  let _ : Unit ← call engine (.throw cell)
  dispose engine thrown
  pure .exception

theorem throwResult_eq (error : HostValue V) : throwResult engine.toEngine host.toHost error =
    Callback.thrownCell engine.toEngine host.toHost error >>= fun thrown =>
      throwCell engine.toEngine thrown.1 thrown.2 := by
  simp only [throwResult, Callback.thrownCell, throwCell, bind_assoc, pure_bind]

-- The cell is thrown, and its own reference keeps it.
theorem throwCell_runs {flight : List Nat} {w : World σ} (sound : Sound flight w) {thrown : JSValue}
    (disposable : Disposable w thrown) :
    ∃ w', (throwCell (V := V) engine.toEngine thrown (w.handle thrown).value).run w =
      (.ok .exception, w') ∧ Later flight w w' ∧ w'.pending = (w.handle thrown).value := by
  obtain ⟨handle, found⟩ : ∃ handle, w.handles[thrown]? = some handle :=
    ⟨_, List.getElem?_eq_getElem disposable.inside⟩
  have isHandle : w.handle thrown = handle := by rw [World.handle, found, Option.getD_some]
  rw [isHandle]
  have throws : (call engine.toEngine (.throw handle.value) : Run σ V Unit).run w =
    (.ok (engine.call (.throw handle.value) w).1, (engine.call (.throw handle.value) w).2) := rfl
  have acts := (engine.acts (.throw handle.value) flight w sound).frame flight
  have pending := engine.throws handle.value w
  obtain ⟨sound', step⟩ := acts.kept sound
  generalize (engine.call (.throw handle.value) w).2 = w' at throws pending sound' step
  have still : (w'.handle thrown).value = handle.value := by
    obtain same | ⟨-, same⟩ := step.handles thrown handle found
    · rw [World.handle, same, Option.getD_some]
    · rw [World.handle, same, Option.getD_some]
  have frees :=
    dispose_frees (V := V) engine.toLawfulEngine thrown sound' (disposable.step step).kept
  have kept := dispose_pending (V := V) engine (w := w') (h := thrown) fun _ _ =>
    .inl (still.trans pending.symm)
  cases disposes : (dispose (V := V) engine.toEngine thrown).run w' with
  | mk outcome w'' =>
    rw [disposes] at kept
    cases outcome with
    | error e => exact absurd disposes (dispose_returns engine.toEngine thrown w' e w'')
    | ok _ =>
      obtain ⟨later, disposed, -⟩ := frees.returned rfl disposes
      refine ⟨w'', ?_, ⟨later, (step.trans disposed).anyhow⟩, kept.trans pending⟩
      exact (bind_ok throws).trans ((bind_ok disposes).trans rfl)

theorem settles_throwResult (error : HostValue V) :
    Settles (fun w => ∀ h ∈ error.handles, Disposable w h)
      (throwResult engine.toEngine host.toHost error) Value.cells
      fun _ _ => True := by
  rw [throwResult_eq]
  refine Settles.bind (settles_thrownCell engine host error) fun thrown flight w sound its s isW =>
    ?_
  subst isW
  obtain ⟨disposable, same⟩ := its
  obtain ⟨w', runs, later, -⟩ := throwCell_runs (V := V) engine sound disposable
  rw [← same, runs]
  exact ⟨later, trivial⟩

theorem settles_disposeFailure (failure : HostValue V) :
    Settles (fun w => ∀ h ∈ failure.handles, Disposable w h)
      (disposeFailure engine.toEngine host.toHost failure) none' fun _ _ => True := by
  refine Settles.bind ((quiet_instanceOf host.toLawfulHost _ _).settles (lasts_disposables _)) fun isException => ?_
  split
  · cases failure with
    | exception h name message =>
      exact (settles_dispose engine.toLawfulEngine h).weaken
        (fun w known => known h List.mem_cons_self) fun _ _ done => done
    | _ =>
      exact ((quiet_ask host.toLawfulHost _).settles lasts_true).weaken (fun _ _ => trivial)
        fun _ _ done => done
  · exact Settles.pure rfl fun _ _ => trivial

theorem settles_throwFallback (failure : HostValue V) :
    Settles (fun w => ∀ h ∈ failure.handles, Disposable w h)
      (throwFallback engine.toEngine host.toHost failure) Value.cells
      fun _ _ => True := by
  have throws (native : Native) (consumes : native.consumed = [])
      (gives : ∀ w, native.given (engine.call native w).1 = []) :
      Settles (fun _ => True) (do
        let _ ← call engine.toEngine native
        pure .exception : Run σ V Value) Value.cells fun _ _ => True :=
    Settles.bind ((quiet_call engine.toLawfulEngine consumes gives).settles lasts_true) fun _ =>
      Settles.pure rfl fun _ _ => trivial
  refine Settles.bind (settles_disposeFailure engine host failure) fun _ => ?_
  refine Settles.get fun w => ?_
  split
  · exact throws _ rfl fun _ => rfl
  · exact throws _ rfl fun _ => rfl

theorem settles_callHost {fn : Run σ V (HostValue V)} {has : List JSValue}
    (code : HostCode has HostValue.handles fn) :
    Settles (fun w => Has w has)
      (Effect.tryCatch
        (do
          let result ← fn
          returnResult engine.toEngine host.toHost result)
        fun error => .tryCatch (throwResult engine.toEngine host.toHost error)
          (throwFallback engine.toEngine host.toHost))
      Value.cells fun _ _ => True := by
  refine Settles.tryCatch
    (Settles.bind code.settles fun result => settles_returnResult engine host result) fun error =>
      ?_
  exact Settles.tryCatch (settles_throwResult engine host error) fun failure =>
    settles_throwFallback engine host failure

/-! ### Every callback -/

/-- What a `finally` has done: the depth is one less, and the borrowed handles are disposed. -/
structure Cleaned (borrowed : List JSValue) (w w' : World σ) : Prop where
  hostDepth : w'.hostDepth = w.hostDepth - 1
  pending : w'.pending = w.pending
  disposed : ∀ h ∈ borrowed, ∃ handle, w'.handles[h]? = some handle ∧ handle.disposed = true

/-- A `finally` for what was borrowed of these values. -/
def Cleans (values : List Value) (borrowed : List JSValue) (cleanup : Run σ V Unit) : Prop :=
  ∀ flight w, Sound flight w → Lent w values borrowed →
    (∀ value ∈ values, ∀ cell ∈ value.cells, cell ∈ flight) →
    ∃ w', cleanup.run w = (.ok (), w') ∧ Cleaned borrowed w w'

theorem cleans_leave : Cleans (σ := σ) (V := V) [] [] leaveHost := fun _ _ _ _ _ =>
  ⟨_, rfl, rfl, rfl, fun _ member => nomatch member⟩

theorem cleans_before {values : List Value} {borrowed : List JSValue} :
    Cleans (σ := σ) (V := V) values borrowed (do
    leaveHost
    .forEach (dispose engine.toEngine) borrowed) := fun flight w sound lent kept => by
  obtain ⟨w', runs, -, step, pending, disposed⟩ :=
    disposeAll_lent (V := V) engine (sound.deepen (w.hostDepth - 1))
      (show Lent _ values borrowed from lent) kept
  have leaves : (leaveHost : Run σ V Unit).run w =
      (.ok (), { w with hostDepth := w.hostDepth - 1 }) := rfl
  exact ⟨w', (bind_ok leaves).trans runs, step.hostDepth, pending, disposed⟩

theorem cleans_after {value : Value} {h : JSValue} : Cleans (σ := σ) (V := V) [value] [h] (do
    dispose engine.toEngine h
    leaveHost) := fun flight w sound lent kept => by
  obtain ⟨at_h, -⟩ := List.forall₂_cons.mp lent
  obtain ⟨w', runs, -, step, pending, gone⟩ :=
    dispose_lent (V := V) engine sound at_h (kept value List.mem_cons_self)
  refine ⟨{ w' with hostDepth := w'.hostDepth - 1 }, (bind_ok runs).trans rfl, ?_, pending,
    fun k member => ?_⟩
  · exact congrArg (· - 1) step.hostDepth
  · rwa [List.mem_singleton.mp member]

theorem finally_runs {x : Run σ V α} {cleanup : Run σ V Unit} {pre : World σ → Prop}
    {gives : α → List Nat} {post : α → World σ → Prop} {values : List Value}
    {borrowed : List JSValue} (settles : Settles pre x gives post)
    (cleans : Cleans values borrowed cleanup) {flight : List Nat} {w : World σ}
    (sound : Sound flight w) (start : pre w) (lent : Lent w values borrowed)
    (kept : ∀ value ∈ values, ∀ cell ∈ value.cells, cell ∈ flight) :
    ∃ outcome s s', x.run w = (outcome, s) ∧ (Effect.tryFinally x cleanup).run w = (outcome, s') ∧
      s.hostDepth = w.hostDepth ∧ Cleaned borrowed s s' := by
  cases runs : x.run w with
  | mk outcome s =>
    cases outcome with
    | ok a =>
      obtain ⟨later, -⟩ := (settles flight w sound start).returned rfl runs
      obtain ⟨s', cleaned, its⟩ :=
        cleans _ s later.sound (lent.step later.step) fun value member cell inside =>
        List.mem_append_right _ (kept value member cell inside)
      exact ⟨_, s, s', rfl, by simp only [Effect.tryFinally, runs, cleaned], later.step.hostDepth, its⟩
    | error e =>
      obtain ⟨later, -⟩ := (settles flight w sound start).thrown rfl runs
      obtain ⟨s', cleaned, its⟩ := cleans _ s later.sound (lent.step later.step) kept
      exact ⟨_, s, s', rfl, by simp only [Effect.tryFinally, runs, cleaned], later.step.hostDepth, its⟩

theorem discard_error {x : Run σ V α} {w s : World σ} {e : HostValue V} :
    (do
      let _ ← x
      pure () : Run σ V Unit).run w = (.error e, s) ↔ x.run w = (.error e, s) := by
  cases runs : x.run w with
  | mk outcome w' =>
    cases outcome with
    | ok a =>
      rw [bind_ok runs]
      constructor
      · intro never
        cases never
      · intro never
        cases never
    | error e' =>
      rw [bind_error runs]
      constructor
      · intro same
        cases same
        rfl
      · intro same
        cases same
        rfl

-- A callback with a `try`, its `catch` and its `finally` is contained if the `catch` returns.
theorem contained_of (callback : Callback σ V) (borrowed : List JSValue) (body : Run σ V α)
    (report : HostValue V → Run σ V α) (cleanup : Run σ V Unit) (fails : α → Bool)
    {w w' : World σ} {pre : World σ → Prop} {gives : α → List Nat}
    {post : α → World σ → Prop} {values : List Value} {flight : List Nat}
    (enters : (callback.enter engine.toEngine).run w = (.ok borrowed, w'))
    (deeper : w'.hostDepth = w.hostDepth + 1)
    (tries : callback.tries engine.toEngine host.toHost borrowed = do
      let _ ← body
      pure ())
    (runs : (callback.run engine.toEngine host.toHost).run w = (do
      let a ← Effect.tryFinally (.tryCatch body report) cleanup
      pure (fails a, borrowed) : Run σ V (Bool × List JSValue)).run w')
    (settles : Settles pre (Effect.tryCatch body report) gives post) (cleans : Cleans values borrowed cleanup)
    (sound : Sound flight w') (start : pre w') (lent : Lent w' values borrowed)
    (kept : ∀ value ∈ values, ∀ cell ∈ value.cells, cell ∈ flight) :
    callback.Contained engine.toEngine host.toHost w ↔
      ∀ e s, callback.Throws engine.toEngine host.toHost w e s → ∃ a s', (report e).run s = (.ok a, s') ∧
        (callback.reports = true → fails a = true ∧ s'.pending ≠ .uninitialized) := by
  have throws_iff (e : HostValue V) (s : World σ) :
      callback.Throws engine.toEngine host.toHost w e s ↔ body.run w' = (.error e, s) := by
    have both : callback.Throws engine.toEngine host.toHost w e s ↔
        (callback.tries engine.toEngine host.toHost borrowed).run w' = (.error e, s) := by
      constructor
      · rintro ⟨borrowed', w'', enters', throws⟩
        rw [enters] at enters'
        cases enters'
        exact throws
      · exact fun throws => ⟨borrowed, w', enters, throws⟩
    rw [both, tries, discard_error]
  obtain ⟨outcome, s, s', guarded, finished, depth, cleaned⟩ :=
    finally_runs settles cleans sound start lent kept
  have depth' : s'.hostDepth = w.hostDepth := by
    rw [cleaned.hostDepth, depth, deeper, Nat.add_sub_cancel]
  unfold Callback.Contained
  rw [runs]
  cases body' : body.run w' with
  | mk first s'' =>
    cases first with
    | ok a =>
      simp only [Effect.tryCatch, body'] at guarded
      cases guarded
      refine ⟨fun _ e s throws => ?_, fun _ =>
        ⟨fails a, borrowed, s', ?_, depth', cleaned.disposed, fun _ ⟨e, s, throws⟩ => ?_⟩⟩
      · rw [throws_iff, body'] at throws
        cases throws
      · exact (bind_ok finished).trans rfl
      · rw [throws_iff, body'] at throws
        cases throws
    | error e =>
      simp only [Effect.tryCatch, body'] at guarded
      have thrown := (throws_iff e s'').mpr body'
      cases outcome with
      | ok a =>
        constructor
        · rintro ⟨failed, its, w'', ends, -, -, reports⟩ e' s''' throws
          rw [bind_ok finished] at ends
          cases ends
          rw [throws_iff, body'] at throws
          cases throws
          refine ⟨a, s, guarded, fun reporting => ?_⟩
          rw [← cleaned.pending]
          exact reports reporting ⟨e, s'', thrown⟩
        · intro reads
          obtain ⟨a', s''', reported, fine⟩ := reads e s'' thrown
          rw [guarded] at reported
          cases reported
          refine ⟨fails a, borrowed, s', (bind_ok finished).trans rfl, depth', cleaned.disposed,
            fun reporting _ => ?_⟩
          rw [cleaned.pending]
          exact fine reporting
      | error e' =>
        constructor
        · rintro ⟨failed, its, w'', ends, -⟩
          rw [bind_error finished] at ends
          cases ends
        · intro reads
          obtain ⟨a', s''', reported, -⟩ := reads e s'' thrown
          rw [guarded] at reported
          cases reported

-- A loader, a normalizer and an initialiser report the text of what was thrown.
theorem failWith_reads {failure : α} (fails : α → Bool) (failed : fails failure = true)
    (reporting : Bool) (e : HostValue V) (s : World σ) :
    (∃ a s', (failWith engine.toEngine host.toHost failure e).run s = (.ok a, s') ∧
        (reporting = true → fails a = true ∧ s'.pending ≠ .uninitialized)) ↔
      ∃ message s', (thrownText engine.toEngine host.toHost e).run s = (.ok message, s') := by
  unfold failWith
  cases reads : (thrownText engine.toEngine host.toHost e).run s with
  | mk outcome s' =>
    cases outcome with
    | ok message =>
      refine ⟨fun _ => ⟨message, s', rfl⟩, fun _ =>
        ⟨failure, _, (bind_ok reads).trans rfl, fun _ => ⟨failed, ?_⟩⟩⟩
      exact engine.throwsError 4 _ s'
    | error e' =>
      rw [bind_error reads]
      constructor
      · rintro ⟨a, s'', never, -⟩
        cases never
      · rintro ⟨message, s'', never⟩
        cases never

-- A host function throws the guest value of what was thrown, or what it throws if there is none.
theorem throwResult_reads {flight : List Nat} {e : HostValue V} {s : World σ}
    (sound : Sound flight s) (disposables : ∀ h ∈ e.handles, Disposable s h) {registered : Bool}
    {fn : JSValue → List JSValue → Run σ V (HostValue V)} {this : Value} {args : List Value}
    {reporting : Bool} (reports : reporting = true) :
    (∃ a s', (Effect.tryCatch (throwResult engine.toEngine host.toHost e)
      (throwFallback engine.toEngine host.toHost)).run s =
        (.ok a, s') ∧ (reporting = true → decide (a = .exception) = true ∧
          s'.pending ≠ .uninitialized)) ↔
      (Callback.function registered fn this args).Reads engine.toEngine host.toHost e s := by
  have settles := settles_thrownCell engine host e flight s sound disposables
  rw [throwResult_eq]
  unfold Callback.Reads
  cases thrown : (Callback.thrownCell engine.toEngine host.toHost e).run s with
  | mk outcome s' =>
    cases outcome with
    | ok both =>
      obtain ⟨later, disposable, same⟩ := settles.returned rfl thrown
      obtain ⟨w', runs, -, pending⟩ := throwCell_runs (V := V) engine later.sound disposable
      rw [same] at runs pending
      simp only [Effect.tryCatch, bind_ok thrown, runs]
      constructor
      · rintro ⟨a, s'', ends, its⟩
        cases ends
        refine .inl ⟨both.1, both.2, s', rfl, ?_⟩
        rw [← pending]
        exact (its reports).2
      · rintro (⟨h, cell, s'', found, initialized⟩ | ⟨failure, s'', s''', never, -⟩)
        · cases found
          refine ⟨.exception, w', rfl, fun _ => ⟨rfl, ?_⟩⟩
          rwa [pending]
        · cases never
    | error failure =>
      simp only [Effect.tryCatch, bind_error thrown, throwFallback]
      cases disposes : (disposeFailure engine.toEngine host.toHost failure).run s' with
      | mk outcome s'' =>
        cases outcome with
        | ok _ =>
          have reads : (Effect.get : Run σ V (World σ)).run s'' = (.ok s'', s'') := rfl
          rw [bind_ok disposes, bind_ok reads]
          constructor
          · rintro ⟨a, w', ends, its⟩
            refine .inr ⟨failure, s', s'', rfl, disposes, ?_⟩
            cases gone : s''.disposed with
            | true => exact .inl rfl
            | false =>
              refine .inr ?_
              rw [gone, if_neg Bool.false_ne_true] at ends
              cases nested : s''.inOutOfMemory with
              | false => exact .inl rfl
              | true =>
                refine .inr ?_
                rw [← engine.nested s'' nested]
                have same : w' = (engine.call .throwOutOfMemory s'').2 :=
                  (congrArg Prod.snd ends).symm
                rw [← same]
                exact (its reports).2
          · rintro (⟨h, cell, w', never, -⟩ | ⟨failure', s₁, s₂, found, disposed, fine⟩)
            · cases never
            · cases found
              rw [disposes] at disposed
              cases disposed
              cases gone : s''.disposed with
              | true => exact ⟨.exception, _, rfl, fun _ => ⟨rfl, engine.throwsError 4 _ s''⟩⟩
              | false =>
                refine ⟨.exception, _, rfl, fun _ => ⟨rfl, ?_⟩⟩
                rcases fine with isGone | outside | pending
                · rw [gone] at isGone
                  cases isGone
                · exact engine.throwsOutOfMemory s'' outside
                · cases nested : s''.inOutOfMemory with
                  | false => exact engine.throwsOutOfMemory s'' nested
                  | true =>
                    show (engine.call .throwOutOfMemory s'').2.pending ≠ .uninitialized
                    rwa [engine.nested s'' nested]
        | error e' =>
          rw [bind_error disposes]
          constructor
          · rintro ⟨a, w', never, -⟩
            cases never
          · rintro (⟨h, cell, w', never, -⟩ | ⟨failure', s₁, s₂, found, disposed, -⟩)
            · cases never
            · cases found
              rw [disposes] at disposed
              cases disposed

theorem quiet_throwText (kind : Nat) (message : Text) :
    Quiet (V := V) (throwText engine.toEngine kind message) :=
  quiet_call engine.toLawfulEngine rfl fun _ => rfl

theorem quiet_thrownText (e : HostValue V) : Quiet (thrownText engine.toEngine host.toHost e) := by
  refine Quiet.bind (quiet_instanceOf host.toLawfulHost _ _) fun isError => Quiet.ite ?_ ?_
  · refine Quiet.bind (quiet_messageOf host.toLawfulHost _) fun message => ?_
    unfold templateText
    split
    · exact Ends.throw rfl
    · exact quiet_stringOf engine.toLawfulEngine host.toLawfulHost _
  · exact quiet_stringOf engine.toLawfulEngine host.toLawfulHost _

theorem quiet_failWith (failure : α) (e : HostValue V) :
    Quiet (failWith engine.toEngine host.toHost failure e) :=
  Quiet.bind (quiet_thrownText engine host e) fun message =>
    Quiet.bind (quiet_throwText engine 4 message) fun _ => Quiet.pure _

theorem quiet_cstring (value : HostValue V) : Quiet (cstring host.toHost value) := by
  unfold cstring
  split
  · exact Quiet.ite (Ends.throw rfl) (Quiet.pure _)
  · exact quiet_ask host.toLawfulHost _

theorem quiet_loadSource (name : Text) (source : HostValue V) :
    Quiet (loadSource engine.toEngine host.toHost name source) := by
  have compiles (code name : Bytes) :
      Quiet (V := V) (call engine.toEngine (.compileModule code name)) :=
    quiet_call engine.toLawfulEngine rfl fun _ => rfl
  unfold loadSource
  split
  · exact Quiet.bind (quiet_throwText engine _ _) fun _ => Quiet.pure _
  · exact Quiet.bind (quiet_throwText engine _ _) fun _ => Quiet.pure _
  · refine Quiet.bind (quiet_instanceOf host.toLawfulHost _ _) fun isModule => Quiet.ite ?_ ?_
    · refine Quiet.bind (quiet_ask host.toLawfulHost _) fun owned => ?_
      exact Quiet.bind (Quiet.check _ rfl) fun _ => Quiet.pure _
    · split
      · exact Quiet.bind (Quiet.pure _) fun code => Quiet.bind (quiet_cstring host _) fun name =>
          compiles _ _
      · exact Quiet.bind (quiet_ask host.toLawfulHost _) fun code =>
          Quiet.bind (quiet_cstring host _) fun name => compiles _ _

theorem Quiet.anywhere {x : Run σ V α} (quiet : Quiet x) {pre : World σ → Prop} :
    Settles pre x none' fun _ _ => True :=
  (quiet.settles lasts_true).weaken (fun _ _ => trivial) fun _ _ done => done

theorem Settles.guard {body : Run σ V α} {report : HostValue V → Run σ V α} {pre : World σ → Prop}
    (settles : Settles pre body none' fun _ _ => True) (reports : ∀ e, Quiet (report e)) :
    Settles pre (Effect.tryCatch body report) none' fun _ _ => True :=
  Settles.tryCatch settles fun e => (reports e).anywhere

variable {flight : List Nat} {w : World σ} {own : List JSValue}

theorem enterHost_run (w : World σ) :
    (enterHost : Run σ V Unit).run w = (.ok (), { w with hostDepth := w.hostDepth + 1 }) := rfl

theorem contained_loader (registered : Bool)
    (load : Option (Text → JSValue → Run σ V (HostValue V))) (name : Text) (attributes : Value)
    (lawful : ∀ load' ∈ load, ∀ name imported,
      HostCode (own ++ [imported]) HostValue.handles (load' name imported))
    (sound : Sound flight w) (has : Has w own) (kept : ∀ cell ∈ attributes.cells, cell ∈ flight) :
    (Callback.loader registered load name attributes).Contained engine.toEngine host.toHost w ↔
      ∀ e s, (Callback.loader registered load name attributes).Throws engine.toEngine
        host.toHost w e s → (Callback.loader registered load name attributes).Reads engine.toEngine
          host.toHost e s := by
  have entered := sound.deepen (w.hostDepth + 1)
  have reports (e : HostValue V) (s : World σ) :=
    @failWith_reads σ V (Option Nat) engine host none Option.isNone rfl
      (Callback.loader registered load name attributes).reports e s
  cases registered with
  | false =>
    have throws : Settles (fun _ => True)
        (Effect.throw (assertionError "QuickJS module context is not registered") :
          Run σ V (Option Nat)) none' fun _ _ => True :=
      Settles.throw rfl
    refine (contained_of engine host (.loader false load name attributes) []
      (.throw (assertionError "QuickJS module context is not registered"))
        (failWith engine.toEngine host.toHost none) leaveHost
      Option.isNone
      rfl rfl rfl rfl (Settles.guard throws fun e => quiet_failWith engine host none e)
        cleans_leave entered
      trivial .nil fun _ member => nomatch member).trans ?_
    exact forall₃_congr fun e s _ => reports e s
  | true =>
    obtain ⟨imported, w', borrows, later, step, lent⟩ := borrow_lends (V := V) engine entered kept
    have has' : Has w' own := Has.step (w := { w with hostDepth := w.hostDepth + 1 }) has step
    have lents : Lent w' [attributes] [imported] := .cons lent .nil
    have settles : Settles (fun w => Has w (own ++ [imported])) (do
        let source ← match load with
          | some load => load name imported
          | none => pure .undefined
        loadSource engine.toEngine host.toHost name source) none' fun _ _ => True := by
      cases load with
      | none =>
        exact Quiet.anywhere
          (Quiet.bind (Quiet.pure _) fun source => quiet_loadSource engine host name source)
      | some load' =>
        exact Settles.bind (lawful load' rfl name imported).settles fun source =>
          (quiet_loadSource engine host name source).anywhere
    refine (contained_of engine host (.loader true load name attributes) [imported] _
      (failWith engine.toEngine host.toHost none)
      (do
        dispose engine.toEngine imported
        leaveHost)
      Option.isNone
      ?_ step.hostDepth ?_ ?_ (Settles.guard settles fun e => quiet_failWith engine host none e)
        (cleans_after engine)
      later (has'.append lents.has) lents fun value member => ?_).trans ?_
    · exact (bind_ok (enterHost_run w)).trans ((bind_ok borrows).trans rfl)
    · cases load with
      | none => simp only [Callback.tries, bind_assoc]
      | some load' => simp only [Callback.tries, bind_assoc]
    · simp only [Callback.run, loadModule, Bool.not_true, Bool.false_eq_true, if_false,
        bind_assoc, pure_bind]
      exact (bind_ok (enterHost_run w)).trans (bind_ok borrows)
    · rwa [List.mem_singleton.mp member]
    · exact forall₃_congr fun e s _ => reports e s

theorem contained_normalizer (registered : Bool) (normalize : Text → Text → Run σ V (HostValue V))
    (base name : Text) (lawful : ∀ base name, HostCode own HostValue.handles (normalize base name))
    (sound : Sound flight w) (has : Has w own) :
    (Callback.normalizer registered normalize base name).Contained engine.toEngine host.toHost w ↔
      ∀ e s, (Callback.normalizer registered normalize base name).Throws engine.toEngine
        host.toHost w e s →
        (Callback.normalizer registered normalize base name).Reads engine.toEngine
          host.toHost e s := by
  have settles : Settles (fun w => Has w own) (do
      Effect.check registered (assertionError "QuickJS module context is not registered")
      let answer ← normalize base name
      let resolved ← cstring host.toHost answer
      let buffer : Option Nat ← call engine.toEngine (.malloc (resolved.length + 1))
      Effect.check buffer.isSome (assertionError "QuickJS could not allocate the module name")
      pure buffer) none' fun _ _ => True := by
    have checks : Quiet (σ := σ) (V := V)
        (Effect.check registered (assertionError "QuickJS module context is not registered")) :=
      Quiet.check _ rfl
    refine Settles.bind (checks.settles (lasts_has own)) fun _ =>
      Settles.bind (lawful base name).settles fun answer => ?_
    refine Quiet.anywhere (Quiet.bind (quiet_cstring host answer) fun resolved => ?_)
    refine Quiet.bind (quiet_call engine.toLawfulEngine rfl fun _ => rfl) fun buffer => ?_
    exact Quiet.bind (Quiet.check _ rfl) fun _ => Quiet.pure _
  refine (contained_of engine host (.normalizer registered normalize base name) [] _
    (failWith engine.toEngine host.toHost none) leaveHost Option.isNone rfl rfl ?_ ?_
    (Settles.guard settles fun e => quiet_failWith engine host none e) cleans_leave
      (sound.deepen (w.hostDepth + 1)) has .nil
    fun _ member => nomatch member).trans ?_
  · simp only [Callback.tries, bind_assoc, pure_bind, bind_pure_unit]
  · simp only [Callback.run, normalizeModule, bind_assoc]
    exact bind_ok (enterHost_run w)
  · exact forall₃_congr fun e s _ => failWith_reads engine host _ rfl _ e s

theorem contained_initializer (init : Run σ V Unit) (lawful : HostCode own none' init)
    (sound : Sound flight w) (has : Has w own) :
    (Callback.initializer init).Contained engine.toEngine host.toHost w ↔
      ∀ e s, (Callback.initializer init).Throws engine.toEngine host.toHost w e s →
        (Callback.initializer init).Reads engine.toEngine host.toHost e s := by
  have settles : Settles (fun w => Has w own) (do
      init
      pure 0 : Run σ V Int) none' fun _ _ => True :=
        Settles.bind lawful.settles fun _ => Settles.pure rfl fun _ _ => trivial
  refine (contained_of engine host (.initializer init) [] _
    (failWith engine.toEngine host.toHost (-1)) leaveHost (fun status => decide (status < 0))
    rfl rfl ?_ ?_ (Settles.guard settles fun e => quiet_failWith engine host (-1) e) cleans_leave
      (sound.deepen (w.hostDepth + 1)) has .nil
    fun _ member => nomatch member).trans ?_
  · simp only [Callback.tries, bind_assoc, pure_bind, bind_pure_unit]
  · simp only [Callback.run, initModule, bind_assoc]
    exact bind_ok (enterHost_run w)
  · exact forall₃_congr fun e s _ => failWith_reads engine host _ rfl _ e s

-- What a finalizer or a tracker throws is not looked at.
theorem reads_ignored {report : HostValue V → Run σ V Unit} (ignores : ∀ e, report e = pure ())
    {fails : Unit → Bool} {e : HostValue V} {s : World σ} :
    (∃ a s', (report e).run s = (.ok a, s') ∧
      (false = true → fails a = true ∧ s'.pending ≠ .uninitialized)) ↔ True :=
  iff_true_intro ⟨(), s, by rw [ignores]; rfl, fun never => nomatch never⟩

theorem contained_finalizer (callback : Run σ V Unit) (lawful : HostCode own none' callback)
    (sound : Sound flight w) (has : Has w own) :
    (Callback.finalizer callback).Contained engine.toEngine host.toHost w ↔
      ∀ e s, (Callback.finalizer callback).Throws engine.toEngine host.toHost w e s →
        (Callback.finalizer callback).Reads engine.toEngine host.toHost e s := by
  refine (contained_of engine host (.finalizer callback) [] callback (fun _ => pure ()) leaveHost
    (fun _ => false) rfl rfl ?_ ?_
    (Settles.guard (lawful.settles.weaken (fun _ its => its) fun _ _ _ => trivial) fun _ =>
      Quiet.pure ()) cleans_leave
    (sound.deepen (w.hostDepth + 1)) has .nil
    fun _ member => nomatch member).trans ?_
  · simp only [Callback.tries, bind_pure_unit]
  · simp only [Callback.run, finalizeClass, bind_assoc]
    exact bind_ok (enterHost_run w)
  · exact forall₃_congr fun e s _ => reads_ignored (e := e) (s := s) fun _ => rfl

theorem contained_function (registered : Bool) (fn : JSValue → List JSValue → Run σ V (HostValue V))
    (this : Value) (args : List Value)
    (lawful : ∀ this argv, HostCode (own ++ this :: argv) HostValue.handles (fn this argv))
    (sound : Sound flight w) (has : Has w own)
    (kept : ∀ value ∈ this :: args, ∀ cell ∈ value.cells, cell ∈ flight) :
    (Callback.function registered fn this args).Contained engine.toEngine host.toHost w ↔
      ∀ e s, (Callback.function registered fn this args).Throws engine.toEngine host.toHost w e s →
        (Callback.function registered fn this args).Reads engine.toEngine host.toHost e s := by
  cases registered with
  | false =>
    have never (e : HostValue V) (s : World σ) :
        ¬(Callback.function false fn this args).Throws engine.toEngine host.toHost w e s := by
      rintro ⟨borrowed, w', -, throws⟩
      cases throws
    refine iff_of_true ?_ fun e s throws => (never e s throws).elim
    have acts :=
      engine.acts (.throwError 4 (encode (text "QuickJS host function is unavailable")))
        flight w sound
    obtain ⟨later, step⟩ := (acts.frame flight).kept sound
    refine ⟨_, [], _, rfl, step.hostDepth, fun h member => ?_, fun _ thrown => ?_⟩
    · cases member
    · obtain ⟨e, s, throws⟩ := thrown
      exact (never e s throws).elim
  | true =>
    obtain ⟨thisHandle, w', borrows, later, step, lent⟩ :=
      borrow_lends (V := V) engine sound (kept this List.mem_cons_self)
    obtain ⟨argv, w'', others, later', step', lents⟩ :=
      borrowAll_lends (V := V) engine (later.deepen (w'.hostDepth + 1))
      fun value member => kept value (List.mem_cons_of_mem _ member)
    have settles := settles_callHost engine host (lawful thisHandle argv)
    have lents' : Lent w'' (this :: args) (thisHandle :: argv) :=
      .cons (LentAt.step (w := { w' with hostDepth := w'.hostDepth + 1 }) lent step') lents
    have has₁ : Has w' own := has.step step
    have has' : Has w'' own := Has.step (w := { w' with hostDepth := w'.hostDepth + 1 }) has₁ step'
    have has'' := has'.append lents'.has
    have entered : ((Callback.function true fn this args).enter engine.toEngine).run w =
        (.ok (thisHandle :: argv), w'') :=
      (bind_ok borrows).trans ((bind_ok (enterHost_run w')).trans ((bind_ok others).trans rfl))
    have depth : w''.hostDepth = w.hostDepth + 1 :=
      step'.hostDepth.trans (congrArg (· + 1) step.hostDepth)
    refine (contained_of engine host (.function true fn this args) (thisHandle :: argv) _ _
      (do
        leaveHost
        .forEach (dispose engine.toEngine) (thisHandle :: argv))
      (fun out => decide (out = .exception))
      entered depth ?_ ?_ settles (cleans_before engine) later' has'' lents' kept).trans ?_
    · simp only [Callback.tries, bind_assoc]
    · simp only [Callback.run, callHost, bind_assoc, pure_bind]
      exact (bind_ok borrows).trans ((bind_ok (enterHost_run w')).trans (bind_ok others))
    · refine forall₃_congr fun e s throws => ?_
      obtain ⟨borrowed, w₁, enters, thrown⟩ := throws
      rw [entered] at enters
      cases enters
      have body : Settles (fun w => Has w (own ++ thisHandle :: argv)) (do
          let result ← fn thisHandle argv
          returnResult engine.toEngine host.toHost result) Value.cells fun _ _ => True :=
        Settles.bind (lawful thisHandle argv).settles fun result =>
          settles_returnResult engine host result
      have tries : (Callback.function true fn this args).tries engine.toEngine host.toHost
          (thisHandle :: argv) = (do
          let _ ← (do
            let result ← fn thisHandle argv
            returnResult engine.toEngine host.toHost result)
          pure ()) := by simp only [Callback.tries, bind_assoc]
      rw [tries, discard_error] at thrown
      obtain ⟨after, disposables⟩ := (body flight w'' later' has'').thrown rfl thrown
      exact throwResult_reads engine host after.sound disposables rfl

theorem contained_tracker (registered : Bool) (track : Option (JSValue → JSValue → Run σ V Unit))
    (promise reason : Value) (lawful : ∀ track' ∈ track, ∀ promise reason,
      HostCode (own ++ [promise, reason]) none' (track' promise reason))
    (sound : Sound flight w) (has : Has w own)
    (kept : ∀ value ∈ [promise, reason], ∀ cell ∈ value.cells, cell ∈ flight) :
    (Callback.tracker registered track promise reason).Contained engine.toEngine host.toHost w ↔
      ∀ e s, (Callback.tracker registered track promise reason).Throws engine.toEngine
        host.toHost w e s → (Callback.tracker registered track promise reason).Reads engine.toEngine
          host.toHost e s := by
  cases registered with
  | false =>
    refine iff_of_true ⟨false, [], w, rfl, rfl, fun h member => ?_, fun never => ?_⟩ fun e s _ =>
      trivial
    · cases member
    · cases never
  | true =>
    obtain ⟨first, w', borrows, later, step, lent⟩ :=
      borrow_lends (V := V) engine sound (kept promise List.mem_cons_self)
    obtain ⟨second, w'', others, later', step', lent'⟩ := borrow_lends (V := V) engine later
      (kept reason (List.mem_cons_of_mem _ List.mem_cons_self))
    have settles : Settles (fun w => Has w (own ++ [first, second]))
        ((Callback.tracker true track promise reason).tries engine.toEngine host.toHost
          [first, second]) none' fun _ _ => True := by
      cases track with
      | none => exact Quiet.anywhere (Quiet.pure ())
      | some track' =>
        exact (lawful track' rfl first second).settles.weaken (fun _ its => its) fun _ _ _ =>
          trivial
    have lents : Lent w'' [promise, reason] [first, second] :=
      .cons (lent.step step') (.cons lent' .nil)
    have has' : Has w'' (own ++ [first, second]) := ((has.step step).step step').append lents.has
    refine (contained_of engine host (.tracker true track promise reason) [first, second] _
      (fun _ => pure ())
      (do
        leaveHost
        .forEach (dispose engine.toEngine) [first, second])
      (fun _ => false)
      ?_ (congrArg (· + 1) (step'.hostDepth.trans step.hostDepth)) ?_ ?_
        (Settles.guard settles fun _ => Quiet.pure ())
      (cleans_before engine) (later'.deepen (w''.hostDepth + 1)) has' lents kept).trans ?_
    · have both : (borrowAll (V := V) engine.toEngine [promise, reason]).run w =
          (.ok [first, second], w'') :=
        (bind_ok borrows).trans ((bind_ok ((bind_ok others).trans rfl)).trans rfl)
      exact (bind_ok both).trans ((bind_ok (enterHost_run w'')).trans rfl)
    · exact bind_pure_unit.symm
    · have same : Effect.forEach (dispose (V := V) engine.toEngine) [first, second] = (do
          dispose engine.toEngine first
          dispose engine.toEngine second) := by
        show (dispose engine.toEngine first >>= fun _ => dispose engine.toEngine second >>= fun _ =>
            pure ()) = _
        rw [bind_pure_unit]
      simp only [Callback.run, trackRejection, Bool.not_true, Bool.false_eq_true, if_false,
        bind_assoc, pure_bind]
      rw [same, bind_ok borrows, bind_ok others, bind_ok (enterHost_run w'')]
      cases track with
      | none => rfl
      | some track' => rfl
    · exact forall₃_congr fun e s _ => reads_ignored (e := e) (s := s) fun _ => rfl

end

/-! ### A thrown value without a text -/

/-- Strings and atoms are made, and an error is the object of cell 0; what is thrown is pending. -/
def raising : Script Unit where
  reply native _ :=
    match native with
    | .dupValue value => value
    | .newError => .heap .object 0
    | .newAtomLen _ => (1 : Nat)
    | native => native.idle
  pending native w :=
    match native with
    | .throw value => value
    | .throwError _ _ => .null
    | .throwOutOfMemory => if w.inOutOfMemory then w.pending else .null
    | _ => w.pending
  guest _ w := w.guest
  typed value w above := by
    have none : (7 : Int) ≤ 0 := above
    cases none

def raisingEngine : ThrowingEngine Unit where
  toLawfulEngine := raising.engine
  duplicates value w counted := by
    have there : (value.cells.all fun cell => decide (counter w.references cell ≠ 0)) = true :=
      List.all_eq_true.mpr fun cell member => decide_eq_true (counted cell member)
    exact congrArg Prod.fst (if_pos there)
  throws _ _ := rfl
  throwsError _ _ _ := nofun
  throwsOutOfMemory w outside := by
    show (if w.inOutOfMemory then w.pending else Value.null) ≠ .uninitialized
    rw [outside]
    exact nofun
  nested w inside := by
    show (if w.inOutOfMemory then w.pending else Value.null) = w.pending
    rw [inside]
    rfl
  frees _ _ _ := rfl

/-- A host in which no object has a text: `String(Object.create(null))` throws. -/
def mute : CallbackHost Unit Unit where
  callable _ := false
  numeral _ := []
  ask
    | .toString _ => .throw (typeError "Cannot convert object to primitive value")
    | op => pure op.idle
  acts op _ _ _ := by cases op <;> exact .nothing
  known op w e w' throws := by
    cases op with
    | toString value =>
      cases throws
      exact nofun
    | _ => cases throws
  given value key w answer w' answers := by
    cases answers
    exact nofun

-- Native code calls a host function on the object of cell 0.
def calledWorld : World Unit where
  disposed := false
  cells := [16]
  references := [2]
  engine := [1]
  handles := constants
  atoms := []
  pending := .uninitialized
  inOutOfMemory := false
  hostDepth := 0
  scratch := 4096
  undescribed := []
  guest := ()

theorem calledWorld_sound : Sound [0] calledWorld where
  references_length := rfl
  engine_length := rfl
  accounts
    | 0 => rfl
    | _ + 1 => rfl
  distinct cell other counted also same := by
    have first : cell < 1 := lt_length_of_counter counted
    have second : other < 1 := lt_length_of_counter also
    omega
  nonzero cell counted := by
    have first : cell < 1 := lt_length_of_counter counted
    obtain rfl := Nat.lt_one_iff.mp first
    exact nofun
  owned h handle found shared := by
    obtain ⟨bound, same⟩ := List.getElem?_eq_some_iff.mp found
    have below : h < 4 := bound
    interval_cases h <;> cases same <;> exact absurd rfl shared
  constants _ _ isConstant := isConstant
  lost _ member := nomatch member

/-- A host function that throws an `Error`. -/
def failing : Callback Unit Unit :=
  .function true (fun _ _ => .throw (.error (text "Error") (text "boom"))) (.heap .object 0) []

/-- A loader that throws `Object.create(null)`. -/
def speechless : Callback Unit Unit :=
  .loader true (some fun _ _ => .throw (.other ())) (text "m") .undefined

end QuickJSBun.Context
