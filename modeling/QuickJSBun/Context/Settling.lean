import QuickJSBun.Context.Leaving

/-! Code that keeps the accounts of its context, whatever handles it leaves: the references are accounted for,
no handle changes but by its `dispose`, and what it throws or returns can be disposed. The callbacks of native
code are put together from it, with the handles that they borrow and the finally blocks that dispose them.
-/

set_option autoImplicit false

namespace QuickJSBun.Context

open Library Effect

variable {σ V α β : Type}

def anybody : JSValue → Prop := fun _ => True

theorem Step.anyhow {w w' : World σ} {freed left : JSValue → Prop} (step : Step w w' freed left) :
    Step w w' anybody anybody :=
  step.weaken (fun _ _ _ => trivial) fun _ _ _ _ _ => trivial

structure Later (flight : List Nat) (w w' : World σ) : Prop where
  sound : Sound flight w'
  step : Step w w' anybody anybody

theorem Later.refl {flight : List Nat} {w : World σ} (sound : Sound flight w) : Later flight w w :=
  ⟨sound, (Step.refl w).anyhow⟩

theorem Later.trans {flight flight' : List Nat} {w w' w'' : World σ} (first : Later flight w w')
    (second : Later flight' w' w'') : Later flight' w w'' :=
  ⟨second.sound, (first.step.trans second.step).anyhow⟩

/-- A handle that may be disposed: nobody lost it, or its `dispose` does nothing. -/
structure Disposable (w : World σ) (h : JSValue) : Prop where
  inside : h < w.handles.length
  kept : h ∉ w.undescribed ∨ Released w h

theorem Disposable.step {w w' : World σ} {h : JSValue} {freed left : JSValue → Prop}
    (disposable : Disposable w h) (step : Step w w' freed left) : Disposable w' h where
  inside := Nat.lt_of_lt_of_le disposable.inside step.length_le
  kept := by
    refine disposable.kept.imp (fun kept lost => ?_) (·.step disposable.inside step)
    rcases step.lost h lost with earlier | above
    · exact kept earlier
    · exact absurd disposable.inside (Nat.not_lt.mpr above)

theorem Fresh.disposable {w w' : World σ} {h : JSValue} (fresh : Fresh w w' h) : Disposable w' h :=
  ⟨fresh.1, fresh.2.imp And.right id⟩

-- What host code has may be disposed.
theorem Sound.disposable {flight : List Nat} {w : World σ} (sound : Sound flight w) {h : JSValue}
    (known : ∃ handle, w.handles[h]? = some handle ∧
      (handle.exposed = true ∨ handle.owned = false)) :
    Disposable w h := by
  obtain ⟨handle, found, its⟩ := known
  refine ⟨(List.getElem?_eq_some_iff.mp found).1, ?_⟩
  rcases its with exposed | unowned
  · refine .inl fun lost => ?_
    obtain ⟨value, same⟩ := sound.lost h lost
    obtain rfl := Option.some.inj (found.symm.trans same)
    cases exposed
  · refine .inr fun other same => .inr ?_
    obtain rfl := Option.some.inj (found.symm.trans same)
    exact unowned

theorem Throws.disposable {flight : List Nat} {w w' : World σ} {e : HostValue V}
    (throws : Throws e w w') (sound : Sound flight w') : ∀ h ∈ e.handles, Disposable w' h :=
  fun h member =>
  (throws.yields h member).elim (fun new => ⟨new.2.1, .inl new.2.2⟩) sound.disposable

/-- From worlds with `pre`, whatever else is on the way. `gives` are the references that go with the
result. -/
def Settles (pre : World σ → Prop) (x : Run σ V α) (gives : α → List Nat)
    (post : α → World σ → Prop) : Prop :=
  ∀ flight w, Sound flight w → pre w →
    Triple (· = w) x (fun a w' => Later (gives a ++ flight) w w' ∧ post a w')
      fun e w' => Later flight w w' ∧ ∀ h ∈ e.handles, Disposable w' h

def none' : α → List Nat := fun _ => []

-- What stays true in later worlds.
def Lasts (pre : World σ → Prop) : Prop := ∀ w w', Step w w' anybody anybody → pre w → pre w'

section
variable {pre mid : World σ → Prop} {x : Run σ V α} {gives : β → List Nat}
    {post : β → World σ → Prop}

theorem Ends.settles {worlds : α → World σ → World σ → Prop} {post : α → World σ → Prop}
    (ends : Ends x worlds) (lasts : Lasts pre)
    (follows : ∀ a w w', worlds a w w' → Step w w' anybody anybody ∧ (pre w' → post a w')) :
    Settles pre x none' post :=
  fun flight w sound start => (ends flight w sound).weaken (fun _ same => same)
    (fun a w' done => by
      have ⟨step, then'⟩ := follows a w w' done.2
      exact ⟨⟨done.1, step⟩, then' (lasts w w' step start)⟩)
    fun _ _ thrown => ⟨⟨thrown.1, thrown.2.step.anyhow⟩, thrown.2.disposable thrown.1⟩

theorem Quiet.settles (quiet : Quiet x) (lasts : Lasts pre) : Settles pre x none' fun _ => pre :=
  Ends.settles quiet lasts fun _ _ _ step => ⟨step.anyhow, id⟩

theorem Makes.settles {x : Run σ V JSValue} (makes : Makes x) :
    Settles pre x none' fun h w => Disposable w h :=
  fun flight w sound _ => (makes flight w sound).weaken (fun _ same => same)
    (fun _ _ ends => ⟨⟨ends.1, ends.2.1.anyhow⟩, ends.2.2.disposable⟩)
    fun _ _ ends => ⟨⟨ends.1, ends.2.step.anyhow⟩, ends.2.disposable ends.1⟩

theorem Settles.bind {f : α → Run σ V β} {mid : α → World σ → Prop}
    (first : Settles pre x none' mid) (next : ∀ a, Settles (mid a) (f a) gives post) :
    Settles pre (x >>= f) gives post := fun flight w sound start => by
  refine Triple.bind (first flight w sound start) fun a => Triple.each fun w' ends => ?_
  refine (next a flight w' ends.1.sound ends.2).weaken (fun _ same => same) (fun b w'' done => ?_)
    fun e w'' thrown => ?_
  · exact ⟨ends.1.trans done.1, done.2⟩
  · exact ⟨ends.1.trans thrown.1, thrown.2⟩

theorem Settles.get {f : World σ → Run σ V β} (next : ∀ s, Settles pre (f s) gives post) :
    Settles pre (Effect.get >>= f) gives post :=
  fun flight w sound start => by
    refine Triple.bind (Q := fun s w' => s = w ∧ w' = w)
      (Triple.get fun _ same => ⟨same, same⟩) fun s => ?_
    refine Triple.each fun w' same => ?_
    obtain ⟨rfl, rfl⟩ := same
    exact next _ flight _ sound start

theorem Settles.tryCatch {x : Run σ V β} {handler : HostValue V → Run σ V β}
    (body : Settles pre x gives post)
    (handles : ∀ e, Settles (fun w => ∀ h ∈ e.handles, Disposable w h) (handler e) gives post) :
    Settles pre (Effect.tryCatch x handler) gives post := fun flight w sound start => by
  refine Triple.tryCatch (body flight w sound start) fun e => Triple.each fun w' thrown => ?_
  refine (handles e flight w' thrown.1.sound thrown.2).weaken (fun _ same => same)
    (fun b w'' done => ?_) fun e' w'' again => ?_
  · exact ⟨thrown.1.trans done.1, done.2⟩
  · exact ⟨thrown.1.trans again.1, again.2⟩

theorem Settles.weaken {x : Run σ V β} {pre' : World σ → Prop} {post' : β → World σ → Prop}
    (settles : Settles pre' x gives post') (starts : ∀ w, pre w → pre' w)
    (ends : ∀ b w, post' b w → post b w) : Settles pre x gives post := fun flight w sound start =>
  (settles flight w sound (starts w start)).weaken (fun _ same => same)
    (fun b w' done => ⟨done.1, ends b w' done.2⟩)
    fun _ _ thrown => thrown

theorem Settles.pure {b : β} (plain : gives b = []) (ends : ∀ w, pre w → post b w) :
    Settles pre (Pure.pure b : Run σ V β) gives post :=
  fun flight w sound start => Triple.pure b fun s isW => by
  subst isW
  rw [plain]
  exact ⟨Later.refl sound, ends s start⟩

theorem Settles.throw {e : HostValue V} (plain : e.handles = []) :
    Settles pre (Effect.throw e : Run σ V β) gives post :=
  fun flight w sound _ => Triple.throw e fun s isW => by
    subst isW
    refine ⟨Later.refl sound, fun h member => ?_⟩
    rw [plain] at member
    cases member

end

theorem lasts_disposable (h : JSValue) : Lasts (σ := σ) fun w => Disposable w h :=
  fun _ _ step disposable => disposable.step step

theorem lasts_true : Lasts (σ := σ) fun _ => True := fun _ _ _ _ => trivial

section
variable (engine : LawfulEngine σ)

theorem settles_dispose (h : JSValue) :
    Settles (fun w => Disposable w h) (dispose (V := V) engine.toEngine h) none' fun _ _ => True :=
  fun _ _ sound disposable =>
    (dispose_frees engine h sound disposable.kept).weaken (fun _ same => same)
    (fun _ _ ends => ⟨⟨ends.1, ends.2.1.anyhow⟩, trivial⟩) fun _ _ never => never.elim

end

/-! ### Host code -/

-- Handles that host code has.
def Has (w : World σ) (handles : List JSValue) : Prop :=
  ∀ h ∈ handles, ∃ handle, w.handles[h]? = some handle ∧
    (handle.exposed = true ∨ handle.owned = false)

theorem Has.step {w w' : World σ} {handles : List JSValue} {freed left : JSValue → Prop}
    (has : Has w handles) (step : Step w w' freed left) : Has w' handles :=
  fun h member => step.known (has h member)

theorem Has.append {w : World σ} {handles others : List JSValue} (has : Has w handles)
    (also : Has w others) :
    Has w (handles ++ others) := fun h member => (List.mem_append.mp member).elim (has h) (also h)

theorem lasts_has (handles : List JSValue) : Lasts (σ := σ) fun w => Has w handles :=
  fun _ _ step has => has.step step

/-- Code of the host outside the library: it acts by moves, and what it gives away of handles it had
or was given. -/
structure HostCode (has : List JSValue) (gives : α → List JSValue) (x : Run σ V α) : Prop where
  acts : ∀ flight w, Sound flight w → Has w has → Acts [] w [] (x.run w).2
  throws : ∀ flight w e w', Sound flight w → Has w has → x.run w = (.error e, w') → Known w' e
  returns : ∀ flight w a w', Sound flight w → Has w has → x.run w = (.ok a, w') → Has w' (gives a)

theorem HostCode.runs {has : List JSValue} {gives : α → List JSValue} {x : Run σ V α}
    (code : HostCode has gives x) {flight : List Nat} {w : World σ} (sound : Sound flight w)
    (its : Has w has) :
    Triple (· = w) x (fun a w' => (Sound flight w' ∧ Step w w' nobody nobody) ∧ Has w' (gives a))
      fun e w' => Sound flight w' ∧ Throws e w w' := fun s isW => by
  subst isW
  have kept := ((code.acts flight s sound its).frame flight).kept sound
  split
  · next a w' runs =>
      rw [runs] at kept
      exact ⟨kept, code.returns flight s a w' sound its runs⟩
  · next e w' runs =>
      rw [runs] at kept
      exact ⟨kept.1, .known kept.2 (code.throws flight s e w' sound its runs)⟩

theorem HostCode.settles {has : List JSValue} {gives : α → List JSValue} {x : Run σ V α}
    (code : HostCode has gives x) :
    Settles (fun w => Has w has) x none' fun a w => ∀ h ∈ gives a, Disposable w h :=
  fun _ _ sound its =>
  (code.runs sound its).weaken (fun _ same => same)
    (fun _ _ ends =>
      ⟨⟨ends.1.1, ends.1.2.anyhow⟩, fun h member => ends.1.1.disposable (ends.2 h member)⟩)
    fun _ _ thrown => ⟨⟨thrown.1, thrown.2.step.anyhow⟩, thrown.2.disposable thrown.1⟩

theorem HostCode.plain {has : List JSValue} {gives : α → List JSValue} {x : Run σ V α}
    {outcome : Except (HostValue V) α} (same : ∀ w, x.run w = (outcome, w))
    (throws : ∀ e, outcome = .error e → e.handles = [])
    (returns : ∀ a, outcome = .ok a → gives a ⊆ has) : HostCode has gives x where
  acts _ w _ _ := by
    rw [same w]
    exact .nothing
  throws _ w e w' _ _ runs h member := by
    rw [same w] at runs
    obtain ⟨isOutcome, -⟩ := Prod.mk.inj runs
    rw [throws e isOutcome] at member
    cases member
  returns _ w a w' _ its runs h member := by
    rw [same w] at runs
    obtain ⟨isOutcome, rfl⟩ := Prod.mk.inj runs
    exact its h (returns a isOutcome member)

/-! ### Borrowed handles -/

/-- A handle with a reference of its own to what native code passes, in the hands of host code. -/
def LentAt (w : World σ) (value : Value) (h : JSValue) : Prop :=
  ∃ handle, w.handles[h]? = some handle ∧ handle.exposed = true ∧ handle.owned = true ∧
    handle.value = value

theorem LentAt.step {w w' : World σ} {value : Value} {h : JSValue} {freed left : JSValue → Prop}
    (lent : LentAt w value h) (step : Step w w' freed left) : LentAt w' value h := by
  obtain ⟨handle, found, exposed, owned, same⟩ := lent
  obtain still | ⟨-, gone⟩ := step.handles h handle found
  · exact ⟨handle, still, exposed, owned, same⟩
  · exact ⟨_, gone, exposed, owned, same⟩

abbrev Lent (w : World σ) (values : List Value) (handles : List JSValue) : Prop :=
  List.Forall₂ (LentAt w) values handles

theorem Lent.step {w w' : World σ} {values : List Value} {handles : List JSValue}
    {freed left : JSValue → Prop} (lent : Lent w values handles) (step : Step w w' freed left) :
    Lent w' values handles :=
  lent.imp fun _ _ at_h => at_h.step step

theorem Lent.has {w : World σ} {values : List Value} {handles : List JSValue}
    (lent : Lent w values handles) : Has w handles := by
  induction lent with
  | nil => exact fun h member => nomatch member
  | cons at_h _ ih =>
    intro h member
    rcases List.mem_cons.mp member with rfl | other
    · obtain ⟨handle, found, exposed, -⟩ := at_h
      exact ⟨handle, found, .inl exposed⟩
    · exact ih h other

theorem Step.deepen {w w' : World σ} {freed left : JSValue → Prop} (step : Step w w' freed left)
    (depth : Nat) : Step { w with hostDepth := depth } { w' with hostDepth := depth } freed left :=
  ⟨step.cells, step.handles, step.created, step.undescribed, step.lost, rfl, step.inOutOfMemory⟩

-- `hostDepth` is no part of the accounts.
theorem Sound.deepen {flight : List Nat} {w : World σ} (sound : Sound flight w) (depth : Nat) :
    Sound flight { w with hostDepth := depth } :=
  ⟨sound.references_length, sound.engine_length, sound.accounts, sound.distinct, sound.nonzero,
    sound.owned, sound.constants, sound.lost⟩

end QuickJSBun.Context
