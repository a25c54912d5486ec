import QuickJSBun.Context.Failing
import QuickJSBun.Context.Iterating
import QuickJSBun.Context.Leaving

/-! One resumption of the generator behind an iteration: what its handles are when it stops at a `yield`, and what
it leaves when it has returned or thrown. The handle of a value goes to the host.
-/

set_option autoImplicit false

namespace QuickJSBun.Context

open Library Effect

variable {σ V α β : Type}

theorem attempt_ends {pre : World σ → Prop} {x : Run σ V α} {post : α → World σ → Prop}
    {fails : HostValue V → World σ → Prop} (triple : Triple pre x post fails) :
    Triple pre (attempt x) (fun outcome s => match outcome with
      | .ok a => post a s
      | .error e => fails e s) (fun _ _ => False) := by
  intro s start
  have ends := triple s start
  unfold attempt Effect.lift
  dsimp only
  split at ends
  · next runs =>
      rw [runs]
      exact ends
  · next runs =>
      rw [runs]
      exact ends

theorem ptr_made {w₀ w : World σ} {h : JSValue} (made : Made w₀ w h) :
    ∃ value, Triple (· = w) (ptr h : Run σ V Value) (fun found w' => found = value ∧ w' = w)
      (fun _ _ => False) := by
  obtain ⟨-, -, value, found⟩ := made
  refine ⟨value, ?_⟩
  rintro _ rfl
  rw [ptr_run found rfl]
  exact ⟨rfl, rfl⟩

/-! ### What one resumption leaves -/

def Generator.handles : Generator → List JSValue
  | .suspended iterator next => [next, iterator]
  | _ => []

-- The handles that an outcome gives to the host.
def Outcome.handles : Outcome V → List JSValue
  | .yields value => [value]
  | .returns => []
  | .throws e => e.handles

-- The handles that the library has made for it.
def Outcome.left : Outcome V → JSValue → Prop
  | .yields value => (· = value)
  | .returns => nobody
  | .throws e => carried e

/-- Between resumptions: what the generator has are its two handles, which nobody else has. -/
structure Holding (flight : List Nat) (w₀ : World σ) (generator : Generator)
    (w : World σ) : Prop where
  sound : Sound flight w
  step : Step w₀ w nobody (· ∈ generator.handles)
  made : ∀ h ∈ generator.handles, Made w₀ w h

/-- After a resumption: the outcome has handles as well. -/
structure Turned (flight : List Nat) (w₀ w : World σ) (turn : Turn V) (w' : World σ) : Prop where
  sound : Sound flight w'
  step : Step w₀ w' nobody fun h => h ∈ turn.generator.handles ∨ turn.outcome.left h
  made : ∀ h ∈ turn.generator.handles, Made w₀ w' h
  apart : ∀ h ∈ turn.outcome.handles, h ∉ turn.generator.handles
  valued : Valued w w'
  gives : ∀ h ∈ turn.outcome.handles, New w₀ w' h ∨
    ∃ handle, w'.handles[h]? = some handle ∧ (handle.exposed = true ∨ handle.owned = false)
  yields : ∀ value, turn.outcome = .yields value → w.handles.length ≤ value ∧
    ∃ cell, turn.reply = some (cell, false) ∧ cell ≠ .exception ∧
    w'.handles[value]? = some ⟨false, cell, true, false, false⟩

theorem Holding.leaving {flight : List Nat} {w₀ w : World σ} {generator : Generator}
    (holding : Holding flight w₀ generator w) : Leaving flight w₀ nobody generator.handles w :=
  ⟨holding.sound, holding.step.weaken (fun _ _ freed => freed) fun _ _ _ _ leftOver =>
    .inl leftOver, fun h member => (holding.made h member).fresh⟩

section
variable (engine : IteratorEngine σ) (host : LawfulHost V σ) {flight : List Nat} {w : World σ}

theorem quiet_dropException : Quiet (dropException engine host.toHost) := fun flight w sound => by
  have start : Leaving flight w (nobody : JSValue → Prop) [] w := ⟨sound, (Step.refl w).any, nofun⟩
  refine Triple.bind
    ((excepts_getException engine.toLawfulEngine host flight w sound).weaken (fun _ same => same)
    (fun _ _ ends => ends) fun _ _ ends => ends) fun exception => Triple.each fun s ends => ?_
  refine (start.throws ends.1 ends.2).disposed.throwless.weaken (fun _ same => same)
    (fun _ s' leaving => ?_) fun _ _ ends => ends
  exact ⟨leaving.sound, leaving.step.weaken (fun _ _ freed => freed) fun _ _ _ _ leftOver =>
    leftOver.resolve_left nofun⟩

theorem closing_asked (iterator : Value) :
    Triple (fun _ => True) (qjsBunIteratorClose engine iterator : Run σ V (Int × Closing))
      (fun reply _ => reply.2 ≠ .notAsked)
      fun _ _ => True := by
  refine Triple.bind (Triple.any _) fun _ =>
    Triple.bind (Q := fun reply _ => reply.2 ≠ .notAsked) ?_ fun reply => ?_
  · refine Triple.bind (Triple.any _) fun method => ?_
    split
    · exact Triple.pure _ fun _ _ => nofun
    · split
      · exact Triple.pure _ fun _ _ => nofun
      · refine Triple.bind (Triple.any _) fun result => Triple.bind (Triple.any _) fun _ => ?_
        split
        · exact Triple.pure _ fun _ _ => nofun
        · split
          · exact Triple.bind (Triple.any _) fun _ => Triple.bind (Triple.any _) fun _ =>
              Triple.pure _ fun _ _ => nofun
          · exact Triple.bind (Triple.any _) fun _ => Triple.pure _ fun _ _ => nofun
  · refine Triple.bind (Q := fun _ _ => reply.2 ≠ .notAsked)
      (Triple.modify fun _ asked => asked) fun _ => ?_
    exact Triple.pure _ fun _ asked => asked

-- The iterator is asked for its `return` method; what goes wrong there replaces the outcome.
theorem closeIterator_ends {w₀ : World σ} {iterator : JSValue} (sound : Sound flight w)
    (made : Made w₀ w iterator) (outcome : Outcome V) :
    Triple (· = w) (closeIterator engine host.toHost iterator outcome)
      (fun reply s => Sound flight s ∧ reply.2 ≠ .notAsked ∧
      (reply.1 = outcome ∧ Step w s nobody nobody ∨ ∃ e, reply.1 = .throws e ∧ Throws e w s))
        fun _ _ => False := by
  obtain ⟨cell, reads⟩ := ptr_made (V := V) made
  have closes : Triple (· = w) (do
      let cell ← ptr iterator
      qjsBunIteratorClose engine cell : Run σ V (Int × Closing))
      (fun reply s => (Sound flight s ∧ Step w s nobody nobody) ∧ reply.2 ≠ .notAsked)
        (fun _ _ => False) := by
    refine Triple.bind reads fun found => Triple.each fun s ends => ?_
    obtain ⟨rfl, rfl⟩ := ends
    have asked := (closing_asked (V := V) engine found).weaken (fun w' (_ : w' = s) => trivial)
      (fun _ _ ends => ends) fun _ _ ends => ends
    exact ((trades_qjsBunIteratorClose engine found flight s sound).both asked).weaken
      (fun _ same => same) (fun _ _ ends => ends)
      fun _ _ ends => ends.1
  refine Triple.bind (attempt_ends closes) fun closed => Triple.each fun s ends => ?_
  cases closed with
  | error e => exact ends.elim
  | ok reply =>
    obtain ⟨ok, closing⟩ := reply
    obtain ⟨⟨sound', step⟩, asked⟩ := ends
    dsimp only
    split
    · refine Triple.bind (attempt_ends (quiet_dropException engine host flight s sound'))
        fun dropped => Triple.each fun s' ends => ?_
      cases dropped with
      | error e => exact Triple.pure _ fun _ isS =>
        isS ▸ ⟨ends.1, asked, .inr ⟨e, rfl, ends.2.after step⟩⟩
      | ok => exact Triple.pure _ fun _ isS =>
        isS ▸ ⟨ends.1, asked, .inl ⟨rfl, step.trans_quiet ends.2⟩⟩
    · exact Triple.pure _ fun _ isS => isS ▸ ⟨sound', asked, .inl ⟨rfl, step⟩⟩

/-- What a round of the loop comes to: the flag `finished` is set unless a value is yielded. -/
structure Rounded (flight : List Nat) (w : World σ)
    (reply : Outcome V × Bool × Option (Value × Bool)) (w' : World σ) : Prop where
  sound : Sound flight w'
  step : Step w w' nobody reply.1.left
  gives : ∀ h ∈ reply.1.handles, New w w' h ∨
    ∃ handle, w'.handles[h]? = some handle ∧ (handle.exposed = true ∨ handle.owned = false)
  called : ∃ cell done, reply.2.2 = some (cell, done) ∧
    ((∃ value, reply.1 = .yields value ∧ w.handles.length ≤ value ∧
      w'.handles[value]? = some ⟨false, cell, true, false, false⟩) ∧ cell ≠ .exception ∧
      done = false ∧ reply.2.1 = false ∨ (∀ value, reply.1 ≠ .yields value) ∧
      (cell = .exception ∨ done = true) ∧ reply.2.1 = true)

theorem Rounded.threw {cell : Value} {done : Bool} {w₁ w₂ : World σ}
    (isException : cell = .exception) (step : Step w w₁ nobody nobody) {e : HostValue V}
    (sound : Sound flight w₂) (throws : Throws e w₁ w₂) :
    Rounded flight w (.throws e, true, some (cell, done)) w₂ where
  sound := sound
  step := (throws.after step).step
  gives := (throws.after step).yields
  called := ⟨cell, done, rfl, .inr ⟨fun _ => nofun, .inl isException, rfl⟩⟩

theorem round_ends {w₀ : World σ} {iterator next : JSValue} (sound : Sound flight w)
    (made : Made w₀ w iterator) (madeNext : Made w₀ w next) :
    Triple (· = w) (round engine host.toHost iterator next)
      (Rounded flight w) fun _ _ => False := by
  obtain ⟨cell, reads⟩ := ptr_made (V := V) made
  obtain ⟨method, readsNext⟩ := ptr_made (V := V) madeNext
  have calls : Triple (· = w) (do
      let cell ← ptr iterator
      let method ← ptr next
      qjsBunIteratorNext engine cell method : Run σ V (Value × Bool))
      (fun reply s => Sound (reply.1.cells ++ flight) s ∧ Step w s nobody nobody)
        (fun _ _ => False) := by
    refine Triple.bind reads fun found => Triple.each fun s ends => ?_
    obtain ⟨rfl, rfl⟩ := ends
    refine Triple.bind readsNext fun found => Triple.each fun s' ends => ?_
    obtain ⟨rfl, rfl⟩ := ends
    exact trades_qjsBunIteratorNext engine _ _ flight _ sound
  refine Triple.bind (attempt_ends calls) fun called => Triple.each fun w₁ ends => ?_
  cases called with
  | error e => exact ends.elim
  | ok reply =>
    obtain ⟨cell, done⟩ := reply
    obtain ⟨sound₁, step₁⟩ := ends
    have handled := sound_handle sound₁ false
    refine Triple.bind (Q := fun value s => value = w₁.handles.length ∧
      s = { w₁ with handles := w₁.handles ++ [⟨false, cell, true, false, false⟩] })
        (Triple.lift fun s isW => ?_) fun value =>
        Triple.each fun w₂ both => ?_
    · subst isW
      exact ⟨rfl, rfl⟩
    obtain ⟨rfl, rfl⟩ := both
    have made₂ := step₁.trans_quiet (step_handle w₁ ⟨false, cell, true, false, false⟩)
    have found :
        (w₁.handles ++ [(⟨false, cell, true, false, false⟩ : Handle)])[w₁.handles.length]? =
        some ⟨false, cell, true, false, false⟩ := by simp
    split
    · next isException =>
        have unlisted :
            Step w { w₁ with handles := w₁.handles ++ [⟨false, cell, true, false, false⟩] }
              nobody nobody := by
          rw [isException]
          exact step₁.trans_quiet (step_exception w₁)
        refine Triple.bind
          (attempt_ends (excepts_getException engine.toLawfulEngine host flight _ handled))
            fun taken =>
          Triple.each fun w₃ ends => ?_
        cases taken with
        | ok e => exact Triple.pure _ fun _ isS => isS ▸ .threw isException unlisted ends.1 ends.2
        | error e => exact Triple.pure _ fun _ isS =>
          isS ▸ .threw isException unlisted ends.1 ends.2
    · next noException =>
        split
        · next isDone =>
            have fresh : Fresh w
                { w₁ with handles := w₁.handles ++ [⟨false, cell, true, false, false⟩] }
                  w₁.handles.length :=
              Made.fresh ⟨step₁.length_le, new_not_lost sound₁, cell, found⟩
            have only :=
              made₂.weaken (l := fun h => h = w₁.handles.length ∨ nobody h) (fun _ _ freed => freed)
              fun _ _ _ _ leftOver => .inl leftOver
            refine Triple.bind
              (dispose_left engine.toLawfulEngine handled only fresh).throwless fun _ => ?_
            refine Triple.pure _ fun w₃ ends =>
              ⟨ends.1, ends.2.1, nofun, cell, done, rfl, .inr ⟨fun _ => nofun, .inr isDone, rfl⟩⟩
        · next notDone =>
            refine Triple.pure _ fun s isS => ?_
            subst isS
            refine ⟨handled, made₂, fun h member => .inl ?_, cell, done, rfl,
              .inl ⟨⟨_, rfl, step₁.length_le, found⟩, noException, ?_, rfl⟩⟩
            · obtain rfl := List.mem_singleton.mp member
              exact ⟨step₁.length_le, (List.getElem?_eq_some_iff.mp found).1, new_not_lost sound₁⟩
            · simpa using notDone

variable {w₀ w' : World σ} {iterator next : JSValue} {outcome : Outcome V}
    {reply : Option (Value × Bool)} {closing : Closing}

-- The two handles are disposed, whatever the outcome.
theorem dispose_both (leaving : Leaving flight w₀ outcome.left [next, iterator] w')
    (gives : ∀ h ∈ outcome.handles, New w₀ w' h ∨ ∃ handle, w'.handles[h]? = some handle ∧
      (handle.exposed = true ∨ handle.owned = false))
    (noYield : ∀ value, outcome ≠ .yields value) (valued : Valued w w') :
    Triple (· = w') (do
      dispose engine.toEngine next
      dispose engine.toEngine iterator
      pure ⟨outcome, .ended, reply, closing⟩ : Run σ V (Turn V))
      (fun turn s => turn = ⟨outcome, .ended, reply, closing⟩ ∧ Turned flight w₀ w turn s)
        (fun _ _ => False) := by
  have both : Triple (· = w') (do
      Effect.forEach (dispose engine.toEngine) [next, iterator]
      pure ⟨outcome, .ended, reply, closing⟩ : Run σ V (Turn V))
      (fun turn s => turn = ⟨outcome, .ended, reply, closing⟩ ∧ Turned flight w₀ w turn s)
        (fun _ _ => False) := by
    refine Triple.bind leaving.disposed fun _ => Triple.pure _ fun s ends => ⟨rfl, ?_⟩
    obtain ⟨sound, step, disposed⟩ := ends
    refine ⟨sound, step.weaken (fun _ _ freed => freed) fun _ _ _ _ leftOver =>
      .inr leftOver, nofun, fun _ _ => nofun,
      valued.trans disposed.valued, fun h member => ?_, fun value yields =>
        absurd yields (noYield value)⟩
    exact (gives h member).imp (·.step disposed) disposed.known
  simp only [Effect.forEach, bind_assoc] at both
  exact both

/-- The generator is at its `yield` exactly if it has yielded, which is what `next` gave. -/
structure Paused (turn : Turn V) : Prop where
  suspended : (∃ value, turn.outcome = .yields value) ∧
    (∃ iterator next, turn.generator = .suspended iterator next) ∨
    (∀ value, turn.outcome ≠ .yields value) ∧ turn.generator = .ended
  replied : (∃ value, turn.outcome = .yields value) ↔ ∃ cell, turn.reply = some (cell, false) ∧
    cell ≠ .exception
  closed : turn.closing ≠ .notAsked → turn.generator = .ended ∧ turn.reply = none

theorem advance_ends (holding : Holding flight w₀ (.suspended iterator next) w) :
    Triple (· = w) (advance engine host.toHost iterator next)
      (fun turn s => Turned flight w₀ w turn s ∧ turn.closing = .notAsked ∧ Paused turn) fun _ _ =>
        False := by
  have made := holding.made iterator (by simp [Generator.handles])
  have madeNext := holding.made next (by simp [Generator.handles])
  refine Triple.bind (round_ends engine host holding.sound made madeNext) fun reply =>
    Triple.each fun s rounded => ?_
  obtain ⟨outcome, finished, reply⟩ := reply
  obtain ⟨sound, step, gives, cell, done, replied, ends⟩ := rounded
  dsimp only at *
  have gives₀ : ∀ h ∈ outcome.handles, New w₀ s h ∨
      ∃ handle, s.handles[h]? = some handle ∧ (handle.exposed = true ∨ handle.owned = false) :=
    fun h member => (gives h member).imp (·.earlier holding.step.length_le) id
  have both := holding.step.trans step
  rcases ends with ⟨⟨value, rfl, above, found⟩, noException, rfl, rfl⟩ | ⟨noYield, stopped, rfl⟩
  · refine Triple.pure _ fun s' isS => ?_
    subst isS
    refine ⟨⟨sound, both.weaken (fun _ _ freed => freed.elim id id) fun _ _ _ _ leftOver =>
      leftOver, fun h member => ?_,
      fun h member => ?_, step.valued, gives₀, ?_⟩, rfl, .inl ⟨⟨value, rfl⟩, _, _, rfl⟩,
      ⟨fun _ => ⟨cell, replied, noException⟩, fun _ => ⟨value, rfl⟩⟩, fun asked => absurd rfl asked⟩
    · exact (holding.made h member).step step
    · obtain rfl := List.mem_singleton.mp member
      intro mine
      obtain ⟨-, -, its, at_h⟩ := holding.made h mine
      exact absurd (List.getElem?_eq_some_iff.mp at_h).1 (Nat.not_lt.mpr above)
    · rintro other same
      obtain rfl := Outcome.yields.inj same
      exact ⟨above, cell, replied, noException, found⟩
  · have leaving : Leaving flight w₀ outcome.left [next, iterator] s :=
      ⟨sound, both.weaken (fun _ _ freed => freed.elim id id) fun _ _ _ _ leftOver => leftOver,
        fun h member => (holding.made h member).fresh.step step⟩
    have unwinds : Triple (· = s) (unwind engine host.toHost iterator next true outcome reply)
        (fun turn s' =>
        turn = ⟨outcome, .ended, reply, .notAsked⟩ ∧ Turned flight w₀ w turn s') fun _ _ => False :=
      dispose_both engine leaving gives₀ noYield step.valued
    have noReply : ¬∃ cell, reply = some (cell, false) ∧ cell ≠ .exception := by
      rintro ⟨other, same, noException⟩
      obtain ⟨rfl, rfl⟩ := Prod.mk.inj (Option.some.inj (replied.symm.trans same))
      exact stopped.elim noException nofun
    have all : Triple (· = s) (unwind engine host.toHost iterator next true outcome reply)
        (fun turn s => Turned flight w₀ w turn s ∧ turn.closing = .notAsked ∧ Paused turn)
          (fun _ _ => False) := by
      refine unwinds.weaken (fun _ same => same) (fun turn s' ends => ?_) fun _ _ never => never
      obtain ⟨rfl, turned⟩ := ends
      exact ⟨turned, rfl, .inr ⟨noYield, rfl⟩,
        ⟨fun ⟨value, yields⟩ => absurd yields (noYield value), fun replied =>
          absurd replied noReply⟩, fun asked => absurd rfl asked⟩
    cases outcome with
    | yields value => exact absurd rfl (noYield value)
    | returns => exact all
    | throws e => exact all

theorem stop_ends (holding : Holding flight w₀ (.suspended iterator next) w)
    (noYield : ∀ value, outcome ≠ .yields value)
    (known : ∀ h ∈ outcome.handles, ∃ handle, w.handles[h]? = some handle ∧
      (handle.exposed = true ∨ handle.owned = false)) :
    Triple (· = w) (unwind engine host.toHost iterator next false outcome none)
      (fun turn s => Turned flight w₀ w turn s ∧ turn.closing ≠ .notAsked ∧ Paused turn) fun _ _ =>
        False := by
  have made := holding.made iterator (by simp [Generator.handles])
  refine Triple.bind (closeIterator_ends engine host holding.sound made outcome) fun reply =>
    Triple.each fun s ends => ?_
  obtain ⟨sound, asked, ends⟩ := ends
  obtain ⟨outcome', closing⟩ := reply
  dsimp only at *
  have later : Leaving flight w₀ outcome'.left [next, iterator] s ∧
      (∀ h ∈ outcome'.handles, New w₀ s h ∨ ∃ handle, s.handles[h]? = some handle ∧
        (handle.exposed = true ∨ handle.owned = false)) ∧
      (∀ value, outcome' ≠ .yields value) ∧ Valued w s := by
    rcases ends with ⟨rfl, step⟩ | ⟨e, rfl, throws⟩
    · have quiet := holding.leaving.quiet sound step
      exact ⟨⟨sound, quiet.step.weaken (fun _ _ freed => freed) fun _ _ _ _ leftOver =>
        .inl (leftOver.resolve_right id), quiet.fresh⟩,
        fun h member => .inr (step.known (known h member)), noYield, step.valued⟩
    · have fleeing := holding.leaving.throws sound throws
      exact ⟨fleeing.toLeaving, fleeing.yields, fun _ => nofun, throws.step.valued⟩
  obtain ⟨leaving, gives, noYield', valued⟩ := later
  refine (dispose_both engine leaving gives noYield' valued).weaken (fun _ same => same)
    (fun turn s' ends => ?_) fun _ _ never => never
  obtain ⟨rfl, turned⟩ := ends
  exact ⟨turned, asked, .inr ⟨noYield', rfl⟩,
    ⟨fun ⟨value, yields⟩ => absurd yields (noYield' value), fun ⟨_, replied, _⟩ => nomatch replied⟩,
    fun _ => ⟨rfl, rfl⟩⟩

/-- What `start` comes to: two new handles, or an exception. -/
def Started (flight : List Nat) (w : World σ) (pair : JSValue × JSValue) (s : World σ) : Prop :=
  Sound flight s ∧ Step w s nobody (· ∈ [pair.2, pair.1]) ∧ ∀ h ∈ [pair.2, pair.1], Made w s h

theorem readNext_ends (sound : Sound flight w') (step : Step w w' nobody (· = iterator))
    (made : Made w w' iterator) :
    Triple (· = w') (orDispose engine.toEngine iterator do
      let next ← getProp engine.toEngine (getException engine.toEngine host.toHost) iterator
        (text "next")
      pure (iterator, next)) (Started flight w) fun e s => Sound flight s ∧ Throws e w s := by
  have excepts := excepts_getException engine.toLawfulEngine host
  have reads :=
    makesNew_getProp engine.toLawfulEngine excepts iterator (text "next") flight w' sound
  have body : Triple (· = w') (do
      let next ← getProp engine.toEngine (getException engine.toEngine host.toHost) iterator
          (text "next")
      pure (iterator, next) : Run σ V (JSValue × JSValue)) (Started flight w) fun e s =>
        Sound flight s ∧ Throws e w' s := by
    refine Triple.bind reads fun next => Triple.pure _ fun s ends => ?_
    obtain ⟨later, stepNext, madeNext⟩ := ends
    refine ⟨later,
      (step.trans stepNext).weaken (fun _ _ freed => freed.elim id id) fun h _ _ _ leftOver =>
        ?_, fun h member => ?_⟩
    · rcases leftOver with rfl | rfl
      · exact List.mem_cons_of_mem _ List.mem_cons_self
      · exact List.mem_cons_self
    · rcases List.mem_cons.mp member with rfl | isIterator
      · exact ⟨Nat.le_trans step.length_le madeNext.1, madeNext.2⟩
      · obtain rfl := List.mem_singleton.mp isIterator
        exact made.step stepNext
  refine Triple.tryCatch body fun e => Triple.each fun s ends => ?_
  have disposes := dispose_thrown engine.toLawfulEngine ends.1 step ends.2 made.fresh
  exact Triple.bind disposes.throwless fun _ => Triple.throw e fun _ ends => ends

theorem start_ends (source : JSValue) (sound : Sound flight w) :
    Triple (· = w) (start engine host.toHost source) (Started flight w) fun e s => Sound flight s ∧
    Throws e w s := by
  have excepts := excepts_getException engine.toLawfulEngine host
  have gives (object : Value) : Gives (qjsBunGetIterator engine object : Run σ V Value) :=
    fun flight w sound =>
    (trades_qjsBunGetIterator engine object flight w sound).throwless
  have makes (object : Value) := makesNew_result (gives object) excepts
  have made := MakesNew.bind (quiet_ptr source) makes
  unfold start
  simp only [← bind_assoc] at made ⊢
  refine Triple.bind (made flight w sound) fun iterator => Triple.each fun w' ends => ?_
  exact readNext_ends engine host ends.1 ends.2.1 ends.2.2

-- Without a `yield` to stop at, nothing is left to do.
theorem Turned.idle {generator : Generator} (holding : Holding flight w₀ generator w)
    (none : generator.handles = []) (noYield : ∀ value, outcome ≠ .yields value)
    (known : ∀ h ∈ outcome.handles, ∃ handle, w.handles[h]? = some handle ∧
      (handle.exposed = true ∨ handle.owned = false)) :
    Turned flight w₀ w ⟨outcome, .ended, Option.none, .notAsked⟩ w where
  sound := holding.sound
  step := holding.step.weaken (fun _ _ freed => freed) fun _ _ _ _ leftOver => by
    rw [none] at leftOver
    cases leftOver
  made _ member := nomatch member
  apart _ _ := nofun
  valued _ handle found := ⟨handle, found, rfl⟩
  gives h member := .inr (known h member)
  yields value same := absurd same (noYield value)

theorem Paused.idle (noYield : ∀ value, outcome ≠ .yields value) :
    Paused (⟨outcome, .ended, none, .notAsked⟩ : Turn V) :=
  ⟨.inr ⟨noYield, rfl⟩,
    ⟨fun ⟨value, yields⟩ => absurd yields (noYield value), fun ⟨_, replied, _⟩ => nomatch replied⟩,
    fun asked => absurd rfl asked⟩

-- The host stops at a `yield`.
def Stops (generator : Generator) (resumption : Resumption V) : Prop :=
  (∃ iterator next, generator = .suspended iterator next) ∧ resumption ≠ .next

theorem idle_ends {generator : Generator} {resumption : Resumption V}
    (holding : Holding flight w₀ generator w) (none : generator.handles = [])
    (never : ¬Stops generator resumption) (noYield : ∀ value, outcome ≠ .yields value)
    (known : ∀ h ∈ outcome.handles, ∃ handle, w.handles[h]? = some handle ∧
      (handle.exposed = true ∨ handle.owned = false)) :
    Triple (· = w) (pure ⟨outcome, .ended, Option.none, .notAsked⟩ : Run σ V (Turn V))
      (fun turn s => Turned flight w₀ w turn s ∧
      (turn.closing ≠ .notAsked ↔ Stops generator resumption) ∧ Paused turn) fun _ _ => False := by
  refine Triple.pure _ fun s isS => ?_
  subst isS
  exact ⟨.idle holding none noYield known,
    ⟨fun asked => absurd rfl asked, fun stops => absurd stops never⟩, .idle noYield⟩

theorem resume_ends {generator : Generator} {resumption : Resumption V}
    (holding : Holding flight w₀ generator w) (known : ∀ e, resumption = .throw e → Known w e) :
    Triple (· = w) (resume engine host.toHost generator resumption)
      (fun turn s => Turned flight w₀ w turn s ∧
      (turn.closing ≠ .notAsked ↔ Stops generator resumption) ∧ Paused turn) fun _ _ => False := by
  have returns : ∀ value, (.returns : Outcome V) ≠ .yields value := fun _ => nofun
  have throws (e : HostValue V) : ∀ value, (.throws e : Outcome V) ≠ .yields value := fun _ => nofun
  cases generator with
  | fresh source =>
    have never : ¬Stops (.fresh source) resumption := fun ⟨⟨_, _, same⟩, _⟩ => nomatch same
    cases resumption with
    | next =>
      refine Triple.bind (attempt_ends (start_ends engine host source holding.sound)) fun started =>
        Triple.each fun s ends => ?_
      cases started with
      | error e =>
        refine Triple.pure _ fun s' isS => ?_
        subst isS
        obtain ⟨sound, throws⟩ := ends
        have fleeing := holding.leaving.throws sound throws
        refine ⟨⟨sound, fleeing.step.weaken (fun _ _ freed => freed) fun _ _ _ _ leftOver =>
          .inr (leftOver.resolve_left nofun), nofun,
          fun _ _ => nofun, throws.step.valued, fleeing.yields, nofun⟩,
          ⟨fun asked => absurd rfl asked, fun stops => absurd stops never⟩, .idle fun _ => nofun⟩
      | ok pair =>
        obtain ⟨iterator, next⟩ := pair
        obtain ⟨sound, step, made⟩ := ends
        have holds : Holding flight w₀ (.suspended iterator next) s :=
          ⟨sound, (holding.step.trans step).weaken (fun _ _ freed => freed.elim id id)
              fun _ _ _ _ leftOver => leftOver.resolve_left nofun,
            fun h member => ⟨Nat.le_trans holding.step.length_le (made h member).1, (made h member).2⟩⟩
        refine (advance_ends engine host holds).weaken (fun _ same => same)
          (fun turn s' ends => ?_) fun _ _ never => never
        obtain ⟨turned, notAsked, paused⟩ := ends
        refine ⟨{ turned with valued := step.valued.trans turned.valued, yields := fun value yields => ?_ },
          ⟨fun asked => absurd notAsked asked, fun stops => absurd stops never⟩, paused⟩
        exact (turned.yields value yields).imp (Nat.le_trans step.length_le) id
    | «return» => exact idle_ends holding rfl never returns nofun
    | throw e => exact idle_ends holding rfl never (throws e) (known e rfl)
  | suspended iterator next =>
    have here : ∃ i n, Generator.suspended iterator next = .suspended i n := ⟨_, _, rfl⟩
    cases resumption with
    | next =>
      refine (advance_ends engine host holding).weaken (fun _ same => same) (fun turn s' ends => ?_)
        fun _ _ never => never
      exact ⟨ends.1,
        ⟨fun asked => absurd ends.2.1 asked, fun stops => absurd rfl stops.2⟩, ends.2.2⟩
    | «return» =>
      refine (stop_ends engine host holding returns nofun).weaken (fun _ same => same)
        (fun turn s' ends => ?_) fun _ _ never => never
      exact ⟨ends.1, ⟨fun _ => ⟨here, nofun⟩, fun _ => ends.2.1⟩, ends.2.2⟩
    | throw e =>
      refine (stop_ends engine host holding (throws e) (known e rfl)).weaken (fun _ same => same)
        (fun turn s' ends => ?_)
        fun _ _ never => never
      exact ⟨ends.1, ⟨fun _ => ⟨here, nofun⟩, fun _ => ends.2.1⟩, ends.2.2⟩
  | ended =>
    have never : ¬Stops .ended resumption := fun ⟨⟨_, _, same⟩, _⟩ => nomatch same
    cases resumption with
    | throw e => exact idle_ends holding rfl never (throws e) (known e rfl)
    | _ => exact idle_ends holding rfl never returns nofun

end

/-! ### Between resumptions -/

/-- The host has got handles: whoever has it may dispose an owned one. -/
def World.hand (w : World σ) (given : List JSValue) : World σ :=
  { w with
    handles := w.handles.mapIdx fun h handle =>
      if h ∈ given then { handle with exposed := handle.exposed || handle.owned } else handle }

section
variable {flight : List Nat} {w₀ w w' : World σ} {given : List JSValue}

theorem hand_get (w : World σ) (given : List JSValue) (h : JSValue) :
    (w.hand given).handles[h]? = (w.handles[h]?).map fun handle =>
      if h ∈ given then { handle with exposed := handle.exposed || handle.owned } else handle := by
  simp only [World.hand, List.getElem?_mapIdx]

theorem hand_length (w : World σ) (given : List JSValue) :
    (w.hand given).handles.length = w.handles.length :=
  List.length_mapIdx

theorem hand_other {h : JSValue} (other : h ∉ given) :
    (w.hand given).handles[h]? = w.handles[h]? := by
  rw [hand_get]
  simp only [if_neg other, Option.map_id']

theorem hand_known {h : JSValue} {handle : Handle} (found : w.handles[h]? = some handle)
    (known : handle.exposed = true ∨ handle.owned = false) :
    (w.hand given).handles[h]? = some handle := by
  have same : ({ handle with exposed := handle.exposed || handle.owned } : Handle) = handle := by
    obtain ⟨foreign, value, owned, exposed, disposed⟩ := handle
    rcases known with rfl | rfl
    · rfl
    · simp
  rw [hand_get, found, Option.map_some, same, ite_self]

theorem held_hand (w : World σ) (given : List JSValue) (cell : Nat) :
    (w.hand given).held cell = w.held cell := by
  have same : (w.hand given).handles.map (Handle.holds cell) =
      w.handles.map (Handle.holds cell) := by
    apply List.ext_getElem?
    intro h
    rw [List.getElem?_map, List.getElem?_map, hand_get, Option.map_map]
    congr 1
    funext handle
    simp only [Function.comp_apply]
    split
    · rfl
    · rfl
  simp only [World.held, tally, same]

theorem Sound.hand (sound : Sound flight w) (kept : ∀ h ∈ given, h ∉ w.undescribed) :
    Sound flight (w.hand given) where
  references_length := sound.references_length
  engine_length := sound.engine_length
  accounts cell := by
    rw [held_hand]
    exact sound.accounts cell
  distinct := sound.distinct
  nonzero := sound.nonzero
  owned h handle found shared := by
    rw [hand_get] at found
    obtain ⟨old, at_h, rfl⟩ := Option.map_eq_some_iff.mp found
    by_cases isGiven : h ∈ given
    · rw [if_pos isGiven] at shared ⊢
      exact sound.owned h old at_h shared
    · rw [if_neg isGiven] at shared ⊢
      exact sound.owned h old at_h shared
  constants h handle isConstant :=
    hand_known (sound.constants h handle isConstant) (.inr (constants_unowned isConstant))
  lost h member := by
    rw [hand_other fun isGiven => kept h isGiven member]
    exact sound.lost h member

-- What the host gets is not left to the library.
theorem Step.hand {left : JSValue → Prop} (step : Step w₀ w nobody fun h => left h ∨ h ∈ given)
    (gives : ∀ h ∈ given, New w₀ w h ∨ ∃ handle, w.handles[h]? = some handle ∧
      (handle.exposed = true ∨ handle.owned = false)) :
    Step w₀ (w.hand given) nobody left where
  cells := step.cells
  handles h handle found := by
    have old := (List.getElem?_eq_some_iff.mp found).1
    have same : (w.hand given).handles[h]? = w.handles[h]? := by
      by_cases isGiven : h ∈ given
      · obtain ⟨its, at_h, known⟩ :=
          (gives h isGiven).resolve_left fun new => absurd old (Nat.not_lt.mpr new.1)
        rw [at_h]
        exact hand_known at_h known
      · exact hand_other isGiven
    rw [same]
    exact step.handles h handle found
  created h handle above found listed := by
    by_cases isGiven : h ∈ given
    · rw [hand_get] at found
      obtain ⟨its, -, rfl⟩ := Option.map_eq_some_iff.mp found
      simp only [if_pos isGiven] at listed ⊢
      simp only [Handle.listed, Bool.and_eq_true] at listed
      exact .inl (by simp [listed.1.1])
    · rw [hand_other isGiven] at found
      exact (step.created h handle above found listed).imp id (.imp (·.resolve_right isGiven) id)
  undescribed := step.undescribed
  lost := step.lost
  hostDepth := step.hostDepth
  inOutOfMemory := step.inOutOfMemory

end

end QuickJSBun.Context
