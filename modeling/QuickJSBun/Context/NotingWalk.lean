import QuickJSBun.Context.NotingValues
import QuickJSBun.Context.Dump

/-! A dump, run on a noting engine.
-/

set_option autoImplicit false

namespace QuickJSBun.Context

open Library Effect

variable {σ V α β : Type}

-- The walk without the notes of its engine.
def Walk.plain (n : Walk (Noted σ)) : Walk σ :=
  ⟨n.world.plain, n.seen, n.kept, n.nodes, n.objects, n.reads, n.listed⟩

structure WalkMirrors (engine : Engine σ) (host : Host V σ) (w₀ : World σ) (due : JSValue → Prop)
    (n : Walk (Noted σ)) (s : Walk σ) : Prop where
  plain : n.plain = s
  world : Mirrors engine host w₀ due n.world s.world

def NotesWalk (engine : Engine σ) (host : Host V σ) (y : WalkRun (Noted σ) V α)
    (x : WalkRun σ V α) : Prop :=
  ∀ w₀ due, Simulates (WalkMirrors engine host w₀ due) y x

section
variable {engine : Engine σ} {host : Host V σ} {y : WalkRun (Noted σ) V α} {x : WalkRun σ V α}

theorem NotesWalk.pure (a : α) : NotesWalk engine host (Pure.pure a) (Pure.pure a) :=
  fun _ _ => Simulates.pure a

theorem NotesWalk.throw (e : HostValue V) :
    NotesWalk engine host (Effect.throw e : WalkRun (Noted σ) V α) (Effect.throw e) :=
  fun _ _ => Simulates.throw e

theorem NotesWalk.bind {g : α → WalkRun (Noted σ) V β} {f : α → WalkRun σ V β}
    (first : NotesWalk engine host y x) (next : ∀ a, NotesWalk engine host (g a) (f a)) :
    NotesWalk engine host (y >>= g) (x >>= f) :=
  fun w₀ due => Simulates.bind (first w₀ due) fun a => next a w₀ due

theorem NotesWalk.get_bind {g : Walk (Noted σ) → WalkRun (Noted σ) V β} {f : Walk σ → WalkRun σ V β}
    (next : ∀ n : Walk (Noted σ), NotesWalk engine host (g n) (f n.plain)) :
    NotesWalk engine host (Effect.get >>= g) (Effect.get >>= f) := by
  intro w₀ due
  apply Simulates.get_bind
  intro n s mirrors
  obtain rfl := mirrors.plain
  exact next n w₀ due

theorem NotesWalk.ite {condition : Prop} [Decidable condition] {y' : WalkRun (Noted σ) V α}
    {x' : WalkRun σ V α} (yes : NotesWalk engine host y x) (no : NotesWalk engine host y' x') :
    NotesWalk engine host (if condition then y else y') (if condition then x else x') :=
  fun w₀ due => Simulates.ite (yes w₀ due) (no w₀ due)

theorem NotesWalk.forEach {body : β → WalkRun σ V Unit} {other : β → WalkRun (Noted σ) V Unit}
    (round : ∀ item, NotesWalk engine host (other item) (body item)) (items : List β) :
    NotesWalk engine host (Effect.forEach other items) (Effect.forEach body items) :=
  fun w₀ due => Simulates.forEach (fun item => round item w₀ due) items

-- The variables of the walk are the same in both.
theorem NotesWalk.modify {g : Walk (Noted σ) → Walk (Noted σ)} {f : Walk σ → Walk σ}
    (same : ∀ n : Walk (Noted σ), (g n).plain = f n.plain ∧ (g n).world = n.world) :
    NotesWalk engine host (Effect.modify g) (Effect.modify f) := by
  intro w₀ due
  apply Simulates.modify
  intro n s mirrors
  obtain rfl := mirrors.plain
  refine ⟨(same n).1, ?_⟩
  rw [← (same n).1, (same n).2]
  have world : (g n).plain.world = n.plain.world := congrArg World.plain (same n).2
  rw [world]
  exact mirrors.world

theorem notes_newHostObject (object : HostObject) :
    NotesWalk (V := V) engine host (newHostObject object) (newHostObject object) := by
  intro w₀ due
  apply Simulates.lift
  intro n s mirrors
  obtain rfl := mirrors.plain
  exact ⟨rfl, rfl, mirrors.world⟩

theorem notes_onWorld {y : Run (Noted σ) V α} {x : Run σ V α} (notes : Notes engine host y x) :
    NotesWalk engine host (onWorld y) (onWorld x) := by
  intro w₀ due n s mirrors
  obtain rfl := mirrors.plain
  obtain ⟨outcome, n', w', runs, runsPlain, later⟩ :=
    notes w₀ due n.world n.plain.world mirrors.world
  obtain rfl := later.plain
  refine ⟨outcome, { n with world := n' }, { n.plain with world := n'.plain }, ?_, ?_, rfl, later⟩
  · simp only [onWorld, runs]
  · simp only [onWorld, runsPlain]

end

section
variable {engine : Engine σ} {host : Host V σ} (unaware : Unaware engine host)
include unaware

/-! ### Reading -/

theorem notes_toBoolean (h : JSValue) :
    Notes engine host (toBoolean engine.noting host.noting h) (toBoolean engine host h) := by
  apply Notes.bind (notes_ptr h)
  intro value
  cases value with
  | bool => exact Notes.pure _
  | _ => exact Notes.bind (notes_type unaware (notes_getException unaware) h) fun _ => Notes.throw _

theorem notes_toNumber (h : JSValue) :
    Notes engine host (toNumber engine.noting host.noting h) (toNumber engine host h) := by
  apply Notes.bind (notes_ptr h)
  intro value
  cases value with
  | int => exact Notes.pure _
  | float64 => exact Notes.pure _
  | _ => exact Notes.bind (notes_type unaware (notes_getException unaware) h) fun _ => Notes.throw _

theorem notes_valueLength (h : JSValue) :
    Notes engine host (valueLength engine.noting host.noting h) (valueLength engine host h) := by
  apply Notes.bind (notes_getProp unaware (notes_getException unaware) h (text "length"))
  intro length
  exact notes_withValue unaware length (notes_toNumber unaware length)

theorem notes_toError (h : JSValue) :
    Notes engine host (toError engine.noting host.noting h) (toError engine host h) := by
  have excepts := notes_getException unaware
  apply Notes.bind (notes_type unaware excepts h)
  intro found
  apply Notes.ite (Notes.throw _)
  apply Notes.bind (notes_errorProperty unaware excepts h _)
  intro message
  apply Notes.bind (notes_errorProperty unaware excepts h _)
  intro name
  exact Notes.bind (notes_errorProperty unaware excepts h _) fun stack => Notes.pure _

/-! ### The walk -/

omit unaware in
theorem notes_put (change : List HostObject → List HostObject) (place : Place) (entry : JSValue)
    (item : Dumped) :
    NotesWalk engine host (put change place entry item) (put change place entry item) :=
  NotesWalk.modify fun _ => ⟨rfl, rfl⟩

omit unaware in
theorem notes_visitLeaf (h : JSValue) {convert : WalkRun σ V Dumped}
    {other : WalkRun (Noted σ) V Dumped} (converts : NotesWalk engine host other convert) :
    NotesWalk engine host (visitLeaf h other) (visitLeaf h convert) := by
  apply NotesWalk.bind (notes_onWorld (notes_ptr h))
  intro value
  apply NotesWalk.get_bind
  intro n
  have pointers : (if value.tag < 0 then n.plain.world.pointer value else 0) =
      if value.tag < 0 then n.world.pointer value else 0 := by
    cases value <;> rfl
  have seen : n.plain.seen = n.seen := rfl
  dsimp only
  rw [pointers, seen]
  cases getSeen (if value.tag < 0 then n.world.pointer value else 0) n.seen with
  | some existing => exact NotesWalk.pure existing
  | none =>
    apply NotesWalk.bind converts
    intro converted
    refine NotesWalk.ite ?_ (NotesWalk.pure converted)
    exact NotesWalk.bind (NotesWalk.modify fun _ => ⟨rfl, rfl⟩) fun _ => NotesWalk.pure converted

omit unaware in
theorem notes_visitContainer (h : JSValue) (empty : HostObject) {fill : Nat → WalkRun σ V Unit}
    {other : Nat → WalkRun (Noted σ) V Unit}
    (fills : ∀ n, NotesWalk engine host (other n) (fill n)) :
    NotesWalk engine host (visitContainer h empty other) (visitContainer h empty fill) := by
  apply NotesWalk.bind (notes_onWorld (notes_ptr h))
  intro value
  apply NotesWalk.get_bind
  intro n
  have pointers : n.plain.world.pointer value = n.world.pointer value := by
    cases value <;> rfl
  have seen : n.plain.seen = n.seen := rfl
  dsimp only
  rw [pointers, seen]
  cases getSeen (n.world.pointer value) n.seen with
  | some existing => exact NotesWalk.pure existing
  | none =>
    apply NotesWalk.bind (notes_newHostObject empty)
    intro object
    refine NotesWalk.bind (NotesWalk.modify fun _ => ⟨rfl, rfl⟩) fun _ => ?_
    exact NotesWalk.bind (fills object) fun _ => NotesWalk.pure _

section
variable {visit : JSValue → WalkRun σ V Dumped} {other : JSValue → WalkRun (Noted σ) V Dumped}
variable (visits : ∀ h, NotesWalk engine host (other h) (visit h))
include visits

omit unaware in
theorem notes_round {y : Run (Noted σ) V JSValue} {x : Run σ V JSValue}
    (reads : Notes engine host y x) (change : Dumped → List HostObject → List HostObject)
    (place : Place) :
    NotesWalk engine host
      (do
        let entry ← onWorld y
        keep entry
        let item ← other entry
        put (change item) place entry item)
      (do
        let entry ← onWorld x
        keep entry
        let item ← visit entry
        put (change item) place entry item) := by
  apply NotesWalk.bind (notes_onWorld reads)
  intro entry
  refine NotesWalk.bind (NotesWalk.modify fun _ => ⟨rfl, rfl⟩) fun _ => ?_
  exact NotesWalk.bind (visits entry) fun item => notes_put _ _ _ _

theorem notes_visitItems (h : JSValue) (array count index : Nat) :
    NotesWalk engine host (visitItems engine.noting host.noting other h array count index)
      (visitItems engine host visit h array count index) := by
  induction count generalizing index with
  | zero => exact NotesWalk.pure ()
  | succ count ih =>
    have reads := notes_getIndex unaware (notes_getException unaware) h index
    have both := NotesWalk.bind (notes_round visits reads (push array) (.item array index)) fun _ =>
      ih (index + 1)
    simp only [bind_assoc] at both
    exact both

theorem notes_visitMembers (h : JSValue) (object : Nat) (keys : List Text) :
    NotesWalk engine host (visitMembers engine.noting host.noting other h object keys)
      (visitMembers engine host visit h object keys) := by
  refine NotesWalk.forEach (fun key => ?_) keys
  exact notes_round visits (notes_getProp unaware (notes_getException unaware) h key)
    (defineHost object key) _

end

theorem notes_visit (maxDepth maxNodes levels : Nat) (h : JSValue) :
    NotesWalk engine host (visit engine.noting host.noting maxDepth maxNodes levels h)
      (visit engine host maxDepth maxNodes levels h) := by
  have excepts := notes_getException unaware
  induction levels generalizing h with
  | zero => exact NotesWalk.throw _
  | succ levels ih =>
    refine NotesWalk.bind (NotesWalk.modify fun _ => ⟨rfl, rfl⟩) fun _ => ?_
    apply NotesWalk.get_bind
    intro n
    apply NotesWalk.bind (fun _ _ => Simulates.check _ _)
    intro _
    apply NotesWalk.bind (notes_onWorld (notes_type unaware excepts h))
    intro found
    cases found with
    | undefined | null => exact NotesWalk.pure _
    | boolean => exact NotesWalk.bind (notes_onWorld (notes_toBoolean unaware h)) fun _ =>
      NotesWalk.pure _
    | number => exact NotesWalk.bind (notes_onWorld (notes_toNumber unaware h)) fun _ =>
      NotesWalk.pure _
    | bigint =>
      apply notes_visitLeaf h
      exact NotesWalk.bind (notes_onWorld (notes_toBigInt unaware excepts h)) fun _ =>
        NotesWalk.pure _
    | string =>
      apply notes_visitLeaf h
      exact NotesWalk.bind (notes_onWorld (notes_valueToString unaware excepts h)) fun _ =>
        NotesWalk.pure _
    | error =>
      apply notes_visitLeaf h
      apply NotesWalk.bind (notes_onWorld (notes_toError unaware h))
      intro error
      exact NotesWalk.bind (notes_newHostObject error) fun _ => NotesWalk.pure _
    | array =>
      apply notes_visitContainer h
      intro array
      apply NotesWalk.bind (notes_onWorld (notes_valueLength unaware h))
      intro length
      refine NotesWalk.bind (NotesWalk.modify fun _ => ⟨rfl, rfl⟩) fun _ => ?_
      exact notes_visitItems unaware ih h array _ 0
    | object =>
      apply notes_visitContainer h
      intro object
      apply NotesWalk.bind (notes_onWorld (notes_keys unaware excepts h))
      intro keys
      refine NotesWalk.bind (NotesWalk.modify fun _ => ⟨rfl, rfl⟩) fun _ => ?_
      exact notes_visitMembers unaware ih h object keys
    | symbol | function => exact NotesWalk.throw _

/-! ### `dump` -/

omit unaware in
theorem notes_runWalk {y : WalkRun (Noted σ) V α} {x : WalkRun σ V α}
    (notes : NotesWalk engine host y x) (w₀ : World σ) (due : JSValue → Prop) :
    SimulatesTo (fun ended => (ended.1, ended.2.plain)) (Mirrors engine host w₀ due)
      (runWalk y) (runWalk x) := by
  intro n w mirrors
  obtain rfl := mirrors.plain
  have start : WalkMirrors engine host w₀ due ⟨n, [], [], 0, [], [], []⟩
      ⟨n.plain, [], [], 0, [], [], []⟩ := ⟨rfl, mirrors⟩
  obtain ⟨outcome, n', s', runs, runsPlain, later⟩ := notes w₀ due _ _ start
  obtain rfl := later.plain
  refine ⟨.ok (outcome, n'), n'.world, n'.plain.world, ?_, ?_, later.world⟩
  · simp only [runWalk, Effect.lift, runs]
  · simp only [runWalk, Effect.lift, runsPlain, Except.map]

theorem notes_disposeException (error : HostValue V) :
    Notes engine host (disposeException engine.noting error) (disposeException engine error) := by
  cases error with
  | exception h => exact notes_dispose unaware h
  | _ => exact Notes.pure ()

omit unaware in
theorem notes_refused {gE : Run σ V (HostValue V)} {gE' : Run (Noted σ) V (HostValue V)}
    (excepts : Notes engine host gE' gE) (g : JSValue → Run (Noted σ) V α)
    (f : JSValue → Run σ V α) :
    Notes engine host (resultValue gE' .exception >>= g) (resultValue gE .exception >>= f) := by
  unfold resultValue throwException
  simp only [bind_assoc, if_true]
  apply Notes.bind (notes_newHandle _ _)
  intro value
  exact Notes.bind excepts fun e => Notes.throw e

-- The error that takes the place of a late one is taken like any other.
theorem notes_timeoutError :
    Notes engine host
      (do
        let out : Value ← call engine.noting .timeoutError
        let value ← resultValue (getException engine.noting host.noting) out
        newJSException engine.noting host.noting (getException engine.noting host.noting) value)
      (do
        let out : Value ← call engine .timeoutError
        let value ← resultValue (getException engine host) out
        newJSException engine host (getException engine host) value) := by
  intro w₀ due n w mirrors
  obtain rfl := mirrors.plain
  have excepts := notes_getException unaware
  obtain ⟨reply, w', gives⟩ : ∃ reply w', engine.call .timeoutError n.plain = (reply, w') :=
    ⟨_, _, rfl⟩
  have untouched : Untouched n.plain w' := by
    have stays := unaware.native .timeoutError n.plain
    rwa [gives] at stays
  have plain : (call (V := V) engine .timeoutError).run n.plain = (.ok reply, w') := by
    simp only [call, Effect.lift, gives]
  by_cases failed : reply = .exception
  · subst failed
    have noted : (call (V := V) engine.noting .timeoutError).run n =
        (.ok .exception, w'.noted n.guest.2) := by
      simp only [call, Effect.lift, Engine.noting, gives, Native.takings, if_true, List.append_nil]
    rw [bind_ok noted, bind_ok plain]
    exact notes_refused excepts _ _ w₀ due _ _ (mirrors.step rfl rfl untouched)
  · let taking : Taking σ := ⟨reply, w'⟩
    have noted : (call (V := V) engine.noting .timeoutError).run n =
        (.ok reply, w'.noted (n.guest.2 ++ [taking])) := by
      simp only [call, Effect.lift, Engine.noting, gives, Native.takings, if_neg failed]
      rfl
    have held : (resultValue (getException engine host) reply).run w' =
        (.ok taking.handle, taking.held) := by
      show (if reply = .exception then _ else _ : Run σ V JSValue).run taking.held = _
      rw [if_neg failed]
      rfl
    have heldToo : (resultValue (getException engine.noting host.noting) reply).run
        (w'.noted (n.guest.2 ++ [taking])) =
        (.ok taking.handle, taking.held.noted (n.guest.2 ++ [taking])) := by
      show (if reply = .exception then _ else _ : Run (Noted σ) V JSValue).run
          (taking.held.noted _) = _
      rw [if_neg failed]
      rfl
    have untouched' : Untouched n.plain taking.world := untouched
    obtain ⟨outcome, n', w'', runs, runsPlain, later⟩ :=
      (mirrors.taken untouched').described unaware excepts
    rw [bind_ok noted, bind_ok plain, bind_ok held, bind_ok heldToo]
    exact ⟨outcome, n', w'', runs, runsPlain, later⟩

-- Both dumps end alike; the walk that is returned beside the value is the same but for the notes.
theorem notes_dump (root : JSValue) (options : JSDumpOptions) (w₀ : World σ)
    (due : JSValue → Prop) :
    SimulatesTo (fun found => (found.1, found.2.plain)) (Mirrors engine host w₀ due)
      (dump engine.noting host.noting root options) (dump engine host root options) := by
  have disposes (kept : List JSValue) :
      Notes (V := V) engine host (Effect.forEach (dispose engine.noting) kept)
      (Effect.forEach (dispose engine) kept) :=
    Notes.forEach (fun entry => notes_dispose unaware entry) kept
  have leaves : Notes (V := V) engine host (call engine.noting .leaveScope)
      (call engine .leaveScope) :=
    notes_call unaware fun _ _ => rfl
  apply SimulatesTo.bind (notes_assertSameVM root w₀ due)
  intro _
  apply SimulatesTo.bind (Simulates.check _ _)
  intro _
  apply SimulatesTo.bind (Simulates.check _ _)
  intro _
  apply SimulatesTo.bind ((notes_call unaware fun _ _ => rfl : Notes engine host _ _) w₀ due)
  intro _
  apply SimulatesTo.bindTo (notes_runWalk (notes_visit unaware _ _ _ root) w₀ due)
  intro ended
  obtain ⟨outcome, n⟩ := ended
  cases outcome with
  | ok value =>
    apply SimulatesTo.bind (disposes n.kept w₀ due)
    intro _
    exact SimulatesTo.bind (leaves w₀ due) fun _ => SimulatesTo.pure (value, n)
  | error error =>
    refine SimulatesTo.tryFinally ?_ (disposes n.kept w₀ due)
    apply SimulatesTo.bind (leaves w₀ due)
    intro late
    apply SimulatesTo.ite (SimulatesTo.throw error)
    apply SimulatesTo.bind (notes_disposeException unaware error w₀ due)
    intro _
    have replaced := SimulatesTo.bind (notes_timeoutError unaware w₀ due) fun exception =>
      SimulatesTo.throw
        (f := fun found : Dumped × Walk (Noted σ) => (found.1, found.2.plain)) exception
    simp only [bind_assoc] at replaced
    exact replaced

end

end QuickJSBun.Context
