import QuickJSBun.Context.Iterating
import QuickJSBun.Context.NotingWalk

/-! An iteration, run on a noting engine.
-/

set_option autoImplicit false

namespace QuickJSBun.Context

open Library Effect

variable {σ V α β : Type}

/-! ### Notes are no part of what an engine does -/

theorem Move.noted {flight flight' : List Nat} {w w' : World σ} (move : Move flight w flight' w')
    (notes : List (Taking σ)) : Move flight (w.noted notes) flight' (w'.noted notes) := by
  cases move with
  | allocate address positive free => exact .allocate address positive free
  | take cell counted => exact .take cell counted
  | drop cell counted => exact .drop cell counted
  | give cell counted => exact .give cell counted
  | receive cell => exact .receive cell
  | expose foreign value shared => exact .expose foreign value shared
  | dispose h handle found exposed owned alive => exact .dispose h handle found exposed owned alive
  | other atoms pending scratch guest => exact .other atoms pending scratch (guest, notes)

theorem Acts.noted {flight flight' : List Nat} {w w' : World σ} (acts : Acts flight w flight' w')
    (notes later : List (Taking σ)) : Acts flight (w.noted notes) flight' (w'.noted later) := by
  induction acts with
  | @nothing flight w => exact .move (.other w.atoms w.pending w.scratch (w.guest, later)) .nothing
  | move first _ ih => exact .move (first.noted notes) ih

def IteratorEngine.noting (engine : IteratorEngine σ) : IteratorEngine (Noted σ) where
  toEngine := engine.toEngine.noting
  acts native flight w sound :=
    (engine.acts native flight w.plain (sound.withGuest _)).noted w.guest.2 _
  typed value w above := engine.typed value w.plain above
  atomSymbolIterator := engine.atomSymbolIterator
  atomDone := engine.atomDone
  atomValue := engine.atomValue
  atomReturn := engine.atomReturn
  isFunction value w := engine.isFunction value w.plain
  toBool value w := engine.toBool value w.plain
  builtin value w := engine.builtin value w.plain
  invoke method receiver w :=
    let (value, w') := engine.invoke method receiver w.plain
    (value, w'.noted w.guest.2)
  invokes method receiver flight w sound :=
    (engine.invokes method receiver flight w.plain (sound.withGuest _)).noted w.guest.2 _
  iteratorNext iterator method w :=
    let (reply, w') := engine.iteratorNext iterator method w.plain
    (reply, w'.noted w.guest.2)
  iterates iterator method flight w sound :=
    (engine.iterates iterator method flight w.plain (sound.withGuest _)).noted w.guest.2 _
  enter w := (engine.enter w.plain).noted w.guest.2
  enters flight w sound := (engine.enters flight w.plain (sound.withGuest _)).noted w.guest.2 _
  leave failed w := (engine.leave failed w.plain).noted w.guest.2
  leaves failed flight w sound :=
    (engine.leaves failed flight w.plain (sound.withGuest _)).noted w.guest.2 _

/-- Neither have the iterator functions a part in what is not in the source. -/
structure UnawareIterator (engine : IteratorEngine σ) (host : Host V σ) :
    Prop extends Unaware engine.toEngine host where
  invoke : ∀ method receiver w, Untouched w (engine.invoke method receiver w).2
  iteratorNext : ∀ iterator method w, Untouched w (engine.iteratorNext iterator method w).2
  enter : ∀ w, Untouched w (engine.enter w)
  leave : ∀ failed w, Untouched w (engine.leave failed w)

section
variable {engine : Engine σ} {host : Host V σ}

-- What is thrown is the same on both sides, so it may be looked at.
theorem Notes.attempt {y : Run (Noted σ) V α} {x : Run σ V α} (notes : Notes engine host y x) :
    Notes engine host (Context.attempt y) (Context.attempt x) := by
  intro w₀ due n w mirrors
  obtain ⟨outcome, n', w', runs, runsPlain, later⟩ := notes w₀ due n w mirrors
  refine ⟨.ok outcome, n', w', ?_, ?_, later⟩
  · simp only [Context.attempt, Effect.lift, runs]
  · simp only [Context.attempt, Effect.lift, runsPlain]

end

section
variable {engine : IteratorEngine σ} {host : Host V σ} (unaware : UnawareIterator engine host)
include unaware

/-! ### The functions of the engine -/

theorem notes_freeValue (value : Value) :
    Notes (V := V) engine.toEngine host (freeValue engine.noting value) (freeValue engine value) :=
  Notes.ite (notes_call unaware.toUnaware fun _ _ => rfl) (Notes.pure ())

theorem notes_throwTypeError (message : String) :
    Notes (V := V) engine.toEngine host (throwTypeError engine.noting message)
      (throwTypeError engine message) :=
  notes_call unaware.toUnaware fun _ _ => rfl

theorem notes_getProperty (object : Value) (atom : Nat) :
    Notes (V := V) engine.toEngine host (getProperty engine.noting object atom)
      (getProperty engine object atom) :=
  notes_call unaware.toUnaware fun _ _ => rfl

theorem notes_jsCall (method receiver : Value) :
    Notes (V := V) engine.toEngine host (jsCall engine.noting method receiver)
      (jsCall engine method receiver) :=
  Notes.lift (fun _ => ⟨rfl, rfl, rfl⟩) (unaware.invoke method receiver)

theorem notes_guarded (failed : α → Bool) {y : Run (Noted σ) V α} {x : Run σ V α}
    (notes : Notes engine.toEngine host y x) :
    Notes engine.toEngine host (guarded engine.noting failed y) (guarded engine failed x) := by
  refine Notes.bind (Notes.modify (fun _ => ⟨rfl, rfl⟩) unaware.enter) fun _ => ?_
  apply Notes.bind notes
  intro out
  exact Notes.bind (Notes.modify (fun _ => ⟨rfl, rfl⟩) (unaware.leave (failed out))) fun _ =>
    Notes.pure out

theorem notes_jsGetIterator2 (object method : Value) :
    Notes (V := V) engine.toEngine host (jsGetIterator2 engine.noting object method)
      (jsGetIterator2 engine object method) := by
  apply Notes.bind (notes_jsCall unaware method object)
  intro iterator
  apply Notes.ite (Notes.pure _)
  refine Notes.ite ?_ (Notes.pure _)
  apply Notes.bind (notes_freeValue unaware iterator)
  intro _
  exact Notes.bind (notes_throwTypeError unaware _) fun _ => Notes.pure _

theorem notes_jsGetIterator (object : Value) :
    Notes (V := V) engine.toEngine host (jsGetIterator engine.noting object)
      (jsGetIterator engine object) := by
  apply Notes.bind (notes_getProperty unaware object _)
  intro method
  apply Notes.ite (Notes.pure _)
  apply Notes.get_bind
  intro n
  apply Notes.ite
  · apply Notes.bind (notes_freeValue unaware method)
    intro _
    exact Notes.bind (notes_throwTypeError unaware _) fun _ => Notes.pure _
  · apply Notes.bind (notes_jsGetIterator2 unaware object method)
    intro iterator
    exact Notes.bind (notes_freeValue unaware method) fun _ => Notes.pure iterator

theorem notes_jsIteratorNext2 (iterator method : Value) :
    Notes (V := V) engine.toEngine host (jsIteratorNext2 engine.noting iterator method)
      (jsIteratorNext2 engine iterator method) := by
  apply Notes.get_bind
  intro n
  apply Notes.ite (Notes.lift (fun _ => ⟨rfl, rfl, rfl⟩) (unaware.iteratorNext iterator method))
  apply Notes.bind (notes_jsCall unaware method iterator)
  intro object
  apply Notes.ite (Notes.pure _)
  refine Notes.ite ?_ (Notes.pure _)
  apply Notes.bind (notes_freeValue unaware object)
  intro _
  exact Notes.bind (notes_throwTypeError unaware _) fun _ => Notes.pure _

theorem notes_jsIteratorNext (iterator method : Value) :
    Notes (V := V) engine.toEngine host (jsIteratorNext engine.noting iterator method)
      (jsIteratorNext engine iterator method) := by
  apply Notes.bind (notes_jsIteratorNext2 unaware iterator method)
  intro reply
  obtain ⟨object, done⟩ := reply
  have frees := notes_freeValue unaware object
  apply Notes.ite (Notes.pure _)
  apply Notes.ite (Notes.pure _)
  apply Notes.ite (Notes.bind frees fun _ => Notes.pure _)
  apply Notes.bind (notes_getProperty unaware object _)
  intro doneValue
  apply Notes.ite (Notes.bind frees fun _ => Notes.pure _)
  apply Notes.get_bind
  intro n
  apply Notes.bind (notes_freeValue unaware doneValue)
  intro _
  apply Notes.bind (Notes.ite (Notes.pure _) (notes_getProperty unaware object _))
  intro value
  exact Notes.bind frees fun _ => Notes.pure _

theorem notes_jsIteratorClose (iterator : Value) :
    Notes (V := V) engine.toEngine host (jsIteratorClose engine.noting iterator)
      (jsIteratorClose engine iterator) := by
  apply Notes.bind (notes_getProperty unaware iterator _)
  intro method
  apply Notes.ite (Notes.pure _)
  apply Notes.ite (Notes.pure _)
  apply Notes.bind (notes_jsCall unaware method iterator)
  intro result
  apply Notes.bind (notes_freeValue unaware method)
  intro _
  have frees := notes_freeValue unaware result
  apply Notes.ite (Notes.pure _)
  apply Notes.ite
  · apply Notes.bind (notes_throwTypeError unaware _)
    intro _
    exact Notes.bind frees fun _ => Notes.pure _
  · exact Notes.bind frees fun _ => Notes.pure _

/-! ### The generator -/

theorem notes_dropException :
    Notes engine.toEngine host (dropException engine.noting host.noting)
      (dropException engine host) := by
  apply Notes.bind (notes_getException unaware.toUnaware)
  intro exception
  exact notes_disposeException unaware.toUnaware exception

theorem notes_closeIterator (iterator : JSValue) (outcome : Outcome V) :
    Notes engine.toEngine host (closeIterator engine.noting host.noting iterator outcome)
      (closeIterator engine host iterator outcome) := by
  have closes : Notes engine.toEngine host
      (do
        let cell ← ptr iterator
        qjsBunIteratorClose engine.noting cell)
      (do
        let cell ← ptr iterator
        qjsBunIteratorClose engine cell : Run σ V (Int × Closing)) := by
    apply Notes.bind (notes_ptr iterator)
    intro cell
    exact notes_guarded unaware _ (notes_jsIteratorClose unaware cell)
  apply Notes.bind closes.attempt
  intro closed
  cases closed with
  | error e => exact Notes.pure _
  | ok reply =>
    refine Notes.ite ?_ (Notes.pure _)
    apply Notes.bind (notes_dropException unaware).attempt
    intro dropped
    cases dropped with
    | error e => exact Notes.pure _
    | ok _ => exact Notes.pure _

theorem notes_unwind (iterator next : JSValue) (finished : Bool) (outcome : Outcome V)
    (reply : Option (Value × Bool)) :
    Notes engine.toEngine host
      (unwind engine.noting host.noting iterator next finished outcome reply)
      (unwind engine host iterator next finished outcome reply) := by
  apply Notes.bind (Notes.ite (Notes.pure _) (notes_closeIterator unaware iterator outcome))
  intro ended
  apply Notes.bind (notes_dispose unaware.toUnaware next)
  intro _
  exact Notes.bind (notes_dispose unaware.toUnaware iterator) fun _ => Notes.pure _

theorem notes_nextRound (iterator next : JSValue) :
    Notes engine.toEngine host (round engine.noting host.noting iterator next)
      (round engine host iterator next) := by
  have calls : Notes engine.toEngine host
      (do
        let cell ← ptr iterator
        let method ← ptr next
        qjsBunIteratorNext engine.noting cell method)
      (do
        let cell ← ptr iterator
        let method ← ptr next
        qjsBunIteratorNext engine cell method : Run σ V (Value × Bool)) := by
    apply Notes.bind (notes_ptr iterator)
    intro cell
    apply Notes.bind (notes_ptr next)
    intro method
    exact notes_guarded unaware _ (notes_jsIteratorNext unaware cell method)
  apply Notes.bind calls.attempt
  intro called
  cases called with
  | error e => exact Notes.pure _
  | ok reply =>
    obtain ⟨cell, done⟩ := reply
    apply Notes.bind (notes_newHandle cell true)
    intro value
    apply Notes.ite
    · apply Notes.bind (notes_getException unaware.toUnaware).attempt
      intro taken
      cases taken with
      | error e => exact Notes.pure _
      | ok e => exact Notes.pure _
    · refine Notes.ite ?_ (Notes.pure _)
      exact Notes.bind (notes_dispose unaware.toUnaware value) fun _ => Notes.pure _

theorem notes_advance (iterator next : JSValue) :
    Notes engine.toEngine host (advance engine.noting host.noting iterator next)
      (advance engine host iterator next) := by
  apply Notes.bind (notes_nextRound unaware iterator next)
  intro reply
  obtain ⟨outcome, finished, reply⟩ := reply
  cases outcome with
  | yields value => exact Notes.pure _
  | returns => exact notes_unwind unaware iterator next finished _ reply
  | throws e => exact notes_unwind unaware iterator next finished _ reply

theorem notes_start (source : JSValue) :
    Notes engine.toEngine host (start engine.noting host.noting source)
      (start engine host source) := by
  have excepts := notes_getException unaware.toUnaware
  apply Notes.bind (notes_ptr source)
  intro object
  apply Notes.bind (notes_guarded unaware _ (notes_jsGetIterator unaware object))
  intro out
  apply Notes.bind (notes_resultValue excepts out)
  intro iterator
  apply notes_orDispose unaware.toUnaware iterator
  exact Notes.bind (notes_getProp unaware.toUnaware excepts iterator _) fun next => Notes.pure _

theorem notes_resume (generator : Generator) (resumption : Resumption V) :
    Notes engine.toEngine host (resume engine.noting host.noting generator resumption)
      (resume engine host generator resumption) := by
  cases generator with
  | fresh source =>
    cases resumption with
    | next =>
      apply Notes.bind (notes_start unaware source).attempt
      intro started
      cases started with
      | error e => exact Notes.pure _
      | ok both => exact notes_advance unaware both.1 both.2
    | «return» => exact Notes.pure _
    | throw e => exact Notes.pure _
  | suspended iterator next =>
    cases resumption with
    | next => exact notes_advance unaware iterator next
    | «return» => exact notes_unwind unaware iterator next false _ none
    | throw e => exact notes_unwind unaware iterator next false _ none
  | ended =>
    cases resumption with
    | next => exact Notes.pure _
    | «return» => exact Notes.pure _
    | throw e => exact Notes.pure _

end

end QuickJSBun.Context
