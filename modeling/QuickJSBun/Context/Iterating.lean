import QuickJSBun.Context.Conserving

/-! The iterator functions of the engine and the generator that `JSValue[Symbol.iterator]` makes of
them. The generator is what is left of it at a `yield`; the host resumes it as it likes.
-/

set_option autoImplicit false

namespace QuickJSBun.Context

open Library Effect

variable {σ V α β : Type}

/-- What the iterator functions use besides the natives. Guest code may run in `invoke`, which is
`JS_Call` without arguments, in `iteratorNext`, which is the function behind the `next` of a
built-in iterator, and in the rest by a finalizer. -/
structure IteratorEngine (σ : Type) extends LawfulEngine σ where
  atomSymbolIterator : Nat
  atomDone : Nat
  atomValue : Nat
  atomReturn : Nat
  isFunction : Value → World σ → Bool
  toBool : Value → World σ → Bool
  builtin : Value → World σ → Bool
  invoke : Value → Value → World σ → Value × World σ
  invokes : ∀ method receiver flight w, Sound flight w →
    Acts [] w (invoke method receiver w).1.cells (invoke method receiver w).2
  iteratorNext : Value → Value → World σ → (Value × Nat) × World σ
  iterates : ∀ iterator method flight w, Sound flight w →
    Acts [] w (iteratorNext iterator method w).1.1.cells (iteratorNext iterator method w).2
  /-- `qjs_bun_enter`, and `qjs_bun_leave` after a call that failed or not: a late failure becomes a timeout. -/
  enter : World σ → World σ
  enters : ∀ flight w, Sound flight w → Acts [] w [] (enter w)
  leave : Bool → World σ → World σ
  leaves : ∀ failed flight w, Sound flight w → Acts [] w [] (leave failed w)

def Value.isObject : Value → Bool
  | .heap .object _ => true
  | _ => false

section
variable (engine : IteratorEngine σ)

def freeValue (value : Value) : Run σ V Unit :=
  if value.tag < 0 then call engine.toEngine (.freeValue value) else pure ()

def throwTypeError (message : String) : Run σ V Unit :=
  call engine.toEngine (.throwError 1 (encode (text message)))

def getProperty (object : Value) (atom : Nat) : Run σ V Value :=
  call engine.toEngine (.getProperty object atom)

def jsCall (method receiver : Value) : Run σ V Value := .lift (engine.invoke method receiver)

/-- `QJS_GUEST_OUT` and `QJS_GUEST_RET` -/
def guarded (failed : α → Bool) (x : Run σ V α) : Run σ V α := do
  .modify engine.enter
  let out ← x
  .modify (engine.leave (failed out))
  pure out

def jsGetIterator2 (object method : Value) : Run σ V Value := do
  let iterator ← jsCall engine method object
  if iterator = .exception then pure .exception
  else if !iterator.isObject then do
    freeValue engine iterator
    throwTypeError engine "not an object"
    pure .exception
  else pure iterator

def jsGetIterator (object : Value) : Run σ V Value := do
  let method ← getProperty engine object engine.atomSymbolIterator
  if method = .exception then pure .exception
  else do
    let w ← .get
    if !engine.isFunction method w then do
      freeValue engine method
      throwTypeError engine "value is not iterable"
      pure .exception
    else do
      let iterator ← jsGetIterator2 engine object method
      freeValue engine method
      pure iterator

/-- The second is `*pdone`: 2 for an object that has not been looked into. -/
def jsIteratorNext2 (iterator method : Value) : Run σ V (Value × Nat) := do
  let w ← .get
  if method.isObject && engine.builtin method w then .lift (engine.iteratorNext iterator method)
  else do
    let object ← jsCall engine method iterator
    if object = .exception then pure (.exception, 0)
    else if !object.isObject then do
      freeValue engine object
      throwTypeError engine "iterator must return an object"
      pure (.exception, 0)
    else pure (object, 2)

def jsIteratorNext (iterator method : Value) : Run σ V (Value × Bool) := do
  let (object, done) ← jsIteratorNext2 engine iterator method
  if object = .exception then pure (.exception, false)
  else if done = 0 then pure (object, false)
  else if done ≠ 2 then do
    freeValue engine object
    pure (.undefined, true)
  else do
    let doneValue ← getProperty engine object engine.atomDone
    if doneValue = .exception then do
      freeValue engine object
      pure (.exception, false)
    else do
      let w ← .get
      let done := engine.toBool doneValue w
      freeValue engine doneValue
      let value ← (if done then pure .undefined else getProperty engine object engine.atomValue :
          Run σ V Value)
      freeValue engine object
      pure (value, done)

/-- What became of the iterator's `return` method. -/
inductive Closing where
  | notAsked
  /-- Its getter has thrown. -/
  | unreadable
  | absent
  | invoked
  deriving DecidableEq, Repr

/-- `JS_IteratorClose` with no exception pending, and what became of the method. -/
def jsIteratorClose (iterator : Value) : Run σ V (Int × Closing) := do
  let method ← getProperty engine iterator engine.atomReturn
  if method = .exception then pure (-1, .unreadable)
  else if method = .undefined ∨ method = .null then pure (0, .absent)
  else do
    let result ← jsCall engine method iterator
    freeValue engine method
    if result = .exception then pure (-1, .invoked)
    else if !result.isObject then do
      throwTypeError engine "not an object"
      freeValue engine result
      pure (-1, .invoked)
    else do
      freeValue engine result
      pure (0, .invoked)

def qjsBunGetIterator (object : Value) : Run σ V Value :=
  guarded engine (fun out => decide (out = .exception)) (jsGetIterator engine object)

def qjsBunIteratorNext (iterator method : Value) : Run σ V (Value × Bool) :=
  guarded engine (fun out => decide (out.1 = .exception)) (jsIteratorNext engine iterator method)

def qjsBunIteratorClose (iterator : Value) : Run σ V (Int × Closing) :=
  guarded engine (fun out => decide (out.1 < 0)) (jsIteratorClose engine iterator)

end

/-! ### The generator -/

/-- The generator of an iterable: not started, at its `yield` with the variables `iterator` and
`next`, or at its end. -/
inductive Generator where
  | fresh (source : JSValue)
  | suspended (iterator next : JSValue)
  | ended
  deriving DecidableEq, Repr

inductive Resumption (V : Type) where
  | next
  | return
  | throw (error : HostValue V)
  deriving DecidableEq, Repr

inductive Outcome (V : Type) where
  | yields (value : JSValue)
  | returns
  | throws (error : HostValue V)
  deriving DecidableEq, Repr

/-- What one resumption comes to. `reply` is what `qjs_bun_iterator_next` gave, if it was called,
and `closing` what became of the `return` method; neither is in the source. -/
structure Turn (V : Type) where
  outcome : Outcome V
  generator : Generator
  reply : Option (Value × Bool)
  closing : Closing
  deriving DecidableEq, Repr

/-- `try { x } catch (error) { … }`, for what is done with the error later. -/
def attempt (x : Run σ V α) : Run σ V (Except (HostValue V) α) := .lift x.run

section
variable (engine : IteratorEngine σ) (host : Host V σ)

/-- `vm.getException().dispose()` -/
def dropException : Run σ V Unit := do
  let exception ← getException engine.toEngine host
  disposeException engine.toEngine exception

/-- The `finally` of the generator: an error from there replaces the outcome. -/
def closeIterator (iterator : JSValue) (outcome : Outcome V) : Run σ V (Outcome V × Closing) := do
  let closed ← attempt (do
    let cell ← ptr iterator
    qjsBunIteratorClose engine cell)
  match closed with
  | .error e => pure (.throws e, .notAsked)
  | .ok (ok, closing) =>
    if ok < 0 then do
      let dropped ← attempt (dropException engine host)
      match dropped with
      | .error e => pure (.throws e, closing)
      | .ok _ => pure (outcome, closing)
    else pure (outcome, closing)

/-- The way out of the generator: `finally`, then `next` and `iterator` are disposed. -/
def unwind (iterator next : JSValue) (finished : Bool) (outcome : Outcome V)
    (reply : Option (Value × Bool)) : Run σ V (Turn V) := do
  let (outcome, closing) ←
    (if finished then pure (outcome, .notAsked) else closeIterator engine host iterator outcome :
      Run σ V (Outcome V × Closing))
  dispose engine.toEngine next
  dispose engine.toEngine iterator
  pure ⟨outcome, .ended, reply, closing⟩

/-- One round of the loop, and `finished` after it. -/
def round (iterator next : JSValue) : Run σ V (Outcome V × Bool × Option (Value × Bool)) := do
  let called ← attempt (do
    let cell ← ptr iterator
    let method ← ptr next
    qjsBunIteratorNext engine cell method)
  match called with
  | .error e => pure (.throws e, false, none)
  | .ok (cell, done) => do
    let value ← newHandle cell true
    if cell = .exception then do
      let taken ← attempt (getException engine.toEngine host)
      match taken with
      | .error e => pure (.throws e, true, some (cell, done))
      | .ok e => pure (.throws e, true, some (cell, done))
    else if done then do
      dispose engine.toEngine value
      pure (.returns, true, some (cell, done))
    else pure (.yields value, false, some (cell, done))

def advance (iterator next : JSValue) : Run σ V (Turn V) := do
  let (outcome, finished, reply) ← round engine host iterator next
  match outcome with
  | .yields value => pure ⟨.yields value, .suspended iterator next, reply, .notAsked⟩
  | outcome => unwind engine host iterator next finished outcome reply

def start (source : JSValue) : Run σ V (JSValue × JSValue) := do
  let object ← ptr source
  let out ← qjsBunGetIterator engine object
  let iterator ← resultValue (getException engine.toEngine host) out
  orDispose engine.toEngine iterator do
    let next ← getProp engine.toEngine (getException engine.toEngine host) iterator (text "next")
    pure (iterator, next)

def resume (generator : Generator) (resumption : Resumption V) : Run σ V (Turn V) :=
  match generator, resumption with
  | .fresh source, .next => do
    let started ← attempt (start engine host source)
    match started with
    | .error e => pure ⟨.throws e, .ended, none, .notAsked⟩
    | .ok (iterator, next) => advance engine host iterator next
  | .suspended iterator next, .next => advance engine host iterator next
  | .suspended iterator next, .return => unwind engine host iterator next false .returns none
  | .suspended iterator next, .throw e => unwind engine host iterator next false (.throws e) none
  | _, .throw e => pure ⟨.throws e, .ended, none, .notAsked⟩
  | _, _ => pure ⟨.returns, .ended, none, .notAsked⟩

end

/-! ### References on their way -/

theorem Sound.perm {flight others : List Nat} {w : World σ} (sound : Sound flight w)
    (same : flight.Perm others) : Sound others w :=
  ⟨sound.references_length, sound.engine_length, fun cell =>
    by rw [← same.count_eq]; exact sound.accounts cell, sound.distinct,
    sound.nonzero, sound.owned, sound.constants, sound.lost⟩

/-- A computation that never throws takes references over and gives others, whatever else is on the
way. -/
def Trades (before : List Nat) (x : Run σ V α) (after : α → List Nat) : Prop :=
  ∀ flight w, Sound (before ++ flight) w →
    Triple (· = w) x (fun a w' => Sound (after a ++ flight) w' ∧ Step w w' nobody nobody) fun _ _ =>
      False

section
variable {before : List Nat} {x : Run σ V α} {after : α → List Nat}

theorem Trades.pure {a : α} (same : before = after a) :
    Trades before (Pure.pure a : Run σ V α) after := fun flight w sound => by
  refine Triple.pure a fun s isW => ?_
  subst isW
  exact ⟨same ▸ sound, Step.refl s⟩

theorem Trades.bind {f : α → Run σ V β} {last : β → List Nat} (first : Trades before x after)
    (next : ∀ a, Trades (after a) (f a) last) : Trades before (x >>= f) last :=
  fun flight w sound => by
  refine Triple.bind (first flight w sound) fun a => Triple.each fun w' ends => ?_
  exact (next a flight w' ends.1).weaken (fun _ same => same)
    (fun _ _ later => ⟨later.1, ends.2.trans_quiet later.2⟩)
    fun _ _ never => never

theorem Trades.ite {condition : Prop} [Decidable condition] {y : Run σ V α}
    (yes : condition → Trades before x after) (no : ¬condition → Trades before y after) :
    Trades before (if condition then x else y) after := by
  split
  · next holds => exact yes holds
  · next fails => exact no fails

theorem Trades.get {f : World σ → Run σ V α} (next : ∀ w, Trades before (f w) after) :
    Trades before (Effect.get >>= f) after :=
  fun flight w sound => by
    refine Triple.bind (Q := fun a w' => a = w ∧ w' = w) (Triple.get fun _ same => ⟨same, same⟩)
      fun a => Triple.each fun w' both => ?_
    obtain ⟨rfl, rfl⟩ := both
    exact next _ flight _ sound

theorem Trades.lift {step : World σ → α × World σ}
    (acts : ∀ flight w, Sound (before ++ flight) w → Acts before w (after (step w).1) (step w).2) :
    Trades before (Effect.lift step : Run σ V α) after := fun flight w sound => by
  refine Triple.lift fun s isW => ?_
  subst isW
  exact ((acts flight s sound).frame flight).kept sound

theorem Trades.frame (trades : Trades before x after) (others : List Nat) :
    Trades (before ++ others) x fun a => after a ++ others := fun flight w sound => by
  rw [List.append_assoc] at sound
  refine (trades (others ++ flight) w sound).weaken (fun _ same => same) (fun a s ends => ?_)
    fun _ _ never => never
  rwa [← List.append_assoc] at ends

theorem Trades.perm {others : List Nat} (trades : Trades before x after)
    (same : others.Perm before) : Trades others x after :=
  fun flight w sound => trades flight w (sound.perm (same.append_right flight))

-- The same for a computation that has nothing to take over.
theorem Trades.holding (trades : Trades [] x after) (others : List Nat) :
    Trades others x fun a => after a ++ others :=
  trades.frame others

theorem Trades.modify {f : World σ → World σ}
    (acts : ∀ flight w, Sound flight w → Acts [] w [] (f w)) :
    Trades [] (Effect.modify f : Run σ V Unit) fun _ => [] := fun flight w sound => by
  refine Triple.modify fun s isW => ?_
  subst isW
  exact ((acts flight s sound).frame flight).kept sound

end

section
variable (engine : IteratorEngine σ)

theorem trades_freeValue (value : Value) :
    Trades value.cells (freeValue engine value : Run σ V Unit) fun _ => [] :=
  Trades.ite (fun _ => Trades.lift fun flight w sound =>
    engine.acts (.freeValue value) flight w sound)
    fun plain => Trades.pure (Value.cells_of_tag plain)

theorem trades_throwTypeError (message : String) :
    Trades [] (throwTypeError engine message : Run σ V Unit) fun _ => [] :=
  Trades.lift fun flight w sound =>
    engine.acts (.throwError 1 (encode (text message))) flight w sound

theorem trades_getProperty (object : Value) (atom : Nat) :
    Trades [] (getProperty engine object atom : Run σ V Value) Value.cells :=
  Trades.lift fun flight w sound => engine.acts (.getProperty object atom) flight w sound

theorem trades_jsCall (method receiver : Value) :
    Trades [] (jsCall engine method receiver : Run σ V Value) Value.cells :=
  Trades.lift fun flight w sound => engine.invokes method receiver flight w sound

theorem trades_guarded {failed : α → Bool} {x : Run σ V α} {after : α → List Nat}
    (trades : Trades [] x after) : Trades [] (guarded engine failed x) after := by
  refine Trades.bind (Trades.modify engine.enters) fun _ => Trades.bind trades fun out => ?_
  refine Trades.bind ((Trades.modify (engine.leaves (failed out))).holding (after out)) fun _ =>
    Trades.pure rfl

theorem trades_jsGetIterator2 (object method : Value) :
    Trades [] (jsGetIterator2 engine object method : Run σ V Value) Value.cells := by
  refine Trades.bind (trades_jsCall engine method object) fun iterator => ?_
  refine Trades.ite (fun isException => Trades.pure ?_) fun _ => Trades.ite (fun _ => ?_) fun _ =>
    Trades.pure rfl
  · rw [isException]
  · refine Trades.bind (trades_freeValue engine iterator) fun _ => ?_
    exact Trades.bind (trades_throwTypeError engine _) fun _ => Trades.pure rfl

theorem trades_jsGetIterator (object : Value) :
    Trades [] (jsGetIterator engine object : Run σ V Value) Value.cells := by
  refine Trades.bind (trades_getProperty engine object _) fun method => ?_
  refine Trades.ite (fun isException => Trades.pure ?_) fun _ => Trades.get fun w =>
    Trades.ite (fun _ => ?_) fun _ => ?_
  · rw [isException]
  · refine Trades.bind (trades_freeValue engine method) fun _ => ?_
    exact Trades.bind (trades_throwTypeError engine _) fun _ => Trades.pure rfl
  · refine Trades.bind ((trades_jsGetIterator2 engine object method).holding method.cells)
      fun iterator => ?_
    refine Trades.bind
      (((trades_freeValue engine method).frame iterator.cells).perm List.perm_append_comm) fun _ =>
        ?_
    exact Trades.pure rfl

theorem trades_jsIteratorNext2 (iterator method : Value) :
    Trades [] (jsIteratorNext2 engine iterator method : Run σ V (Value × Nat)) fun reply =>
      reply.1.cells := by
  refine Trades.get fun w => Trades.ite (fun _ => ?_) fun _ => ?_
  · exact Trades.lift fun flight w sound => engine.iterates iterator method flight w sound
  · refine Trades.bind (trades_jsCall engine method iterator) fun object => ?_
    refine Trades.ite (fun isException => Trades.pure ?_) fun _ => Trades.ite (fun _ => ?_) fun _ =>
      Trades.pure rfl
    · rw [isException]
    · refine Trades.bind (trades_freeValue engine object) fun _ => ?_
      exact Trades.bind (trades_throwTypeError engine _) fun _ => Trades.pure rfl

theorem trades_jsIteratorNext (iterator method : Value) :
    Trades [] (jsIteratorNext engine iterator method : Run σ V (Value × Bool)) fun reply =>
      reply.1.cells := by
  refine Trades.bind (trades_jsIteratorNext2 engine iterator method) fun reply => ?_
  obtain ⟨object, done⟩ := reply
  have frees := trades_freeValue (V := V) engine object
  refine Trades.ite (fun isException => Trades.pure ?_) fun _ =>
    Trades.ite (fun _ => Trades.pure rfl) fun _ => ?_
  · dsimp only
    rw [isException]
  refine Trades.ite (fun _ => Trades.bind frees fun _ => Trades.pure rfl) fun _ => ?_
  refine Trades.bind ((trades_getProperty engine object _).holding object.cells) fun doneValue => ?_
  refine Trades.ite (fun isException => ?_) fun _ => Trades.get fun w => ?_
  · rw [isException]
    exact Trades.bind frees fun _ => Trades.pure rfl
  refine Trades.bind ((trades_freeValue engine doneValue).frame object.cells) fun _ => ?_
  have reads : Trades object.cells (if engine.toBool doneValue w then Pure.pure .undefined
      else getProperty engine object engine.atomValue : Run σ V Value) fun value =>
        value.cells ++ object.cells :=
    Trades.ite (fun _ => Trades.pure rfl) fun _ =>
      (trades_getProperty engine object _).holding object.cells
  refine Trades.bind reads fun value => ?_
  exact Trades.bind ((frees.frame value.cells).perm List.perm_append_comm) fun _ => Trades.pure rfl

theorem trades_jsIteratorClose (iterator : Value) :
    Trades [] (jsIteratorClose engine iterator : Run σ V (Int × Closing)) fun _ => [] := by
  refine Trades.bind (trades_getProperty engine iterator _) fun method => ?_
  refine Trades.ite (fun isException => Trades.pure ?_) fun _ =>
    Trades.ite (fun plain => Trades.pure ?_) fun _ => ?_
  · rw [isException]
    rfl
  · rcases plain with rfl | rfl
    · rfl
    · rfl
  · refine Trades.bind ((trades_jsCall engine method iterator).holding method.cells) fun result =>
      ?_
    refine Trades.bind
      (((trades_freeValue engine method).frame result.cells).perm List.perm_append_comm) fun _ => ?_
    have frees := trades_freeValue (V := V) engine result
    refine Trades.ite (fun isException => Trades.pure ?_) fun _ =>
      Trades.ite (fun _ => ?_) fun _ => ?_
    · rw [isException]
      rfl
    · refine Trades.bind ((trades_throwTypeError engine _).holding result.cells) fun _ => ?_
      exact Trades.bind frees fun _ => Trades.pure rfl
    · exact Trades.bind frees fun _ => Trades.pure rfl

theorem trades_qjsBunGetIterator (object : Value) :
    Trades [] (qjsBunGetIterator engine object : Run σ V Value) Value.cells :=
  trades_guarded engine (trades_jsGetIterator engine object)

theorem trades_qjsBunIteratorNext (iterator method : Value) :
    Trades [] (qjsBunIteratorNext engine iterator method : Run σ V (Value × Bool)) fun reply =>
      reply.1.cells :=
  trades_guarded engine (trades_jsIteratorNext engine iterator method)

theorem trades_qjsBunIteratorClose (iterator : Value) :
    Trades [] (qjsBunIteratorClose engine iterator : Run σ V (Int × Closing)) fun _ => [] :=
  trades_guarded engine (trades_jsIteratorClose engine iterator)

end

end QuickJSBun.Context
