import QuickJSBun.Context.Dump

/-! What the library's functions leave as it is: of the engine's state they change what the natives
change that they call, and these are natives without a scope of their own.
-/

set_option autoImplicit false

namespace QuickJSBun.Context

open Library Effect

variable {σ V α β τ : Type}

/-- The natives that open a scope for the deadline, or leave it. -/
def Native.scopes : Native → Bool
  | .enterScope | .leaveScope => true
  | _ => false

/-- Something in the engine's state that every other native leaves as it found it. -/
def Stays (engine : Engine σ) (observe : σ → τ) : Prop :=
  ∀ (native : Native) (w : World σ), native.scopes = false →
    observe (engine.call native w).2.guest = observe w.guest

-- It stays in a run of the library's code, however that ends.
def Steady (observe : σ → τ) (x : Run σ V α) : Prop := Keeps (fun w => observe w.guest) x

variable {engine : Engine σ} {observe : σ → τ} (stays : Stays engine observe) (host : Host V σ)
include stays

theorem steady_call {native : Native} (unscoped : native.scopes = false) :
    Steady (V := V) observe (call engine native) :=
  Keeps.lift fun w => stays native w unscoped

omit stays in
theorem steady_newHandle (value : Value) (owned : Bool) :
    Steady observe (newHandle value owned : Run σ V JSValue) :=
  Keeps.lift fun _ => rfl

omit stays in
theorem steady_ptr (h : JSValue) : Steady observe (ptr h : Run σ V Value) :=
  Keeps.bind Keeps.get fun _ => Keeps.bind (Keeps.check _ _) fun _ => Keeps.pure _

omit stays in
theorem steady_assertSameVM (h : JSValue) : Steady observe (assertSameVM h : Run σ V Unit) :=
  Keeps.bind Keeps.get fun _ => Keeps.bind (Keeps.check _ _) fun _ =>
    Keeps.bind (steady_ptr h) fun _ => Keeps.pure ()

theorem steady_dispose (h : JSValue) : Steady observe (dispose engine h : Run σ V Unit) :=
  Keeps.bind Keeps.get fun _ =>
    Keeps.ite (Keeps.pure ()) (Keeps.bind (Keeps.modify fun _ => rfl) fun _ =>
    Keeps.ite (steady_call stays rfl) (Keeps.pure ()))

theorem steady_using {x : Run σ V α} (steady : Steady observe x) (h : JSValue) :
    Steady observe (Effect.tryFinally x (dispose engine h)) :=
  Keeps.tryFinally steady (steady_dispose stays h)

omit stays in
theorem steady_decode (buffer : Bytes) : Steady observe (decode buffer : Run σ V Text) := by
  unfold decode
  split
  · exact Keeps.pure _
  · exact Keeps.throw _

section
variable {gE : Run σ V (HostValue V)} (excepts : Steady observe gE)
include excepts

omit stays in
theorem steady_throwException : Steady observe (throwException gE : Run σ V α) :=
  Keeps.bind excepts fun _ => Keeps.throw _

omit stays in
theorem steady_resultValue (cell : Value) : Steady observe (resultValue gE cell) :=
  Keeps.bind (steady_newHandle cell true) fun _ =>
    Keeps.ite (steady_throwException excepts) (Keeps.pure _)

theorem steady_type (h : JSValue) : Steady observe (type engine gE h) := by
  refine Keeps.bind (steady_ptr h) fun value => Keeps.bind (steady_call stays rfl) fun code => ?_
  refine Keeps.ite (steady_throwException excepts) ?_
  split
  · exact Keeps.pure _
  · exact Keeps.throw _

theorem steady_readText (h : JSValue) : Steady observe (readText engine gE h) := by
  refine Keeps.bind Keeps.get fun _ => Keeps.bind (steady_ptr h) fun value =>
    Keeps.bind (steady_call stays rfl) fun bytes => ?_
  split
  · exact steady_throwException excepts
  · refine Keeps.ite (steady_decode _) (Keeps.bind (Keeps.modify fun _ => rfl) fun _ => ?_)
    refine Keeps.bind (steady_call stays rfl) fun bytes => ?_
    split
    · exact steady_throwException excepts
    · exact steady_decode _

omit excepts in
theorem steady_ownKeys (capacity : Nat) (object : Value) :
    Steady (V := V) observe (ownKeys engine capacity object) := by
  refine Keeps.bind (steady_call stays rfl) fun names => ?_
  split
  · exact Keeps.pure _
  · exact Keeps.ite (Keeps.pure _) (Keeps.pure _)

omit excepts in
theorem steady_growKeys (object : Value) (attempts : Nat) (found : Int × Bytes) :
    Steady (V := V) observe (growKeys engine object attempts found) := by
  induction attempts generalizing found with
  | zero => exact Keeps.pure _
  | succ attempts ih =>
    refine Keeps.ite (Keeps.bind (Keeps.modify fun _ => rfl) fun _ => ?_) (Keeps.pure _)
    exact Keeps.bind (steady_ownKeys stays _ object) fun found => ih found

omit stays excepts in
theorem steady_unpackKeys (count : Nat) (buffer : Bytes) :
    Steady (V := V) observe (unpackKeys count buffer : Run σ V (List Text)) := by
  induction count generalizing buffer with
  | zero => exact Keeps.pure _
  | succ count ih => exact Keeps.bind (steady_decode _) fun _ => Keeps.bind (ih _) fun _ => Keeps.pure _

theorem steady_keys (h : JSValue) : Steady observe (keys engine gE h) := by
  refine Keeps.bind Keeps.get fun _ => Keeps.bind (steady_ptr h) fun object => ?_
  refine Keeps.bind (steady_ownKeys stays _ object) fun found =>
    Keeps.bind (steady_growKeys stays object 4 found) fun read => ?_
  exact Keeps.ite (steady_throwException excepts)
    (Keeps.ite (Keeps.throw _) (steady_unpackKeys _ _))

theorem steady_newString (value : Text) : Steady observe (newString engine gE value) := by
  unfold newString
  refine Keeps.ite ?_ ?_
  · exact Keeps.bind (steady_call stays rfl) fun out => steady_resultValue excepts out
  · exact Keeps.bind (steady_call stays rfl) fun out => steady_resultValue excepts out

theorem steady_newAtom (value : Text) : Steady observe (newAtom engine gE value) := by
  refine Keeps.bind (steady_newString stays excepts value) fun text => steady_using stays ?_ text
  refine Keeps.bind (steady_ptr text) fun value => Keeps.bind (steady_call stays rfl) fun atom => ?_
  exact Keeps.ite (steady_throwException excepts) (Keeps.pure _)

omit excepts in
theorem steady_evictAtoms : Steady (V := V) observe (evictAtoms engine) := by
  have frees (entry : Text × Nat) : Steady (V := V) observe (call engine (.freeAtom entry.2)) :=
    steady_call stays rfl
  exact Keeps.bind Keeps.get fun _ =>
    Keeps.ite (Keeps.bind (Keeps.forEach frees _) fun _ => Keeps.modify fun _ => rfl) (Keeps.pure _)

theorem steady_atom (key : Text) : Steady observe (atom engine gE key) := by
  refine Keeps.bind Keeps.get fun w => ?_
  split
  · exact Keeps.pure _
  · refine Keeps.bind (steady_evictAtoms stays) fun _ => Keeps.bind ?_ fun atom => ?_
    · exact Keeps.ite (steady_call stays rfl) (steady_newAtom stays excepts key)
    · exact Keeps.ite (steady_throwException excepts)
        (Keeps.bind (Keeps.modify fun _ => rfl) fun _ => Keeps.pure _)

theorem steady_getProp (object : JSValue) (key : Text) :
    Steady observe (getProp engine gE object key) :=
  Keeps.bind (steady_ptr object) fun _ => Keeps.bind (steady_atom stays excepts key) fun _ =>
    Keeps.bind (steady_call stays rfl) fun out => steady_resultValue excepts out

theorem steady_getDataProp (object : JSValue) (key : Text) :
    Steady observe (getDataProp engine gE object key) :=
  Keeps.bind (steady_ptr object) fun _ => Keeps.bind (steady_atom stays excepts key) fun _ =>
    Keeps.bind (steady_call stays rfl) fun out => steady_resultValue excepts out

theorem steady_getIndex (object : JSValue) (index : Nat) :
    Steady observe (getIndex engine gE object index) :=
  Keeps.bind (steady_ptr object) fun _ => Keeps.bind (steady_call stays rfl) fun out =>
    steady_resultValue excepts out

theorem steady_toBigInt (h : JSValue) : Steady observe (toBigInt engine gE h) := by
  refine Keeps.bind (steady_ptr h) fun value =>
    Keeps.ite ?_ (Keeps.bind (steady_call stays rfl) fun found => ?_)
  · exact Keeps.bind (steady_type stays excepts h) fun _ => Keeps.throw _
  · refine Keeps.ite (steady_throwException excepts) (Keeps.ite (Keeps.pure _) ?_)
    refine Keeps.bind (steady_readText stays excepts h) fun digits => ?_
    split
    · exact Keeps.pure _
    · exact Keeps.throw _

theorem steady_valueToString (h : JSValue) : Steady observe (valueToString engine gE h) :=
  Keeps.bind (steady_ptr h) fun _ => Keeps.ite (steady_readText stays excepts h)
    (Keeps.bind (steady_type stays excepts h) fun _ => Keeps.throw _)

theorem steady_primitive (h : JSValue) : Steady observe (primitive engine host gE h) := by
  refine Keeps.bind (steady_ptr h) fun value => ?_
  split
  · exact Keeps.pure _
  · exact Keeps.pure _
  · exact Keeps.pure _
  · exact Keeps.pure _
  · exact Keeps.pure _
  · exact Keeps.bind (steady_toBigInt stays excepts h) fun _ => Keeps.pure _
  · exact Keeps.bind (steady_toBigInt stays excepts h) fun _ => Keeps.pure _
  · exact Keeps.bind (steady_readText stays excepts h) fun _ => Keeps.pure _
  · exact Keeps.bind (steady_readText stays excepts h) fun _ => Keeps.pure _
  · exact Keeps.pure _

theorem steady_errorProperty (h : JSValue) (name : String) :
    Steady observe (errorProperty engine host gE h name) := by
  refine Keeps.bind (steady_getDataProp stays excepts h _) fun value => steady_using stays ?_ value
  exact Keeps.bind (steady_ptr value) fun _ =>
    Keeps.ite (Keeps.pure _) (steady_primitive stays host excepts value)

theorem steady_thrownMessage (h : JSValue) : Steady observe (thrownMessage engine host gE h) := by
  refine Keeps.bind (steady_type stays excepts h) fun type => ?_
  split
  · exact Keeps.bind (steady_errorProperty stays host excepts h _) fun _ => Keeps.pure _
  · exact Keeps.pure _
  · exact Keeps.pure _
  · exact Keeps.pure _
  · exact Keeps.pure _
  · exact Keeps.bind (steady_primitive stays host excepts h) fun _ => Keeps.pure _

theorem steady_describe (h : JSValue) : Steady observe (describe engine host gE h) := by
  refine Keeps.bind (steady_type stays excepts h) fun type => Keeps.ite ?_ ?_
  · refine Keeps.bind (steady_errorProperty stays host excepts h _) fun _ => ?_
    refine Keeps.bind (steady_errorProperty stays host excepts h _) fun _ => ?_
    exact Keeps.bind (steady_errorProperty stays host excepts h _) fun _ => Keeps.pure _
  · exact Keeps.bind (steady_thrownMessage stays host excepts h) fun _ => Keeps.pure _

theorem steady_newJSException (h : JSValue) : Steady observe (newJSException engine host gE h) :=
  Keeps.tryCatch (steady_describe stays host excepts h) fun _ =>
    Keeps.bind (Keeps.modify fun _ => rfl) fun _ => Keeps.throw _

end

theorem steady_getException : Steady observe (getException engine host) := by
  unfold getException
  generalize unbounded = stack
  induction stack with
  | zero => exact Keeps.throw _
  | succ stack ih =>
    exact Keeps.bind (steady_call stays rfl) fun out =>
      Keeps.bind (steady_newHandle out true) fun h =>
      steady_newJSException stays host ih h

theorem steady_toBoolean (h : JSValue) : Steady observe (toBoolean engine host h) := by
  refine Keeps.bind (steady_ptr h) fun value => ?_
  split
  · exact Keeps.pure _
  · exact Keeps.bind (steady_type stays (steady_getException stays host) h) fun _ => Keeps.throw _

theorem steady_toNumber (h : JSValue) : Steady observe (toNumber engine host h) := by
  refine Keeps.bind (steady_ptr h) fun value => ?_
  split
  · exact Keeps.pure _
  · exact Keeps.pure _
  · exact Keeps.bind (steady_type stays (steady_getException stays host) h) fun _ => Keeps.throw _

theorem steady_valueLength (h : JSValue) : Steady observe (valueLength engine host h) :=
  Keeps.bind (steady_getProp stays (steady_getException stays host) h _) fun length =>
    steady_using stays (steady_toNumber stays host length) length

theorem steady_toError (h : JSValue) : Steady observe (toError engine host h) := by
  have excepts := steady_getException stays host
  refine Keeps.bind (steady_type stays excepts h) fun found => Keeps.ite (Keeps.throw _) ?_
  refine Keeps.bind (steady_errorProperty stays host excepts h _) fun _ => ?_
  refine Keeps.bind (steady_errorProperty stays host excepts h _) fun _ => ?_
  exact Keeps.bind (steady_errorProperty stays host excepts h _) fun _ => Keeps.pure _

end QuickJSBun.Context
