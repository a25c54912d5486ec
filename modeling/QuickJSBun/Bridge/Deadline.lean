import QuickJSBun.Library.Nesting

/-! The deadline of a runtime as the C bridge keeps it: one mutable field that
every entry point saves, lowers and puts back. The functions below follow
`quickjs_bridge.c` and `JSContext.dump`; the engine call each of them wraps is a
parameter, because the guest code it runs may call the host back.

Times are elements of any linear order with a top element, which stands for
`INFINITY`; addition is left to the clock, so rounding of doubles is covered.
-/

set_option autoImplicit false

namespace QuickJSBun.Bridge

open Library.Nesting

/-- `JS_TAG_EXCEPTION`, the tag of the marker a failed engine call returns. -/
def tagException : Int := 6

/-- The successive readings of the monotonic clock and the sum `now + timeout_ms`. -/
structure Clock (T : Type) [LinearOrder T] where
  now : Nat → T
  monotone : Monotone now
  after : T → T → T

/-- What an observer sees at one moment: the deadline and the own deadlines of the open scopes. -/
structure Moment (T : Type) where
  deadlineMs : T
  opened : List T

/-- `QJSBunRuntime` as far as time is concerned, with a record of the run. Only `deadlineMs` belongs
to the source; `opened` lists the scopes entered and not yet left, by number, and `moments` has one
entry for each change of either. -/
structure Runtime (T : Type) where
  deadlineMs : T
  clockReads : Nat
  scopes : Nat
  opened : List (Nat × T)
  moments : List (Moment T)

structure Scope (T : Type) where
  number : Nat
  savedMs : T
  ownMs : T

variable {T : Type} [LinearOrder T]

def Runtime.init [OrderTop T] : Runtime T := ⟨⊤, 0, 0, [], []⟩

def Runtime.observe (rt : Runtime T) : Runtime T :=
  { rt with moments := ⟨rt.deadlineMs, rt.opened.map Prod.snd⟩ :: rt.moments }

def Runtime.enter (rt : Runtime T) (ownMs : T) : Runtime T :=
  { rt with scopes := rt.scopes + 1, opened := (rt.scopes, ownMs) :: rt.opened }.observe

/-- `state->deadline_ms = saved_ms`, which ends the scope. -/
def Runtime.leave (rt : Runtime T) (scope : Scope T) : Runtime T :=
  { rt with
    deadlineMs := scope.savedMs
    opened := rt.opened.eraseP (fun entry => entry.1 == scope.number) }.observe

/-! ### The bridge's own functions -/

def qjsBunNowMs (clock : Clock T) (rt : Runtime T) : T × Runtime T :=
  (clock.now rt.clockReads, { rt with clockReads := rt.clockReads + 1 })

def qjsBunEnter (clock : Clock T) (timeoutMs : T) (rt : Runtime T) : Scope T × Runtime T :=
  let savedMs := rt.deadlineMs
  let (now, rt) := qjsBunNowMs clock rt
  let ownMs := clock.after now timeoutMs
  let rt := { rt with deadlineMs := if ownMs < savedMs then ownMs else savedMs }
  (⟨rt.scopes, savedMs, ownMs⟩, rt.enter ownMs)

/-- `raise` is `qjs_bun_throw_timeout`: making the error may collect garbage and so run
finalizers. -/
def qjsBunLeave (clock : Clock T) (raise : Runtime T → Runtime T) (scope : Scope T) (failed : Bool)
    (rt : Runtime T) : Bool × Runtime T :=
  let rt := rt.leave scope
  if !failed then (false, rt)
  else
    let (now, rt) := qjsBunNowMs clock rt
    if now < scope.ownMs then (false, rt) else (true, raise rt)

def qjsBunEnterScope (clock : Clock T) (timeoutMs : T) (rt : Runtime T) : Scope T × Runtime T :=
  qjsBunEnter clock timeoutMs rt

def qjsBunLeaveScope (clock : Clock T) (scope : Scope T) (rt : Runtime T) : Bool × Runtime T :=
  let rt := rt.leave scope
  let (now, rt) := qjsBunNowMs clock rt
  (decide (scope.ownMs ≤ now), rt)

/-- The shape shared by the bracketed entry points: enter, run the engine, leave. -/
def bracket (clock : Clock T) (timeoutMs : T) (engine : Runtime T → Runtime T) (failed : Bool)
    (raise : Runtime T → Runtime T) (rt : Runtime T) : Runtime T :=
  let (scope, rt) := qjsBunEnter clock timeoutMs rt
  let rt := engine rt
  (qjsBunLeave clock raise scope failed rt).2

/-! ### Entry points -/

/-- The functions made by `QJS_GUEST_OUT`, which fail by storing the exception marker. -/
inductive GuestOut where
  | loadModule | newTypedArray | jsonStringify | toObject | toPrimitive | toString | toPropertyKey
  | getProperty | getPropertyInternal | getPropertyU32 | getPrototype | getIterator | iteratorNext
  deriving DecidableEq, Repr

/-- The functions made by `QJS_GUEST_RET`, which fail by returning a negative number. -/
inductive GuestRet where
  | setConstructor | toBool | toFloat64 | toInt32 | toInt32Sat | toUint32 | toInt64 | toInt64Ext | toIndex
  | toBigint64 | isInstanceOf | ordinaryIsInstanceOf | setProperty | setPropertyInternal | setPropertyU32
  | setPropertyI64 | hasProperty | deleteProperty | defineProperty | definePropertyValue
  | definePropertyValueU32 | definePropertyGetSet | getOwnProperty | getOwnPropertyNames | setPrototype
  | isExtensible | preventExtensions | iteratorClose
  deriving DecidableEq, Repr

/-- The entry points that take their timeout from the caller. -/
inductive Timed where
  | evalFunction | call | invoke | callConstructor
  deriving DecidableEq, Repr

def qjsGuestOut (clock : Clock T) (_ : GuestOut) (timeoutMs : T) (engine : Runtime T → Runtime T)
    (out : Int) (raise : Runtime T → Runtime T) : Runtime T → Runtime T :=
  bracket clock timeoutMs engine (out == tagException) raise

def qjsGuestRet (clock : Clock T) (_ : GuestRet) (timeoutMs : T) (engine : Runtime T → Runtime T)
    (ret : Int) (raise : Runtime T → Runtime T) : Runtime T → Runtime T :=
  bracket clock timeoutMs engine (decide (ret < 0)) raise

def qjsBunTimed (clock : Clock T) (_ : Timed) (timeoutMs : T) (engine : Runtime T → Runtime T)
    (out : Int) (raise : Runtime T → Runtime T) : Runtime T → Runtime T :=
  bracket clock timeoutMs engine (out == tagException) raise

/-- A module is compiled first, then gets its `import.meta`, and runs last unless it was only
compiled. -/
def qjsBunEval (clock : Clock T) (timeoutMs : T) (isModule compileOnly : Bool)
    (evalInternal : Runtime T → Runtime T) (compiled : Int) (importMeta : Int)
    (evalFunctionInternal : Runtime T → Runtime T) (result : Int) (raise : Runtime T → Runtime T)
    (rt : Runtime T) : Runtime T :=
  let (scope, rt) := qjsBunEnter clock timeoutMs rt
  let rt := evalInternal rt
  let (out, rt) :=
    if isModule && compiled != tagException then
      if importMeta < 0 then (tagException, rt)
      else if !compileOnly then (result, evalFunctionInternal rt)
      else (compiled, rt)
    else (compiled, rt)
  (qjsBunLeave clock raise scope (out == tagException) rt).2

def qjsBunToCstringCopy (clock : Clock T) (timeoutMs : T) (toCString : Runtime T → Runtime T)
    (text : Option Nat) (raise : Runtime T → Runtime T) (rt : Runtime T) : Runtime T :=
  let (scope, rt) := qjsBunEnter clock timeoutMs rt
  let rt := toCString rt
  match text with
  | none => (qjsBunLeave clock raise scope true rt).2
  | some _ => (qjsBunLeave clock raise scope false rt).2

/-- `listed` tells whether the names could be listed; `ret` is the count, the size needed, or -1. -/
def qjsBunOwnKeys (clock : Clock T) (timeoutMs : T) (getOwnPropertyNames : Runtime T → Runtime T)
    (listed : Bool) (copyNames : Runtime T → Runtime T) (ret : Int) (raise : Runtime T → Runtime T)
    (rt : Runtime T) : Runtime T :=
  let (scope, rt) := qjsBunEnter clock timeoutMs rt
  let rt := getOwnPropertyNames rt
  if !listed then (qjsBunLeave clock raise scope true rt).2
  else
    let rt := copyNames rt
    (qjsBunLeave clock raise scope (ret == -1) rt).2

def qjsBunValueToAtom (clock : Clock T) (timeoutMs : T) (valueToAtom : Runtime T → Runtime T)
    (atom : Nat) (raise : Runtime T → Runtime T) : Runtime T → Runtime T :=
  bracket clock timeoutMs valueToAtom (atom == 0) raise

def qjsBunGetDataProperty (clock : Clock T) (timeoutMs : T) (lookup : Runtime T → Runtime T)
    (out : Int) (raise : Runtime T → Runtime T) : Runtime T → Runtime T :=
  bracket clock timeoutMs lookup (out == tagException) raise

/-- Unlike the others this one restores the field itself, and needs a context to report a
timeout. -/
def qjsBunExecutePendingJob (clock : Clock T) (timeoutMs : T)
    (executePendingJob : Runtime T → Runtime T) (ret : Int) (hasContext : Bool)
    (raise : Runtime T → Runtime T) (rt : Runtime T) : Runtime T :=
  let (scope, rt) := qjsBunEnter clock timeoutMs rt
  let rt := executePendingJob rt
  let rt := rt.leave scope
  if decide (ret < 0) && hasContext then
    let (now, rt) := qjsBunNowMs clock rt
    if scope.ownMs ≤ now then raise rt else rt
  else rt

-- What `visit` may end with.
inductive Failure where
  | jsException
  | other
  deriving DecidableEq, Repr

/-- The catch clause of `JSContext.dump`: leave, then replace the error by a timeout when it is
late. -/
def dumpCatch (clock : Clock T) (scope : Scope T) (error : Failure)
    (disposeError timeoutError : Runtime T → Runtime T) (rt : Runtime T) : Runtime T :=
  let (late, rt) := qjsBunLeaveScope clock scope rt
  if !late then rt
  else timeoutError (if error = .jsException then disposeError rt else rt)

/-- `JSContext.dump`. The `left` flag is set on entry to the catch clause and read in the finally
clause. -/
def dump (clock : Clock T) (timeoutMs : T) (visit : Runtime T → Runtime T)
    (failure : Option Failure) (disposeError timeoutError disposeKept : Runtime T → Runtime T)
    (rt : Runtime T) : Runtime T :=
  let (scope, rt) := qjsBunEnterScope clock timeoutMs rt
  let rt := visit rt
  let (left, rt) :=
    match failure with
    | none => (false, rt)
    | some error => (true, dumpCatch clock scope error disposeError timeoutError rt)
  let rt := disposeKept rt
  if !left then (qjsBunLeaveScope clock scope rt).2 else rt

end QuickJSBun.Bridge
