import QuickJSBun.Context.Convert

/-! What native code calls back: host functions, module loaders and normalizers, the
initialisers of C modules, finalizers of classes and the tracker of rejections. Each
runs host code and must come back to C, whatever that code throws.
-/

set_option autoImplicit false

namespace QuickJSBun.Context

open Library

variable {σ V : Type} (engine : Engine σ) (host : Host V σ)

/-- `#borrow`: a handle with a reference of its own, for host code. -/
def borrow (value : Value) : Run σ V JSValue := do
  let cell ← if value.tag < 0 then call engine (.dupValue value) else pure value
  .lift fun w =>
    (w.handles.length, { w with handles := w.handles ++ [⟨false, cell, true, true, false⟩] })

def borrowAll : List Value → Run σ V (List JSValue)
  | [] => pure []
  | value :: rest => do
    let handle ← borrow engine value
    let handles ← borrowAll rest
    pure (handle :: handles)

def enterHost : Run σ V Unit := .modify fun w => { w with hostDepth := w.hostDepth + 1 }
def leaveHost : Run σ V Unit := .modify fun w => { w with hostDepth := w.hostDepth - 1 }

/-! ### Host functions -/

/-- `result instanceof JSValue ? result : context.newValue(result)`, checked by `assertSameVM`. -/
def resultHandle (result : HostValue V) : Run σ V JSValue :=
  match result with
  | .handle h => pure h
  | result => do
    let isHandle ← instanceOf host result .jsValue
    if isHandle then .throw (assertionError "JSValue belongs to another VM")
      else newValue engine host result

def returnResult (result : HostValue V) : Run σ V Value := do
  let handle ← resultHandle engine host result
  assertSameVM handle
  let value ← ptr handle
  let out : Value ← call engine (.dupValue value)
  dispose engine handle
  pure out

/-- `error instanceof JSException ? error.value : error` -/
def thrownValue (error : HostValue V) : Run σ V (HostValue V) := do
  let isException ← instanceOf host error .jsException
  if isException then
    match error with
    | .exception value _ _ => pure (.handle value)
    | error => host.ask (.getKey error (text "value"))
  else pure error

/-- `error instanceof Error ? error : new Error(String(error))` -/
def asError (error : HostValue V) : Run σ V (HostValue V) := do
  let isError ← instanceOf host error .error
  if isError then pure error
  else do
    let message ← stringOf engine host error
    pure (.error (text "Error") message)

/-- A handle of this context is thrown itself, anything else as a new error. -/
def thrownHandle (error value : HostValue V) : Run σ V JSValue := do
  let w ← .get
  match value with
  | .handle h =>
    if (w.handle h).foreign then newError engine host (← asError engine host error) else pure h
  | _ => newError engine host (← asError engine host error)

def throwResult (error : HostValue V) : Run σ V Value := do
  let value ← thrownValue host error
  let thrown ← thrownHandle engine host error value
  let cell ← ptr thrown
  let _ : Unit ← call engine (.throw cell)
  dispose engine thrown
  pure .exception

/-- `if (failure instanceof JSException) failure.dispose()` -/
def disposeFailure (failure : HostValue V) : Run σ V Unit := do
  let isException ← instanceOf host failure .jsException
  if isException then
    match failure with
    | .exception value _ _ => dispose engine value
    | failure => host.ask (.dispose failure)
  else pure ()

def throwFallback (failure : HostValue V) : Run σ V Value := do
  disposeFailure engine host failure
  let w ← .get
  if w.disposed then
    let _ : Unit ← call engine (.throwError 4 (encode (text "QuickJS context is disposed")))
    pure .exception
  else
    let _ : Unit ← call engine .throwOutOfMemory
    pure .exception

/-- `#callHost` for a call, with the handles it borrowed: first `this`, then the arguments.
Borrowing cannot throw, so it stands before the `try` here. -/
def callHost (fn : JSValue → List JSValue → Run σ V (HostValue V)) (thisValue : Value)
    (args : List Value) : Run σ V (Value × List JSValue) := do
  let this ← borrow engine thisValue
  enterHost
  let argv ← borrowAll engine args
  let out ← .tryFinally
    (.tryCatch
      (do
        let result ← fn this argv
        returnResult engine host result)
      fun error => .tryCatch (throwResult engine host error) (throwFallback engine host))
    (do
      leaveHost
      dispose engine this
      .forEach (dispose engine) argv)
  pure (out, this :: argv)

/-- `#callHost` when the context or the host function is not there any more. -/
def callMissing : Run σ V Value := do
  let _ : Unit ← call engine (.throwError 4 (encode (text "QuickJS host function is unavailable")))
  pure .exception

/-! ### The other callbacks -/

-- A template literal with one value.
def templateText (value : HostValue V) : Run σ V Text :=
  match value with
  | .symbol => .throw (typeError "Cannot convert a symbol to a string")
  | value => stringOf engine host value

/-- The message of what a loader, a normalizer or an initialiser threw. -/
def thrownText (error : HostValue V) : Run σ V Text := do
  let isError ← instanceOf host error .error
  if isError then do
    let message ← messageOf host error
    templateText engine host message
  else stringOf engine host error

-- The bytes of a C string: the text up to its first NUL.
def throwText (kind : Nat) (message : Text) : Run σ V Unit :=
  call engine (.throwError kind ((encode message).takeWhile (· != 0)))

def failWith {α : Type} (failure : α) (error : HostValue V) : Run σ V α := do
  let message ← thrownText engine host error
  throwText engine 4 message
  pure failure

def cstring (value : HostValue V) : Run σ V Bytes :=
  match value with
  | .string s =>
    if s.contains 0 then .throw (assertionError "string must not contain a NUL character")
      else pure (encode s)
  | value => host.ask (.bytes value)

/-- What a loader returned becomes a module; `none` is NULL. -/
def loadSource (name : Text) (source : HostValue V) : Run σ V (Option Nat) :=
  match source with
  | .undefined | .null => do
    throwText engine 2 (text "Could not load module '" ++ name ++ text "'")
    pure none
  | source => do
    let isModule ← instanceOf host source .jsModule
    if isModule then do
      let (own, pointer) : Bool × Nat ← host.ask (.module source)
      .check own (assertionError "QuickJS module belongs to another context")
      pure (some pointer)
    else do
      let code : Bytes ← match source with
        | .string s => pure (encode s)
        | source => host.ask (.bytes source)
      let name ← cstring host (.string name)
      call engine (.compileModule code name)

/-- `#loadModule`. `registered`: whether the context is; `loader`: none if it has been taken
away. -/
def loadModule (registered : Bool) (loader : Option (Text → JSValue → Run σ V (HostValue V)))
    (name : Text) (attributes : Value) : Run σ V (Option Nat × List JSValue) := do
  enterHost
  if !registered then do
    let module ← .tryFinally
      (failWith engine host none (assertionError "QuickJS module context is not registered"))
        leaveHost
    pure (module, [])
  else do
    let imported ← borrow engine attributes
    let module ← .tryFinally
      (.tryCatch
        (do
          let source ← match loader with
            | some loader => loader name imported
            | none => pure .undefined
          loadSource engine host name source)
        (failWith engine host none))
      (do
        dispose engine imported
        leaveHost)
    pure (module, [imported])

def normalizeModule (registered : Bool) (normalizer : Text → Text → Run σ V (HostValue V))
    (base name : Text) : Run σ V (Option Nat) := do
  enterHost
  .tryFinally
    (.tryCatch
      (do
        .check registered (assertionError "QuickJS module context is not registered")
        let answer ← normalizer base name
        let resolved ← cstring host answer
        let buffer : Option Nat ← call engine (.malloc (resolved.length + 1))
        .check buffer.isSome (assertionError "QuickJS could not allocate the module name")
        pure buffer)
      (failWith engine host none))
    leaveHost

/-- The initialiser of a module that `newCModule` made. -/
def initModule (init : Run σ V Unit) : Run σ V Int := do
  enterHost
  .tryFinally
    (.tryCatch
      (do
        init
        pure 0)
      (failWith engine host (-1)))
    leaveHost

/-- The finalizer of a class of `registerClass`. -/
def finalizeClass (callback : Run σ V Unit) : Run σ V Unit := do
  enterHost
  .tryFinally (.tryCatch callback fun _ => pure ()) leaveHost

def trackRejection (registered : Bool) (tracker : Option (JSValue → JSValue → Run σ V Unit))
    (promise reason : Value) : Run σ V (List JSValue) :=
  if !registered then pure []
  else do
    let promise ← borrow engine promise
    let reason ← borrow engine reason
    enterHost
    .tryFinally
      (.tryCatch
        (match tracker with
          | some tracker => tracker promise reason
          | none => pure ())
        fun _ => pure ())
      (do
        leaveHost
        dispose engine promise
        dispose engine reason)
    pure [promise, reason]

end QuickJSBun.Context
