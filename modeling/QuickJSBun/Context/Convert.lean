import QuickJSBun.Context.World
import QuickJSBun.Library.Decimal

/-! How values pass between host and guest: atoms, strings, errors, exceptions, and
`newValue` with its two ways, the JSON text and the walk over the host value. What a
foreign host object answers is asked of the host, which may run any code to answer.
-/

set_option autoImplicit false

namespace QuickJSBun.Context

open Library

inductive HostClass where
  | jsValue
  | error
  | promise
  | jsException
  | jsModule
  deriving DecidableEq, Repr

inductive Prototype where
  | objectPrototype
  | null
  | other
  deriving DecidableEq, Repr

inductive Descriptor (V : Type) where
  | data (value : HostValue V)
  | accessor

/-- What the library reads of a host object, through operators and built-in functions of the
host. -/
inductive HostOp (V : Type) where
  | instanceOf (value : HostValue V) (constructor : HostClass)
  | isArray (value : HostValue V)
  | getPrototypeOf (value : HostValue V)
  | keys (value : HostValue V)
  /-- `Object.entries(value)` -/
  | entries (value : HostValue V)
  | getOwnPropertyDescriptor (value : HostValue V) (key : Text)
  | length (value : HostValue V)
  | getIndex (value : HostValue V) (index : Nat)
  | getKey (value : HostValue V) (key : Text)
  /-- The items that `for of` gives. -/
  | iterate (value : HostValue V)
  /-- The value to serialise: what a callable `toJSON` returns, or the value itself. -/
  | toJSON (value : HostValue V) (key : Text)
  /-- The primitive in a `Number`, `String`, `Boolean` or `BigInt` object, or the object itself. -/
  | unbox (value : HostValue V)
  | toString (value : HostValue V)
  /-- `value.dispose()` -/
  | dispose (value : HostValue V)
  /-- Whether a `JSModule` belongs to the context, and its pointer. -/
  | module (value : HostValue V)
  /-- The bytes of a buffer or a view. -/
  | bytes (value : HostValue V)

abbrev HostOp.Reply (V : Type) : HostOp V → Type
  | .instanceOf _ _ | .isArray _ => Bool
  | .getPrototypeOf _ => Prototype
  | .keys _ => List Text
  | .entries _ => List (Text × HostValue V)
  | .getOwnPropertyDescriptor _ _ => Option (Descriptor V)
  | .length _ => Nat
  | .iterate _ => List (HostValue V)
  | .toString _ => Text
  | .dispose _ => Unit
  | .module _ => Bool × Nat
  | .bytes _ => Bytes
  | _ => HostValue V

structure Host (V σ : Type) where
  callable : V → Bool
  numeral : Number → Text
  ask : (op : HostOp V) → Run σ V (op.Reply V)

/-- No host recurses or counts that far; what reaches it is not said to return. -/
def unbounded : Nat := 2 ^ 53

variable {σ V : Type} (engine : Engine σ) (host : Host V σ)

def HostValue.isObject : HostValue V → Bool
  | .handle _ | .exception _ _ _ | .error _ _ | .other _ => true
  | _ => false

def Host.isCallable (value : HostValue V) : Bool :=
  match value with
  | .other v => host.callable v
  | _ => false

def instanceOf (value : HostValue V) (constructor : HostClass) : Run σ V Bool :=
  match value with
  | .handle _ => pure (constructor == .jsValue)
  | .exception _ _ _ => pure (constructor == .error || constructor == .jsException)
  | .error _ _ => pure (constructor == .error)
  | .other v => host.ask (.instanceOf (.other v) constructor)
  | _ => pure false

/-! ### Strings and atoms -/

section
variable (getException : Run σ V (HostValue V))

def parseJson (source : Text) : Run σ V JSValue := do
  let out : Value ← call engine (.parseJson (encode source))
  resultValue getException out

def newString (value : Text) : Run σ V JSValue :=
  if !isWellFormed value then parseJson engine getException (quote value)
  else do
    let out : Value ← call engine (.newStringLen (encode value))
    resultValue getException out

/-- The atom of a text that cannot be encoded goes through a string value. -/
def newAtom (value : Text) : Run σ V Nat := do
  let text ← newString engine getException value
  .tryFinally
    (do
      let value ← ptr text
      let atom : Nat ← call engine (.valueToAtom value)
      if atom = 0 then throwException getException else pure atom)
    (dispose engine text)

def evictAtoms : Run σ V Unit := do
  let w ← .get
  if decide (4096 ≤ w.atoms.length) && w.hostDepth == 0 then
    .forEach (fun entry => call engine (.freeAtom entry.2)) w.atoms
    .modify fun w => { w with atoms := [] }
  else pure ()

def internAtom (key : Text) : Run σ V Nat :=
  if isWellFormed key then call engine (.newAtomLen (encode key))
    else newAtom engine getException key

def atom (key : Text) : Run σ V Nat := do
  let w ← .get
  match w.atoms.find? (·.1 == key) with
  | some entry => pure entry.2
  | none => do
    evictAtoms engine
    let atom ← internAtom engine getException key
    if atom = 0 then throwException getException
    else
      .modify fun w => { w with atoms := (key, atom) :: w.atoms }
      pure atom

def getProp (object : JSValue) (key : Text) : Run σ V JSValue := do
  let value ← ptr object
  let atom ← atom engine getException key
  let out : Value ← call engine (.getProperty value atom)
  resultValue getException out

def getDataProp (object : JSValue) (key : Text) : Run σ V JSValue := do
  let value ← ptr object
  let atom ← atom engine getException key
  let out : Value ← call engine (.getDataProperty value atom)
  resultValue getException out

def getIndex (object : JSValue) (index : Nat) : Run σ V JSValue := do
  let value ← ptr object
  let out : Value ← call engine (.getPropertyUint32 value index)
  resultValue getException out

def defineProp (object : JSValue) (key : Text) (item : JSValue) : Run σ V Unit := do
  assertSameVM item
  let value ← ptr object
  let atom ← atom engine getException key
  let item ← ptr item
  let ok : Int ← call engine (.definePropertyValue value atom item)
  if ok < 0 then throwException getException else pure ()

def defineIndex (object : JSValue) (index : Nat) (item : JSValue) : Run σ V Unit := do
  assertSameVM item
  let value ← ptr object
  let item ← ptr item
  let ok : Int ← call engine (.definePropertyValueUint32 value index item)
  if ok < 0 then throwException getException else pure ()

/-! ### Exceptions -/

def JSValueType.name : JSValueType → String
  | .undefined => "undefined"
  | .null => "null"
  | .boolean => "boolean"
  | .number => "number"
  | .bigint => "bigint"
  | .string => "string"
  | .symbol => "symbol"
  | .object => "object"
  | .function => "function"
  | .array => "array"
  | .error => "error"

def toBigInt (h : JSValue) : Run σ V Int := do
  let value ← ptr h
  if value.tag ≠ -9 ∧ value.tag ≠ 7 then do
    let type ← type engine getException h
    .throw (typeError ("Cannot convert QuickJS " ++ type.name ++ " to bigint"))
  else do
    let (status, low, high) : Int × Nat × Nat ← call engine (.toBigInt128 value)
    if status < 0 then throwException getException
    else if status = 0 then
      -- `BigInt.asIntN(128, (high << 64n) | low)`
      let bits : Nat := high % 2 ^ 64 * 2 ^ 64 + low % 2 ^ 64
      pure (if bits < 2 ^ 127 then bits else bits - 2 ^ 128)
    else do
      let digits ← readText engine getException h
      match readDecimal digits with
      | some value => pure value
      | none => .throw (.error (text "SyntaxError") (text "Failed to parse String to BigInt"))

def valueToString (h : JSValue) : Run σ V Text := do
  let value ← ptr h
  if value.tag = -7 ∨ value.tag = -6 then readText engine getException h
  else do
    let type ← type engine getException h
    .throw (typeError ("Cannot convert QuickJS " ++ type.name ++ " to string"))

/-- `#primitive`; `none` is undefined. -/
def primitive (h : JSValue) : Run σ V (Option Text) := do
  let value ← ptr h
  match value with
  | .undefined => pure (some (text "undefined"))
  | .null => pure (some (text "null"))
  | .bool b => pure (some (text (if b then "true" else "false")))
  | .int i => pure (some (host.numeral (.int i)))
  | .float64 n => pure (some (host.numeral n))
  | .shortBigInt _ | .heap .bigInt _ => do
    let value ← toBigInt engine getException h
    pure (some (decimal value))
  | .heap .string _ | .heap .stringRope _ => do
    let value ← readText engine getException h
    pure (some value)
  | _ => pure none

def errorProperty (h : JSValue) (name : String) : Run σ V (Option Text) := do
  let value ← getDataProp engine getException h (text name)
  .tryFinally
    (do
      let cell ← ptr value
      if cell = .undefined then pure none else primitive engine host getException value)
    (dispose engine value)

def thrownMessage (h : JSValue) : Run σ V Text := do
  let type ← type engine getException h
  match type with
  | .error => do
    let message ← errorProperty engine host getException h "message"
    pure (message.getD (text "Error"))
  | .symbol => pure (text "QuickJS symbol was thrown")
  | .function => pure (text "QuickJS function was thrown")
  | .array => pure (text "QuickJS array was thrown")
  | .object => pure (text "QuickJS object was thrown")
  | _ => do
    let message ← primitive engine host getException h
    -- `super(undefined)` leaves the message empty
    pure (message.getD [])

/-- What the constructor of `JSException` reads. -/
def describe (h : JSValue) : Run σ V (HostValue V) := do
  let type ← type engine getException h
  if type = .error then do
    let name ← errorProperty engine host getException h "name"
    let message ← errorProperty engine host getException h "message"
    let _ ← errorProperty engine host getException h "stack"
    pure (.exception h (name.getD (text "Error")) (message.getD (text "Error")))
  else do
    let message ← thrownMessage engine host getException h
    pure (.exception h (text "JSException") message)

/-- `new JSException(value)`. Nobody disposes the value of one that could not be constructed. -/
def newJSException (h : JSValue) : Run σ V (HostValue V) :=
  .tryCatch (describe engine host getException h) fun error => do
    .modify fun w => { w with undescribed := h :: w.undescribed }
    .throw error

end

/-- `getException`, as deep as the host's stack lets it call itself. -/
def getExceptionWithin : Nat → Run σ V (HostValue V)
  | 0 => .throw (rangeError "Maximum call stack size exceeded.")
  | stack + 1 => do
    let out : Value ← call engine .getException
    let value ← newHandle out true
    newJSException engine host (getExceptionWithin stack) value

def getException : Run σ V (HostValue V) := getExceptionWithin engine host unbounded

/-! ### Errors -/

/-- `Error.prototype.toString` -/
def errorText (name message : Text) : Text :=
  if message = [] then name else if name = [] then message else name ++ text ": " ++ message

/-- `String(value)` -/
def stringOf (value : HostValue V) : Run σ V Text :=
  match value with
  | .undefined => pure (text "undefined")
  | .null => pure (text "null")
  | .boolean b => pure (text (if b then "true" else "false"))
  | .number n => pure (host.numeral n)
  | .string s => pure s
  | .bigint i => pure (decimal i)
  | .symbol => host.ask (.toString .symbol)
  | .handle h => valueToString engine (getException engine host) h
  | .exception _ name message => pure (errorText name message)
  | .error name message => pure (errorText name message)
  | .other v => host.ask (.toString (.other v))

def nameOf (error : HostValue V) : Run σ V (HostValue V) :=
  match error with
  | .exception _ name _ => pure (.string name)
  | .error name _ => pure (.string name)
  | error => host.ask (.getKey error (text "name"))

def messageOf (error : HostValue V) : Run σ V (HostValue V) :=
  match error with
  | .exception _ _ message => pure (.string message)
  | .error _ message => pure (.string message)
  | error => host.ask (.getKey error (text "message"))

/-- A value of `body` under `using`. -/
def withValue {α : Type} (value : JSValue) (body : Run σ V α) : Run σ V α :=
  .tryFinally body (dispose engine value)

-- A handle that is disposed only if the body throws.
def orDispose {α : Type} (value : JSValue) (body : Run σ V α) : Run σ V α :=
  .tryCatch body fun error => do
    dispose engine value
    .throw error

def nameError (error : HostValue V) (handle : JSValue) : Run σ V Unit := do
  let nameText ← stringOf engine host (← nameOf host error)
  let name ← newString engine (getException engine host) nameText
  withValue engine name do
    let messageText ← stringOf engine host (← messageOf host error)
    let message ← newString engine (getException engine host) messageText
    withValue engine message do
      defineProp engine (getException engine host) handle (text "name") name
      defineProp engine (getException engine host) handle (text "message") message

def newError (error : HostValue V) : Run σ V JSValue := do
  let out : Value ← call engine .newError
  let handle ← resultValue (getException engine host) out
  orDispose engine handle do
    nameError engine host error handle
    pure handle

/-! ### `newValue` -/

def dup (h : JSValue) : Run σ V JSValue := do
  let value ← ptr h
  if value.tag < 0 then do
    let cell : Value ← call engine (.dupValue value)
    newHandle cell true
  else newHandle value true

def newNumber (value : Number) : Run σ V JSValue :=
  match value with
  | .int i => newHandle (.int i) false
  | .double bits => newHandle (.float64 (.double bits)) false

def bigIntCell (value : Int) : Run σ V Value :=
  if -2 ^ 63 ≤ value ∧ value ≤ 2 ^ 63 - 1 then call engine (.newBigInt64 value)
  else if -2 ^ 127 ≤ value ∧ value ≤ 2 ^ 127 - 1 then
    call engine (.newBigInt128 (value % 2 ^ 64).toNat (value / 2 ^ 64 % 2 ^ 64).toNat)
  else call engine (.newBigIntString (encode (decimal value)))

def newBigInt (value : Int) : Run σ V JSValue := do
  let out ← bigIntCell engine value
  resultValue (getException engine host) out

/-- `for (const item of items) if (!test(item)) return false; return true;` -/
def allOf {β : Type} (test : β → Run σ V Bool) : List β → Run σ V Bool
  | [] => pure true
  | item :: rest => do
    let accepted ← test item
    if accepted then allOf test rest else pure false

/-- What `isJson` answers before it looks into an object. -/
def isJsonLeaf (value : HostValue V) : Option Bool :=
  match value with
  | .null | .string _ | .boolean _ => some true
  | .number n => some (n.isFinite && !n.isNegativeZero)
  | value => if !value.isObject || host.isCallable value then some false else none

/-- `isJson` at a depth from which it may still go `levels` deeper. -/
def isJsonWithin : Nat → HostValue V → Run σ V Bool
  | 0, value => pure ((isJsonLeaf host value).getD false)
  | levels + 1, value =>
    match isJsonLeaf host value with
    | some answer => pure answer
    | none => do
      let isArray : Bool ← host.ask (.isArray value)
      if isArray then do
        let keys : List Text ← host.ask (.keys value)
        let length : Nat ← host.ask (.length value)
        if keys.length ≠ length then pure false
        else do
          let items : List (HostValue V) ← host.ask (.iterate value)
          allOf (isJsonWithin levels) items
      else do
        let prototype : Prototype ← host.ask (.getPrototypeOf value)
        if prototype = .other then pure false
        else do
          let keys : List Text ← host.ask (.keys value)
          allOf (fun key => do
            let descriptor : Option (Descriptor V) ← host.ask (.getOwnPropertyDescriptor value key)
            match descriptor with
            | none => .throw (typeError "descriptor is not an Object")
            | some .accessor => pure false
            | some (.data item) => isJsonWithin levels item) keys

def isJson (value : HostValue V) : Run σ V Bool := isJsonWithin host 1024 value

/-- The elements of an array, those that cannot be written as null. -/
def serializeItems (serialize : Text → HostValue V → Run σ V (Option Text)) (value : HostValue V) :
    Nat → Nat → Run σ V (List Text)
  | 0, _ => pure []
  | count + 1, index => do
    let item : HostValue V ← host.ask (.getIndex value index)
    let written ← serialize (digits index) item
    let rest ← serializeItems serialize value count (index + 1)
    pure (written.getD (text "null") :: rest)

/-- The members of an object without those that cannot be written. -/
def serializeMembers (serialize : Text → HostValue V → Run σ V (Option Text))
    (value : HostValue V) : List Text → Run σ V (List Text)
  | [] => pure []
  | key :: keys => do
    let item : HostValue V ← host.ask (.getKey value key)
    let written ← serialize key item
    let rest ← serializeMembers serialize value keys
    match written with
    | some written => pure ((quote key ++ unit ':' :: written) :: rest)
    | none => pure rest

/-- The value that is serialised in place of another, before boxed primitives are taken out. -/
def replaceJSON (key : Text) (value : HostValue V) : Run σ V (HostValue V) :=
  match value with
  | .bigint i => host.ask (.toJSON (.bigint i) key)
  | value => if value.isObject then host.ask (.toJSON value key) else pure value

def unboxJSON (value : HostValue V) : Run σ V (HostValue V) :=
  if value.isObject then host.ask (.unbox value) else pure value

/-- `SerializeJSONProperty`; `none` is undefined. -/
def serialize : Nat → Text → HostValue V → Run σ V (Option Text)
  | 0, _, _ => .throw (rangeError "Maximum call stack size exceeded.")
  | stack + 1, key, value => do
    let replaced ← replaceJSON host key value
    let value ← unboxJSON host replaced
    match value with
    | .null => pure (some (text "null"))
    | .boolean b => pure (some (text (if b then "true" else "false")))
    | .string s => pure (some (quote s))
    | .number n => pure (some (if n.isFinite then host.numeral n else text "null"))
    | .bigint _ => .throw (typeError "JSON.stringify cannot serialize BigInt.")
    | .undefined | .symbol => pure none
    | value =>
      if host.isCallable value then pure none
      else do
        let isArray : Bool ← host.ask (.isArray value)
        if isArray then do
          let length : Nat ← host.ask (.length value)
          let items ← serializeItems host (serialize stack) value length 0
          pure (some (listText (unit '[') (unit ']') items))
        else do
          let keys : List Text ← host.ask (.keys value)
          let members ← serializeMembers host (serialize stack) value keys
          pure (some (listText (unit '{') (unit '}') members))

/-- `JSON.stringify(value)` -/
def stringify (value : HostValue V) : Run σ V (Option Text) := serialize host unbounded [] value

/-- The loop of `#newValue` over an array, whose length is read again in every round. -/
def defineItems (convert : HostValue V → Run σ V JSValue) (value : HostValue V) (array : JSValue) :
    Nat → Nat → Run σ V Unit
  | 0, _ => .throw (rangeError "Out of memory")
  | rounds + 1, index => do
    let length : Nat ← host.ask (.length value)
    if index < length then do
      let element : HostValue V ← host.ask (.getIndex value index)
      let item ← convert element
      withValue engine item (defineIndex engine (getException engine host) array index item)
      defineItems convert value array rounds (index + 1)
    else pure ()

def defineMembers (convert : HostValue V → Run σ V JSValue) (value : HostValue V)
    (object : JSValue) : List Text → Run σ V Unit :=
  .forEach fun key => do
    let descriptor : Option (Descriptor V) ← host.ask (.getOwnPropertyDescriptor value key)
    match descriptor with
    | some (.data member) => do
      let item ← convert member
      withValue engine item (defineProp engine (getException engine host) object key item)
    | _ => .throw (assertionError "Only data properties can be converted to QuickJS")

def typeofName : HostValue V → String
  | .symbol => "symbol"
  | _ => "function"

/-- What `#newValue` does with an array or a plain object. -/
def newContainer (convert : HostValue V → Run σ V JSValue) (value : HostValue V) :
    Run σ V JSValue := do
  let isArray : Bool ← host.ask (.isArray value)
  if isArray then do
    let out : Value ← call engine .newArray
    let array ← resultValue (getException engine host) out
    orDispose engine array do
      defineItems engine host convert value array unbounded 0
      pure array
  else do
    let prototype : Prototype ← host.ask (.getPrototypeOf value)
    .check (prototype != .other) (assertionError "Only plain objects can be converted to QuickJS")
    let out : Value ← call engine .newObject
    let object ← resultValue (getException engine host) out
    orDispose engine object do
      let keys : List Text ← host.ask (.keys value)
      defineMembers engine host convert value object keys
      pure object

/-- `#newValue` around what it does with an array or a plain object. -/
def newValueAround (container : HostValue V → Run σ V JSValue) (value : HostValue V) :
    Run σ V JSValue := do
  let isHandle ← instanceOf host value .jsValue
  if isHandle then
    match value with
    | .handle h => do
      assertSameVM h
      dup engine h
    | _ => .throw (assertionError "JSValue belongs to another VM")
  else
    match value with
    | .undefined => pure undefinedHandle
    | .null => pure nullHandle
    | .boolean b => pure (if b then trueHandle else falseHandle)
    | .number n => newNumber n
    | .string s => newString engine (getException engine host) s
    | .bigint i => newBigInt engine host i
    | value => do
      let isError ← instanceOf host value .error
      if isError then newError engine host value
      else do
        let isPromise ← instanceOf host value .promise
        if isPromise then .throw (typeError "Convert host promises explicitly with newPromise()")
        else if !value.isObject || host.isCallable value then
          .throw (typeError ("Cannot convert host " ++ typeofName value ++ " to QuickJS"))
        else container value

/-- `#newValue` at a depth from which it may still go `levels` deeper. -/
def newValueWithin : Nat → HostValue V → Run σ V JSValue
  | 0, value =>
    newValueAround engine host
      (fun _ => .throw (assertionError "Cannot convert host value nested deeper than 1024")) value
  | levels + 1, value =>
    newValueAround engine host (newContainer engine host (newValueWithin levels)) value

/-- Whether `newValue` goes through a JSON text. -/
def takesJson (value : HostValue V) : Run σ V Bool :=
  if !value.isObject || host.isCallable value then pure false
  else do
    let isHandle ← instanceOf host value .jsValue
    if isHandle then pure false else isJson host value

def newValue (value : HostValue V) : Run σ V JSValue := do
  let fast ← takesJson host value
  if fast then do
    let written ← stringify host value
    parseJson engine (getException engine host) (written.getD (text "undefined"))
  else newValueWithin engine host 1024 value

end QuickJSBun.Context
