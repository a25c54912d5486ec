import QuickJSBun.Library.Effect
import QuickJSBun.Library.Json
import QuickJSBun.Library.Tally

/-! One context as its host code sees it: cells of the engine with their addresses and
counts, the handles of the host, the natives of the bridge, and what the host can
throw. The engine and foreign host objects are parameters. They may do anything
their interface allows: the native calls run guest code, and guest code calls the host.
-/

set_option autoImplicit false

namespace QuickJSBun.Context

open Library

/-- A double: the integers of 32 bits other than -0 as they are, every other double by its bits. -/
inductive Number where
  | int (value : Int32)
  | double (bits : UInt64)
  deriving DecidableEq, Repr

def Number.isFinite : Number → Bool
  | .int _ => true
  | .double bits => (bits >>> 52) &&& 0x7FF != 0x7FF

def Number.isNegativeZero (number : Number) : Bool := number == .double 0x8000000000000000

inductive HeapTag where
  | bigInt
  | symbol
  | string
  | stringRope
  | module
  | functionBytecode
  | object
  deriving DecidableEq, Repr

/-- What the 16 bytes of a `JSValue` cell hold. The address of a heap cell is looked up in the
world. -/
inductive Value where
  | undefined
  | null
  | bool (value : Bool)
  | int (value : Int32)
  | float64 (value : Number)
  | shortBigInt (value : Int)
  | uninitialized
  | exception
  | heap (tag : HeapTag) (cell : Nat)
  deriving DecidableEq, Repr

def Value.tag : Value → Int
  | .heap .bigInt _ => -9
  | .heap .symbol _ => -8
  | .heap .string _ => -7
  | .heap .stringRope _ => -6
  | .heap .module _ => -3
  | .heap .functionBytecode _ => -2
  | .heap .object _ => -1
  | .int _ => 0
  | .bool _ => 1
  | .null => 2
  | .undefined => 3
  | .uninitialized => 4
  | .exception => 6
  | .shortBigInt _ => 7
  | .float64 _ => 8

-- The heap cell of which a value is one reference.
def Value.cells : Value → List Nat
  | .heap _ cell => [cell]
  | _ => []

/-- A `JSValue` object of the host. `exposed` is not in the source: host code outside the library
has it. -/
structure Handle where
  foreign : Bool
  value : Value
  owned : Bool
  exposed : Bool
  disposed : Bool
  deriving DecidableEq, Repr

/-- `JSValue` objects are numbered in the order of their creation. -/
abbrev JSValue := Nat

/-- `engine` counts the references that the guest and the engine own, `references` all of them;
`scratch` is the size of the scratch buffer. `undescribed` is not in the source: exceptions whose
`JSException` could not be constructed. -/
structure World (σ : Type) where
  disposed : Bool
  cells : List Nat
  references : List Nat
  engine : List Nat
  handles : List Handle
  atoms : List (Text × Nat)
  pending : Value
  inOutOfMemory : Bool
  hostDepth : Nat
  scratch : Nat
  undescribed : List JSValue
  guest : σ
  deriving DecidableEq, Repr

inductive Native where
  | newStringLen (text : Bytes)
  | newBigInt64 (value : Int)
  | newBigInt128 (low high : Nat)
  | newBigIntString (text : Bytes)
  | newObject
  | newArray
  | newError
  | parseJson (source : Bytes)
  | newAtomLen (text : Bytes)
  | freeAtom (atom : Nat)
  | valueToAtom (value : Value)
  | type (value : Value)
  | toCString (value : Value)
  | toBigInt128 (value : Value)
  | ownKeys (object : Value)
  | getProperty (object : Value) (atom : Nat)
  | getPropertyUint32 (object : Value) (index : Nat)
  | getDataProperty (object : Value) (atom : Nat)
  | definePropertyValue (object : Value) (atom : Nat) (value : Value)
  | definePropertyValueUint32 (object : Value) (index : Nat) (value : Value)
  | setModuleExport (module : Nat) (name : Bytes) (value : Value)
  | getException
  | throw (value : Value)
  | throwError (kind : Nat) (message : Bytes)
  | throwOutOfMemory
  | dupValue (value : Value)
  | freeValue (value : Value)
  | enterScope
  | leaveScope
  | timeoutError
  | compileModule (source name : Bytes)
  | malloc (size : Nat)
  deriving DecidableEq, Repr

/-- What a native gives back: a cell, a status, an atom (0 for none), or bytes. -/
abbrev Native.Reply : Native → Type
  | .newAtomLen _ | .valueToAtom _ => Nat
  | .freeAtom _ | .throw _ | .throwError _ _ | .throwOutOfMemory | .freeValue _ | .enterScope =>
    Unit
  | .leaveScope => Bool
  | .type _ | .definePropertyValue _ _ _ | .definePropertyValueUint32 _ _ _
  | .setModuleExport _ _ _ => Int
  | .toCString _ => Option Bytes
  | .toBigInt128 _ => Int × Nat × Nat
  | .ownKeys _ => Option (List Bytes)
  | .compileModule _ _ | .malloc _ => Option Nat
  | _ => Value

structure Engine (σ : Type) where
  call : (native : Native) → World σ → native.Reply × World σ

/-- A host value. Objects that are not the library's own are left to the host. -/
inductive HostValue (V : Type) where
  | undefined
  | null
  | boolean (value : Bool)
  | number (value : Number)
  | string (value : Text)
  | bigint (value : Int)
  | symbol
  | handle (value : JSValue)
  /-- A `JSException`. -/
  | exception (value : JSValue) (name message : Text)
  /-- An error that the library itself has made. -/
  | error (name message : Text)
  | other (value : V)
  deriving DecidableEq, Repr

abbrev Run (σ V α : Type) := Effect (World σ) (HostValue V) α

variable {σ V : Type}

def assertionError (message : String) : HostValue V := .error (text "AssertionError") (text message)
def typeError (message : String) : HostValue V := .error (text "TypeError") (text message)
def rangeError (message : String) : HostValue V := .error (text "RangeError") (text message)

/-- `vm.undefined`, `vm.null`, `vm.true` and `vm.false` are the first handles of a context. -/
def constants : List Handle :=
  [.undefined, .null, .bool true, .bool false].map fun value => ⟨false, value, false, false, false⟩

def undefinedHandle : JSValue := 0
def nullHandle : JSValue := 1
def trueHandle : JSValue := 2
def falseHandle : JSValue := 3

namespace World

def handle (w : World σ) (h : JSValue) : Handle :=
  (w.handles[h]?).getD ⟨false, .undefined, false, false, true⟩

def address (w : World σ) (cell : Nat) : Nat := (w.cells[cell]?).getD 0

def withGuest {τ : Type} (w : World σ) (guest : τ) : World τ := { w with guest }

end World

def newHandle (value : Value) (owned : Bool) : Run σ V JSValue :=
  .lift fun w =>
    (w.handles.length, { w with handles := w.handles ++ [⟨false, value, owned, false, false⟩] })

def ptr (h : JSValue) : Run σ V Value := do
  let w ← .get
  .check (!(w.handle h).disposed) (assertionError "JSValue is disposed")
  pure (w.handle h).value

theorem ptr_alive {w : World σ} {h : JSValue} (alive : (w.handle h).disposed = false) :
    (ptr h : Run σ V Value).run w = (.ok (w.handle h).value, w) := by
  have checks : (Effect.check (!(w.handle h).disposed) (assertionError "JSValue is disposed") :
      Run σ V Unit).run w = (.ok (), w) := by
    rw [alive]
    rfl
  exact (Effect.bind_ok (x := Effect.get) rfl).trans ((Effect.bind_ok checks).trans rfl)

theorem ptr_run {w : World σ} {h : JSValue} {handle : Handle} (held : w.handles[h]? = some handle)
    (alive : handle.disposed = false) : (ptr h : Run σ V Value).run w = (.ok handle.value, w) := by
  have found : w.handle h = handle := by rw [World.handle, held, Option.getD_some]
  have runs : (ptr h : Run σ V Value).run w = _ := ptr_alive (by rwa [found])
  rwa [found] at runs

def assertSameVM (h : JSValue) : Run σ V Unit := do
  let w ← .get
  .check (!(w.handle h).foreign) (assertionError "JSValue belongs to another VM")
  let _ ← ptr h
  pure ()

variable (engine : Engine σ)

def call (native : Native) : Run σ V native.Reply := .lift (engine.call native)

/-- The reference of a heap value is freed once, by the call that marks the handle. -/
def dispose (h : JSValue) : Run σ V Unit := do
  let w ← .get
  let handle := w.handle h
  if !handle.owned || handle.disposed then pure ()
  else
    .modify fun w => { w with handles := w.handles.set h { handle with disposed := true } }
    if handle.value.tag < 0 then call engine (.freeValue handle.value) else pure ()

/-! ### Reading values

`getException` can fail in turn, so everything that throws what is pending takes it as an argument.
-/

section
variable (getException : Run σ V (HostValue V))

def throwException {α : Type} : Run σ V α := do
  let exception ← getException
  .throw exception

def resultValue (cell : Value) : Run σ V JSValue := do
  let value ← newHandle cell true
  if cell = .exception then throwException getException else pure value

inductive JSValueType where
  | undefined
  | null
  | boolean
  | number
  | bigint
  | string
  | symbol
  | object
  | function
  | array
  | error
  deriving DecidableEq, Repr

def types : List JSValueType :=
  [.undefined, .null, .boolean, .number, .bigint, .string, .symbol, .object, .function,
    .array, .error]

def type (h : JSValue) : Run σ V JSValueType := do
  let value ← ptr h
  let code : Int ← call engine (.type value)
  if code = -1 then throwException getException
  else match if 0 ≤ code then types[code.toNat]? else none with
    | some type => pure type
    | none => .throw (typeError ("Unknown QuickJS value tag: " ++ toString value.tag))

/-- `utf8` of value.ts: what `Buffer.toString` gives, unless it replaced something. -/
def utf8Loop : Nat → Bytes → Option Text
  | 0, _ => some []
  | _ + 1, [] => some []
  | n + 1, byte :: rest =>
    let width := if 0xF0 ≤ byte.toNat then 4 else if 0xE0 ≤ byte.toNat then 3
      else if 0xC0 ≤ byte.toNat then 2 else 1
    let lead := if width = 1 then byte.toNat else byte.toNat % 2 ^ (7 - width)
    let code := (rest.take (width - 1)).foldl (fun code tail => code * 64 + tail.toNat % 64) lead
    if 0x10FFFF < code then none
    else (utf8Loop n (rest.drop (width - 1))).map (fromCodePoint code ++ ·)

def utf8 (buffer : Bytes) : Option Text :=
  let decoded := (decodeReplacing buffer).flatMap fromCodePoint
  if decoded.contains 0xFFFD then utf8Loop buffer.length buffer else some decoded

def decode (buffer : Bytes) : Run σ V Text :=
  match utf8 buffer with
  | some decoded => pure decoded
  | none => .throw (rangeError "Invalid code point")

/-- `#text` -/
def readText (h : JSValue) : Run σ V Text := do
  let w ← .get
  let value ← ptr h
  let bytes : Option Bytes ← call engine (.toCString value)
  match bytes with
  | none => throwException getException
  | some bytes =>
    if bytes.length ≤ w.scratch then decode bytes
    else
      .modify fun w => { w with scratch := bytes.length * 2 }
      let bytes : Option Bytes ← call engine (.toCString value)
      match bytes with
      | none => throwException getException
      | some bytes => decode bytes

/-- The keys of an object one after the other, each behind its length in four bytes. -/
def packKeys (keys : List Bytes) : Bytes :=
  keys.flatMap fun key =>
    [.ofNat key.length, .ofNat (key.length / 2 ^ 8), .ofNat (key.length / 2 ^ 16),
      .ofNat (key.length / 2 ^ 24)] ++ key

/-- `qjs_bun_own_keys`: the count and the buffer, or how much the buffer falls short. -/
def ownKeys (capacity : Nat) (object : Value) : Run σ V (Int × Bytes) := do
  let names : Option (List Bytes) ← call engine (.ownKeys object)
  match names with
  | none => pure (-1, [])
  | some names =>
    let buffer := packKeys names
    if buffer.length ≤ capacity then pure (names.length, buffer) else pure (-buffer.length, [])

def readUInt32LE : Bytes → Nat
  | a :: b :: c :: d :: _ => a.toNat + b.toNat * 2 ^ 8 + c.toNat * 2 ^ 16 + d.toNat * 2 ^ 24
  | _ => 0

def unpackKeys : Nat → Bytes → Run σ V (List Text)
  | 0, _ => pure []
  | count + 1, buffer => do
    let length := readUInt32LE buffer
    let key ← decode ((buffer.drop 4).take length)
    let keys ← unpackKeys count (buffer.drop (4 + length))
    pure (key :: keys)

def growKeys (object : Value) : Nat → Int × Bytes → Run σ V (Int × Bytes)
  | 0, found => pure found
  | attempts + 1, (count, buffer) =>
    if count < -1 then do
      .modify fun w => { w with scratch := count.natAbs * 2 }
      let found ← ownKeys engine (count.natAbs * 2) object
      growKeys object attempts found
    else pure (count, buffer)

def keys (h : JSValue) : Run σ V (List Text) := do
  let w ← .get
  let object ← ptr h
  let found ← ownKeys engine w.scratch object
  let (count, buffer) ← growKeys engine object 4 found
  if count = -1 then throwException getException
  else if count < -1 then .throw (rangeError "QuickJS property names keep growing between reads")
  else unpackKeys count.toNat buffer

end

end QuickJSBun.Context
