import QuickJSBun.Context.Convert

/-! The guest's heap, and the natives that a `JSException` is made with: the exception is taken, its
type is asked for, and names and messages are read as own or inherited data. Each of them is
modelled as long as there is memory; every other native may run guest code and is left to a parameter.
-/

set_option autoImplicit false

namespace QuickJSBun.Context

open Library

-- The engine keeps these values to itself.
def Value.isInternal : Value → Bool
  | .uninitialized | .exception | .heap .module _ | .heap .functionBytecode _ => true
  | _ => false

def GuestValue := { value : Value // value.isInternal = false }

inductive Property where
  | data (value : GuestValue)
  | getset

/-- `class_id`, as far as the natives ask for it; of a proxy, also its `JSProxyData`. -/
inductive JSClass where
  | object
  | array
  | error
  | bytecodeFunction
  | proxy (isFunc isRevoked : Bool) (target : Nat)
  | other (call : Bool)
  deriving DecidableEq

structure JSObject where
  classId : JSClass
  properties : List (Bytes × Property)
  proto : Option Nat

inductive Contents where
  | string (text : Text)
  | bigInt (value : Int)
  | object (object : JSObject)
  | other

/-- `runs` is not in the source: how often guest code has run. -/
structure Guest where
  contents : List Contents
  atoms : List Bytes
  typeErrorPrototype : Nat
  internalErrorPrototype : Nat
  runs : Nat

namespace World

def object (w : World Guest) (cell : Nat) : JSObject :=
  match w.guest.contents[cell]? with
  | some (.object object) => object
  | _ => ⟨.other false, [], none⟩

def text (w : World Guest) (cell : Nat) : Text :=
  match w.guest.contents[cell]? with
  | some (.string text) => text
  | _ => []

def bigInt (w : World Guest) (cell : Nat) : Int :=
  match w.guest.contents[cell]? with
  | some (.bigInt value) => value
  | _ => 0

-- A new cell, at an address above all others.
def allocate (w : World Guest) (contents : Contents) : World Guest :=
  { w with
    cells := w.cells ++ [w.cells.foldr max 0 + 16]
    references := w.references ++ [1]
    engine := w.engine ++ [1]
    guest := { w.guest with contents := w.guest.contents ++ [contents] } }

end World

/-! ### Types -/

inductive Kind where
  | typeError
  | internalError
  deriving DecidableEq

/-- `JS_ThrowError`: an error with a message of its own. Its `stack` is left out. -/
def jsThrowError (kind : Kind) (message : Text) (w : World Guest) : World Guest :=
  let w := w.allocate (.string message)
  let proto := match kind with
    | .typeError => w.guest.typeErrorPrototype
    | .internalError => w.guest.internalErrorPrototype
  let error : JSObject :=
    ⟨.error,
      [(encode (Library.text "message"), .data ⟨.heap .string (w.guest.contents.length - 1), rfl⟩)],
      some proto⟩
  let w := w.allocate (.object error)
  { w with pending := .heap .object (w.guest.contents.length - 1) }

def jsIsFunction (w : World Guest) (cell : Nat) : Bool :=
  match (w.object cell).classId with
  | .bytecodeFunction => true
  | .proxy isFunc _ _ => isFunc
  | .other call => call
  | _ => false

/-- `js_resolve_proxy`; `left` counts down where `depth` counts up to 1000. -/
def jsResolveProxy (w : World Guest) : Nat → Nat → Except (Kind × String) Nat
  | left, cell =>
    match (w.object cell).classId with
    | .proxy _ isRevoked target =>
      match left with
      | 0 => .error (.internalError, "stack overflow")
      | left + 1 => if isRevoked then .error (.typeError, "revoked proxy")
        else jsResolveProxy w left target
    | _ => .ok cell

def jsIsArray (w : World Guest) (cell : Nat) : Except (Kind × String) Bool :=
  (jsResolveProxy w 1001 cell).map fun cell => (w.object cell).classId == .array

def jsIsError (w : World Guest) (cell : Nat) : Bool := (w.object cell).classId == .error

def qjsBunType (value : Value) (w : World Guest) : Int × World Guest :=
  match value with
  | .undefined => (0, w)
  | .null => (1, w)
  | .bool _ => (2, w)
  | .int _ | .float64 _ => (3, w)
  | .heap .bigInt _ | .shortBigInt _ => (4, w)
  | .heap .string _ | .heap .stringRope _ => (5, w)
  | .heap .symbol _ => (6, w)
  | .heap .object cell =>
    if jsIsFunction w cell then (8, w)
    else
      match jsIsArray w cell with
      | .error (kind, message) => (-1, jsThrowError kind (Library.text message) w)
      | .ok isArray => (if isArray then 9 else if jsIsError w cell then 10 else 7, w)
  | _ => (-2, w)

/-! ### Properties and texts -/

/-- `JS_NewAtomLen`: its place in the table, where 0 is `JS_ATOM_NULL`. -/
def jsNewAtomLen (text : Bytes) (w : World Guest) : Nat × World Guest :=
  match w.guest.atoms.findIdx? (· == text) with
  | some place => (place + 1, w)
  | none =>
    (w.guest.atoms.length + 1,
      { w with guest := { w.guest with atoms := w.guest.atoms ++ [text] } })

def World.dupValue (w : World Guest) (value : Value) : World Guest :=
  { w with references := raise w.references value.cells }

/-- The loop of `qjs_bun_get_data_property`, at an object or at a prototype of class
`JS_CLASS_OBJECT`. Chains of prototypes have no cycle, so there are no more rounds than there are
cells. -/
def dataProperty (w : World Guest) (name : Bytes) : Nat → Nat → Value
  | 0, _ => .undefined
  | rounds + 1, current =>
    match (w.object current).properties.find? (·.1 == name) with
    | some (_, .data value) => value.1
    | some (_, .getset) => .undefined
    | none =>
      match (w.object current).proto with
      | none => .undefined
      | some next =>
        if (w.object next).classId = .object then dataProperty w name rounds next else .undefined

def qjsBunGetDataProperty (cell atom : Nat) (w : World Guest) : Value × World Guest :=
  let value := dataProperty w ((w.guest.atoms[atom - 1]?).getD []) w.guest.contents.length cell
  (value, w.dupValue value)

/-- `JS_ToBigInt128Sat` of a bigint. -/
def jsToBigInt128Sat (value : Int) : Int × Nat × Nat :=
  if -2 ^ 127 ≤ value ∧ value < 2 ^ 127 then
    (0, (value % 2 ^ 64).toNat, (value / 2 ^ 64 % 2 ^ 64).toNat)
  else if value < 0 then (1, 0, 2 ^ 63)
  else (1, 2 ^ 64 - 1, 2 ^ 63 - 1)

def jsGetException (w : World Guest) : Value × World Guest :=
  (w.pending, { w with pending := .uninitialized })

def jsFreeValue (value : Value) (w : World Guest) : World Guest :=
  { w with references := lower w.references value.cells }

/-! ### The natives -/

def delegate (other : Engine Guest) (native : Native) (w : World Guest) :
    native.Reply × World Guest :=
  other.call native { w with guest := { w.guest with runs := w.guest.runs + 1 } }

/-- The natives, of which `other` may run any guest code. -/
def bridge (other : Engine Guest) : Engine Guest where
  call native w :=
    match native with
    | .getException => jsGetException w
    | .type value => qjsBunType value w
    | .newAtomLen text => jsNewAtomLen text w
    | .freeAtom _ => ((), w)
    | .freeValue value => ((), jsFreeValue value w)
    | .getDataProperty (.heap .object cell) atom => qjsBunGetDataProperty cell atom w
    | .toCString (.heap .string cell) | .toCString (.heap .stringRope cell) =>
      (some (encodeAll (w.text cell)), w)
    | .toCString (.heap .bigInt cell) => (some (encodeAll (decimal (w.bigInt cell))), w)
    | .toCString (.shortBigInt value) => (some (encodeAll (decimal value)), w)
    | .toBigInt128 (.heap .bigInt cell) => (jsToBigInt128Sat (w.bigInt cell), w)
    | .toBigInt128 (.shortBigInt value) => (jsToBigInt128Sat value, w)
    | native => delegate other native w

end QuickJSBun.Context
