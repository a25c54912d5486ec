import QuickJSBun.Library.Machine
import QuickJSBun.Library.Tally

/-! What a native call borrows. The bridge passes the cells of handles by value; for some
operands it takes a reference of its own first, which the engine consumes at some moment of
the call. Meanwhile guest code may call the host back, and a host callback may use the whole
API, so the stack of activations alternates between native calls and host code.

A cell is a heap value or an atom of the engine. Values that are no heap cells need
no reference and are left out of the handles.
-/

set_option autoImplicit false

namespace QuickJSBun.Handle

open Library

/-- An owned `JSValue` or `JSAtom` of a context, with one reference of its cell until it is
disposed. -/
structure OwnedHandle where
  vm : Nat
  cell : Nat
  isAtom : Bool
  disposed : Bool
  deriving DecidableEq, Repr

/-- A property key as the API takes it. For a text the engine's answer to `JS_NewAtomLen` is given
too. -/
inductive Key where
  | index
  | text (name : String) (atom : Nat)
  | atom (handle : Nat)
  deriving DecidableEq, Repr

/-- Who keeps an operand alive: the handle it was taken from, the atom cache, or the native call
itself, until the engine takes the call's reference for its own. -/
inductive Holder where
  | handle (number : Nat)
  | cache
  | native
  | engine
  deriving DecidableEq, Repr

structure Operand where
  cell : Nat
  holder : Holder
  deriving DecidableEq, Repr

inductive Activation where
  | native (operands : List Operand)
  | host
  deriving DecidableEq, Repr

/-- The operands of a native call by number of handle; `none` is a value that is no heap cell. -/
structure NativeCall where
  borrowed : List (Option Nat)
  duplicated : List (Option Nat)
  key : Option Key
  deriving DecidableEq, Repr

/-- The API calls that can run guest code or a class finalizer. -/
inductive Api where
  | callFunction (fn thisValue : Option Nat) (args : List (Option Nat))
  | invoke (thisValue : Option Nat) (name : Key) (args : List (Option Nat))
  | callConstructor (fn : Option Nat) (args : List (Option Nat))
  | callConstructorWithNewTarget (fn newTarget : Option Nat) (args : List (Option Nat))
  | evalThis (thisValue : Option Nat)
  | evalFunction (value : Option Nat)
  | getProp (object : Option Nat) (key : Key)
  | getDataProp (object : Option Nat) (key : Key)
  | getPropWithReceiver (object : Option Nat) (key : Key) (receiver : Option Nat)
  | setProp (object : Option Nat) (key : Key) (value : Option Nat)
  | setPropWithReceiver (object : Option Nat) (key : Key) (value receiver : Option Nat)
  | defineProp (object : Option Nat) (key : Key) (value : Option Nat)
  | definePropGetSet (object : Option Nat) (key : Key) (getter setter : Option Nat)
  | defineProperty (object : Option Nat) (key : Key) (value getter setter : Option Nat)
  | getOwnPropertyDescriptor (object : Option Nat) (key : Key)
  | hasProp (object : Option Nat) (key : Key)
  | deleteProp (object : Option Nat) (key : Key)
  | setPrototype (object prototype : Option Nat)
  | setConstructor (object prototype : Option Nat)
  | instanceOf (value constructor : Option Nat)
  | jsonStringify (value replacer space : Option Nat)
  | newTypedArray (args : List (Option Nat))
  | setClassProto (prototype : Option Nat)
  | setExport (value : Option Nat)
  | setPrivateValue (value : Option Nat)
  /-- Everything with one operand: coercions, `keys`, `getPrototype`, iteration, string reads. -/
  | unary (value : Option Nat)
  deriving DecidableEq, Repr

/-- The operands as the bridge function of each call passes them on; those under `JS_DupValue` come
second. -/
def Api.nativeCall : Api → NativeCall
  | .callFunction fn thisValue args => ⟨fn :: thisValue :: args, [], none⟩
  | .invoke thisValue name args => ⟨thisValue :: args, [], some name⟩
  | .callConstructor fn args => ⟨fn :: args, [], none⟩
  | .callConstructorWithNewTarget fn newTarget args => ⟨fn :: newTarget :: args, [], none⟩
  | .evalThis thisValue => ⟨[thisValue], [], none⟩
  | .evalFunction value => ⟨[], [value], none⟩
  | .getProp object key => ⟨[object], [], some key⟩
  | .getDataProp object key => ⟨[], [object], some key⟩
  | .getPropWithReceiver object key receiver => ⟨[object, receiver], [], some key⟩
  | .setProp object key value => ⟨[object], [value], some key⟩
  | .setPropWithReceiver object key value receiver => ⟨[object, receiver], [value], some key⟩
  | .defineProp object key value => ⟨[object], [value], some key⟩
  | .definePropGetSet object key getter setter => ⟨[object], [getter, setter], some key⟩
  | .defineProperty object key value getter setter =>
    ⟨[object, value, getter, setter], [], some key⟩
  | .getOwnPropertyDescriptor object key => ⟨[object], [], some key⟩
  | .hasProp object key => ⟨[object], [], some key⟩
  | .deleteProp object key => ⟨[object], [], some key⟩
  | .setPrototype object prototype => ⟨[object, prototype], [], none⟩
  | .setConstructor object prototype => ⟨[object, prototype], [], none⟩
  | .instanceOf value constructor => ⟨[value, constructor], [], none⟩
  | .jsonStringify value replacer space => ⟨[value, replacer, space], [], none⟩
  | .newTypedArray args => ⟨args, [], none⟩
  | .setClassProto prototype => ⟨[], [prototype], none⟩
  | .setExport value => ⟨[], [value], none⟩
  | .setPrivateValue value => ⟨[], [value], none⟩
  | .unary value => ⟨[value], [], none⟩

structure CachedAtom where
  vm : Nat
  name : String
  atom : Nat
  deriving DecidableEq, Repr

/-- `references` is the engine's count of each cell, `engine` the part of it held by the guest. -/
structure World where
  handles : List OwnedHandle
  atoms : List CachedAtom
  references : List Nat
  engine : List Nat
  hostDepth : Nat
  frames : List Activation
  disposed : List Nat
  deriving DecidableEq, Repr

-- The cells of which an activation owns references.
def Activation.owned : Activation → List Nat
  | .native operands => (operands.filter (·.holder == .native)).map (·.cell)
  | .host => []

namespace World

-- Host code is running: at the bottom, or in a callback.
def hostRunning (s : World) : Bool :=
  match s.frames with
  | .native _ :: _ => false
  | _ => true

/-- The cell of a handle, or `none` where `ptr` or `value` throw because it is disposed. -/
def live (s : World) (h : Nat) : Option Nat :=
  (s.handles[h]?).bind fun handle => if handle.disposed then none else some handle.cell

/-- `assertSameVM` on the values of a call. -/
def borrow (s : World) (vm : Nat) : List (Option Nat) → Option (List Operand)
  | [] => some []
  | none :: rest => borrow s vm rest
  | some h :: rest =>
    match s.live h, borrow s vm rest with
    | some cell, some operands =>
      if (s.handles[h]?).any (fun handle => handle.vm == vm) then
        some (⟨cell, .handle h⟩ :: operands)
      else none
    | _, _ => none

def cachedOf (s : World) (vm : Nat) : List CachedAtom := s.atoms.filter (·.vm == vm)

def evict (s : World) (vm : Nat) : World :=
  { s with
    atoms := s.atoms.filter (·.vm != vm)
    references := lower s.references ((s.cachedOf vm).map (·.atom)) }

/-- `JSContext.atom`. A full cache is evicted, but not in a callback; the inner `none` is an
exception. -/
def atom (s : World) (vm : Nat) : Key → World × Option (Option Operand)
  | .index => (s, some none)
  | .atom h => (s, (s.live h).map fun cell => some ⟨cell, .handle h⟩)
  | .text name atom =>
    match s.atoms.find? (fun entry => entry.vm == vm && entry.name == name) with
    | some entry => (s, some (some ⟨entry.atom, .cache⟩))
    | none =>
      let s := if decide (4096 ≤ (s.cachedOf vm).length) && s.hostDepth == 0 then s.evict vm else s
      if atom < s.references.length then
        ({ s with atoms := ⟨vm, name, atom⟩ :: s.atoms, references := raise s.references [atom] },
          some (some ⟨atom, .cache⟩))
      else (s, none)

def atomOf (s : World) (vm : Nat) : Option Key → World × Option (Option Operand)
  | none => (s, some none)
  | some key => s.atom vm key

/-- An API call up to its entry into the bridge; without one if an assertion throws before. -/
def call (s : World) (vm : Nat) (native : NativeCall) : World :=
  if vm ∈ s.disposed then s
  else match s.borrow vm native.borrowed, s.borrow vm native.duplicated with
    | some borrowed, some duplicated =>
      let (s, key) := s.atomOf vm native.key
      match key with
      | none => s
      | some operand =>
        { s with
          references := raise s.references (duplicated.map (·.cell))
          frames :=
            .native (borrowed ++ duplicated ++
              (duplicated.map (·.cell)).map (fun cell => ⟨cell, .native⟩) ++
              operand.toList) :: s.frames }
    | _, _ => s

/-- The engine moves the reference of an operand into a property, or drops it as soon as it has no
more use for it. -/
def consume (s : World) (index : Nat) : Option World :=
  match s.frames with
  | .native operands :: rest =>
    match operands[index]? with
    | some ⟨cell, .native⟩ =>
      some { s with
        engine := raise s.engine [cell]
        frames := .native (operands.set index ⟨cell, .engine⟩) :: rest }
    | _ => none
  | _ => none

/-- `JSValue.dispose` or `JSAtom.dispose`. -/
def dispose (s : World) (h : Nat) (handle : OwnedHandle) : World :=
  if handle.disposed then s
  else
    let s := { s with handles := s.handles.set h { handle with disposed := true } }
    if handle.vm ∈ s.disposed then s else { s with references := lower s.references [handle.cell] }

def ownValues (s : World) (vm : Nat) : List OwnedHandle :=
  s.handles.filter fun handle => handle.vm == vm && !handle.isAtom && !handle.disposed

/-- `JSContext.dispose`: every value of the context, then its atom cache. -/
def disposeContext (s : World) (vm : Nat) : World :=
  if vm ∈ s.disposed then s
  else if s.hostDepth ≠ 0 then s
  else
    let references := lower s.references ((s.ownValues vm).map (·.cell))
    let handles := s.handles.map fun handle =>
      if handle.vm == vm && !handle.isAtom && !handle.disposed then { handle with disposed := true }
      else handle
    let s := { s with handles, references }.evict vm
    { s with disposed := vm :: s.disposed }

end World

inductive BorrowEvent where
  /-- The engine makes a cell; the guest takes and drops references. -/
  | allocate
  | take (cell : Nat)
  | drop (cell : Nat)
  /-- Host code gets a handle for a reference of the engine, as from the result of a call. -/
  | wrap (vm cell : Nat) (isAtom : Bool)
  | dup (handle : Nat)
  | dispose (handle : Nat)
  | disposeContext (vm : Nat)
  | call (vm : Nat) (api : Api)
  | consume (index : Nat)
  | return
  | enterHost
  | leaveHost
  deriving DecidableEq, Repr

namespace World

def step (s : World) : BorrowEvent → Option World
  | .allocate => some { s with references := s.references ++ [1], engine := s.engine ++ [1] }
  | .take cell =>
    if counter s.references cell = 0 then none
    else some { s with references := raise s.references [cell], engine := raise s.engine [cell] }
  | .drop cell =>
    if counter s.engine cell = 0 then none
    else some { s with references := lower s.references [cell], engine := lower s.engine [cell] }
  | .wrap vm cell isAtom =>
    if !s.hostRunning || counter s.engine cell == 0 || vm ∈ s.disposed then none
    else some { s with engine := lower s.engine [cell], handles := s.handles ++ [⟨vm, cell, isAtom, false⟩] }
  | .dup h =>
    match s.handles[h]?, s.hostRunning with
    | some handle, true =>
      if handle.disposed || handle.vm ∈ s.disposed then some s
      else some { s with
        references := raise s.references [handle.cell]
        handles := s.handles ++ [⟨handle.vm, handle.cell, handle.isAtom, false⟩] }
    | _, _ => none
  | .dispose h =>
    if s.hostRunning then (s.handles[h]?).map (s.dispose h) else none
  | .disposeContext vm => if s.hostRunning then some (s.disposeContext vm) else none
  | .call vm api => if s.hostRunning then some (s.call vm api.nativeCall) else none
  | .consume index => s.consume index
  | .return =>
    match s.frames with
    | .native operands :: rest =>
      some { s with references := lower s.references (Activation.native operands).owned, frames := rest }
    | _ => none
  | .enterHost => some { s with hostDepth := s.hostDepth + 1, frames := .host :: s.frames }
  | .leaveHost =>
    match s.frames with
    | .host :: rest => some { s with hostDepth := s.hostDepth - 1, frames := rest }
    | _ => none

end World

def borrowMachine : Machine World BorrowEvent where
  init := ⟨[], [], [], [], 0, [], []⟩
  step := World.step

end QuickJSBun.Handle
