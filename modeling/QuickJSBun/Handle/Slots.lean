import QuickJSBun.Library.Machine
import QuickJSBun.Library.Pool
import QuickJSBun.Library.Tally

/-! The host slot table of a runtime: `slot` and `release`, the creation of host
functions and shared buffers on both sides of the bridge, and the finalizers that
release an id from the native side, as a machine.

Creation is split where other code may run: the native call may collect garbage
and so run host finalizers, and so may the exception it ends with.
-/

set_option autoImplicit false

namespace QuickJSBun.Handle

open Library

inductive HostKind where
  | function
  | bytes
  deriving DecidableEq, Repr

/-- One call of `slot`, with the number of times its entry was released. -/
structure Allocation where
  id : Nat
  kind : HostKind
  releases : Nat
  deriving DecidableEq, Repr

/-- `doomed` is an object without references whose finalizer the engine has put off. -/
inductive Status where
  | live
  | doomed
  | gone
  deriving DecidableEq, Repr

/-- A guest object with a `QJSBunHostSlot`; `allocation` tells which call of `slot` it was made
for. -/
structure Carrier where
  id : Nat
  allocation : Nat
  status : Status
  deriving DecidableEq, Repr

inductive SlotFrame where
  /-- In `qjs_bun_new_host_function` or `qjs_bun_new_array_buffer`, before the object carries its slot. -/
  | creating (id allocation : Nat)
  /-- In `qjs_bun_new_host_function`, while `length` and `name` are defined on the object. -/
  | defining (id allocation : Nat)
  /-- In `resultValue` after a failure, on the way to the catch clause. -/
  | throwing (id allocation : Nat)
  /-- In a host class finalizer, which the engine runs while it is freeing objects. -/
  | finalizing
  deriving DecidableEq, Repr

/-- The entries of `hosts`, `JSRuntime.#hosts` with `#freeSlots`, are numbers of allocations. -/
structure Slots where
  hosts : Pool Nat
  allocations : List Allocation
  carriers : List Carrier
  frames : List SlotFrame
  disposed : Bool
  deriving DecidableEq, Repr

namespace Slots

/-- `JSRuntime.slot`: the id popped from `#freeSlots`, or else the length of `#hosts`. -/
def slot (s : Slots) (kind : HostKind) : Nat × Slots :=
  let id := s.hosts.next
  (id, { s with
    hosts := s.hosts.take s.allocations.length
    allocations := s.allocations ++ [⟨id, kind, 0⟩] })

/-- `JSRuntime.release`: no effect on an id whose entry is undefined. -/
def release (s : Slots) (id : Nat) : Slots :=
  match s.hosts.lookup id with
  | none => s
  | some allocation => { s with
      hosts := s.hosts.give id
      allocations :=
        s.allocations.modify allocation fun a => { a with releases := a.releases + 1 } }

/-- The closure `#callHost` finds for a request with this id, by the number of its allocation. -/
def callHost (s : Slots) (id : Nat) : Option Nat :=
  match s.hosts.lookup id with
  | none => none
  | some allocation =>
    match s.allocations[allocation]? with
    | some ⟨_, .function, _⟩ => some allocation
    | _ => none

def push (s : Slots) (frame : SlotFrame) : Slots := { s with frames := frame :: s.frames }

def add (s : Slots) (carrier : Carrier) : Slots := { s with carriers := s.carriers ++ [carrier] }

def put (s : Slots) (index : Nat) (carrier : Carrier) : Slots :=
  { s with carriers := s.carriers.set index carrier }

/-- Whether `gc_phase` may be other than `JS_GC_PHASE_NONE`, so that `JS_FreeValue` puts the
finalizer off. -/
def freeing (s : Slots) : Bool := s.frames.contains .finalizing

/-- `qjs_bun_host_finalizer`, or the free callback of a buffer. -/
def finalize (s : Slots) (index : Nat) (carrier : Carrier) : Slots :=
  (s.put index { carrier with status := .gone }).release carrier.id

-- The last reference to an object goes.
def freeValue (s : Slots) (index : Nat) (carrier : Carrier) (deferred : Bool) : Slots :=
  if deferred then s.put index { carrier with status := .doomed } else s.finalize index carrier

end Slots

inductive SlotEvent where
  /-- `newFunction` or `newArrayBuffer`, up to the native call. -/
  | create (kind : HostKind)
  /-- The object or its native slot cannot be allocated. -/
  | allocationFails
  /-- The object carries its slot; a buffer is complete. -/
  | attach
  | defined
  | defineFails (deferred : Bool)
  /-- The catch clause of `newFunction` or `newArrayBuffer`. -/
  | catchRelease
  | drop (carrier : Nat) (deferred : Bool)
  /-- The engine runs a finalizer it has put off, or one of an object in a garbage cycle. -/
  | collect (carrier : Nat)
  | enterFinalizer
  | leaveFinalizer
  /-- The end of `JSRuntime.dispose`, when `JS_FreeRuntime` has finalized what was left. -/
  | dispose
  deriving DecidableEq, Repr

namespace Slots

def step (s : Slots) (event : SlotEvent) : Option Slots :=
  if s.disposed then none
  else match event, s.frames with
    | .create kind, _ =>
      let (id, s') := s.slot kind
      some (s'.push (.creating id s.allocations.length))
    | .allocationFails, .creating id allocation :: rest =>
      some { s with frames := .throwing id allocation :: rest }
    | .attach, .creating id allocation :: rest =>
      (s.allocations[allocation]?).map fun a =>
        match a.kind with
        | .function => { s with frames := .defining id allocation :: rest }
        | .bytes => { s with frames := rest }.add ⟨id, allocation, .live⟩
    | .defined, .defining id allocation :: rest =>
      some ({ s with frames := rest }.add ⟨id, allocation, .live⟩)
    | .defineFails deferred, .defining id allocation :: rest =>
      let s' := { s with frames := .throwing id allocation :: rest }
      if deferred && !s.freeing then none
      else if deferred then some (s'.add ⟨id, allocation, .doomed⟩)
      else some ((s'.add ⟨id, allocation, .gone⟩).release id)
    | .catchRelease, .throwing id _ :: rest => some ({ s with frames := rest }.release id)
    | .drop index deferred, _ =>
      match s.carriers[index]? with
      | some carrier =>
        if carrier.status ≠ .live || deferred && !s.freeing then none
        else some (s.freeValue index carrier deferred)
      | none => none
    | .collect index, _ =>
      match s.carriers[index]? with
      | some carrier => if carrier.status = .gone then none else some (s.finalize index carrier)
      | none => none
    | .enterFinalizer, _ => some (s.push .finalizing)
    | .leaveFinalizer, .finalizing :: rest => some { s with frames := rest }
    | .dispose, [] =>
      if s.carriers.all (·.status == .gone) then
        some { s with hosts := Pool.empty, disposed := true }
      else none
    | _, _ => none

end Slots

def slotMachine : Machine Slots SlotEvent where
  init := ⟨Pool.empty, [], [], [], false⟩
  step := Slots.step

end QuickJSBun.Handle
