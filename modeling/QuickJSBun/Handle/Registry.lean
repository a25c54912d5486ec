import QuickJSBun.Library.Machine
import QuickJSBun.Library.Slotted
import QuickJSBun.Library.Tally

/-! The handles of a context: `JSValue` with its constructor, `dup` and `dispose`,
the list `JSContext.handles`, and `JSContext.dispose`, as a machine next to the
reference counts of the engine.

`qjs_bun_free_value` may run host finalizers. `JSValue.dispose` does nothing after
that call, so what a finalizer does are simply the next events of the run.
-/

set_option autoImplicit false

namespace QuickJSBun.Handle

open Library

/-- A `JSValue` and the cell it was made with. Tags below zero are those of heap cells, found by
their `pointer`. `releases` counts the calls of `qjs_bun_free_value` made for it. -/
structure JSValue where
  tag : Int
  pointer : Nat
  owned : Bool
  slot : Option Nat
  disposed : Bool
  releases : Nat
  deriving DecidableEq, Repr

/-- `values` lists every `JSValue` ever made for the context, and `handles` refers to them by
number. `references` is the engine's count for each cell; `engine` is the part of it that is not
held by this context's handles: by guest objects, native frames, other contexts. -/
structure Context where
  values : List JSValue
  handles : List Nat
  disposed : Bool
  draining : Bool
  hostDepth : Nat
  references : List Nat
  engine : List Nat
  faults : Nat
  deriving DecidableEq, Repr

namespace Context

def newJSValue (s : Context) (tag : Int) (pointer : Nat) (owned : Bool) : Context :=
  if owned && decide (tag < 0) then
    { s with
      values := s.values ++ [⟨tag, pointer, owned, some s.handles.length, false, 0⟩]
      handles := s.handles ++ [s.values.length] }
  else { s with values := s.values ++ [⟨tag, pointer, owned, none, false, 0⟩] }

def dupValue (s : Context) (pointer : Nat) : Context :=
  { s with references := s.references.modify pointer (· + 1) }

/-- `qjs_bun_free_value`. A cell without references, or any cell once the context is freed, is a
fault. -/
def freeValue (s : Context) (pointer : Nat) : Context :=
  if s.disposed || counter s.references pointer == 0 then { s with faults := s.faults + 1 }
  else { s with references := s.references.modify pointer (· - 1) }

def put (s : Context) (v : Nat) (value : JSValue) : Context :=
  { s with values := s.values.set v value }

/-- The edit of `handles` in `JSValue.dispose`: pop the last handle and put it in the place of this
one. -/
def unlink (s : Context) (v slot last : Nat) : Context :=
  let s := { s with handles := s.handles.dropLast }
  if last = v then s
  else
    let s := { s with handles := s.handles.set slot last }
    match s.values[last]? with
    | none => s
    | some other => s.put last { other with slot := some slot }

def dispose (s : Context) (v : Nat) (value : JSValue) : Context :=
  if !value.owned || value.disposed then s
  else
    let s := s.put v { value with disposed := true }
    match value.slot, s.handles.getLast? with
    | some slot, some last =>
      let s := s.unlink v slot last
      if s.disposed then s
      else
        let s := s.put v { value with disposed := true, releases := value.releases + 1 }
        s.freeValue value.pointer
    | _, _ => s

end Context

inductive HandleEvent where
  /-- The engine makes a heap cell. -/
  | allocate
  /-- The engine, the guest or another context takes or drops a reference. -/
  | take (pointer : Nat)
  | drop (pointer : Nat)
  /-- A native call returns a heap cell, with a reference, and `resultValue` wraps it. -/
  | resultHeap (tag : Int) (pointer : Nat)
  /-- A value that is no heap cell: owned if it comes from a native call, not owned if it is a constant. -/
  | primitive (tag : Int) (owned : Bool)
  | dup (value : Nat)
  /-- `#borrow` of a heap cell the engine passes to a host call. -/
  | borrow (tag : Int) (pointer : Nat)
  | dispose (value : Nat)
  | enterHost
  | leaveHost
  /-- `JSContext.dispose`, up to its loop. -/
  | disposeContext
  /-- The loop of `JSContext.dispose` looks at `handles.length`. -/
  | drain
  deriving DecidableEq, Repr

namespace Context

def step (s : Context) : HandleEvent → Option Context
  | .allocate => some { s with references := s.references ++ [1], engine := s.engine ++ [1] }
  | .take pointer =>
    if counter s.references pointer = 0 then none
    else some { s.dupValue pointer with engine := s.engine.modify pointer (· + 1) }
  | .drop pointer =>
    if counter s.engine pointer = 0 then none
    else some { s with
      references := s.references.modify pointer (· - 1), engine := s.engine.modify pointer (· - 1) }
  | .resultHeap tag pointer =>
    if s.disposed || decide (0 ≤ tag) || counter s.engine pointer == 0 then none
    else some ({ s with engine := s.engine.modify pointer (· - 1) }.newJSValue tag pointer true)
  | .primitive tag owned =>
    if tag < 0 then none else some (s.newJSValue tag 0 owned)
  | .dup v =>
    match s.values[v]? with
    | none => none
    | some value =>
      if value.disposed || s.disposed && decide (value.tag < 0) then some s
      else if value.tag < 0 then
        some ((s.dupValue value.pointer).newJSValue value.tag value.pointer true)
      else some (s.newJSValue value.tag value.pointer true)
  | .borrow tag pointer =>
    if s.disposed || decide (0 ≤ tag) || counter s.engine pointer == 0 then none
    else some ((s.newJSValue tag pointer true).dupValue pointer)
  | .dispose v => (s.values[v]?).map (s.dispose v)
  | .enterHost => some { s with hostDepth := s.hostDepth + 1 }
  | .leaveHost => if s.hostDepth = 0 then none else some { s with hostDepth := s.hostDepth - 1 }
  | .disposeContext =>
    if s.disposed || s.hostDepth != 0 then some s
    else if s.draining then none
    else some { s with draining := true }
  | .drain =>
    if !s.draining || s.hostDepth != 0 then none
    else match s.handles.getLast? with
      | none => some { s with disposed := true, draining := false }
      | some last => (s.values[last]?).map (s.dispose last)

end Context

def handleMachine : Machine Context HandleEvent where
  init := ⟨[], [], false, false, 0, [], [], 0⟩
  step := Context.step

end QuickJSBun.Handle
