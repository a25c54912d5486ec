import QuickJSBun.Library.Effect
import QuickJSBun.Library.Machine
import QuickJSBun.Library.Rooted
import Mathlib.Logic.Function.Basic
import Mathlib.Data.List.Perm.Basic

/-! The engine's reference counting and its collector of cycles: objects on the lists of the runtime, what frees
them when their count becomes zero, and `JS_RunGC` on a runtime without weak references. A use of freed memory
and a failed assertion are failures.
-/

set_option autoImplicit false

namespace QuickJSBun.Engine.Garbage

open QuickJSBun.Library

inductive JSGCObjectType where
  | jsObject | functionBytecode | shape | varRef | asyncFunction | jsContext | module
  deriving DecidableEq, Repr

namespace JSGCObjectType

/-- The types that `free_gc_object` takes. The others go as soon as their count is zero. -/
def isMain : JSGCObjectType → Bool
  | jsObject | functionBytecode | asyncFunction | module => true
  | shape | varRef | jsContext => false

/-- The types that a `JSValue` may point to. -/
def isValue : JSGCObjectType → Bool
  | jsObject | functionBytecode | module => true
  | shape | varRef | asyncFunction | jsContext => false

end JSGCObjectType

inductive Part where
  | header | fields | data
  deriving DecidableEq, Repr

/-- Pointers in the order of `mark_children`. An object has its shape, its properties and what
its class marks; bytecode its constants as fields and its realm as data; an async function
`cur_func` and `this_val`, its stack, and its resolving functions; a module its attributes, its
exports' variables, and its values; a context its values and its shapes; a shape its prototype,
and a variable its value or the async function of its frame. The source has `free_mark` in
objects only. -/
structure JSGCObject where
  gcObjType : JSGCObjectType
  refCount : Int
  mark : Bool
  freeMark : Bool
  header : List Nat
  fields : List Nat
  data : List Nat
  deriving DecidableEq, Repr

namespace JSGCObject

def part (o : JSGCObject) : Part → List Nat
  | .header => o.header
  | .fields => o.fields
  | .data => o.data

def children (o : JSGCObject) : List Nat := o.header ++ (o.fields ++ o.data)

-- Without the references it gave up.
def emptied (o : JSGCObject) : JSGCObject := { o with header := [], fields := [], data := [] }

end JSGCObject

-- What a part of an object may point to.
def admits : JSGCObjectType → Part → JSGCObjectType → Bool
  | .jsObject, .header, t => t == .shape
  | .jsObject, _, t => t != .shape
  | .functionBytecode, .fields, t => t.isValue
  | .functionBytecode, .data, t => t == .jsContext
  | .asyncFunction, _, t => t.isValue
  | .module, .fields, t => t == .varRef
  | .module, _, t => t.isValue
  | .jsContext, .header, t => t.isValue
  | .jsContext, .fields, t => t == .shape
  | .shape, .header, t => t.isValue
  | .varRef, .header, t => t.isMain
  | _, _, _ => false

inductive JSGCPhase where
  | none | decref | removeCycles
  deriving DecidableEq, Repr

/-- `finalized` is not in the source: what went through `free_gc_object`. -/
structure JSRuntime where
  heap : Nat → Option JSGCObject
  gcObjList : List Nat
  gcZeroRefCountList : List Nat
  tmpObjList : List Nat
  gcPhase : JSGCPhase
  finalized : List Nat

inductive Failure where
  | freed | assertion | aborted | reentered | endless
  deriving DecidableEq, Repr

abbrev Collecting := Effect JSRuntime Failure

namespace JSRuntime

def listed (rt : JSRuntime) : List Nat := rt.gcObjList ++ (rt.gcZeroRefCountList ++ rt.tmpObjList)

def put (rt : JSRuntime) (p : Nat) (o : JSGCObject) : JSRuntime :=
  { rt with heap := Function.update rt.heap p (some o) }

/-- `list_del`, whichever list it is in. -/
def unlist (rt : JSRuntime) (p : Nat) : JSRuntime :=
  { rt with
    gcObjList := rt.gcObjList.erase p
    gcZeroRefCountList := rt.gcZeroRefCountList.erase p
    tmpObjList := rt.tmpObjList.erase p }

def free (rt : JSRuntime) (p : Nat) : JSRuntime :=
  { rt with heap := Function.update rt.heap p none }

def logged (rt : JSRuntime) (p : Nat) : JSRuntime := { rt with finalized := rt.finalized ++ [p] }

def inPhase (rt : JSRuntime) (phase : JSGCPhase) : JSRuntime := { rt with gcPhase := phase }

end JSRuntime

def load (p : Nat) : Collecting JSGCObject := do
  let rt ← Effect.get
  match rt.heap p with
  | some o => pure o
  | none => Effect.throw .freed

def store (p : Nat) (o : JSGCObject) : Collecting Unit := .modify fun rt => rt.put p o

def listDel (p : Nat) : Collecting Unit := .modify fun rt => rt.unlist p

def jsFreeRt (p : Nat) : Collecting Unit := .modify fun rt => rt.free p

def setPhase (phase : JSGCPhase) : Collecting Unit := .modify fun rt => rt.inPhase phase

def zeroListAdd (p : Nat) : Collecting Unit :=
  .modify fun rt => { rt with gcZeroRefCountList := p :: rt.gcZeroRefCountList }

def zeroListAddTail (p : Nat) : Collecting Unit :=
  .modify fun rt => { rt with gcZeroRefCountList := rt.gcZeroRefCountList ++ [p] }

def tmpListAddTail (p : Nat) : Collecting Unit :=
  .modify fun rt => { rt with tmpObjList := rt.tmpObjList ++ [p] }

def gcListAddTail (p : Nat) : Collecting Unit :=
  .modify fun rt => { rt with gcObjList := rt.gcObjList ++ [p] }

/-- `--js_rc(p)->ref_count` -/
def lower (p : Nat) : Collecting Int := do
  let o ← load p
  store p { o with refCount := o.refCount - 1 }
  pure (o.refCount - 1)

/-- The references that are about to be given up. Nobody looks for them in the object any more. -/
def take (p : Nat) : Collecting JSGCObject := do
  let o ← load p
  store p o.emptied
  pure o

section
variable (freeZeroRefcount : Collecting Unit)

/-- `__JS_FreeValueRT` on objects, bytecode and modules. -/
def jsFreeValueRT0 (p : Nat) : Collecting Unit := do
  let rt ← Effect.get
  if rt.gcPhase ≠ .removeCycles then do
    listDel p
    zeroListAdd p
    let o ← load p
    store p { o with mark := true }
    if rt.gcPhase = .none then freeZeroRefcount else pure ()
  else pure ()

def jsFreeValueRT (p : Nat) : Collecting Unit := do
  let count ← lower p
  if count ≤ 0 then jsFreeValueRT0 freeZeroRefcount p else pure ()

def asyncFuncFree (p : Nat) : Collecting Unit := do
  let count ← lower p
  if count = 0 then do
    let rt ← Effect.get
    if rt.gcPhase ≠ .removeCycles then do
      listDel p
      zeroListAdd p
      if rt.gcPhase = .none then freeZeroRefcount else pure ()
    else pure ()
  else pure ()

/-- A shape leaves the hash table of the runtime and gives its atoms back. -/
def jsFreeShape (p : Nat) : Collecting Unit := do
  let count ← lower p
  if count ≤ 0 then do
    Effect.check (count == 0) .assertion
    let sh ← take p
    Effect.forEach (jsFreeValueRT freeZeroRefcount) sh.header
    listDel p
    jsFreeRt p
  else pure ()

/-- The value of a detached variable, or else the async function of its frame. -/
def freeReferent (p : Nat) : Collecting Unit := do
  let o ← load p
  if o.gcObjType = .asyncFunction then asyncFuncFree freeZeroRefcount p
    else jsFreeValueRT freeZeroRefcount p

def freeVarRef (p : Nat) : Collecting Unit := do
  let varRef ← load p
  Effect.check (decide (0 < varRef.refCount)) .assertion
  let count ← lower p
  if count = 0 then do
    let varRef ← take p
    Effect.forEach (freeReferent freeZeroRefcount) varRef.header
    listDel p
    jsFreeRt p
  else pure ()

def jsFreeContext (p : Nat) : Collecting Unit := do
  let count ← lower p
  if 0 < count then pure ()
  else do
    Effect.check (count == 0) .assertion
    let ctx ← take p
    Effect.forEach (jsFreeValueRT freeZeroRefcount) ctx.header
    Effect.forEach (jsFreeShape freeZeroRefcount) ctx.fields
    listDel p
    jsFreeRt p

def freeReference (p : Nat) : Collecting Unit := do
  let o ← load p
  match o.gcObjType with
  | .shape => jsFreeShape freeZeroRefcount p
  | .varRef => freeVarRef freeZeroRefcount p
  | .jsContext => jsFreeContext freeZeroRefcount p
  | .asyncFunction => asyncFuncFree freeZeroRefcount p
  | .jsObject | .functionBytecode | .module => jsFreeValueRT freeZeroRefcount p

/-- The end of the functions for what `free_gc_object` takes: while cycles are removed, what is
still referred to is kept on a list. -/
def freeStructure (p : Nat) : Collecting Unit := do
  listDel p
  let rt ← Effect.get
  let o ← load p
  if rt.gcPhase = .removeCycles ∧ o.refCount ≠ 0 then zeroListAddTail p else jsFreeRt p

def freeObject (p : Nat) : Collecting Unit := do
  let o ← take p
  Effect.forEach (freeReference freeZeroRefcount) o.fields
  Effect.forEach (jsFreeShape freeZeroRefcount) o.header
  Effect.forEach (freeReference freeZeroRefcount) o.data
  freeStructure p

def freeFunctionBytecode (p : Nat) : Collecting Unit := do
  let b ← take p
  Effect.forEach (jsFreeValueRT freeZeroRefcount) b.fields
  Effect.forEach (jsFreeContext freeZeroRefcount) b.data
  freeStructure p

/-- `__async_func_free` -/
def asyncFuncFree0 (p : Nat) : Collecting Unit := do
  let s ← take p
  Effect.forEach (jsFreeValueRT freeZeroRefcount) s.fields
  Effect.forEach (jsFreeValueRT freeZeroRefcount) s.header
  Effect.forEach (jsFreeValueRT freeZeroRefcount) s.data
  freeStructure p

def jsFreeModuleDef (p : Nat) : Collecting Unit := do
  let m ← take p
  Effect.forEach (jsFreeValueRT freeZeroRefcount) m.header
  Effect.forEach (freeVarRef freeZeroRefcount) m.fields
  Effect.forEach (jsFreeValueRT freeZeroRefcount) m.data
  freeStructure p

def freeGcObject (p : Nat) : Collecting Unit := do
  .modify fun rt => rt.logged p
  let o ← load p
  store p { o with freeMark := true }
  match o.gcObjType with
  | .jsObject => freeObject freeZeroRefcount p
  | .functionBytecode => freeFunctionBytecode freeZeroRefcount p
  | .asyncFunction => asyncFuncFree0 freeZeroRefcount p
  | .module => jsFreeModuleDef freeZeroRefcount p
  | .shape | .varRef | .jsContext => Effect.throw .aborted

end

/-- The loop of `free_zero_refcount`. While it runs nothing calls it again. -/
def freeZeroRounds : Nat → Collecting Unit
  | 0 => Effect.throw .endless
  | fuel + 1 => do
    let rt ← Effect.get
    match rt.gcZeroRefCountList with
    | [] => pure ()
    | p :: _ => do
      let o ← load p
      Effect.check (o.refCount == 0) .assertion
      freeGcObject (Effect.throw .reentered) p
      freeZeroRounds fuel

def freeZeroRefcount : Collecting Unit := do
  setPhase .decref
  let rt ← Effect.get
  freeZeroRounds (rt.listed.length + 1)
  setPhase .none

/-! ### The collector -/

-- On a runtime without weak references.
def gcRemoveWeakObjects : Collecting Unit := do
  setPhase .decref
  setPhase .none
  freeZeroRefcount

def gcDecrefChild (p : Nat) : Collecting Unit := do
  let o ← load p
  Effect.check (decide (0 < o.refCount)) .assertion
  store p { o with refCount := o.refCount - 1 }
  if o.refCount - 1 = 0 ∧ o.mark = true then do
    listDel p
    tmpListAddTail p
  else pure ()

def gcDecrefObject (p : Nat) : Collecting Unit := do
  let o ← load p
  Effect.check (!o.mark) .assertion
  Effect.forEach gcDecrefChild o.children
  let o ← load p
  store p { o with mark := true }
  if o.refCount = 0 then do
    listDel p
    tmpListAddTail p
  else pure ()

/-- Only what the loop has seen leaves the list, so that it runs over the list as it was. -/
def gcDecref : Collecting Unit := do
  .modify fun rt => { rt with tmpObjList := [] }
  let rt ← Effect.get
  Effect.forEach gcDecrefObject rt.gcObjList

def gcScanIncrefChild (p : Nat) : Collecting Unit := do
  let o ← load p
  if o.refCount + 1 = 1 then do
    listDel p
    gcListAddTail p
    store p { o with refCount := o.refCount + 1, mark := false }
  else store p { o with refCount := o.refCount + 1 }

def gcScanIncrefChild2 (p : Nat) : Collecting Unit := do
  let o ← load p
  store p { o with refCount := o.refCount + 1 }

/-- The loop over `gc_obj_list` from a place on. The list grows at its end meanwhile. -/
def gcScanFrom : Nat → Nat → Collecting Unit
  | 0, _ => Effect.throw .endless
  | fuel + 1, i => do
    let rt ← Effect.get
    match rt.gcObjList[i]? with
    | none => pure ()
    | some p => do
      let o ← load p
      Effect.check (decide (0 < o.refCount)) .assertion
      store p { o with mark := false }
      Effect.forEach gcScanIncrefChild o.children
      gcScanFrom fuel (i + 1)

-- Gives back what the objects to be freed refer to.
def gcRestore (p : Nat) : Collecting Unit := do
  let o ← load p
  Effect.forEach gcScanIncrefChild2 o.children

def gcScan : Collecting Unit := do
  let rt ← Effect.get
  gcScanFrom (rt.listed.length + 1) 0
  let rt ← Effect.get
  Effect.forEach gcRestore rt.tmpObjList

/-- Only values and async functions are freed here. What else is garbage goes with them. -/
def gcFreeCyclesObject (p : Nat) : Collecting Unit := do
  let o ← load p
  if o.gcObjType.isMain then freeGcObject freeZeroRefcount p
  else do
    listDel p
    zeroListAddTail p

def gcFreeCyclesFrom : Nat → Collecting Unit
  | 0 => Effect.throw .endless
  | fuel + 1 => do
    let rt ← Effect.get
    match rt.tmpObjList with
    | [] => pure ()
    | p :: _ => do
      gcFreeCyclesObject p
      gcFreeCyclesFrom fuel

def freeKept (p : Nat) : Collecting Unit := do
  let o ← load p
  Effect.check o.gcObjType.isMain .assertion
  jsFreeRt p

def gcFreeCycles : Collecting Unit := do
  setPhase .removeCycles
  let rt ← Effect.get
  gcFreeCyclesFrom (rt.listed.length + 1)
  setPhase .none
  let rt ← Effect.get
  Effect.forEach freeKept rt.gcZeroRefCountList
  .modify fun rt => { rt with gcZeroRefCountList := [] }

/-- `JS_RunGCInternal` for `JS_RunGC` -/
def jsRunGC : Collecting Unit := do
  gcRemoveWeakObjects
  gcDecref
  gcScan
  gcFreeCycles

/-! ### What happens to a runtime -/

/-- `add_gc_object` on a new object, whose count is 1. -/
def addGcObject (p : Nat) (o : JSGCObject) : Collecting Unit := do
  store p { o with refCount := 1, mark := false, freeMark := false }
  gcListAddTail p

/-- `JS_DupValue`, and the like for other objects. -/
def dupReference (p : Nat) : Collecting Unit := do
  let o ← load p
  store p { o with refCount := o.refCount + 1 }

def setChildren (p : Nat) (header fields data : List Nat) : Collecting Unit := do
  let o ← load p
  store p { o with header, fields, data }

/-- `held` are the references that are not in the heap: those of the host, of the interpreter and of
the stack. `created` is what was ever made. -/
structure State where
  rt : JSRuntime
  held : List Nat
  created : List Nat

inductive Event where
  /-- The references in a new object were the caller's, at an address that is not in use. -/
  | add (p : Nat) (gcObjType : JSGCObjectType) (header fields data : List Nat)
  | dup (p : Nat)
  /-- References move between the caller, who then has `held`, and an object. -/
  | move (p : Nat) (header fields data held : List Nat)
  | free (p : Nat)
  | runGC
  deriving DecidableEq, Repr

namespace State

def fits (s : State) (gcObjType : JSGCObjectType) (part : Part) (pointers : List Nat) : Bool :=
  pointers.all fun c =>
    ((s.rt.heap c).map fun child => admits gcObjType part child.gcObjType).getD false

/-- What the callers keep to: they use what is allocated, and give up and pass on only what they
hold. -/
def admissible (s : State) : Event → Bool
  | .add p gcObjType header fields data =>
    (s.rt.heap p).isNone && s.fits gcObjType .header header && s.fits gcObjType .fields fields &&
      s.fits gcObjType .data data && decide ((header ++ (fields ++ data)).Subperm s.held)
  | .dup p => (s.rt.heap p).isSome
  | .move p header fields data held =>
    match s.rt.heap p with
    | none => false
    | some o =>
      s.fits o.gcObjType .header header && s.fits o.gcObjType .fields fields &&
        s.fits o.gcObjType .data data &&
        decide ((header ++ (fields ++ data) ++ held).Perm (o.children ++ s.held))
  | .free p => s.held.contains p
  | .runGC => true

def call : Event → Collecting Unit
  | .add p gcObjType header fields data =>
    addGcObject p ⟨gcObjType, 1, false, false, header, fields, data⟩
  | .dup p => dupReference p
  | .move p header fields data _ => setChildren p header fields data
  | .free p => freeReference freeZeroRefcount p
  | .runGC => jsRunGC

def heldAfter (s : State) : Event → List Nat
  | .add p _ header fields data => p :: s.held.diff (header ++ (fields ++ data))
  | .dup p => p :: s.held
  | .move _ _ _ _ held => held
  | .free p => s.held.erase p
  | .runGC => s.held

def createdAfter (s : State) : Event → List Nat
  | .add p gcObjType _ _ _ => if gcObjType.isMain then s.created ++ [p] else s.created
  | _ => s.created

end State

def emptyRuntime : JSRuntime := ⟨fun _ => none, [], [], [], .none, []⟩

def step (s : State) (e : Event) : Option State :=
  if s.admissible e then
    match (State.call e).run s.rt with
    | (.ok _, rt) => some ⟨rt, s.heldAfter e, s.createdAfter e⟩
    | (.error _, _) => none
  else none

def machine : Machine State Event := ⟨⟨emptyRuntime, [], []⟩, step⟩

end QuickJSBun.Engine.Garbage
