import QuickJSBun.Library.Machine
import QuickJSBun.Library.Tally

/-! The life of libraries, runtimes and contexts. Every native call may run host code of its
runtime, finalizers among it, and that code may create, dispose and close whatever it likes,
also while a dispose is under way.
-/

set_option autoImplicit false

namespace QuickJSBun.Bridge.Lifecycle

open Library

/-- `lateCalls` is not in the source: the native calls that were made after `close`. -/
structure QuickJS where
  runtimes : Nat
  closed : Bool
  lateCalls : Nat
  deriving DecidableEq

/-- `contexts` are the entries of the map, in its order. `alive` and `frees` are not in the source:
whether the native runtime exists, and how often it was freed. -/
structure JSRuntime where
  library : Nat
  disposed : Bool
  hostDepth : Nat
  contexts : List (Nat × Nat)
  alive : Bool
  frees : Nat
  deriving DecidableEq

/-- `allocated` and `frees` are not in the source: whether the engine still uses the memory of the
native context, and how often it was freed. -/
structure JSContext where
  runtime : Nat
  context : Nat
  disposed : Bool
  allocated : Bool
  frees : Nat
  deriving DecidableEq

inductive Frame where
  /-- Host code that a native call of the runtime has called. -/
  | callback (r : Nat)
  | native (r : Nat)
  /-- `qjs_bun_new_context` -/
  | newContext (r : Nat)
  /-- The loops of `JSContext.dispose`, and then `qjs_bun_free_context`. -/
  | disposingContext (r c : Nat)
  | freeContext (r c : Nat)
  /-- The loop of `JSRuntime.dispose`, and then `qjs_bun_free_runtime`. -/
  | disposingRuntime (r : Nat)
  | freeRuntime (r : Nat)
  deriving DecidableEq

def Frame.runtime : Frame → Nat
  | .callback r | .native r | .newContext r | .disposingContext r _ | .freeContext r _
  | .disposingRuntime r | .freeRuntime r => r

def Frame.isNative : Frame → Bool
  | .native _ | .newContext _ | .freeContext _ _ | .freeRuntime _ => true
  | _ => false

structure State where
  libraries : List QuickJS
  runtimes : List JSRuntime
  contexts : List JSContext
  stack : List Frame
  deriving DecidableEq

-- The host's own code is running, which may call any method.
def hostRuns : List Frame → Bool
  | [] => true
  | .callback _ :: _ => true
  | _ => false

def State.push (s : State) (frame : Frame) : State := { s with stack := frame :: s.stack }

def State.setRuntime (s : State) (r : Nat) (rt : JSRuntime) : State :=
  { s with runtimes := s.runtimes.set r rt }

def State.modifyLibrary (s : State) (l : Nat) (change : QuickJS → QuickJS) : State :=
  { s with libraries := s.libraries.modify l change }

def QuickJS.call (lib : QuickJS) : QuickJS :=
  if lib.closed then { lib with lateCalls := lib.lateCalls + 1 } else lib

def State.call (s : State) (l : Nat) : State := s.modifyLibrary l QuickJS.call

def mapSet (entries : List (Nat × Nat)) (key value : Nat) : List (Nat × Nat) :=
  if entries.any (·.1 == key) then
    entries.map fun entry => if entry.1 = key then (key, value) else entry
  else entries ++ [(key, value)]

def mapDelete (entries : List (Nat × Nat)) (key : Nat) : List (Nat × Nat) :=
  entries.filter (·.1 ≠ key)

/-- The end of the constructor of `JSRuntime`. -/
def State.addRuntime (s : State) (l : Nat) : State :=
  { s.modifyLibrary l fun lib => { lib with runtimes := lib.runtimes + 1 } with
    runtimes := s.runtimes ++ [⟨l, false, 0, [], true, 0⟩] }

/-- The constructor of `JSContext` has its native context. -/
def State.addContext (s : State) (r : Nat) (rt : JSRuntime) (context : Nat) : State :=
  { s.setRuntime r { rt with contexts := mapSet rt.contexts context s.contexts.length } with
    contexts := s.contexts ++ [⟨r, context, false, true, 0⟩] }

/-- `JSContext.dispose` once its loops are over: the native context is freed. -/
def State.freeContext (s : State) (c : Nat) (ctx : JSContext) (rt : JSRuntime) : State :=
  { s.setRuntime ctx.runtime { rt with contexts := mapDelete rt.contexts ctx.context } with
    contexts := s.contexts.set c { ctx with disposed := true, frees := ctx.frees + 1 } }

/-- `JSRuntime.dispose` before its loop. -/
def State.startDispose (s : State) (r : Nat) (rt : JSRuntime) : State :=
  ((s.setRuntime r { rt with disposed := true }).modifyLibrary rt.library fun lib =>
    { lib with runtimes := lib.runtimes - 1 }).push (.disposingRuntime r)

/-- An engine function that is called while `rest` is below it. -/
def State.enter (s : State) (rt : JSRuntime) (frame : Frame) (rest : List Frame) : State :=
  { s.call rt.library with stack := frame :: rest }

inductive Event where
  | newLibrary
  | close (l : Nat)
  /-- `new JSRuntime`; `made` tells whether there was memory for the native runtime. -/
  | newRuntime (l : Nat) (made : Bool)
  /-- A method that asks for the pointer of its runtime, or of its context. -/
  | callRuntime (r : Nat)
  | callContext (c : Nat)
  /-- `newClassId` or `detectModule`, which ask for no pointer. -/
  | callUnchecked (r : Nat)
  /-- `classId`, `getOpaque`, `getAnyOpaque` or `setOpaque` of a handle. -/
  | callHandle (c : Nat)
  /-- `new JSContext` until the native context is there; a failure of `addIntrinsics` is a dispose. -/
  | newContext (r : Nat)
  | created (context : Option Nat)
  | disposeContext (c : Nat)
  /-- A handle or an atom of the context that is disposed is freed. -/
  | freeHandle
  | freeContext
  /-- The engine lets go of the memory of a context. -/
  | reclaim (c : Nat)
  | disposeRuntime (r : Nat)
  /-- The next context of the loop of `JSRuntime.dispose`, or its end. -/
  | disposeNext
  /-- The native call that is running calls host code. -/
  | callback
  | returns
  deriving DecidableEq

def step (s : State) : Event → Option State
  | .newLibrary =>
    if hostRuns s.stack then some { s with libraries := s.libraries ++ [⟨0, false, 0⟩] } else none
  | .close l =>
    if hostRuns s.stack then
      (s.libraries[l]?).map fun lib =>
        -- the assertion on `runtimes` throws
        if lib.closed ∨ lib.runtimes ≠ 0 then s else s.modifyLibrary l fun lib =>
          { lib with closed := true }
    else none
  | .newRuntime l made =>
    if hostRuns s.stack ∧ l < s.libraries.length then
      some (if made then (s.call l).addRuntime l else s.call l)
    else none
  | .callRuntime r =>
    match s.runtimes[r]? with
    | some rt =>
      if hostRuns s.stack ∧ rt.disposed = false then some (s.enter rt (.native r) s.stack)
      else none
    | none => none
  | .callContext c =>
    match s.contexts[c]? with
    | some ctx =>
      match s.runtimes[ctx.runtime]? with
      | some rt =>
        if hostRuns s.stack ∧ ctx.disposed = false then
          some (s.enter rt (.native ctx.runtime) s.stack)
        else none
      | none => none
    | none => none
  | .callUnchecked r =>
    match s.runtimes[r]? with
    | some rt => if hostRuns s.stack then some (s.call rt.library) else none
    | none => none
  | .callHandle c =>
    match s.contexts[c]? with
    | some ctx =>
      match s.runtimes[ctx.runtime]? with
      -- only the handle is asserted to be in use, which `vm.undefined` is also after the dispose
      | some rt => if hostRuns s.stack then some (s.call rt.library) else none
      | none => none
    | none => none
  | .newContext r =>
    match s.runtimes[r]? with
    | some rt =>
      if hostRuns s.stack ∧ rt.disposed = false then some (s.enter rt (.newContext r) s.stack)
      else none
    | none => none
  | .created context =>
    match s.stack with
    | .newContext r :: rest =>
      match context, s.runtimes[r]? with
      | some address, some rt =>
        if ∀ ctx ∈ s.contexts, ctx.allocated = true → ctx.context ≠ address then
          some { s.addContext r rt address with stack := rest }
        else none
      | none, _ => some { s with stack := rest }
      | _, _ => none
    | _ => none
  | .disposeContext c =>
    match s.contexts[c]? with
    | some ctx =>
      match s.runtimes[ctx.runtime]? with
      | some rt =>
        if hostRuns s.stack then
          -- a second dispose does nothing, and the assertion on `hostDepth` throws
          some (if ctx.disposed ∨ rt.hostDepth ≠ 0 then s
            else s.push (.disposingContext ctx.runtime c))
        else none
      | none => none
    | none => none
  | .freeHandle =>
    match s.stack with
    | .disposingContext r c :: rest =>
      (s.runtimes[r]?).map fun rt => s.enter rt (.native r) (.disposingContext r c :: rest)
    | _ => none
  | .freeContext =>
    match s.stack with
    | .disposingContext r c :: rest =>
      match s.contexts[c]?, s.runtimes[r]? with
      | some ctx, some rt => some ((s.freeContext c ctx rt).enter rt (.freeContext r c) rest)
      | _, _ => none
    | _ => none
  | .reclaim c =>
    match s.contexts[c]? with
    | some ctx =>
      if 0 < ctx.frees then
        some { s with contexts := s.contexts.set c { ctx with allocated := false } }
      else none
    | none => none
  | .disposeRuntime r =>
    match s.runtimes[r]? with
    | some rt =>
      if hostRuns s.stack then
        some (if rt.disposed ∨ rt.hostDepth ≠ 0 then s else s.startDispose r rt)
      else none
    | none => none
  | .disposeNext =>
    match s.stack with
    | .disposingRuntime r :: rest =>
      match s.runtimes[r]? with
      | some rt =>
        match rt.contexts with
        | [] =>
          some ((s.setRuntime r { rt with frees := rt.frees + 1 }).enter rt (.freeRuntime r) rest)
        | (_, c) :: _ =>
          match s.contexts[c]? with
          | some ctx =>
            if ctx.disposed ∨ rt.hostDepth ≠ 0 then none
            else some (s.push (.disposingContext r c))
          | none => none
      | none => none
    | _ => none
  | .callback =>
    match s.stack with
    | frame :: _ =>
      match s.runtimes[frame.runtime]? with
      | some rt =>
        if frame.isNative then
          some ((s.setRuntime frame.runtime { rt with hostDepth := rt.hostDepth + 1 }).push
            (.callback frame.runtime))
        else none
      | none => none
    | [] => none
  | .returns =>
    match s.stack with
    | .native _ :: rest => some { s with stack := rest }
    | .freeContext _ _ :: rest => some { s with stack := rest }
    | .callback r :: rest =>
      (s.runtimes[r]?).map fun rt =>
        { s.setRuntime r { rt with hostDepth := rt.hostDepth - 1 } with stack := rest }
    | .freeRuntime r :: rest =>
      (s.runtimes[r]?).map fun rt =>
        { s.setRuntime r { rt with alive := false } with stack := rest }
    | _ => none

def machine : Machine State Event := ⟨⟨[], [], [], []⟩, step⟩

/-! ### What the host may rely on -/

def aliveOf (l : Nat) (rt : JSRuntime) : Nat := if rt.library = l ∧ rt.alive = true then 1 else 0

def undisposedOf (l : Nat) (rt : JSRuntime) : Nat :=
  if rt.library = l ∧ rt.disposed = false then 1 else 0

def State.nativeRuntimes (s : State) (l : Nat) : Nat := tally (aliveOf l) s.runtimes

/-- A closed library has no runtime, and nothing has called it since. -/
def State.Clean (s : State) : Prop :=
  ∀ (l : Nat) (lib : QuickJS), s.libraries[l]? = some lib → lib.closed = true →
    s.nativeRuntimes l = 0 ∧ lib.lateCalls = 0

/-- What the host sees of its libraries whenever its own code runs. -/
structure State.Honest (s : State) : Prop where
  counts : hostRuns s.stack = true → ∀ (l : Nat) (lib : QuickJS), s.libraries[l]? = some lib →
    lib.runtimes = s.nativeRuntimes l
  clean : s.Clean

/-- No host code runs while a disposed runtime still has its native one, and nothing asks a
closed library for a runtime, a class id, the detection of a module or what a handle's object
belongs to. -/
def Meets (s : State) : Event → Prop
  | .callback => ∀ rt ∈ s.runtimes, rt.disposed = true → rt.alive = false
  | .newRuntime l _ => ∀ lib ∈ s.libraries[l]?, lib.closed = false
  | .callUnchecked r => ∀ rt ∈ s.runtimes[r]?, ∀ lib ∈ s.libraries[rt.library]?, lib.closed = false
  | .callHandle c =>
    ∀ ctx ∈ s.contexts[c]?, ∀ rt ∈ s.runtimes[ctx.runtime]?,
      ∀ lib ∈ s.libraries[rt.library]?, lib.closed = false
  | _ => True

instance (s : State) (e : Event) : Decidable (Meets s e) := by
  cases e <;> unfold Meets <;> infer_instance

/-- The map of a runtime has the native context of each context that is not disposed. -/
structure State.Maps (s : State) (r : Nat) (rt : JSRuntime) : Prop where
  keys : (rt.contexts.map Prod.fst).Nodup
  entries : ∀ context c, (context, c) ∈ rt.contexts ↔
    ∃ ctx, s.contexts[c]? = some ctx ∧ ctx.runtime = r ∧ ctx.context = context ∧
      ctx.disposed = false

/-- What every run keeps, whatever the host does. -/
structure State.Sound (s : State) : Prop where
  counts : ∀ (l : Nat) (lib : QuickJS), s.libraries[l]? = some lib →
    lib.runtimes = tally (undisposedOf l) s.runtimes
  contexts : ∀ ctx ∈ s.contexts, ctx.frees = if ctx.disposed then 1 else 0
  runtimes : ∀ (r : Nat) (rt : JSRuntime), s.runtimes[r]? = some rt → rt.frees ≤ 1 ∧
    (rt.frees = 1 → rt.disposed = true ∧ ∀ ctx ∈ s.contexts, ctx.runtime = r →
      ctx.disposed = true) ∧
    (rt.alive = false → rt.frees = 1) ∧ (s.stack = [] → rt.disposed = true → rt.alive = false)
  maps : ∀ (r : Nat) (rt : JSRuntime), s.runtimes[r]? = some rt → s.Maps r rt
  refuses : ∀ (r : Nat) (rt : JSRuntime), s.runtimes[r]? = some rt → 0 < rt.hostDepth → ∀ s',
    (step s (.disposeRuntime r) = some s' → s' = s) ∧
    ∀ c ctx, s.contexts[c]? = some ctx → ctx.runtime = r →
      step s (.disposeContext c) = some s' → s' = s
  /-- The loop of `JSRuntime.dispose` never comes to a context that refuses. -/
  disposes : ∀ r rest, s.stack = .disposingRuntime r :: rest → (step s .disposeNext).isSome = true

end QuickJSBun.Bridge.Lifecycle
