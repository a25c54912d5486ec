import QuickJSBun.Library.Machine

/-! The lifetime of module definitions: the context's list of loaded modules, `js_resolve_module`
with the host's normalizer and loader between any two of its steps, and `js_free_modules`,
which drops the modules that are not resolved when a resolution fails.

A `JSModule` of the host is a bare pointer to a definition. Which module a name stands for is
up to the host, so a request may come to any loaded module of its context.
-/

set_option autoImplicit false

namespace QuickJSBun.Modules.Definitions

open Library

/-- `loaded` tells whether the definition is in the list of its context. `values` is not in the
source: how many of the references are of module values. -/
structure JSModuleDef where
  context : Nat
  isCModule : Bool
  reqModules : Nat
  resolved : Bool
  loaded : Bool
  references : Nat
  values : Nat
  deriving DecidableEq

inductive Frame where
  /-- `__JS_EvalInternal`, which owns the module it has parsed. -/
  | evalInternal (m : Nat)
  /-- `JS_ResolveModule`, or `JS_LoadModuleInternal` once it has its module. -/
  | resolveModule (c : Nat)
  | loadModule (c : Nat)
  /-- The loop of `js_resolve_module`, with the number of requests that are left. -/
  | resolving (m : Nat) (left : Nat)
  /-- The module loader of the host. -/
  | loading (c : Nat)
  /-- The loop of `js_free_modules`, with the definition it comes to next. -/
  | sweeping (c : Nat) (el : Option Nat)
  deriving DecidableEq

/-- `contexts` tells which are disposed; `jsModules` are the definitions of the host's `JSModule`
objects. -/
structure Runtime where
  contexts : List Bool
  modules : List JSModuleDef
  jsModules : List Nat
  stack : List Frame
  deriving DecidableEq

def Runtime.live (rt : Runtime) (c : Nat) : Prop := rt.contexts[c]? = some false

instance (rt : Runtime) (c : Nat) : Decidable (rt.live c) := inferInstanceAs (Decidable (_ = _))

/-! ### The engine's functions -/

def Runtime.put (rt : Runtime) (i : Nat) (m : JSModuleDef) : Runtime :=
  { rt with modules := rt.modules.set i m }

def Runtime.push (rt : Runtime) (frame : Frame) : Runtime := { rt with stack := frame :: rt.stack }

/-- `js_new_module_def` -/
def Runtime.add (rt : Runtime) (m : JSModuleDef) : Runtime :=
  { rt with modules := rt.modules ++ [m] }

/-- `js_resolve_module` until its first request. -/
def Runtime.start (rt : Runtime) (i : Nat) (m : JSModuleDef) : Runtime :=
  if m.resolved then rt else (rt.put i { m with resolved := true }).push (.resolving i m.reqModules)

def JSModuleDef.newModuleValue (m : JSModuleDef) : JSModuleDef :=
  { m with references := m.references + 1, values := m.values + 1 }

/-- A module value is freed; the last reference takes the definition from the list. -/
def JSModuleDef.freeModuleValue (m : JSModuleDef) : JSModuleDef :=
  { m with
    references := m.references - 1
    values := m.values - 1
    loaded := m.loaded && m.references - 1 != 0 }

/-- `list_del` and `JS_FreeValue` of a definition in the list. -/
def JSModuleDef.unload (m : JSModuleDef) : JSModuleDef :=
  { m with loaded := false, references := m.references - 1 }

/-- The first loaded module of a context from a place of the list on. -/
def Runtime.first (rt : Runtime) (c : Nat) (place : Nat) : Option Nat :=
  (List.range rt.modules.length).find? fun i =>
    place ≤ i && (rt.modules[i]?).elim false fun m => m.loaded && m.context == c

/-- The context for which the innermost native call needs a module. -/
def Runtime.requester (rt : Runtime) : Option Nat :=
  match rt.stack with
  | .resolving m (_ + 1) :: _ => (rt.modules[m]?).map (·.context)
  | .loadModule c :: _ => some c
  | _ => none

-- The module that was needed is there.
def Runtime.answer (rt : Runtime) (i : Nat) (m : JSModuleDef) : Option Runtime :=
  match rt.stack with
  | .resolving outer (left + 1) :: rest =>
    some ({ rt with stack := .resolving outer left :: rest }.start i m)
  | .loadModule c :: rest => some ({ rt with stack := .resolveModule c :: rest }.start i m)
  | _ => none

def Frame.isResolving : Frame → Bool
  | .resolving _ _ => true
  | _ => false

/-- The module that was needed is not there: every `js_resolve_module` under way returns -1. -/
def Runtime.fail (rt : Runtime) : Option Runtime :=
  match rt.stack.dropWhile Frame.isResolving with
  | .evalInternal i :: rest =>
    (rt.modules[i]?).map fun m => { rt.put i m.freeModuleValue with stack := rest }
  | .resolveModule c :: rest => some { rt with stack := .sweeping c (rt.first c 0) :: rest }
  | .loadModule _ :: rest => some { rt with stack := rest }
  | _ => none

/-! ### Runs -/

inductive Event where
  | newContext
  | disposeContext (c : Nat)
  | newCModule (c : Nat)
  /-- The host lets go of a `JSModule`. -/
  | drop (i : Nat)
  /-- A method of a `JSModule`. -/
  | use (i : Nat)
  /-- `JS_ReadModule`; a failure leaves the definition in the list. -/
  | readModule (c : Nat) (requests : Nat) (made : Bool)
  | newModuleValue (i : Nat)
  | freeModuleValue (i : Nat)
  /-- A module has been parsed, for `evalCode` or for the loader. -/
  | evalInternal (c : Nat) (requests : Nat)
  | resolveModule (i : Nat)
  /-- `JS_LoadModuleInternal`, for `import()` and `loadModule`. -/
  | loadModule (c : Nat)
  /-- The module that is needed is not in the list, and the host's loader is asked. -/
  | load
  | found (i : Nat)
  /-- The loader returns a `JSModule`, or the module that was compiled from its text. -/
  | loaded (i : Nat)
  /-- The normalizer, the loader or an allocation fails. -/
  | missing
  /-- The innermost native call is over. -/
  | done
  | sweep
  deriving DecidableEq

def step (rt : Runtime) : Event → Option Runtime
  | .newContext => some { rt with contexts := rt.contexts ++ [false] }
  | .disposeContext c =>
    -- a context is disposed only while no host call is running
    if rt.live c ∧ rt.stack = [] then
      some { rt with
        contexts := rt.contexts.set c true
        modules := rt.modules.map fun m => if m.context = c ∧ m.loaded = true then m.unload else m }
    else none
  | .newCModule c =>
    if rt.live c then
      some { rt.add ⟨c, true, 0, false, true, 1, 0⟩ with
        jsModules := rt.modules.length :: rt.jsModules }
    else none
  | .drop i => some { rt with jsModules := rt.jsModules.filter (· ≠ i) }
  | .use i => if i ∈ rt.jsModules then some rt else none
  | .readModule c requests made =>
    if rt.live c then
      some (rt.add ⟨c, false, requests, false, true, if made then 2 else 1, if made then 1 else 0⟩)
    else none
  | .newModuleValue i =>
    match rt.modules[i]? with
    | none => none
    -- the engine makes no value of a C module before it is resolved
    | some m =>
      if 0 < m.references ∧ (m.isCModule = true → m.resolved = true) then
        some (rt.put i m.newModuleValue)
      else none
  | .freeModuleValue i =>
    match rt.modules[i]? with
    | none => none
    | some m => if 0 < m.values then some (rt.put i m.freeModuleValue) else none
  | .evalInternal c requests =>
    if rt.live c then
      some (((rt.add ⟨c, false, requests, true, true, 1, 0⟩).push
        (.evalInternal rt.modules.length)).push (.resolving rt.modules.length requests))
    else none
  | .resolveModule i =>
    match rt.modules[i]? with
    | none => none
    | some m =>
      if 0 < m.values ∧ rt.live m.context then
        some ((rt.push (.resolveModule m.context)).start i m)
      else none
  | .loadModule c => if rt.live c then some (rt.push (.loadModule c)) else none
  | .load => rt.requester.map fun c => rt.push (.loading c)
  | .found i =>
    match rt.requester, rt.modules[i]? with
    | some c, some m => if m.context = c ∧ m.loaded = true then rt.answer i m else none
    | _, _ => none
  | .loaded i =>
    match rt.stack, rt.modules[i]? with
    | .loading c :: rest, some m =>
      -- what the engine does with a definition that is gone is undefined
      if m.context = c ∧ 0 < m.references ∧ (m.isCModule = true → i ∈ rt.jsModules) then
        { rt with stack := rest }.answer i m
      else none
    | _, _ => none
  | .missing =>
    match rt.stack with
    | .resolving _ (_ + 1) :: _ => rt.fail
    | .loadModule _ :: _ => rt.fail
    | .loading _ :: rest => { rt with stack := rest }.fail
    | _ => none
  | .done =>
    match rt.stack with
    | .resolving _ 0 :: rest => some { rt with stack := rest }
    | .evalInternal i :: rest => (rt.modules[i]?).map fun m =>
      { rt.put i m.newModuleValue with stack := rest }
    | .resolveModule _ :: rest => some { rt with stack := rest }
    | .sweeping _ none :: rest => some { rt with stack := rest }
    | _ => none
  | .sweep =>
    match rt.stack with
    | .sweeping c (some i) :: rest =>
      (rt.modules[i]?).map fun m =>
        let next := Frame.sweeping c (rt.first c (i + 1)) :: rest
        if m.loaded = true ∧ m.resolved = false then { rt.put i m.unload with stack := next }
        else { rt with stack := next }
    | _ => none

def machine : Machine Runtime Event := ⟨⟨[], [], [], []⟩, step⟩

/-- Every `JSModule` of a context that is not disposed has its definition. -/
def Runtime.Live (rt : Runtime) : Prop :=
  ∀ i ∈ rt.jsModules, ∃ m, rt.modules[i]? = some m ∧ (rt.live m.context → 0 < m.references)

/-- A C module that the loop of `js_free_modules` comes to while the host has its `JSModule` is
resolved. -/
def Meets (rt : Runtime) : Event → Prop
  | .sweep =>
    ∀ c i rest, rt.stack = .sweeping c (some i) :: rest → i ∈ rt.jsModules →
      ∀ m, rt.modules[i]? = some m → rt.live m.context → m.resolved = true
  | _ => True

/-- The definition that the loop of `js_free_modules` comes to. -/
def Runtime.swept (rt : Runtime) : Option Nat :=
  match rt.stack with
  | .sweeping _ el :: _ => el
  | _ => none

theorem meets_sweep {rt : Runtime} : Meets rt .sweep ↔ ∀ i ∈ rt.swept, i ∈ rt.jsModules →
    ∀ m ∈ rt.modules[i]?, rt.live m.context → m.resolved = true := by
  constructor
  · intro meets i next
    unfold Runtime.swept at next
    split at next
    · next c el rest top =>
        apply meets c i rest
        rw [top, Option.mem_def.mp next]
    · cases next
  · intro meets c i rest top
    apply meets i
    rw [Runtime.swept, top]
    exact Option.mem_some_self i

instance (rt : Runtime) : (event : Event) → Decidable (Meets rt event)
  | .sweep => decidable_of_iff _ meets_sweep.symm
  | .newContext | .disposeContext _ | .newCModule _ | .drop _ | .use _ | .readModule _ _ _
  | .newModuleValue _ | .freeModuleValue _ | .evalInternal _ _ | .resolveModule _ | .loadModule _
  | .load | .found _ | .loaded _ | .missing | .done => .isTrue trivial

/-! ### What every state satisfies -/

/-- A C module of a live context is referenced by the list alone until it is resolved, and by nobody
once it is out of the list. -/
def JSModuleDef.Counted (m : JSModuleDef) : Prop :=
  m.isCModule = true → (m.loaded = true → m.references = m.values + 1) ∧
    (m.loaded = false → m.references = 0 ∧ m.values = 0) ∧ (m.resolved = false → m.values = 0)

structure Runtime.Valid (rt : Runtime) : Prop where
  counted : ∀ (i : Nat) (m : JSModuleDef), rt.modules[i]? = some m → rt.live m.context → m.Counted
  known : ∀ m ∈ rt.modules, m.context < rt.contexts.length
  held : ∀ i ∈ rt.jsModules, ∃ m, rt.modules[i]? = some m ∧ m.isCModule = true
  owned : ∀ i, .evalInternal i ∈ rt.stack → ∃ m, rt.modules[i]? = some m ∧ m.isCModule = false

/-- A step that takes no definition of a `JSModule` out of the list of a live context. -/
structure Keeps (rt rt' : Runtime) : Prop where
  valid : rt'.Valid
  loaded : ∀ i ∈ rt'.jsModules, ∃ m', rt'.modules[i]? = some m' ∧
    (rt'.live m'.context → m'.loaded = true ∨ i ∈ rt.jsModules ∧ ∃ m, rt.modules[i]? = some m ∧
      rt.live m.context ∧ m.loaded = m'.loaded)

-- While the definition of a `JSModule` is there it is in the list.
theorem Runtime.Valid.loaded {rt : Runtime} (valid : rt.Valid) (live : rt.Live) {i : Nat}
    {m : JSModuleDef} (held : i ∈ rt.jsModules) (found : rt.modules[i]? = some m)
    (context : rt.live m.context) : m.loaded = true := by
  obtain ⟨_, known, positive⟩ := live i held
  obtain rfl := Option.some.inj (found.symm.trans known)
  obtain ⟨_, known, kind⟩ := valid.held i held
  obtain rfl := Option.some.inj (found.symm.trans known)
  cases is : m.loaded with
  | true => rfl
  | false =>
    have gone := ((valid.counted i m found context kind).2.1 is).1
    have := positive context
    omega

theorem Keeps.live {rt rt' : Runtime} (keeps : Keeps rt rt') (valid : rt.Valid) (live : rt.Live) :
    rt'.Live := by
  intro i held
  obtain ⟨m', found', stays⟩ := keeps.loaded i held
  refine ⟨m', found', fun context' => ?_⟩
  have there : m'.loaded = true := by
    rcases stays context' with new | ⟨before, m, found, context, same⟩
    · exact new
    · exact same ▸ valid.loaded live before found context
  obtain ⟨_, known, kind⟩ := keeps.valid.held i held
  obtain rfl := Option.some.inj (found'.symm.trans known)
  have counted := (keeps.valid.counted i m' found' context' kind).1 there
  omega

/-! ### One step -/

-- A step that changes the stack alone.
theorem Runtime.Valid.stack {rt : Runtime} (valid : rt.Valid) {stack : List Frame}
    (frames : ∀ i, .evalInternal i ∈ stack → .evalInternal i ∈ rt.stack) :
    Keeps rt { rt with stack } where
  valid := ⟨valid.counted, valid.known, valid.held, fun i member => valid.owned i (frames i member)⟩
  loaded i held := by
    obtain ⟨m, found, -⟩ := valid.held i held
    exact ⟨m, found, fun context => .inr ⟨held, m, found, context, rfl⟩⟩

-- A step that changes one definition, but takes no C module from its list.
theorem Runtime.Valid.put {rt : Runtime} (valid : rt.Valid) {i : Nat} {m m' : JSModuleDef}
    {stack : List Frame} (found : rt.modules[i]? = some m) (context : m'.context = m.context)
    (kind : m'.isCModule = m.isCModule) (counted : rt.live m.context → m'.Counted)
    (loaded : m.isCModule = true → rt.live m.context → m.loaded = m'.loaded)
    (frames : ∀ j, .evalInternal j ∈ stack → .evalInternal j ∈ rt.stack) :
    Keeps rt { rt.put i m' with stack } := by
  have below : i < rt.modules.length := (List.getElem?_eq_some_iff.mp found).1
  have self : (rt.modules.set i m')[i]? = some m' := List.getElem?_set_self below
  have other {j : Nat} (apart : i ≠ j) : (rt.modules.set i m')[j]? = rt.modules[j]? :=
    List.getElem?_set_ne apart
  constructor
  · constructor
    · intro j d known there
      by_cases same : i = j
      · subst same
        obtain rfl := Option.some.inj (self.symm.trans known)
        exact counted (context ▸ there)
      · exact valid.counted j d ((other same).symm.trans known) there
    · intro d member
      rcases List.mem_or_eq_of_mem_set member with old | rfl
      · exact valid.known d old
      · exact context ▸ valid.known m (List.mem_of_getElem? found)
    · intro j held
      obtain ⟨d, known, isC⟩ := valid.held j held
      by_cases same : i = j
      · subst same
        obtain rfl := Option.some.inj (found.symm.trans known)
        exact ⟨m', self, kind.trans isC⟩
      · exact ⟨d, (other same).trans known, isC⟩
    · intro j member
      obtain ⟨d, known, isGuest⟩ := valid.owned j (frames j member)
      by_cases same : i = j
      · subst same
        obtain rfl := Option.some.inj (found.symm.trans known)
        exact ⟨m', self, kind.trans isGuest⟩
      · exact ⟨d, (other same).trans known, isGuest⟩
  · intro j held
    obtain ⟨d, known, isC⟩ := valid.held j held
    by_cases same : i = j
    · subst same
      obtain rfl := Option.some.inj (found.symm.trans known)
      refine ⟨m', self, fun there => .inr ⟨held, m, found, context ▸ there, ?_⟩⟩
      exact loaded isC (context ▸ there)
    · exact ⟨d, (other same).trans known, fun there => .inr ⟨held, d, known, there, rfl⟩⟩

-- A new definition, with its `JSModule` or with the native call that owns it.
theorem Runtime.Valid.add {rt : Runtime} (valid : rt.Valid) {m : JSModuleDef} {jsModules : List Nat}
    {stack : List Frame} (context : rt.live m.context) (counted : m.Counted)
    (loaded : m.loaded = true)
    (held : ∀ i ∈ jsModules, i ∈ rt.jsModules ∨ i = rt.modules.length ∧ m.isCModule = true)
    (frames : ∀ i, .evalInternal i ∈ stack → .evalInternal i ∈ rt.stack ∨ i = rt.modules.length ∧
      m.isCModule = false) :
    Keeps rt { rt.add m with jsModules, stack } := by
  have last : (rt.modules ++ [m])[rt.modules.length]? = some m := by simp
  have old {i : Nat} {d : JSModuleDef} (found : rt.modules[i]? = some d) :
      (rt.modules ++ [m])[i]? = some d :=
    (List.getElem?_append_left (List.getElem?_eq_some_iff.mp found).1).trans found
  constructor
  · constructor
    · intro i d known there
      rcases Nat.lt_or_ge i rt.modules.length with below | above
      · exact valid.counted i d ((List.getElem?_append_left below).symm.trans known) there
      · have new : d ∈ [m] :=
          List.mem_of_getElem? ((List.getElem?_append_right above).symm.trans known)
        exact List.mem_singleton.mp new ▸ counted
    · intro d member
      rcases List.mem_append.mp member with before | new
      · exact valid.known d before
      · exact List.mem_singleton.mp new ▸ (List.getElem?_eq_some_iff.mp context).1
    · intro i member
      rcases held i member with before | ⟨rfl, isC⟩
      · obtain ⟨d, known, isC⟩ := valid.held i before
        exact ⟨d, old known, isC⟩
      · exact ⟨m, last, isC⟩
    · intro i member
      rcases frames i member with before | ⟨rfl, isGuest⟩
      · obtain ⟨d, known, isGuest⟩ := valid.owned i before
        exact ⟨d, old known, isGuest⟩
      · exact ⟨m, last, isGuest⟩
  · intro i member
    rcases held i member with before | ⟨rfl, -⟩
    · obtain ⟨d, known, -⟩ := valid.held i before
      exact ⟨d, old known, fun there => .inr ⟨before, d, known, there, rfl⟩⟩
    · exact ⟨m, last, fun _ => .inl loaded⟩

theorem Runtime.Valid.start {rt : Runtime} (valid : rt.Valid) {i : Nat} {m : JSModuleDef}
    {stack : List Frame} (found : rt.modules[i]? = some m)
    (frames : ∀ j, .evalInternal j ∈ stack → .evalInternal j ∈ rt.stack) :
    Keeps rt ({ rt with stack }.start i m) := by
  unfold Runtime.start
  split
  · exact valid.stack frames
  · have counted (context : rt.live m.context) :
        ({ m with resolved := true } : JSModuleDef).Counted := by
      intro isC
      obtain ⟨inList, out, -⟩ := valid.counted i m found context isC
      exact ⟨inList, out, nofun⟩
    refine valid.put found rfl rfl counted (fun _ _ => rfl) ?_
    intro j member
    exact frames j (by simpa [Runtime.put] using member)

theorem keeps_answer {rt rt' : Runtime} (valid : rt.Valid) {i : Nat} {m : JSModuleDef}
    (found : rt.modules[i]? = some m) {stack : List Frame}
    (frames : ∀ j, .evalInternal j ∈ stack → .evalInternal j ∈ rt.stack)
    (answers : { rt with stack }.answer i m = some rt') : Keeps rt rt' := by
  unfold Runtime.answer at answers
  split at answers
  · next outer left rest top =>
      obtain rfl := Option.some.inj answers
      refine valid.start found fun j member => frames j ?_
      rw [show stack = _ from top]
      simpa using member
  · next c rest top =>
      obtain rfl := Option.some.inj answers
      refine valid.start found fun j member => frames j ?_
      rw [show stack = _ from top]
      simpa using member
  · cases answers

theorem keeps_fail {rt rt' : Runtime} (valid : rt.Valid) {stack : List Frame}
    (frames : ∀ j, .evalInternal j ∈ stack → .evalInternal j ∈ rt.stack)
    (fails : { rt with stack }.fail = some rt') : Keeps rt rt' := by
  unfold Runtime.fail at fails
  have rest_ {frame : Frame} {rest : List Frame}
      (shape : stack.dropWhile Frame.isResolving = frame :: rest) (j : Nat)
      (member : .evalInternal j ∈ frame :: rest) : .evalInternal j ∈ rt.stack :=
    frames j ((List.dropWhile_suffix _).subset (shape ▸ member))
  split at fails
  · next i rest shape =>
      obtain ⟨m, found, rfl⟩ := Option.map_eq_some_iff.mp fails
      obtain ⟨_, known, isGuest⟩ := valid.owned i (rest_ shape i List.mem_cons_self)
      obtain rfl := Option.some.inj (Eq.trans (Eq.symm found) known)
      refine valid.put known rfl rfl ?_ ?_ fun j member =>
        rest_ shape j (List.mem_cons_of_mem _ member)
      · exact fun _ isC => absurd isC (by simp [JSModuleDef.freeModuleValue, isGuest])
      · exact fun isC => absurd isC (by simp [isGuest])
  · next c rest shape =>
      obtain rfl := Option.some.inj fails
      refine valid.stack fun j member => rest_ shape j ?_
      simpa using member
  · next c rest shape =>
      obtain rfl := Option.some.inj fails
      exact valid.stack fun j member => rest_ shape j (List.mem_cons_of_mem _ member)
  · cases fails

theorem counted_newModuleValue {m : JSModuleDef} (counted : m.Counted) (positive : 0 < m.references)
    (resolved : m.isCModule = true → m.resolved = true) : m.newModuleValue.Counted := by
  intro isC
  obtain ⟨inList, out, -⟩ := counted isC
  refine ⟨?_, ?_, ?_⟩
  · intro loaded
    have := inList loaded
    simp only [JSModuleDef.newModuleValue]
    omega
  · intro gone
    have := (out gone).1
    omega
  · intro unresolved
    rw [show m.newModuleValue.resolved = m.resolved from rfl, resolved isC] at unresolved
    cases unresolved

-- A value of a C module is never its last reference in a live context.
theorem freeModuleValue_spec {m : JSModuleDef} (counted : m.Counted) (positive : 0 < m.values)
    (isC : m.isCModule = true) :
    m.freeModuleValue.Counted ∧ m.loaded = m.freeModuleValue.loaded := by
  obtain ⟨inList, out, unresolved⟩ := counted isC
  have loaded : m.loaded = true := by
    cases is : m.loaded with
    | true => rfl
    | false =>
      have := (out is).2
      omega
  have references := inList loaded
  have stays : m.freeModuleValue.loaded = true := by
    have left : m.references - 1 ≠ 0 := by omega
    simp [JSModuleDef.freeModuleValue, loaded, left]
  refine ⟨fun _ => ⟨?_, ?_, ?_⟩, loaded.trans stays.symm⟩
  · intro _
    simp only [JSModuleDef.freeModuleValue]
    omega
  · intro gone
    rw [stays] at gone
    cases gone
  · intro raw
    have := unresolved raw
    omega

theorem keeps_dispose {rt : Runtime} (valid : rt.Valid) (c : Nat) :
    Keeps rt { rt with
      contexts := rt.contexts.set c true
      modules := rt.modules.map fun m =>
        if m.context = c ∧ m.loaded = true then m.unload else m } := by
  have unmoved {i : Nat} {m' : JSModuleDef}
      (found : (rt.modules.map fun m =>
        if m.context = c ∧ m.loaded = true then m.unload else m)[i]? = some m') :
      ∃ m, rt.modules[i]? = some m ∧ m'.context = m.context ∧ m'.isCModule = m.isCModule ∧
      (m.context ≠ c → m' = m) := by
    rw [List.getElem?_map] at found
    obtain ⟨m, known, rfl⟩ := Option.map_eq_some_iff.mp found
    refine ⟨m, known, ?_⟩
    split
    · next gone => exact ⟨rfl, rfl, fun elsewhere => absurd gone.1 elsewhere⟩
    · exact ⟨rfl, rfl, fun _ => rfl⟩
  have elsewhere {d : Nat} (context : (rt.contexts.set c true)[d]? = some false) :
      d ≠ c ∧ rt.live d := by
    by_cases same : c = d
    · subst same
      rw [List.getElem?_set] at context
      simp at context
    · rw [List.getElem?_set_ne same] at context
      exact ⟨Ne.symm same, context⟩
  have place {i : Nat} {m : JSModuleDef} (known : rt.modules[i]? = some m) :
      ∃ m', (rt.modules.map fun m => if m.context = c ∧ m.loaded = true then m.unload else m)[i]? =
        some m' ∧ m'.isCModule = m.isCModule := by
    refine ⟨if m.context = c ∧ m.loaded = true then m.unload else m, ?_, ?_⟩
    · rw [List.getElem?_map, known]
      rfl
    · split <;> rfl
  constructor
  · constructor
    · intro i m' found context
      obtain ⟨m, known, sameContext, -, kept⟩ := unmoved found
      obtain ⟨apart, context⟩ := elsewhere context
      obtain rfl := kept (sameContext ▸ apart)
      exact valid.counted i m' known context
    · intro m' member
      obtain ⟨m, known, rfl⟩ := List.mem_map.mp member
      rw [List.length_set]
      split <;> exact valid.known m known
    · intro i held
      obtain ⟨m, known, isC⟩ := valid.held i held
      obtain ⟨m', found, kind⟩ := place known
      exact ⟨m', found, kind.trans isC⟩
    · intro i member
      obtain ⟨m, known, isGuest⟩ := valid.owned i member
      obtain ⟨m', found, kind⟩ := place known
      exact ⟨m', found, kind.trans isGuest⟩
  · intro i held
    obtain ⟨m, known, isC⟩ := valid.held i held
    obtain ⟨m', found, -⟩ := place known
    refine ⟨m', found, fun context => .inr ⟨held, m, known, ?_⟩⟩
    obtain ⟨before, known', sameContext, -, kept⟩ := unmoved found
    obtain rfl := Option.some.inj (known.symm.trans known')
    obtain ⟨apart, context⟩ := elsewhere context
    obtain rfl := kept (sameContext ▸ apart)
    exact ⟨context, rfl⟩

theorem keeps_newContext {rt : Runtime} (valid : rt.Valid) :
    Keeps rt { rt with contexts := rt.contexts ++ [false] } := by
  have before {i : Nat} {m : JSModuleDef} (found : rt.modules[i]? = some m)
      (context : (rt.contexts ++ [false])[m.context]? = some false) : rt.live m.context :=
    (List.getElem?_append_left (valid.known m (List.mem_of_getElem? found))).symm.trans context
  constructor
  · constructor
    · exact fun i m found context => valid.counted i m found (before found context)
    · intro m member
      have := valid.known m member
      simp only [List.length_append, List.length_singleton]
      omega
    · exact valid.held
    · exact valid.owned
  · intro i held
    obtain ⟨m, found, -⟩ := valid.held i held
    exact ⟨m, found, fun context => .inr ⟨held, m, found, before found context, rfl⟩⟩

theorem keeps_step {rt rt' : Runtime} {event : Event} (valid : rt.Valid)
    (steps : step rt event = some rt') (other : event ≠ .sweep) : Keeps rt rt' := by
  have same (i : Nat) (member : .evalInternal i ∈ rt.stack) : .evalInternal i ∈ rt.stack := member
  cases event with
  | newContext =>
    obtain rfl := Option.some.inj steps
    exact keeps_newContext valid
  | disposeContext c =>
    simp only [Definitions.step] at steps
    split at steps
    · obtain rfl := Option.some.inj steps
      exact keeps_dispose valid c
    · cases steps
  | newCModule c =>
    simp only [Definitions.step] at steps
    split at steps
    · next context =>
        obtain rfl := Option.some.inj steps
        refine valid.add context ?_ rfl ?_ fun i member => .inl member
        · exact fun _ => ⟨fun _ => rfl, nofun, fun _ => rfl⟩
        · intro i member
          rcases List.mem_cons.mp member with rfl | before
          · exact .inr ⟨rfl, rfl⟩
          · exact .inl before
    · cases steps
  | drop i =>
    obtain rfl := Option.some.inj steps
    constructor
    · exact ⟨valid.counted, valid.known, fun j member => valid.held j (List.mem_filter.mp member).1,
        valid.owned⟩
    · intro j member
      have held := (List.mem_filter.mp member).1
      obtain ⟨m, found, -⟩ := valid.held j held
      exact ⟨m, found, fun context => .inr ⟨held, m, found, context, rfl⟩⟩
  | use i =>
    simp only [Definitions.step] at steps
    split at steps
    · obtain rfl := Option.some.inj steps
      exact valid.stack same
    · cases steps
  | readModule c requests made =>
    simp only [Definitions.step] at steps
    split at steps
    · next context =>
        obtain rfl := Option.some.inj steps
        exact valid.add context nofun rfl (fun _ member => .inl member) fun _ member => .inl member
    · cases steps
  | newModuleValue i =>
    simp only [Definitions.step] at steps
    split at steps
    · cases steps
    · next m found =>
        split at steps
        · next meets =>
            obtain rfl := Option.some.inj steps
            refine valid.put found rfl rfl ?_ (fun _ _ => rfl) same
            exact fun context =>
              counted_newModuleValue (valid.counted i m found context) meets.1 meets.2
        · cases steps
  | freeModuleValue i =>
    simp only [Definitions.step] at steps
    split at steps
    · cases steps
    · next m found =>
        split at steps
        · next positive =>
            obtain rfl := Option.some.inj steps
            have spec (context : rt.live m.context) :=
              freeModuleValue_spec (valid.counted i m found context) positive
            refine valid.put found rfl rfl ?_ (fun isC context => (spec context isC).2) same
            exact fun context isC => (spec context isC).1 isC
        · cases steps
  | evalInternal c requests =>
    simp only [Definitions.step] at steps
    split at steps
    · next context =>
        obtain rfl := Option.some.inj steps
        refine valid.add context nofun rfl (fun _ member => .inl member) ?_
        intro i member
        simp only [Runtime.push, Runtime.add, List.mem_cons, reduceCtorEq, Frame.evalInternal.injEq,
          false_or] at member
        rcases member with rfl | before
        · exact .inr ⟨rfl, rfl⟩
        · exact .inl before
    · cases steps
  | resolveModule i =>
    simp only [Definitions.step] at steps
    split at steps
    · cases steps
    · next m found =>
        split at steps
        · obtain rfl := Option.some.inj steps
          refine valid.start found ?_
          intro j member
          simpa using member
        · cases steps
  | loadModule c =>
    simp only [Definitions.step] at steps
    split at steps
    · obtain rfl := Option.some.inj steps
      refine valid.stack ?_
      intro j member
      simpa using member
    · cases steps
  | load =>
    obtain ⟨c, _, rfl⟩ := Option.map_eq_some_iff.mp steps
    refine valid.stack ?_
    intro j member
    simpa using member
  | found i =>
    simp only [Definitions.step] at steps
    split at steps
    · next m _ found =>
        split at steps
        · exact keeps_answer valid found same steps
        · cases steps
    · cases steps
  | loaded i =>
    simp only [Definitions.step] at steps
    split at steps
    · next c rest m top found =>
        split at steps
        · refine keeps_answer valid found (fun j member => ?_) steps
          exact top ▸ List.mem_cons_of_mem _ member
        · cases steps
    · cases steps
  | missing =>
    simp only [Definitions.step] at steps
    split at steps
    · exact keeps_fail valid same steps
    · exact keeps_fail valid same steps
    · next c rest top =>
        refine keeps_fail valid (fun j member => ?_) steps
        exact top ▸ List.mem_cons_of_mem _ member
    · cases steps
  | done =>
    simp only [Definitions.step] at steps
    have below {frame : Frame} {rest : List Frame} (top : rt.stack = frame :: rest) (j : Nat)
        (member : .evalInternal j ∈ rest) : .evalInternal j ∈ rt.stack :=
      top ▸ List.mem_cons_of_mem _ member
    split at steps
    · next top =>
        obtain rfl := Option.some.inj steps
        exact valid.stack (below top)
    · next i rest top =>
        obtain ⟨m, found, rfl⟩ := Option.map_eq_some_iff.mp steps
        obtain ⟨_, known, isGuest⟩ := valid.owned i (top ▸ List.mem_cons_self)
        obtain rfl := Option.some.inj (found.symm.trans known)
        refine valid.put found rfl rfl ?_ (fun _ _ => rfl) (below top)
        exact fun _ isC => absurd isC (by simp [JSModuleDef.newModuleValue, isGuest])
    · next top =>
        obtain rfl := Option.some.inj steps
        exact valid.stack (below top)
    · next top =>
        obtain rfl := Option.some.inj steps
        exact valid.stack (below top)
    · cases steps
  | sweep => exact absurd rfl other

-- The loop of `js_free_modules` over a definition that is not resolved.
theorem valid_unload {rt : Runtime} (valid : rt.Valid) {i : Nat} {m : JSModuleDef}
    (found : rt.modules[i]? = some m) (loaded : m.loaded = true) (unresolved : m.resolved = false)
    {stack : List Frame} (frames : ∀ j, .evalInternal j ∈ stack → .evalInternal j ∈ rt.stack) :
    ({ rt.put i m.unload with stack } : Runtime).Valid := by
  have below : i < rt.modules.length := (List.getElem?_eq_some_iff.mp found).1
  have self : (rt.modules.set i m.unload)[i]? = some m.unload := List.getElem?_set_self below
  have other {j : Nat} (apart : i ≠ j) : (rt.modules.set i m.unload)[j]? = rt.modules[j]? :=
    List.getElem?_set_ne apart
  have place {j : Nat} {d : JSModuleDef} (known : rt.modules[j]? = some d) :
      ∃ d', (rt.modules.set i m.unload)[j]? = some d' ∧ d'.isCModule = d.isCModule := by
    by_cases same : i = j
    · subst same
      obtain rfl := Option.some.inj (found.symm.trans known)
      exact ⟨m.unload, self, rfl⟩
    · exact ⟨d, (other same).trans known, rfl⟩
  constructor
  · intro j d known context
    by_cases same : i = j
    · subst same
      obtain rfl := Option.some.inj (self.symm.trans known)
      intro isC
      obtain ⟨inList, -, raw⟩ := valid.counted i m found context isC
      have references := inList loaded
      have values := raw unresolved
      refine ⟨nofun, fun _ => ⟨?_, values⟩, fun _ => values⟩
      simp only [JSModuleDef.unload]
      omega
    · exact valid.counted j d ((other same).symm.trans known) context
  · intro d member
    rcases List.mem_or_eq_of_mem_set member with old | rfl
    · exact valid.known d old
    · exact valid.known m (List.mem_of_getElem? found)
  · intro j held
    obtain ⟨d, known, isC⟩ := valid.held j held
    obtain ⟨d', known', kind⟩ := place known
    exact ⟨d', known', kind.trans isC⟩
  · intro j member
    obtain ⟨d, known, isGuest⟩ := valid.owned j (frames j member)
    obtain ⟨d', known', kind⟩ := place known
    exact ⟨d', known', kind.trans isGuest⟩

-- The loop frees the definition of a `JSModule` exactly when it is not resolved.
theorem live_unload {rt : Runtime} (valid : rt.Valid) (live : rt.Live) {i : Nat} {m : JSModuleDef}
    (found : rt.modules[i]? = some m) (loaded : m.loaded = true) (unresolved : m.resolved = false)
    {stack : List Frame} :
    ({ rt.put i m.unload with stack } : Runtime).Live ↔
    (i ∈ rt.jsModules → ¬rt.live m.context) := by
  have below : i < rt.modules.length := (List.getElem?_eq_some_iff.mp found).1
  have self : (rt.modules.set i m.unload)[i]? = some m.unload := List.getElem?_set_self below
  constructor
  · intro after held context
    obtain ⟨d, known, positive⟩ := after i held
    obtain rfl := Option.some.inj (self.symm.trans known)
    obtain ⟨_, known, isC⟩ := valid.held i held
    obtain rfl := Option.some.inj (found.symm.trans known)
    obtain ⟨inList, -, raw⟩ := valid.counted i m found context isC
    have references := inList loaded
    have values := raw unresolved
    have alive : 0 < m.references - 1 := positive context
    omega
  · intro gone j held
    by_cases same : i = j
    · subst same
      exact ⟨m.unload, self, fun context => absurd context (gone held)⟩
    · obtain ⟨d, known, positive⟩ := live j held
      exact ⟨d, (List.getElem?_set_ne same).trans known, positive⟩

-- A step keeps the definitions of the host's `JSModule` objects exactly when it meets the
-- condition.
theorem live_step {rt rt' : Runtime} {event : Event} (valid : rt.Valid) (live : rt.Live)
    (steps : step rt event = some rt') : rt'.Live ↔ Meets rt event := by
  by_cases sweeps : event = .sweep
  · subst sweeps
    simp only [Definitions.step] at steps
    split at steps
    · next c i rest top =>
        obtain ⟨m, found, rfl⟩ := Option.map_eq_some_iff.mp steps
        have meets : Meets rt .sweep ↔
            (i ∈ rt.jsModules → rt.live m.context → m.resolved = true) := by
          constructor
          · exact fun all held => all c i rest top held m found
          · intro resolved c' i' rest' top' held m' found'
            obtain ⟨⟨rfl, rfl⟩, rfl⟩ : (c = c' ∧ i = i') ∧ rest = rest' := by simpa [top] using top'
            obtain rfl := Option.some.inj (found.symm.trans found')
            exact resolved held
        split
        · next drops =>
            rw [live_unload valid live found drops.1 drops.2, meets]
            simp [drops.2]
        · next stays =>
            refine iff_of_true live (meets.mpr fun held context => ?_)
            have loaded := valid.loaded live held found context
            cases resolved : m.resolved with
            | true => rfl
            | false => exact absurd ⟨loaded, resolved⟩ stays
    · cases steps
  · refine iff_of_true ((keeps_step valid steps sweeps).live valid live) ?_
    cases event with
    | sweep => exact absurd rfl sweeps
    | _ => trivial

theorem machine_valid : machine.Invariant (fun _ _ => True) Runtime.Valid := by
  refine ⟨⟨nofun, nofun, nofun, nofun⟩, ?_⟩
  intro rt rt' event valid _ steps
  by_cases sweeps : event = .sweep
  · subst sweeps
    simp only [machine, Definitions.step] at steps
    split at steps
    · next c i rest top =>
        obtain ⟨m, found, rfl⟩ := Option.map_eq_some_iff.mp steps
        have frames (j : Nat)
            (member : .evalInternal j ∈ Frame.sweeping c (rt.first c (i + 1)) :: rest) :
            .evalInternal j ∈ rt.stack := by
          rw [top]
          simpa using member
        split
        · next drops => exact valid_unload valid found drops.1 drops.2 frames
        · exact (valid.stack frames).valid
    · cases steps
  · exact (keeps_step valid steps sweeps).valid

/-- The host has the `JSModule` of a C module that no import has got to, and the request of a
precompiled module could not be loaded. -/
def dangling : Runtime where
  contexts := [false]
  modules := [⟨0, true, 0, false, false, 0, 0⟩, ⟨0, false, 1, true, true, 2, 1⟩]
  jsModules := [0]
  stack := [.sweeping 0 (some 1)]

end QuickJSBun.Modules.Definitions
