import QuickJSBun.Library.Machine
import QuickJSBun.Library.Utf8

/-! Exports of C modules: `JSModule.addExport`, `setExport` and `getNamespace`, and what the
engine does with the entries when it instantiates, links and reads modules.

An instantiation walks the graph of requested modules and may stop at any allocation.
Host code may run between any two of its steps, because the engine collects garbage there.
Every read of a variable reference and every error of a call is written to a log.
-/

set_option autoImplicit false

namespace QuickJSBun.Modules.Exports

open Library

/-- The value of an exported variable; `none` is undefined. -/
structure JSVarRef where
  value : Option Nat
  deriving DecidableEq

/-- A local export; a `varRef` that is `none` is NULL. -/
structure JSExportEntry where
  exportName : Bytes
  varRef : Option JSVarRef
  deriving DecidableEq

/-- The entries are those of a C module. `reached` is not in the source: the names of the entries
that an instantiation has got to. -/
structure JSModuleDef where
  isCModule : Bool
  exportEntries : List JSExportEntry
  reqModules : List Nat
  funcCreated : Bool
  linked : Bool
  moduleNs : Bool
  reached : List Bytes
  deriving DecidableEq

inductive Access where
  /-- A call threw an error of the guest. -/
  | error
  /-- A call failed and left no exception. -/
  | noError
  /-- The store of `JS_SetModuleExport` or the namespace builder took the reference of an entry. -/
  | varRef (varRef : Option JSVarRef)
  deriving DecidableEq

inductive Frame where
  /-- `js_create_module_function`, with the modules it still has to visit. -/
  | creating (todo : List Nat)
  /-- `js_link_module` and the evaluation. -/
  | linking (root : Nat)
  /-- `js_build_module_ns`, which makes the object first. -/
  | building (m : Nat)
  deriving DecidableEq

structure Runtime where
  modules : List JSModuleDef
  stack : List Frame
  log : List Access
  deriving DecidableEq

/-! ### One module -/

/-- `cstring`; a text with a NUL is refused. -/
def cstring (name : Text) : Option Bytes := if 0 ∈ name then none else some (encode name)

def JSModuleDef.findExportEntry (m : JSModuleDef) (name : Bytes) : Option JSExportEntry :=
  m.exportEntries.find? (·.exportName == name)

/-- `JS_AddModuleExport`, which does not look at `func_created`; `made` tells whether there is
memory. -/
def JSModuleDef.addExport (m : JSModuleDef) (name : Bytes) (made : Bool) : Option JSModuleDef :=
  match m.findExportEntry name with
  | some _ => none
  | none =>
    if made then some { m with exportEntries := m.exportEntries ++ [⟨name, none⟩] } else none

/-- `set_value` of the entry of a name. -/
def setValue (name : Bytes) (value : Nat) (entries : List JSExportEntry) : List JSExportEntry :=
  entries.map fun entry =>
    if entry.exportName = name then { entry with varRef := entry.varRef.map fun _ => ⟨some value⟩ }
      else entry

/-- `JS_SetModuleExport`; `made` tells whether there is memory for the atom. -/
def JSModuleDef.setModuleExport (m : JSModuleDef) (name : Bytes) (value : Nat) (made : Bool) :
    Access × JSModuleDef :=
  if made then
    match m.findExportEntry name with
    | none => (.noError, m)
    | some entry =>
      (.varRef entry.varRef, { m with exportEntries := setValue name value m.exportEntries })
  else (.error, m)

def JSModuleDef.qjsBunSetModuleExport (m : JSModuleDef) (name : Bytes) (value : Nat) (made : Bool) :
    Access × JSModuleDef :=
  if m.funcCreated then m.setModuleExport name value made else (.error, m)

/-- The loop of `js_create_module_function`; it stops after `made` references. -/
def createVarRefs : Nat → List JSExportEntry → List JSExportEntry
  | 0, entries => entries
  | _, [] => []
  | made + 1, entry :: entries => { entry with varRef := some ⟨none⟩ } :: createVarRefs made entries

/-- `js_create_module_function` without the dependencies: whether there was memory, and the
module. -/
def JSModuleDef.createFunction (m : JSModuleDef) (made : Nat) : Bool × JSModuleDef :=
  if m.isCModule then
    let entries := createVarRefs made m.exportEntries
    let reached := (m.exportEntries.take made).map (·.exportName) ++ m.reached
    if m.exportEntries.length ≤ made then
      (true, { m with exportEntries := entries, funcCreated := true, reached })
    else (false, { m with exportEntries := entries, reached })
  else if made = 0 then (false, m)
  else (true, { m with funcCreated := true })

/-! ### Runs -/

/-- The modules that are requested, in any number of steps, by some modules. -/
def Runtime.requested (rt : Runtime) : Nat → List Nat → List Nat
  | 0, found => found
  | steps + 1, found =>
    rt.requested steps (found.flatMap (fun m => (rt.modules[m]?).elim [] (·.reqModules)) ∪ found)

def Frame.isCreating : Frame → Bool
  | .creating _ => true
  | _ => false

/-- How `js_build_module_ns` ends: before it reads the entries, after, or with a namespace. -/
inductive Outcome where
  | early
  | late
  | done
  deriving DecidableEq

inductive Event where
  | newCModule
  /-- A module of the guest whose requested modules have been resolved. -/
  | newModule (requests : List Nat)
  | addExport (m : Nat) (name : Text) (made : Bool)
  | setExport (m : Nat) (name : Text) (value : Nat) (made : Bool)
  | getNamespace (m : Nat)
  /-- `JS_EvalFunctionInternal` for a module. -/
  | evaluate (root : Nat)
  /-- The next module of `js_create_module_function`, with memory for so many references. -/
  | create (made : Nat)
  /-- `js_inner_module_linking` comes to a module. -/
  | link (m : Nat)
  /-- The linking or the evaluation is over; a failure takes modules back to unlinked. -/
  | finish (unlinked : List Nat)
  /-- `JS_GetModuleNamespace` for an import or a re-export of a whole C module. -/
  | importNamespace (m : Nat)
  /-- The namespace of another module has an export of this C module. -/
  | reexport (m : Nat) (name : Bytes)
  /-- The next step of `js_build_module_ns`. -/
  | build (outcome : Outcome)
  deriving DecidableEq

/-- A module a `JSModule` can stand for. -/
def Runtime.cModule (rt : Runtime) (m : Nat) : Option JSModuleDef :=
  (rt.modules[m]?).filter (·.isCModule)

def Runtime.put (rt : Runtime) (m : Nat) (module : JSModuleDef) : Runtime :=
  { rt with modules := rt.modules.set m module }

def Runtime.write (rt : Runtime) (accesses : List Access) : Runtime :=
  { rt with log := accesses ++ rt.log }

def Runtime.push (rt : Runtime) (frame : Frame) : Runtime := { rt with stack := frame :: rt.stack }

def Runtime.getModuleNamespace (rt : Runtime) (m : Nat) (module : JSModuleDef) : Runtime :=
  if module.moduleNs then rt else rt.push (.building m)

def step (rt : Runtime) : Event → Option Runtime
  | .newCModule =>
    some { rt with modules := rt.modules ++ [⟨true, [], [], false, false, false, []⟩] }
  | .newModule requests =>
    some { rt with modules := rt.modules ++ [⟨false, [], requests, false, false, false, []⟩] }
  | .addExport m name made =>
    (rt.cModule m).map fun module =>
      match cstring name with
      | none => rt
      | some name =>
        match module.addExport name made with
        | none => rt.write [.error]
        | some module => rt.put m module
  | .setExport m name value made =>
    (rt.cModule m).map fun module =>
      match cstring name with
      | none => rt
      | some name =>
        let (access, module) := module.qjsBunSetModuleExport name value made
        (rt.put m module).write [access]
  | .getNamespace m =>
    (rt.cModule m).map fun module =>
      if module.funcCreated then rt.getModuleNamespace m module else rt.write [.error]
  | .evaluate root =>
    (rt.modules[root]?).map fun _ => (rt.push (.linking root)).push (.creating [root])
  | .create made =>
    match rt.stack with
    | .creating [] :: rest => some { rt with stack := rest }
    | .creating (m :: todo) :: rest =>
      (rt.modules[m]?).map fun module =>
        if module.funcCreated then { rt with stack := .creating todo :: rest }
        else
          match module.createFunction made with
          | (true, created) =>
            { rt.put m created with stack := .creating module.reqModules :: .creating todo :: rest }
          | (false, created) =>
            { rt.put m created with stack := (rest.dropWhile Frame.isCreating).tail }
    | _ => none
  | .link m =>
    match rt.stack with
    | .linking root :: _ =>
      if m ∈ rt.requested rt.modules.length [root] then
        (rt.modules[m]?).map fun module => rt.put m { module with linked := true }
      else none
    | _ => none
  | .finish unlinked =>
    match rt.stack with
    | .linking _ :: rest =>
      some { rt with
        stack := rest
        modules := rt.modules.mapIdx fun i module =>
          if i ∈ unlinked then { module with linked := false } else module }
    | _ => none
  | .importNamespace m =>
    (rt.cModule m).bind fun module =>
      if module.linked then some (rt.getModuleNamespace m module) else none
  | .reexport m name =>
    (rt.cModule m).bind fun module =>
      if module.linked then
        (module.findExportEntry name).map fun entry => rt.write [.varRef entry.varRef]
      else none
  | .build outcome =>
    match rt.stack with
    | .building m :: rest =>
      (rt.modules[m]?).map fun module =>
        match outcome with
        | .early => { rt.write [.error] with stack := rest }
        | .late =>
          { rt.write (.error :: module.exportEntries.map (.varRef ·.varRef)) with stack := rest }
        | .done =>
          { (rt.put m { module with moduleNs := true }).write
              (module.exportEntries.map (.varRef ·.varRef)) with stack := rest }
    | _ => none

def machine : Machine Runtime Event := ⟨⟨[], [], []⟩, step⟩

/-! ### When a step is right -/

/-- No call failed without an exception, and none took a reference that is not there. -/
def Runtime.Clean (rt : Runtime) : Prop :=
  ∀ access ∈ rt.log, access ≠ .noError ∧ access ≠ .varRef none

/-- The exports a step reads were there when an instantiation of their module got to them. -/
def Meets (rt : Runtime) : Event → Prop
  | .setExport m name _ made =>
    ∀ module, rt.cModule m = some module → module.funcCreated = true → made = true →
      ∀ bytes, cstring name = some bytes → bytes ∈ module.reached
  | .reexport m name => ∀ module, rt.cModule m = some module → name ∈ module.reached
  | .build outcome =>
    outcome ≠ .early → ∀ m rest, rt.stack = .building m :: rest →
      ∀ module, rt.modules[m]? = some module →
      ∀ entry ∈ module.exportEntries, entry.exportName ∈ module.reached
  | _ => True

def Runtime.built (rt : Runtime) : Option Nat :=
  match rt.stack with
  | .building m :: _ => some m
  | _ => none

theorem meets_build {rt : Runtime} {outcome : Outcome} : Meets rt (.build outcome) ↔
    (outcome ≠ .early → ∀ m ∈ rt.built, ∀ module ∈ rt.modules[m]?,
      ∀ entry ∈ module.exportEntries, entry.exportName ∈ module.reached) := by
  constructor
  · intro meets read m next
    unfold Runtime.built at next
    split at next
    · next top => exact meets read m _ (Option.some.inj next ▸ top)
    · cases next
  · intro meets read m rest top
    apply meets read m
    rw [Runtime.built, top]
    exact Option.mem_some_self m

instance (rt : Runtime) : (event : Event) → Decidable (Meets rt event)
  | .setExport m name _ made =>
    inferInstanceAs (Decidable (∀ module ∈ rt.cModule m, module.funcCreated = true →
      made = true → ∀ bytes ∈ cstring name, bytes ∈ module.reached))
  | .reexport m name => inferInstanceAs (Decidable (∀ module ∈ rt.cModule m, name ∈ module.reached))
  | .build _ => decidable_of_iff _ meets_build.symm
  | .newCModule | .newModule _ | .addExport _ _ _ | .getNamespace _ | .evaluate _ | .create _
  | .link _ | .finish _ | .importNamespace _ => .isTrue trivial

/-! ### What every state satisfies -/

/-- The entries with a reference are those an instantiation got to. -/
structure JSModuleDef.Valid (m : JSModuleDef) : Prop where
  distinct : (m.exportEntries.map (·.exportName)).Nodup
  declared : ∀ name ∈ m.reached, name ∈ m.exportEntries.map (·.exportName)
  reached : ∀ entry ∈ m.exportEntries, entry.varRef.isSome = true ↔ entry.exportName ∈ m.reached

def Runtime.Valid (rt : Runtime) : Prop := ∀ m ∈ rt.modules, m.Valid

theorem find_spec {m : JSModuleDef} {name : Bytes} {entry : JSExportEntry}
    (found : m.findExportEntry name = some entry) :
    entry ∈ m.exportEntries ∧ entry.exportName = name :=
  ⟨List.mem_of_find?_eq_some found, by simpa using List.find?_some found⟩

theorem find_none {m : JSModuleDef} {name : Bytes} (missing : m.findExportEntry name = none) :
    name ∉ m.exportEntries.map (·.exportName) := by
  intro member
  obtain ⟨entry, there, named⟩ := List.mem_map.mp member
  have other := List.find?_eq_none.mp missing entry there
  simp [named] at other

theorem JSModuleDef.Valid.addExport {m m' : JSModuleDef} (valid : m.Valid) {name : Bytes}
    {made : Bool} (adds : m.addExport name made = some m') : m'.Valid := by
  unfold JSModuleDef.addExport at adds
  split at adds
  · cases adds
  · next missing =>
      split at adds
      · obtain rfl := Option.some.inj adds
        have new := find_none missing
        constructor
        · rw [List.map_append, List.nodup_append]
          refine ⟨valid.distinct, List.nodup_singleton _, ?_⟩
          intro first old second last same
          obtain rfl : second = name := List.mem_singleton.mp last
          exact new (same ▸ old)
        · intro other member
          rw [List.map_append]
          exact List.mem_append_left _ (valid.declared other member)
        · intro entry member
          rcases List.mem_append.mp member with old | last
          · exact valid.reached entry old
          · obtain rfl := List.mem_singleton.mp last
            constructor
            · nofun
            · exact fun inReached => absurd (valid.declared _ inReached) new
      · cases adds

theorem map_setValue (name : Bytes) (value : Nat) (entries : List JSExportEntry) :
    (setValue name value entries).map (·.exportName) = entries.map (·.exportName) := by
  rw [setValue, List.map_map]
  apply List.map_congr_left
  intro entry _
  simp only [Function.comp_apply]
  split <;> rfl

theorem JSModuleDef.Valid.setValue {m : JSModuleDef} (valid : m.Valid) (name : Bytes)
    (value : Nat) :
    ({ m with exportEntries := Exports.setValue name value m.exportEntries } :
      JSModuleDef).Valid := by
  constructor
  · rw [map_setValue]
    exact valid.distinct
  · rw [map_setValue]
    exact valid.declared
  · intro entry member
    obtain ⟨before, there, rfl⟩ := List.mem_map.mp member
    have kept := valid.reached before there
    split
    · simpa using kept
    · exact kept

theorem JSModuleDef.Valid.setModuleExport {m : JSModuleDef} (valid : m.Valid) (name : Bytes)
    (value : Nat) (made : Bool) : (m.qjsBunSetModuleExport name value made).2.Valid := by
  unfold JSModuleDef.qjsBunSetModuleExport JSModuleDef.setModuleExport
  split
  · split
    · split
      · exact valid
      · exact valid.setValue name value
    · exact valid
  · exact valid

theorem createVarRefs_eq (made : Nat) (entries : List JSExportEntry) :
    createVarRefs made entries =
      (entries.take made).map (fun entry => { entry with varRef := some ⟨none⟩ }) ++
        entries.drop made := by
  induction made generalizing entries with
  | zero => simp [createVarRefs]
  | succ made ih =>
    cases entries with
    | nil => simp [createVarRefs]
    | cons entry entries => simp [createVarRefs, ih]

theorem map_createVarRefs (made : Nat) (entries : List JSExportEntry) :
    (createVarRefs made entries).map (·.exportName) = entries.map (·.exportName) := by
  have names : (createVarRefs made entries).map (·.exportName) =
      (entries.take made).map (·.exportName) ++ (entries.drop made).map (·.exportName) := by
    simp [createVarRefs_eq, Function.comp_def]
  rw [names, ← List.map_append, List.take_append_drop]

-- An instantiation reaches the entries it makes a reference for, and no other.
theorem JSModuleDef.Valid.createVarRefs {m : JSModuleDef} (valid : m.Valid) (made : Nat) :
    ({ m with
      exportEntries := Exports.createVarRefs made m.exportEntries
      reached := (m.exportEntries.take made).map (·.exportName) ++ m.reached } :
        JSModuleDef).Valid := by
  constructor
  · rw [map_createVarRefs]
    exact valid.distinct
  · rw [map_createVarRefs]
    intro name member
    rcases List.mem_append.mp member with new | old
    · exact (List.take_sublist _ _).map _ |>.subset new
    · exact valid.declared name old
  · intro entry member
    rw [createVarRefs_eq] at member
    rcases List.mem_append.mp member with made_ | left
    · obtain ⟨before, there, rfl⟩ := List.mem_map.mp made_
      have name := List.mem_map_of_mem (f := (·.exportName)) there
      exact ⟨fun _ => List.mem_append_left _ name, fun _ => rfl⟩
    · have apart : entry.exportName ∉ (m.exportEntries.take made).map (·.exportName) := by
        intro taken
        have distinct := valid.distinct
        rw [← List.take_append_drop made m.exportEntries, List.map_append,
          List.nodup_append] at distinct
        exact distinct.2.2 _ taken _ (List.mem_map_of_mem left) rfl
      rw [List.mem_append, or_iff_right apart]
      exact valid.reached entry (List.mem_of_mem_drop left)

theorem JSModuleDef.Valid.createFunction {m : JSModuleDef} (valid : m.Valid) (made : Nat) :
    (m.createFunction made).2.Valid := by
  have created := valid.createVarRefs made
  unfold JSModuleDef.createFunction
  split
  · split
    · exact ⟨created.distinct, created.declared, created.reached⟩
    · exact created
  · split
    · exact valid
    · exact ⟨valid.distinct, valid.declared, valid.reached⟩

theorem Runtime.Valid.put {rt : Runtime} (valid : rt.Valid) {m : Nat} {module : JSModuleDef}
    (new : module.Valid) : (rt.put m module).Valid := by
  intro other member
  rcases List.mem_or_eq_of_mem_set member with old | rfl
  · exact valid other old
  · exact new

theorem Runtime.Valid.append {rt : Runtime} (valid : rt.Valid) {module : JSModuleDef}
    (new : module.Valid) : ({ rt with modules := rt.modules ++ [module] } : Runtime).Valid := by
  intro other member
  rcases List.mem_append.mp member with old | last
  · exact valid other old
  · exact List.mem_singleton.mp last ▸ new

theorem valid_new (isCModule : Bool) (requests : List Nat) :
    (⟨isCModule, [], requests, false, false, false, []⟩ : JSModuleDef).Valid :=
  ⟨List.nodup_nil, nofun, nofun⟩

theorem cModule_spec {rt : Runtime} {m : Nat} {module : JSModuleDef}
    (found : rt.cModule m = some module) : rt.modules[m]? = some module ∧ module ∈ rt.modules := by
  have known := (Option.filter_eq_some_iff.mp found).1
  exact ⟨known, List.mem_of_getElem? known⟩

theorem Runtime.Valid.getModuleNamespace {rt : Runtime} (valid : rt.Valid) (m : Nat)
    (module : JSModuleDef) : (rt.getModuleNamespace m module).Valid := by
  unfold Runtime.getModuleNamespace
  split <;> exact valid

theorem Runtime.Valid.step {rt rt' : Runtime} {event : Event} (valid : rt.Valid)
    (steps : step rt event = some rt') : rt'.Valid := by
  cases event with
  | newCModule =>
    obtain rfl := Option.some.inj steps
    exact valid.append (valid_new true [])
  | newModule requests =>
    obtain rfl := Option.some.inj steps
    exact valid.append (valid_new false requests)
  | addExport m name made =>
    obtain ⟨module, found, rfl⟩ := Option.map_eq_some_iff.mp steps
    split
    · exact valid
    · split
      · exact valid
      · next adds => exact valid.put ((valid module (cModule_spec found).2).addExport adds)
  | setExport m name value made =>
    obtain ⟨module, found, rfl⟩ := Option.map_eq_some_iff.mp steps
    split
    · exact valid
    · next bytes _ =>
        exact valid.put ((valid module (cModule_spec found).2).setModuleExport bytes value made)
  | getNamespace m =>
    obtain ⟨module, found, rfl⟩ := Option.map_eq_some_iff.mp steps
    split
    · exact valid.getModuleNamespace m module
    · exact valid
  | evaluate root =>
    obtain ⟨module, found, rfl⟩ := Option.map_eq_some_iff.mp steps
    exact valid
  | create made =>
    simp only [Exports.step] at steps
    split at steps
    · obtain rfl := Option.some.inj steps
      exact valid
    · next m todo rest top =>
        obtain ⟨module, found, rfl⟩ := Option.map_eq_some_iff.mp steps
        have created := (valid module (List.mem_of_getElem? found)).createFunction made
        split
        · exact valid
        · split
          · next result =>
              rw [result] at created
              exact valid.put created
          · next result =>
              rw [result] at created
              exact valid.put created
    · cases steps
  | link m =>
    simp only [Exports.step] at steps
    split at steps
    · split at steps
      · obtain ⟨module, found, rfl⟩ := Option.map_eq_some_iff.mp steps
        have old := valid module (List.mem_of_getElem? found)
        exact valid.put ⟨old.distinct, old.declared, old.reached⟩
      · cases steps
    · cases steps
  | finish unlinked =>
    simp only [Exports.step] at steps
    split at steps
    · obtain rfl := Option.some.inj steps
      intro module member
      obtain ⟨i, below, rfl⟩ := List.mem_mapIdx.mp member
      have old := valid _ (List.getElem_mem below)
      split
      · exact ⟨old.distinct, old.declared, old.reached⟩
      · exact old
    · cases steps
  | importNamespace m =>
    obtain ⟨module, found, steps⟩ := Option.bind_eq_some_iff.mp steps
    split at steps
    · obtain rfl := Option.some.inj steps
      exact valid.getModuleNamespace m module
    · cases steps
  | reexport m name =>
    obtain ⟨module, found, steps⟩ := Option.bind_eq_some_iff.mp steps
    split at steps
    · obtain ⟨entry, _, rfl⟩ := Option.map_eq_some_iff.mp steps
      exact valid
    · cases steps
  | build outcome =>
    simp only [Exports.step] at steps
    split at steps
    · next m rest top =>
        obtain ⟨module, found, rfl⟩ := Option.map_eq_some_iff.mp steps
        cases outcome with
        | early => exact valid
        | late => exact valid
        | done =>
          have old := valid module (List.mem_of_getElem? found)
          exact valid.put ⟨old.distinct, old.declared, old.reached⟩
    · cases steps

theorem machine_valid : machine.Invariant (fun _ _ => True) Runtime.Valid :=
  ⟨nofun, fun valid _ steps => valid.step steps⟩

/-! ### Clean runs -/

-- An entry that is there and a reference that is there.
def Access.Right (access : Access) : Prop := access ≠ .noError ∧ access ≠ .varRef none

theorem clean_write (rt : Runtime) (accesses : List Access) :
    (rt.write accesses).Clean ↔ rt.Clean ∧ ∀ access ∈ accesses, access.Right := by
  simp only [Runtime.Clean, Runtime.write, List.mem_append, or_imp, forall_and, Access.Right]
  tauto

theorem right_error : Access.error.Right := ⟨nofun, nofun⟩

theorem right_varRef {varRef : Option JSVarRef} :
    (Access.varRef varRef).Right ↔ varRef.isSome = true := by
  cases varRef <;> simp [Access.Right]

-- What `qjs_bun_set_module_export` answers is right exactly when an instantiation got to the
-- export.
theorem right_setModuleExport {m : JSModuleDef} (valid : m.Valid) (name : Bytes) (value : Nat)
    (made : Bool) :
    (m.qjsBunSetModuleExport name value made).1.Right ↔
    (m.funcCreated = true → made = true → name ∈ m.reached) := by
  unfold JSModuleDef.qjsBunSetModuleExport JSModuleDef.setModuleExport
  split
  · next created =>
      split
      · next allocated =>
          split
          · next missing =>
              constructor
              · exact fun right => absurd rfl right.1
              · intro reached
                exact absurd (valid.declared name (reached created allocated)) (find_none missing)
          · next entry found =>
              obtain ⟨there, rfl⟩ := find_spec found
              rw [right_varRef, valid.reached entry there]
              exact ⟨fun reached _ _ => reached, fun reached => reached created allocated⟩
      · next failed => exact ⟨fun _ _ allocated => absurd allocated failed, fun _ => right_error⟩
  · next raw => exact ⟨fun _ created => absurd created raw, fun _ => right_error⟩

theorem right_entries {m : JSModuleDef} (valid : m.Valid) :
    (∀ access ∈ m.exportEntries.map (Access.varRef ·.varRef), access.Right) ↔
      ∀ entry ∈ m.exportEntries, entry.exportName ∈ m.reached := by
  rw [List.forall_mem_map]
  apply forall₂_congr
  intro entry member
  rw [right_varRef, valid.reached entry member]

theorem clean_getModuleNamespace (rt : Runtime) (m : Nat) (module : JSModuleDef) :
    (rt.getModuleNamespace m module).Clean ↔ rt.Clean := by
  unfold Runtime.getModuleNamespace
  split <;> rfl

-- A step stays clean exactly when it meets the condition.
theorem clean_step {rt rt' : Runtime} {event : Event} (valid : rt.Valid)
    (steps : step rt event = some rt') : rt'.Clean ↔ rt.Clean ∧ Meets rt event := by
  have quiet (logs : rt'.log = rt.log) (meets : Meets rt event) : rt'.Clean ↔ rt.Clean ∧
      Meets rt event := by
    simp only [Runtime.Clean, logs]
    exact ⟨fun clean => ⟨clean, meets⟩, And.left⟩
  cases event with
  | newCModule =>
    obtain rfl := Option.some.inj steps
    exact quiet rfl trivial
  | newModule requests =>
    obtain rfl := Option.some.inj steps
    exact quiet rfl trivial
  | addExport m name made =>
    obtain ⟨module, found, rfl⟩ := Option.map_eq_some_iff.mp steps
    split
    · exact ⟨fun clean => ⟨clean, trivial⟩, And.left⟩
    · split
      · rw [clean_write]
        simp [right_error, Meets]
      · exact ⟨fun clean => ⟨clean, trivial⟩, And.left⟩
  | setExport m name value made =>
    obtain ⟨module, found, rfl⟩ := Option.map_eq_some_iff.mp steps
    split
    · next refused =>
        refine ⟨fun clean => ⟨clean, ?_⟩, And.left⟩
        intro _ _ _ _ bytes is
        rw [refused] at is
        cases is
    · next bytes is =>
        have right := right_setModuleExport (valid module (cModule_spec found).2) bytes value made
        rw [clean_write]
        apply and_congr Iff.rfl
        rw [List.forall_mem_singleton, right]
        constructor
        · intro reached other same created allocated text isText
          obtain rfl := Option.some.inj (found.symm.trans same)
          obtain rfl := Option.some.inj (is.symm.trans isText)
          exact reached created allocated
        · exact fun meets created allocated => meets module found created allocated bytes is
  | getNamespace m =>
    obtain ⟨module, found, rfl⟩ := Option.map_eq_some_iff.mp steps
    split
    · rw [clean_getModuleNamespace]
      simp [Meets]
    · rw [clean_write]
      simp [right_error, Meets]
  | evaluate root =>
    obtain ⟨module, found, rfl⟩ := Option.map_eq_some_iff.mp steps
    exact quiet rfl trivial
  | create made =>
    simp only [Exports.step] at steps
    split at steps
    · obtain rfl := Option.some.inj steps
      exact quiet rfl trivial
    · obtain ⟨module, found, rfl⟩ := Option.map_eq_some_iff.mp steps
      refine quiet ?_ trivial
      split
      · rfl
      · split <;> rfl
    · cases steps
  | link m =>
    simp only [Exports.step] at steps
    split at steps
    · split at steps
      · obtain ⟨module, found, rfl⟩ := Option.map_eq_some_iff.mp steps
        exact quiet rfl trivial
      · cases steps
    · cases steps
  | finish unlinked =>
    simp only [Exports.step] at steps
    split at steps
    · obtain rfl := Option.some.inj steps
      exact quiet rfl trivial
    · cases steps
  | importNamespace m =>
    obtain ⟨module, found, steps⟩ := Option.bind_eq_some_iff.mp steps
    split at steps
    · obtain rfl := Option.some.inj steps
      rw [clean_getModuleNamespace]
      simp [Meets]
    · cases steps
  | reexport m name =>
    obtain ⟨module, found, steps⟩ := Option.bind_eq_some_iff.mp steps
    split at steps
    · obtain ⟨entry, there, rfl⟩ := Option.map_eq_some_iff.mp steps
      obtain ⟨member, rfl⟩ := find_spec there
      rw [clean_write, List.forall_mem_singleton, right_varRef,
        (valid module (cModule_spec found).2).reached entry member]
      apply and_congr Iff.rfl
      constructor
      · intro reached other same
        obtain rfl := Option.some.inj (found.symm.trans same)
        exact reached
      · exact fun meets => meets module found
    · cases steps
  | build outcome =>
    simp only [Exports.step] at steps
    split at steps
    · next m rest top =>
        obtain ⟨module, found, rfl⟩ := Option.map_eq_some_iff.mp steps
        have entries := right_entries (valid module (List.mem_of_getElem? found))
        have named (read : outcome ≠ .early) : Meets rt (.build outcome) ↔
            ∀ entry ∈ module.exportEntries, entry.exportName ∈ module.reached := by
          constructor
          · exact fun meets => meets read m rest top module found
          · intro reached _ m' rest' top' module' found'
            obtain ⟨⟨rfl⟩, rfl⟩ := List.cons.inj (top.symm.trans top')
            obtain rfl := Option.some.inj (found.symm.trans found')
            exact reached
        cases outcome with
        | early =>
          have clean := clean_write rt [.error]
          simp only [List.forall_mem_singleton, right_error, and_true] at clean
          exact ⟨fun after => ⟨clean.mp after, fun other => absurd rfl other⟩, fun before =>
            clean.mpr before.1⟩
        | late =>
          have clean := clean_write rt (.error :: module.exportEntries.map (.varRef ·.varRef))
          simp only [List.forall_mem_cons, right_error, true_and] at clean
          rw [named nofun, ← entries]
          exact clean
        | done =>
          have clean := clean_write (rt.put m { module with moduleNs := true })
            (module.exportEntries.map (.varRef ·.varRef))
          rw [named nofun, ← entries]
          exact clean
    · cases steps

/-- A run is clean exactly when each of its steps reads only exports that an instantiation of their
module got to. -/
theorem exports_bound {rt : Runtime} :
    machine.Reaches Meets rt ↔ machine.Reaches (fun _ _ => True) rt ∧ rt.Clean :=
  Machine.reaches_iff_clean machine_valid nofun fun valid steps => clean_step valid steps

/-- Exports that are set before the module has its references, after, and by a name with a NUL; a
namespace that fails once and is built again; and a late export that nobody reads. -/
theorem exports_bound_namespace : ∃ rt, machine.Reaches Meets rt ∧ rt.Clean ∧ rt.log.length = 8 ∧
    rt.modules.map (·.moduleNs) = [true, false] := by
  let events : List Event :=
    [.newCModule, .addExport 0 [97] true, .addExport 0 [98] true, .setExport 0 [97] 6 true,
      .newModule [0], .evaluate 1, .create 1, .create 2, .create 0, .create 0, .create 0,
      .setExport 0 [97] 7 true, .setExport 0 [97, 0] 7 true, .link 0, .importNamespace 0,
      .build .late, .reexport 0 [98], .finish [], .getNamespace 0, .build .done,
      .addExport 0 [99] true, .getNamespace 0]
  obtain ⟨rt, runs, length, made⟩ : ∃ rt, machine.run Meets machine.init events = some rt ∧
      rt.log.length = 8 ∧ rt.modules.map (·.moduleNs) = [true, false] := ⟨_, rfl, rfl, rfl⟩
  have reaches : machine.Reaches Meets rt := Machine.Reaches.init.run events runs
  exact ⟨rt, reaches, (exports_bound.mp reaches).2, length, made⟩

instance (rt : Runtime) : Decidable rt.Clean :=
  inferInstanceAs (Decidable (∀ access ∈ rt.log, access ≠ .noError ∧ access ≠ .varRef none))

/-- An export that is declared after the instantiation, and set. -/
def lateExport : List Event :=
  [.newCModule, .addExport 0 [97] true, .evaluate 0, .create 1, .create 0, .create 0, .link 0,
    .finish [], .addExport 0 [98] true, .setExport 0 [98] 7 true]

-- A name that was never declared.
def undeclared : List Event :=
  [.newCModule, .addExport 0 [97] true, .evaluate 0, .create 1, .create 0, .create 0,
    .setExport 0 [98] 7 true]

/-- A module that imports the namespace of a C module is imported again after the memory for the
reference of an export was missing. -/
def retried : List Event :=
  [.newCModule, .addExport 0 [97] true, .newModule [0], .evaluate 1, .create 1, .create 0,
    .evaluate 1, .create 0, .create 0, .link 0, .importNamespace 0, .build .done]

-- A run that is not clean.
def Faulty (events : List Event) : Prop :=
  ∃ rt, machine.run (fun _ _ => True) machine.init events = some rt ∧ ¬rt.Clean

theorem faulty_of_run {events : List Event} {rt : Runtime}
    (runs : machine.run (fun _ _ => True) machine.init events = some rt) (faulty : ¬rt.Clean) :
    Faulty events :=
  ⟨rt, runs, faulty⟩

theorem exports_unbound : Faulty lateExport ∧ Faulty undeclared ∧ Faulty retried := by
  refine ⟨?_, ?_, ?_⟩
  · exact faulty_of_run rfl (by decide)
  · exact faulty_of_run rfl (by decide)
  · exact faulty_of_run rfl (by decide)

end QuickJSBun.Modules.Exports
