import QuickJSBun.Library.Counted

/-! `qjs_bun_get_data_property`: a property of an object or of the ordinary objects it inherits from, read
without calling getters. The loop owns a reference to the object it is at, and looks past
an object only while the next one is ordinary.
-/

set_option autoImplicit false

namespace QuickJSBun.Engine.DataProperty

open Library

abbrev Pointer := Nat

abbrev JSAtom := UInt32

def isTaggedInt (atom : JSAtom) : Bool := atom &&& 0x80000000 != 0

def atomToUInt32 (atom : JSAtom) : UInt32 := atom &&& 0x7fffffff

/-- The tags that are told apart here; strings, symbols and big integers are counted too. -/
inductive JSValue where
  | undefined
  | null
  | exception
  | uninitialized
  | immediate (tag : Int) (payload : UInt64)
  | object (ptr : Pointer)
  | other (ptr : Pointer)
  deriving DecidableEq, Repr

def JSValue.pointers : JSValue → List Pointer
  | .object ptr | .other ptr => [ptr]
  | _ => []

/-- The classes that are told apart here. `array` is every class whose objects may keep their
elements in an array: arrays, arguments and typed arrays. -/
inductive JSClass where
  | object
  | array
  | error
  | string
  | globalObject
  | proxy
  | other (classId : Nat)
  deriving DecidableEq, Repr

inductive AutoInitID where
  | prototype
  | moduleNs
  | prop
  deriving DecidableEq, Repr

/-- A property that does not have to be instantiated. -/
inductive JSSlot where
  | value (value : JSValue)
  | getset (getter setter : Option Pointer)
  | varRef (varRef : Pointer)
  deriving DecidableEq, Repr

inductive JSProperty where
  | slot (slot : JSSlot)
  | autoinit (realm : Pointer) (id : AutoInitID) (entry : Nat)
  deriving DecidableEq, Repr

/-- `fastArray` is `u.array.count`; `inner` is what the class itself refers to. -/
structure JSObject where
  classId : JSClass
  fastArray : Option UInt32
  properties : List (JSAtom × JSProperty)
  prototype : Option Pointer
  inner : List Pointer
  deriving DecidableEq, Repr

inductive Node where
  | object (object : JSObject)
  | varRef (value : JSValue)
  | other (inner : List Pointer)
  deriving DecidableEq, Repr

def JSSlot.refers : JSSlot → List Pointer
  | .value v => v.pointers
  | .getset getter setter => getter.toList ++ setter.toList
  | .varRef ptr => [ptr]

def JSProperty.refers : JSProperty → List Pointer
  | .slot plain => plain.refers
  | .autoinit realm _ _ => [realm]

def JSObject.refers (o : JSObject) : List Pointer :=
  o.properties.flatMap (fun entry => entry.2.refers) ++ (o.prototype.toList ++ o.inner)

def Node.refers : Node → List Pointer
  | .object o => o.refers
  | .varRef value => value.pointers
  | .other inner => inner

/-- `guest` counts the calls of proxy traps; `lost` are references that the engine has forgotten to
give back. -/
structure State where
  cells : List (Cell Node)
  lost : List Pointer
  guest : Nat
  deriving DecidableEq, Repr

/-- `JS_DupValue` -/
def State.dup (s : State) (value : JSValue) : State :=
  { s with cells := value.pointers.foldr Cell.retain s.cells }

def State.release (s : State) (pointers : List Pointer) : State :=
  { s with cells := Cell.release Node.refers pointers s.cells }

/-- `JS_FreeValue` -/
def State.free (s : State) (value : JSValue) : State := s.release value.pointers

def State.object (s : State) (ptr : Pointer) : Option JSObject :=
  match Cell.nodeAt s.cells ptr with
  | some (.object o) => some o
  | _ => none

/-- `*var_ref->pvalue` -/
def State.variable (s : State) (ptr : Pointer) : JSValue :=
  match Cell.nodeAt s.cells ptr with
  | some (.varRef value) => value
  | _ => .uninitialized

def findOwnProperty (atom : JSAtom) : List (JSAtom × JSProperty) → Option JSProperty
  | [] => none
  | (name, property) :: rest => if name = atom then some property else findOwnProperty atom rest

def setOwnProperty (atom : JSAtom) (property : JSProperty) :
    List (JSAtom × JSProperty) → List (JSAtom × JSProperty)
  | [] => []
  | (name, old) :: rest =>
    if name = atom then (name, property) :: rest
      else (name, old) :: setOwnProperty atom property rest

def State.setSlot (s : State) (ptr : Pointer) (atom : JSAtom) (slot : JSSlot) : State :=
  match s.object ptr with
  | some o =>
    { s with
      cells :=
        Cell.store ptr
          (.object { o with properties := setOwnProperty atom (.slot slot) o.properties }) s.cells }
  | none => s

-- `getset` is the flag `JS_PROP_GETSET`.
structure JSPropertyDescriptor where
  getset : Bool
  value : JSValue
  getter : JSValue
  setter : JSValue
  deriving DecidableEq, Repr

def JSPropertyDescriptor.pointers (desc : JSPropertyDescriptor) : List Pointer :=
  desc.value.pointers ++ (desc.getter.pointers ++ desc.setter.pointers)

/-- −1, FALSE and TRUE with the descriptor filled. -/
inductive Own where
  | fails
  | missing
  | found (desc : JSPropertyDescriptor)
  deriving DecidableEq, Repr

def Own.pointers : Own → List Pointer
  | .found desc => desc.pointers
  | _ => []

/-- What the functions of `js_autoinit_func_table` return: a variable comes disguised as a string,
and is not counted. -/
inductive Instantiated where
  | exception
  | varRef (varRef : Pointer)
  | value (value : JSValue)
  deriving DecidableEq, Repr

def Instantiated.pointers : Instantiated → List Pointer
  | .value v => v.pointers
  | _ => []

/-- The parts of the engine that are called. -/
structure Callees where
  throwNotAnObject : State → State
  throwUninitialized : State → JSAtom → State
  prepareUpdate : State → Pointer → Bool × State
  instantiate : State → Pointer → Pointer → JSAtom → AutoInitID → Nat → Instantiated × State
  createVarRef : State → Option Pointer × State
  getElement : State → Pointer → UInt32 → JSValue × State
  stringGetOwnProperty : State → Pointer → JSAtom → Own × State
  proxyGetOwnProperty : State → Pointer → JSAtom → Own × State
  proxyGetPrototype : State → Pointer → JSValue × State

variable (engine : Callees)

/-- The end of `JS_AutoInitProperty`: the property is undefined and takes what was instantiated. -/
def install (s : State) (ptr : Pointer) (o : JSObject) (atom : JSAtom) :
    Instantiated → Option JSSlot × State
  | .exception => (none, s)
  | .varRef varRef =>
    (some (.varRef varRef),
      { s with cells := Cell.retain varRef s.cells }.setSlot ptr atom (.varRef varRef))
  | .value value =>
    if o.classId = .globalObject then
      match engine.createVarRef s with
      -- `val` is not freed
      | (none, s) => (none, { s with lost := value.pointers ++ s.lost })
      | (some varRef, s) =>
        (some (.varRef varRef),
          { s with cells := Cell.store varRef (.varRef value) s.cells }.setSlot ptr atom
            (.varRef varRef))
    else (some (.value value), s.setSlot ptr atom (.value value))

/-- `js_autoinit_free` gives the realm back; here once the property is undefined. -/
def autoInitProperty (s : State) (ptr : Pointer) (o : JSObject) (atom : JSAtom) (realm : Pointer)
    (id : AutoInitID) (entry : Nat) : Option JSSlot × State :=
  match engine.prepareUpdate s ptr with
  | (false, s) => (none, s)
  | (true, s) =>
    match engine.instantiate s realm ptr atom id entry with
    | (val, s) =>
      install engine ((s.setSlot ptr atom (.value .undefined)).release [realm]) ptr o atom val

def accessor : Option Pointer → JSValue
  | some ptr => .object ptr
  | none => .undefined

-- The descriptor of a property that is not an autoinit one.
def describe (s : State) (atom : JSAtom) : JSSlot → Own × State
  | .value value => (.found ⟨false, value, .undefined, .undefined⟩, s.dup value)
  | .getset getter setter =>
    (.found ⟨true, .undefined, accessor getter, accessor setter⟩,
      (s.dup (accessor getter)).dup (accessor setter))
  | .varRef varRef =>
    if s.variable varRef = .uninitialized then (.fails, engine.throwUninitialized s atom)
    else (.found ⟨false, s.variable varRef, .undefined, .undefined⟩, s.dup (s.variable varRef))

-- The elements and the properties of exotic classes.
def exoticGetOwnProperty (s : State) (ptr : Pointer) (o : JSObject) (atom : JSAtom) : Own × State :=
  match o.classId with
  | .array =>
    match o.fastArray with
    | some count =>
      if isTaggedInt atom && decide (atomToUInt32 atom < count) then
        match engine.getElement s ptr (atomToUInt32 atom) with
        | (value, s) => (.found ⟨false, value, .undefined, .undefined⟩, s)
      else (.missing, s)
    | none => (.missing, s)
  | .string => engine.stringGetOwnProperty s ptr atom
  | .proxy => engine.proxyGetOwnProperty { s with guest := s.guest + 1 } ptr atom
  | _ => (.missing, s)

/-- The retry after an instantiation finds what was just stored. -/
def getOwnPropertyInternal (s : State) (ptr : Pointer) (o : JSObject) (atom : JSAtom) :
    Own × State :=
  match findOwnProperty atom o.properties with
  | some (.slot slot) => describe engine s atom slot
  | some (.autoinit realm id entry) =>
    match autoInitProperty engine s ptr o atom realm id entry with
    | (none, s) => (.fails, s)
    | (some slot, s) => describe engine s atom slot
  | none => exoticGetOwnProperty engine s ptr o atom

def getOwnProperty (s : State) (obj : JSValue) (atom : JSAtom) : Own × State :=
  match obj with
  | .object ptr =>
    match s.object ptr with
    | some o => getOwnPropertyInternal engine s ptr o atom
    | none => (.fails, s)
  | _ => (.fails, engine.throwNotAnObject s)

def JSObject.proto (o : JSObject) : JSValue :=
  match o.prototype with
  | some ptr => .object ptr
  | none => .null

/-- `JS_GetPrototype` of an object. -/
def getPrototype (s : State) (obj : JSValue) : JSValue × State :=
  match obj with
  | .object ptr =>
    match s.object ptr with
    | some o =>
      if o.classId = .proxy then engine.proxyGetPrototype { s with guest := s.guest + 1 } ptr
      else (o.proto, s.dup o.proto)
    | none => (.null, s)
  | _ => (.null, s)

/-- `JS_GetClassID`: nothing but objects has one. -/
def State.classId (s : State) : JSValue → Option JSClass
  | .object ptr => (s.object ptr).map JSObject.classId
  | _ => none

/-- What is read of a property that is there, and the descriptor freed. -/
def readDescriptor (s : State) (desc : JSPropertyDescriptor) : JSValue × State :=
  let out := if desc.getset then .undefined else desc.value
  (out, (((s.dup out).free desc.value).free desc.getter).free desc.setter)

/-- The loop of `qjs_bun_get_data_property`, for at most so many rounds. -/
def walk (atom : JSAtom) : Nat → State → JSValue → Option (JSValue × State)
  | 0, _, _ => none
  | rounds + 1, s, current =>
    match getOwnProperty engine s current atom with
    | (.fails, s) => some (.exception, s.free current)
    | (.found desc, s) => some ((readDescriptor s desc).1, (readDescriptor s desc).2.free current)
    | (.missing, s) =>
      match getPrototype engine s current with
      | (next, s) =>
        if next = .exception then some (.exception, s.free current)
        else if (s.free current).classId next ≠ some .object then
          some (.undefined, (s.free current).free next)
        else walk atom rounds (s.free current) next

/-- `qjs_bun_get_data_property`, less its deadline. -/
def getDataProperty (rounds : Nat) (s : State) (obj : JSValue) (atom : JSAtom) :
    Option (JSValue × State) :=
  walk engine atom rounds (s.dup obj) obj

/-! ### References -/

/-- The counts are right when the callers have `held`. -/
def State.Balanced (s : State) (held : List Pointer) : Prop :=
  Cell.Balanced Node.refers s.cells (held ++ s.lost)

/-- A step of the engine that runs no guest code and forgets nothing. -/
structure Leaves (s after : State) (held : List Pointer) : Prop where
  balanced : after.Balanced held
  guest : after.guest = s.guest
  lost : after.lost = s.lost

/-- The object at `ptr` has a property. -/
def Holds (s : State) (ptr : Pointer) (atom : JSAtom) (property : JSProperty) : Prop :=
  ∃ o, s.object ptr = some o ∧ findOwnProperty atom o.properties = some property

/-- What the rest of the engine is relied on for. -/
structure Lawful (engine : Callees) : Prop where
  throwNotAnObject : ∀ s held, s.Balanced held → Leaves s (engine.throwNotAnObject s) held
  throwUninitialized : ∀ s held atom, s.Balanced held →
    Leaves s (engine.throwUninitialized s atom) held
  prepareUpdate : ∀ s held ptr, s.Balanced held → ptr ∈ held →
    Leaves s (engine.prepareUpdate s ptr).2 held
  prepareUpdate_holds : ∀ s held ptr atom property, s.Balanced held → ptr ∈ held →
    Holds s ptr atom property → Holds (engine.prepareUpdate s ptr).2 ptr atom property
  instantiate : ∀ s held realm ptr atom id entry, s.Balanced held → ptr ∈ held →
    Leaves s (engine.instantiate s realm ptr atom id entry).2
      ((engine.instantiate s realm ptr atom id entry).1.pointers ++ held)
  instantiate_holds : ∀ s held realm ptr atom id entry property, s.Balanced held → ptr ∈ held →
    Holds s ptr atom property →
    Holds (engine.instantiate s realm ptr atom id entry).2 ptr atom property
  /-- The variable of a module does not go with the realm of the property. -/
  instantiate_varRef : ∀ s held realm ptr atom id entry varRef, s.Balanced held → ptr ∈ held →
    (engine.instantiate s realm ptr atom id entry).1 = .varRef varRef →
    ∃ cell, Cell.find (((engine.instantiate s realm ptr atom id entry).2.setSlot ptr atom
      (.value .undefined)).release [realm]).cells varRef = some cell
  createVarRef : ∀ s held, s.Balanced held →
    Leaves s (engine.createVarRef s).2 ((engine.createVarRef s).1.toList ++ held)
  createVarRef_fresh : ∀ s held varRef, s.Balanced held → (engine.createVarRef s).1 = some varRef →
    Cell.nodeAt (engine.createVarRef s).2.cells varRef = some (.varRef .undefined)
  createVarRef_holds : ∀ s held ptr atom property, s.Balanced held → ptr ∈ held →
    Holds s ptr atom property → Holds (engine.createVarRef s).2 ptr atom property
  getElement : ∀ s held ptr index, s.Balanced held → ptr ∈ held →
    Leaves s (engine.getElement s ptr index).2 ((engine.getElement s ptr index).1.pointers ++ held)
  stringGetOwnProperty : ∀ s held ptr atom, s.Balanced held → ptr ∈ held →
    Leaves s (engine.stringGetOwnProperty s ptr atom).2
      ((engine.stringGetOwnProperty s ptr atom).1.pointers ++ held)
  proxyGetOwnProperty : ∀ s held ptr atom, s.Balanced held → ptr ∈ held →
    (engine.proxyGetOwnProperty s ptr atom).2.Balanced
      ((engine.proxyGetOwnProperty s ptr atom).1.pointers ++ held)
  stringGetOwnProperty_class : ∀ s held ptr atom, s.Balanced held → ptr ∈ held →
    (engine.stringGetOwnProperty s ptr atom).2.classId (.object ptr) = s.classId (.object ptr)
  proxyGetOwnProperty_class : ∀ s held ptr atom, s.Balanced held → ptr ∈ held →
    (engine.proxyGetOwnProperty s ptr atom).2.classId (.object ptr) = s.classId (.object ptr)
  proxyGetPrototype : ∀ s held ptr, s.Balanced held → ptr ∈ held →
    (engine.proxyGetPrototype s ptr).2.Balanced
      ((engine.proxyGetPrototype s ptr).1.pointers ++ held)

section
variable {s : State} {held : List Pointer} {value : JSValue} {ptr : Pointer} {atom : JSAtom}

theorem State.Balanced.dup (balanced : s.Balanced held) (value : JSValue)
    (live : ∀ ptr ∈ value.pointers, ∃ cell, Cell.find s.cells ptr = some cell) :
    (s.dup value).Balanced (value.pointers ++ held) := by
  unfold State.dup
  cases value with
  | object ptr => exact Cell.Balanced.retain balanced (live ptr List.mem_cons_self)
  | other ptr => exact Cell.Balanced.retain balanced (live ptr List.mem_cons_self)
  | _ => exact balanced

theorem State.Balanced.release (given : List Pointer) (balanced : s.Balanced (given ++ held)) :
    (s.release given).Balanced held := by
  have split : Cell.Balanced Node.refers s.cells (given ++ (held ++ s.lost)) :=
    List.append_assoc given held s.lost ▸ balanced
  exact split.release

theorem State.Balanced.free (balanced : s.Balanced (value.pointers ++ held)) :
    (s.free value).Balanced held :=
  State.Balanced.release _ balanced

theorem State.Balanced.perm {held' : List Pointer} (balanced : s.Balanced held)
    (same : ∀ ptr, held'.count ptr = held.count ptr) : s.Balanced held' :=
  Cell.Balanced.perm balanced fun ptr => by rw [List.count_append, List.count_append, same]

-- What is held stays what it is when something else is given back.
theorem nodeAt_release {given : List Pointer} {node : Node} (balanced : s.Balanced (given ++ held))
    (member : ptr ∈ held) (found : Cell.nodeAt s.cells ptr = some node) :
    Cell.nodeAt (s.release given).cells ptr = some node := by
  obtain ⟨cell, there⟩ :=
    Cell.Balanced.live (State.Balanced.release _ balanced) (List.mem_append_left s.lost member)
  have after : Cell.nodeAt (s.release given).cells ptr = some cell.node := by
    rw [Cell.nodeAt, there, Option.map_some]
  have before := Cell.kept_release ptr cell.node after
  rw [found] at before
  rw [after, before]

theorem State.object_eq_some {o : JSObject} :
    s.object ptr = some o ↔ Cell.nodeAt s.cells ptr = some (.object o) := by
  unfold State.object
  cases Cell.nodeAt s.cells ptr with
  | none => simp
  | some node => cases node <;> simp

theorem State.variable_live {other : Pointer} (balanced : s.Balanced held)
    (member : other ∈ (s.variable ptr).pointers) : ∃ cell, Cell.find s.cells other = some cell := by
  unfold State.variable at member
  split at member
  · next value node => exact Cell.Balanced.child balanced node member
  · cases member

theorem nodeAt_dup (value : JSValue) :
    Cell.nodeAt (s.dup value).cells ptr = Cell.nodeAt s.cells ptr := by
  unfold State.dup
  cases value with
  | object other => exact Cell.nodeAt_retain
  | other other => exact Cell.nodeAt_retain
  | _ => rfl

@[simp] theorem State.object_dup : (s.dup value).object ptr = s.object ptr := by
  unfold State.object
  rw [nodeAt_dup value]

@[simp] theorem State.guest_dup : (s.dup value).guest = s.guest := rfl

@[simp] theorem State.lost_dup : (s.dup value).lost = s.lost := rfl

end

/-! ### Own properties -/

section
variable {s : State} {held : List Pointer} {ptr : Pointer} {atom : JSAtom}

theorem count_setOwnProperty {old : JSProperty} (new : JSProperty)
    {properties : List (JSAtom × JSProperty)} (found : findOwnProperty atom properties = some old)
    (other : Pointer) :
    ((setOwnProperty atom new properties).flatMap fun entry => entry.2.refers).count other +
      old.refers.count other =
      (properties.flatMap fun entry => entry.2.refers).count other + new.refers.count other := by
  induction properties with
  | nil => cases found
  | cons entry rest ih =>
    obtain ⟨name, property⟩ := entry
    unfold findOwnProperty at found
    unfold setOwnProperty
    split at found
    · next same =>
        obtain rfl := Option.some.inj found
        simp only [if_pos same, List.flatMap_cons, List.count_append]
        omega
    · next apart =>
        have later := ih found
        simp only [if_neg apart, List.flatMap_cons, List.count_append]
        omega

theorem findOwnProperty_set {old new : JSProperty} {properties : List (JSAtom × JSProperty)}
    (found : findOwnProperty atom properties = some old) :
    findOwnProperty atom (setOwnProperty atom new properties) = some new := by
  induction properties with
  | nil => cases found
  | cons entry rest ih =>
    obtain ⟨name, property⟩ := entry
    unfold findOwnProperty at found
    unfold setOwnProperty
    split at found
    · next same => simp only [if_pos same, findOwnProperty]
    · next apart =>
        simp only [if_neg apart, findOwnProperty]
        exact ih found

theorem Holds.setSlot {old : JSProperty} (held' : List Pointer) (slot : JSSlot)
    (holds : Holds s ptr atom old) (balanced : s.Balanced held)
    (trade : ∀ other, held.count other + old.refers.count other = held'.count other +
      slot.refers.count other) :
    Leaves s (s.setSlot ptr atom slot) held' ∧
    Holds (s.setSlot ptr atom slot) ptr atom (.slot slot) := by
  obtain ⟨o, at_, found⟩ := holds
  have node := State.object_eq_some.mp at_
  unfold State.setSlot
  rw [at_]
  refine ⟨⟨?_, rfl, rfl⟩, { o with properties := setOwnProperty atom (.slot slot) o.properties },
    ?_, findOwnProperty_set found⟩
  · refine Cell.Balanced.store balanced node fun other => ?_
    have moved := count_setOwnProperty (.slot slot) found other
    have traded := trade other
    have slotRefers : (JSProperty.slot slot).refers = slot.refers := rfl
    rw [slotRefers] at moved
    simp only [Node.refers, JSObject.refers, List.count_append] at moved ⊢
    omega
  · rw [State.object_eq_some, Cell.nodeAt_store, if_pos rfl, node]
    rfl

theorem Holds.release {property : JSProperty} (given : List Pointer)
    (holds : Holds s ptr atom property) (balanced : s.Balanced (given ++ held))
    (member : ptr ∈ held) : Holds (s.release given) ptr atom property := by
  obtain ⟨o, at_, found⟩ := holds
  exact ⟨o, State.object_eq_some.mpr (nodeAt_release balanced member (State.object_eq_some.mp at_)),
    found⟩

theorem refers_of_findOwnProperty {property : JSProperty} {properties : List (JSAtom × JSProperty)}
    (found : findOwnProperty atom properties = some property) {other : Pointer}
    (member : other ∈ property.refers) :
    other ∈ properties.flatMap fun entry => entry.2.refers := by
  induction properties with
  | nil => cases found
  | cons entry rest ih =>
    unfold findOwnProperty at found
    rw [List.flatMap_cons, List.mem_append]
    split at found
    · obtain rfl := Option.some.inj found
      exact .inl member
    · exact .inr (ih found)

-- What a property refers to is there.
theorem Holds.live {property : JSProperty} (holds : Holds s ptr atom property)
    (balanced : s.Balanced held) {other : Pointer} (member : other ∈ property.refers) :
    ∃ cell, Cell.find s.cells other = some cell := by
  obtain ⟨o, at_, found⟩ := holds
  exact Cell.Balanced.child balanced (State.object_eq_some.mp at_)
    (List.mem_append_left _ (refers_of_findOwnProperty found member))

variable {engine} (lawful : Lawful engine)
include lawful

theorem install_leaves {o : JSObject} {val : Instantiated}
    (balanced : s.Balanced (val.pointers ++ held)) (member : ptr ∈ held)
    (holds : Holds s ptr atom (.slot (.value .undefined)))
    (live : ∀ varRef, val = .varRef varRef → ∃ cell, Cell.find s.cells varRef = some cell) :
    (install engine s ptr o atom val).2.Balanced held ∧
    (install engine s ptr o atom val).2.guest = s.guest ∧
      (o.classId ≠ .globalObject → (install engine s ptr o atom val).2.lost = s.lost) ∧
      ∀ slot, (install engine s ptr o atom val).1 = some slot →
        Holds (install engine s ptr o atom val).2 ptr atom (.slot slot) := by
  cases val with
  | exception => exact ⟨balanced, rfl, fun _ => rfl, fun slot same => nomatch same⟩
  | varRef varRef =>
    obtain ⟨o', at_, found⟩ := holds
    have counted : State.Balanced { s with cells := Cell.retain varRef s.cells } (varRef :: held) :=
      Cell.Balanced.retain balanced (live varRef rfl)
    have still : Holds { s with cells := Cell.retain varRef s.cells } ptr atom
        (.slot (.value .undefined)) :=
      ⟨o', State.object_eq_some.mpr (Cell.nodeAt_retain.trans (State.object_eq_some.mp at_)), found⟩
    obtain ⟨leaves, set⟩ := still.setSlot held (.varRef varRef) counted fun other => by
      simp [JSProperty.refers, JSSlot.refers, JSValue.pointers, List.count_cons]
    exact ⟨leaves.balanced, leaves.guest, fun _ => leaves.lost, fun slot same =>
      Option.some.inj same ▸ set⟩
  | value value =>
    unfold install
    by_cases isGlobal : o.classId = .globalObject
    · simp only [if_pos isGlobal]
      have made := lawful.createVarRef s _ balanced
      have fresh := fun varRef => lawful.createVarRef_fresh s _ varRef balanced
      have kept :=
        lawful.createVarRef_holds s _ ptr atom _ balanced (List.mem_append_right _ member) holds
      revert made fresh kept
      generalize engine.createVarRef s = answer
      obtain ⟨created, after⟩ := answer
      intro made fresh kept
      cases created with
      | none =>
        refine ⟨?_, made.guest, fun other => absurd isGlobal other, fun slot same => nomatch same⟩
        refine Cell.Balanced.perm made.balanced fun other => ?_
        simp only [Option.toList_none, List.nil_append, Instantiated.pointers, List.count_append]
        omega
      | some varRef =>
        have empty := fresh varRef rfl
        have stored : State.Balanced
            { after with cells := Cell.store varRef (.varRef value) after.cells }
              (varRef :: held) := by
          refine Cell.Balanced.store made.balanced empty fun other => ?_
          simp only [Option.toList_some, Instantiated.pointers, Node.refers, JSValue.pointers,
            List.count_append, List.count_cons, List.count_nil]
          omega
        obtain ⟨o', at_, found⟩ := kept
        have apart : ptr ≠ varRef := by
          rintro rfl
          have node := State.object_eq_some.mp at_
          rw [empty] at node
          cases node
        have still : Holds
            { after with cells := Cell.store varRef (.varRef value) after.cells } ptr atom
            (.slot (.value .undefined)) := by
          refine ⟨o', State.object_eq_some.mpr ?_, found⟩
          rw [Cell.nodeAt_store, if_neg apart]
          exact State.object_eq_some.mp at_
        obtain ⟨leaves, set⟩ := still.setSlot held (.varRef varRef) stored fun other => by
          simp [JSProperty.refers, JSSlot.refers, JSValue.pointers, List.count_cons]
        exact ⟨leaves.balanced, leaves.guest.trans made.guest, fun _ => leaves.lost.trans made.lost,
          fun slot same => Option.some.inj same ▸ set⟩
    · simp only [if_neg isGlobal]
      obtain ⟨leaves, set⟩ := holds.setSlot held (.value value) balanced fun other => by
        simp only [JSProperty.refers, JSSlot.refers, JSValue.pointers, Instantiated.pointers,
          List.count_append, List.count_nil]
        omega
      exact ⟨leaves.balanced, leaves.guest, fun _ => leaves.lost, fun slot same =>
        Option.some.inj same ▸ set⟩

theorem autoInitProperty_leaves {o : JSObject} {realm : Pointer} {id : AutoInitID} {entry : Nat}
    (balanced : s.Balanced held) (member : ptr ∈ held)
    (holds : Holds s ptr atom (.autoinit realm id entry)) :
    (autoInitProperty engine s ptr o atom realm id entry).2.Balanced held ∧
      (autoInitProperty engine s ptr o atom realm id entry).2.guest = s.guest ∧
      (o.classId ≠ .globalObject →
        (autoInitProperty engine s ptr o atom realm id entry).2.lost = s.lost) ∧
      ∀ slot, (autoInitProperty engine s ptr o atom realm id entry).1 = some slot →
        Holds (autoInitProperty engine s ptr o atom realm id entry).2 ptr atom (.slot slot) := by
  have prepared := lawful.prepareUpdate s held ptr balanced member
  have unchanged := lawful.prepareUpdate_holds s held ptr atom _ balanced member holds
  cases answer : engine.prepareUpdate s ptr with
  | mk updated ready =>
    rw [answer] at prepared unchanged
    cases updated with
    | false =>
      simp only [autoInitProperty, answer]
      exact ⟨prepared.balanced, prepared.guest, fun _ => prepared.lost, fun slot same =>
        nomatch same⟩
    | true =>
      have made := lawful.instantiate ready held realm ptr atom id entry prepared.balanced member
      have kept :=
        lawful.instantiate_holds ready held realm ptr atom id entry _ prepared.balanced
          member unchanged
      have shared := fun varRef =>
        lawful.instantiate_varRef ready held realm ptr atom id entry varRef prepared.balanced member
      simp only [autoInitProperty, answer]
      -- the realm is still named by the property: it is given back when it is not
      obtain ⟨cleared, set⟩ := kept.setSlot
        (realm :: ((engine.instantiate ready realm ptr atom id entry).1.pointers ++ held))
          (.value .undefined) made.balanced fun other => by
          simp [JSProperty.refers, JSSlot.refers, JSValue.pointers, List.count_cons]
      have freed := State.Balanced.release [realm] cleared.balanced
      have still := set.release [realm] cleared.balanced (List.mem_append_right _ member)
      obtain ⟨balanced, guest, lost, holds⟩ :=
        install_leaves lawful (o := o) freed member still shared
      exact ⟨balanced, guest.trans (cleared.guest.trans (made.guest.trans prepared.guest)),
        fun other => (lost other).trans (cleared.lost.trans (made.lost.trans prepared.lost)), holds⟩

omit lawful in
theorem live_dup {value : JSValue} {other : Pointer}
    (live : ∃ cell, Cell.find s.cells other = some cell) :
    ∃ cell, Cell.find (s.dup value).cells other = some cell := by
  obtain ⟨cell, found⟩ := live
  have node : Cell.nodeAt s.cells other = some cell.node := by
    rw [Cell.nodeAt, found, Option.map_some]
  rw [← nodeAt_dup value] at node
  obtain ⟨cell', found', -⟩ := Option.map_eq_some_iff.mp node
  exact ⟨cell', found'⟩

omit lawful in
theorem found_leaves {value : JSValue} (balanced : s.Balanced held)
    (live : ∀ other ∈ value.pointers, ∃ cell, Cell.find s.cells other = some cell) :
    Leaves s (s.dup value)
      ((Own.found ⟨false, value, .undefined, .undefined⟩).pointers ++ held) := by
  refine ⟨State.Balanced.perm (balanced.dup _ live) fun other => ?_, rfl, rfl⟩
  simp [Own.pointers, JSPropertyDescriptor.pointers, JSValue.pointers]

omit lawful in
theorem accessor_pointers (accessed : Option Pointer) :
    (accessor accessed).pointers = accessed.toList := by
  cases accessed <;> rfl

theorem describe_leaves {slot : JSSlot} (balanced : s.Balanced held)
    (holds : Holds s ptr atom (.slot slot)) :
    Leaves s (describe engine s atom slot).2
      ((describe engine s atom slot).1.pointers ++ held) := by
  have live : ∀ other ∈ slot.refers, ∃ cell, Cell.find s.cells other = some cell :=
    fun other => Holds.live holds balanced
  cases slot with
  | value value => exact found_leaves balanced live
  | getset getter setter =>
    have first := balanced.dup (accessor getter) fun other member =>
      live other (List.mem_append_left _ (accessor_pointers getter ▸ member))
    have second := first.dup (accessor setter) fun other member =>
      live_dup (live other (List.mem_append_right _ (accessor_pointers setter ▸ member)))
    refine ⟨State.Balanced.perm second fun other => ?_, rfl, rfl⟩
    simp only [describe, Own.pointers, JSPropertyDescriptor.pointers, JSValue.pointers,
      List.count_append, List.count_nil]
    omega
  | varRef varRef =>
    simp only [describe]
    split
    · exact lawful.throwUninitialized s held atom balanced
    · exact found_leaves balanced fun other => State.variable_live balanced

structure Steps (s after : State) (classId : JSClass) (held : List Pointer) : Prop where
  balanced : after.Balanced held
  guest : classId ≠ .proxy → after.guest = s.guest
  lost : classId ≠ .proxy → classId ≠ .globalObject → after.lost = s.lost

omit lawful in
theorem Leaves.steps {after : State} {classId : JSClass} (leaves : Leaves s after held) :
    Steps s after classId held :=
  ⟨leaves.balanced, fun _ => leaves.guest, fun _ _ => leaves.lost⟩

theorem exoticGetOwnProperty_steps {o : JSObject} (balanced : s.Balanced held)
    (member : ptr ∈ held) :
    Steps s (exoticGetOwnProperty engine s ptr o atom).2 o.classId
      ((exoticGetOwnProperty engine s ptr o atom).1.pointers ++ held) := by
  have unchanged : Leaves s s held := ⟨balanced, rfl, rfl⟩
  unfold exoticGetOwnProperty
  cases classId : o.classId with
  | array =>
    cases o.fastArray with
    | none => exact unchanged.steps
    | some count =>
      dsimp only
      split
      · have read := lawful.getElement s held ptr (atomToUInt32 atom) balanced member
        refine Leaves.steps
          ⟨State.Balanced.perm read.balanced fun other => ?_, read.guest, read.lost⟩
        simp [Own.pointers, JSPropertyDescriptor.pointers, JSValue.pointers]
      · exact unchanged.steps
  | string => exact (lawful.stringGetOwnProperty s held ptr atom balanced member).steps
  | proxy =>
    have called : State.Balanced { s with guest := s.guest + 1 } held := balanced
    exact ⟨lawful.proxyGetOwnProperty _ held ptr atom called member, fun other => absurd rfl other,
      fun other => absurd rfl other⟩
  | _ => exact unchanged.steps

theorem getOwnPropertyInternal_steps {o : JSObject} (atom : JSAtom) (balanced : s.Balanced held)
    (member : ptr ∈ held) (at_ : s.object ptr = some o) :
    Steps s (getOwnPropertyInternal engine s ptr o atom).2 o.classId
      ((getOwnPropertyInternal engine s ptr o atom).1.pointers ++ held) := by
  unfold getOwnPropertyInternal
  cases found : findOwnProperty atom o.properties with
  | none => exact exoticGetOwnProperty_steps lawful balanced member
  | some property =>
    cases property with
    | slot slot => exact (describe_leaves lawful balanced ⟨o, at_, found⟩).steps
    | autoinit realm id entry =>
      have initialized := autoInitProperty_leaves lawful (o := o) balanced member ⟨o, at_, found⟩
      dsimp only
      cases answer : autoInitProperty engine s ptr o atom realm id entry with
      | mk slot after =>
        rw [answer] at initialized
        obtain ⟨kept, guest, lost, holds⟩ := initialized
        cases slot with
        | none => exact ⟨kept, fun _ => guest, fun _ => lost⟩
        | some slot =>
          have described := describe_leaves lawful kept (holds slot rfl)
          exact ⟨described.balanced, fun _ => described.guest.trans guest,
            fun _ other => described.lost.trans (lost other)⟩

theorem getPrototype_steps {o : JSObject} (balanced : s.Balanced held) (member : ptr ∈ held)
    (at_ : s.object ptr = some o) :
    Steps s (getPrototype engine s (.object ptr)).2 o.classId
      ((getPrototype engine s (.object ptr)).1.pointers ++ held) := by
  unfold getPrototype
  simp only [at_]
  split
  · next isProxy =>
      have called : State.Balanced { s with guest := s.guest + 1 } held := balanced
      exact ⟨lawful.proxyGetPrototype _ held ptr called member, fun other => absurd isProxy other,
        fun other => absurd isProxy other⟩
  · refine ⟨balanced.dup _ fun other proto => ?_, fun _ => rfl, fun _ _ => rfl⟩
    refine Cell.Balanced.child balanced (State.object_eq_some.mp at_)
      (List.mem_append_right _ (List.mem_append_left _ ?_))
    unfold JSObject.proto at proto
    cases prototype : o.prototype with
    | none =>
      rw [prototype] at proto
      cases proto
    | some next =>
      rw [prototype] at proto
      exact proto

omit lawful in
-- The descriptor is freed, and what was read is the caller's.
theorem readDescriptor_leaves {desc : JSPropertyDescriptor}
    (balanced : s.Balanced (desc.pointers ++ held)) :
    Leaves s (readDescriptor s desc).2 ((readDescriptor s desc).1.pointers ++ held) := by
  have live : ∀ other ∈ (readDescriptor s desc).1.pointers, ∃ cell,
      Cell.find s.cells other = some cell := by
    intro other member
    refine Cell.Balanced.live balanced
      (List.mem_append_left _ (List.mem_append_left _ (List.mem_append_left _ ?_)))
    unfold readDescriptor at member
    dsimp only at member
    split at member
    · cases member
    · exact member
  have read := balanced.dup _ live
  refine ⟨?_, rfl, rfl⟩
  refine State.Balanced.free (State.Balanced.free (State.Balanced.free (read.perm fun other => ?_)))
  simp only [JSPropertyDescriptor.pointers, List.count_append]
  omega

end

/-! ### What is read -/

/-- The value that a slot holds for a reader who calls no getter. -/
inductive Reads (s : State) : JSSlot → JSValue → Prop where
  | value (value : JSValue) : Reads s (.value value) value
  | getset (getter setter : Option Pointer) : Reads s (.getset getter setter) .undefined
  | varRef (varRef : Pointer) : s.variable varRef ≠ .uninitialized →
      Reads s (.varRef varRef) (s.variable varRef)
  | uninitialized (varRef : Pointer) : s.variable varRef = .uninitialized →
      Reads s (.varRef varRef) .exception

/-- What is read of a property of an object of `s`. An autoinit property is instantiated, in a heap
in which less may be left. -/
inductive Delivers (s : State) (ptr : Pointer) (atom : JSAtom) : JSProperty → JSValue → Prop where
  | slot {slot : JSSlot} {value : JSValue} : Reads s slot value →
      Delivers s ptr atom (.slot slot) value
  | instantiated {o : JSObject} {realm : Pointer} {id : AutoInitID} {entry : Nat}
      {asked after : State} {slot : JSSlot} {value : JSValue} :
      Cell.Kept s.cells asked.cells →
      autoInitProperty engine asked ptr o atom realm id entry = (some slot, after) →
      Reads after slot value → Delivers s ptr atom (.autoinit realm id entry) value
  | fails {o : JSObject} {realm : Pointer} {id : AutoInitID} {entry : Nat} {asked after : State} :
      Cell.Kept s.cells asked.cells →
      autoInitProperty engine asked ptr o atom realm id entry = (none, after) →
      Delivers s ptr atom (.autoinit realm id entry) .exception

/-- The ordinary objects from a prototype on. -/
inductive Run (s : State) : JSValue → List Pointer → Prop where
  | ends {value : JSValue} : s.classId value ≠ some .object → Run s value []
  | next {ptr : Pointer} {o : JSObject} {rest : List Pointer} : s.object ptr = some o →
      o.classId = .object → Run s o.proto rest → Run s (.object ptr) (ptr :: rest)

def firstOwn (s : State) (atom : JSAtom) : List Pointer → Option (Pointer × JSProperty)
  | [] => none
  | ptr :: rest =>
    match (s.object ptr).bind fun o => findOwnProperty atom o.properties with
    | some property => some (ptr, property)
    | none => firstOwn s atom rest

-- What is inherited from a run of ordinary objects.
def Inherits (s : State) (atom : JSAtom) (run : List Pointer) (out : JSValue) : Prop :=
  match firstOwn s atom run with
  | some (ptr, property) => Delivers engine s ptr atom property out
  | none => out = .undefined

/-- What is read of an object: of its own property, or of the run of ordinary objects that it
inherits from. -/
def Answers (s : State) (ptr : Pointer) (atom : JSAtom) (out : JSValue) : Prop :=
  match getOwnProperty engine (s.dup (.object ptr)) (.object ptr) atom with
  | (.fails, _) => out = .exception
  | (.found desc, _) => out = if desc.getset then .undefined else desc.value
  | (.missing, asked) =>
    match getPrototype engine asked (.object ptr) with
    | (next, before) =>
      if next = .exception then out = .exception else ∃ run, Run before next run ∧
        Inherits engine before atom run out

section
variable {before s : State} {held : List Pointer} {ptr : Pointer} {atom : JSAtom}

theorem nodeAt_kept {node : Node} (kept : Cell.Kept before.cells s.cells)
    (live : ∃ cell, Cell.find s.cells ptr = some cell)
    (found : Cell.nodeAt before.cells ptr = some node) : Cell.nodeAt s.cells ptr = some node := by
  obtain ⟨cell, there⟩ := live
  have after : Cell.nodeAt s.cells ptr = some cell.node := by
    rw [Cell.nodeAt, there, Option.map_some]
  have same := kept ptr cell.node after
  rw [found] at same
  rw [after, same]

theorem variable_kept (kept : Cell.Kept before.cells s.cells)
    (live : ∃ cell, Cell.find s.cells ptr = some cell) : before.variable ptr = s.variable ptr := by
  obtain ⟨cell, there⟩ := live
  have after : Cell.nodeAt s.cells ptr = some cell.node := by
    rw [Cell.nodeAt, there, Option.map_some]
  unfold State.variable
  rw [after, kept ptr cell.node after]

variable {engine} (lawful : Lawful engine)

theorem describe_reads (engine : Callees) (atom : JSAtom) {slot : JSSlot}
    (kept : Cell.Kept before.cells s.cells)
    (live : ∀ other ∈ slot.refers, ∃ cell, Cell.find s.cells other = some cell) :
    ((describe engine s atom slot).1 = .fails ∧ Reads before slot .exception) ∨
      ∃ desc, (describe engine s atom slot).1 = .found desc ∧
        Reads before slot (if desc.getset then .undefined else desc.value) := by
  cases slot with
  | value value => exact .inr ⟨_, rfl, .value value⟩
  | getset getter setter => exact .inr ⟨_, rfl, .getset getter setter⟩
  | varRef varRef =>
    have same := variable_kept kept (live varRef List.mem_cons_self)
    simp only [describe]
    by_cases empty : s.variable varRef = .uninitialized
    · rw [if_pos empty]
      exact .inl ⟨rfl, .uninitialized varRef (same.trans empty)⟩
    · rw [if_neg empty]
      refine .inr ⟨_, rfl, ?_⟩
      rw [← same] at empty ⊢
      exact .varRef varRef empty

include lawful

-- An own property that is in the table is there, or fails.
theorem getOwnPropertyInternal_delivers {o : JSObject} {property : JSProperty}
    (balanced : s.Balanced held) (member : ptr ∈ held) (at_ : s.object ptr = some o)
    (kept : Cell.Kept before.cells s.cells)
    (found : findOwnProperty atom o.properties = some property) :
    ((getOwnPropertyInternal engine s ptr o atom).1 = .fails ∧
      Delivers engine before ptr atom property .exception) ∨
      ∃ desc, (getOwnPropertyInternal engine s ptr o atom).1 = .found desc ∧
        Delivers engine before ptr atom property
          (if desc.getset then .undefined else desc.value) := by
  unfold getOwnPropertyInternal
  rw [found]
  cases property with
  | slot slot =>
    have holds : Holds s ptr atom (.slot slot) := ⟨o, at_, found⟩
    exact (describe_reads engine atom kept fun other => holds.live balanced).imp
      (fun fails => ⟨fails.1, .slot fails.2⟩)
      fun ⟨desc, same, reads⟩ => ⟨desc, same, .slot reads⟩
  | autoinit realm id entry =>
    have initialized := autoInitProperty_leaves lawful (o := o) balanced member ⟨o, at_, found⟩
    dsimp only
    cases answer : autoInitProperty engine s ptr o atom realm id entry with
    | mk slot after =>
      rw [answer] at initialized
      obtain ⟨left, -, -, holds⟩ := initialized
      cases slot with
      | none => exact .inl ⟨rfl, .fails kept answer⟩
      | some slot =>
        have described := describe_reads engine atom (Cell.Kept.refl after.cells) fun other =>
          (holds slot rfl).live left
        exact described.imp (fun fails => ⟨fails.1, .instantiated kept answer fails.2⟩)
          fun ⟨desc, same, reads⟩ => ⟨desc, same, .instantiated kept answer reads⟩

end

/-! ### Rounds of the loop -/

/-- What a round leaves for the caller when it looks no further. -/
def Own.out : Own → JSValue
  | .found desc => if desc.getset then .undefined else desc.value
  | _ => .exception

/-- What the loop does with a prototype that is not an exception. -/
def follow (atom : JSAtom) (rounds : Nat) (s : State) (next : JSValue) : Option (JSValue × State) :=
  if s.classId next ≠ some .object then some (.undefined, s.free next)
    else walk engine atom rounds s next

section
variable {before s : State} {held : List Pointer} {ptr : Pointer} {atom : JSAtom} {o : JSObject}

theorem getOwnProperty_object (at_ : s.object ptr = some o) :
    getOwnProperty engine s (.object ptr) atom = getOwnPropertyInternal engine s ptr o atom := by
  simp only [getOwnProperty, at_]

theorem proto_ne_exception : o.proto ≠ .exception := by
  unfold JSObject.proto
  cases o.prototype <;> exact nofun

theorem proto_pointers : o.proto.pointers = o.prototype.toList := by
  unfold JSObject.proto
  cases o.prototype <;> rfl

theorem Steps.trans {first second third : State} {classId : JSClass} {held' : List Pointer}
    (one : Steps first second classId held') (two : Leaves second third held) :
    Steps first third classId held :=
  ⟨two.balanced, fun other => two.guest.trans (one.guest other), fun plain other =>
    two.lost.trans (one.lost plain other)⟩

theorem free_leaves {value : JSValue} (balanced : s.Balanced (value.pointers ++ held)) :
    Leaves s (s.free value) held :=
  ⟨State.Balanced.free balanced, rfl, rfl⟩

variable {engine} (lawful : Lawful engine)
include lawful

-- A round that finds something, or fails, gives the object back.
theorem walk_own {own : Own} {after : State} (balanced : s.Balanced (ptr :: held))
    (at_ : s.object ptr = some o)
    (asked : getOwnProperty engine s (.object ptr) atom = (own, after)) (there : own ≠ .missing) :
    ∃ last, (∀ rounds, walk engine atom (rounds + 1) s (.object ptr) = some (own.out, last)) ∧
      Steps s last o.classId (own.out.pointers ++ held) := by
  have steps := getOwnPropertyInternal_steps lawful atom balanced List.mem_cons_self at_
  rw [← getOwnProperty_object engine at_, asked] at steps
  cases own with
  | missing => exact absurd rfl there
  | fails =>
    refine ⟨after.free (.object ptr), fun rounds => ?_, steps.trans (free_leaves steps.balanced)⟩
    simp only [walk, asked]
    rfl
  | found desc =>
    have read := readDescriptor_leaves steps.balanced
    have moved : (readDescriptor after desc).2.Balanced
        ((JSValue.object ptr).pointers ++ ((readDescriptor after desc).1.pointers ++ held)) := by
      refine read.balanced.perm fun other => ?_
      simp only [JSValue.pointers, List.count_append, List.count_cons, List.count_nil]
      omega
    refine ⟨_, fun rounds => ?_, (steps.trans read).trans (free_leaves moved)⟩
    simp only [walk, asked]
    rfl

omit lawful in
theorem describe_ne_missing {slot : JSSlot} : (describe engine s atom slot).1 ≠ .missing := by
  cases slot with
  | varRef varRef =>
    simp only [describe]
    split <;> exact nofun
  | _ => exact nofun

omit lawful in
theorem findOwnProperty_missing {asked : State}
    (missing : getOwnPropertyInternal engine s ptr o atom = (.missing, asked)) :
    findOwnProperty atom o.properties = none ∧
    exoticGetOwnProperty engine s ptr o atom = (.missing, asked) := by
  unfold getOwnPropertyInternal at missing
  split at missing
  · exact absurd (congrArg Prod.fst missing) describe_ne_missing
  · split at missing
    · cases missing
    · exact absurd (congrArg Prod.fst missing) describe_ne_missing
  · next absent => exact ⟨absent, missing⟩

theorem missing_class {asked : State} (balanced : s.Balanced held) (member : ptr ∈ held)
    (at_ : s.object ptr = some o)
    (missing : getOwnPropertyInternal engine s ptr o atom = (.missing, asked)) :
    ∃ o', asked.object ptr = some o' ∧ o'.classId = o.classId := by
  have exotic := (findOwnProperty_missing missing).2
  have before : s.classId (.object ptr) = some o.classId := by
    simp only [State.classId, at_, Option.map_some]
  suffices same : asked.classId (.object ptr) = some o.classId from Option.map_eq_some_iff.mp same
  unfold exoticGetOwnProperty at exotic
  split at exotic
  · split at exotic
    · split at exotic
      · cases exotic
      · cases exotic
        exact before
    · cases exotic
      exact before
  · have kept := lawful.stringGetOwnProperty_class s held ptr atom balanced member
    rw [exotic] at kept
    exact kept.trans before
  · have kept :=
      lawful.proxyGetOwnProperty_class { s with guest := s.guest + 1 } held ptr atom balanced member
    rw [exotic] at kept
    exact kept.trans before
  · cases exotic
    exact before

-- A round that finds nothing passes on the reference to the prototype.
theorem walk_missing {asked after : State} {next : JSValue} (balanced : s.Balanced (ptr :: held))
    (at_ : s.object ptr = some o)
    (missing : getOwnProperty engine s (.object ptr) atom = (.missing, asked))
    (proto : getPrototype engine asked (.object ptr) = (next, after)) :
    Steps s (after.free (.object ptr)) o.classId (next.pointers ++ held) ∧
      (next = .exception → ∀ rounds,
        walk engine atom (rounds + 1) s (.object ptr) =
          some (.exception, after.free (.object ptr))) ∧
      (next ≠ .exception → ∀ rounds,
        walk engine atom (rounds + 1) s (.object ptr) = follow engine atom rounds
          (after.free (.object ptr)) next) := by
  have steps := getOwnPropertyInternal_steps lawful atom balanced List.mem_cons_self at_
  have same :=
    missing_class lawful balanced List.mem_cons_self at_
      (getOwnProperty_object engine at_ ▸ missing)
  rw [← getOwnProperty_object engine at_, missing] at steps
  obtain ⟨o', there, sameClass⟩ := same
  have inherits := getPrototype_steps lawful steps.balanced List.mem_cons_self there
  rw [proto, sameClass] at inherits
  have moved : after.Balanced ((JSValue.object ptr).pointers ++ (next.pointers ++ held)) := by
    refine inherits.balanced.perm fun other => ?_
    simp only [JSValue.pointers, Own.pointers, List.nil_append, List.count_append, List.count_cons,
      List.count_nil]
    omega
  have freed := free_leaves moved
  refine ⟨⟨freed.balanced, fun other => ?_, fun plain other => ?_⟩, fun isException rounds =>
    ?_, fun isValue rounds => ?_⟩
  · exact freed.guest.trans ((inherits.guest other).trans (steps.guest other))
  · exact freed.lost.trans ((inherits.lost plain other).trans (steps.lost plain other))
  · simp only [walk, missing, proto, if_pos isException]
  · simp only [walk, missing, proto, if_neg isValue, follow]

-- The loop on the run of ordinary objects from a prototype on.
theorem follow_run {next : JSValue} {run : List Pointer} (atom : JSAtom)
    (chain : Run before next run) (kept : Cell.Kept before.cells s.cells)
    (balanced : s.Balanced (next.pointers ++ held)) :
    ∃ out last, (∀ rounds, run.length ≤ rounds →
      follow engine atom rounds s next = some (out, last)) ∧
      Inherits engine before atom run out ∧ Leaves s last (out.pointers ++ held) := by
  induction chain generalizing s held with
  | @ends value outside =>
    have stays : s.classId value ≠ some .object := by
      intro isOrdinary
      refine outside ?_
      cases value with
      | object ptr =>
        obtain ⟨o, at_, classId⟩ := Option.map_eq_some_iff.mp isOrdinary
        have earlier := State.object_eq_some.mpr (kept ptr _ (State.object_eq_some.mp at_))
        simp only [State.classId, earlier, Option.map_some, classId]
      | _ => cases isOrdinary
    refine ⟨.undefined, s.free value, fun rounds _ => ?_, rfl, free_leaves balanced⟩
    rw [follow, if_pos stays]
  | @next ptr o rest at_ ordinary _ ih =>
    have there : s.object ptr = some o :=
      State.object_eq_some.mpr
        (nodeAt_kept kept (Cell.Balanced.live balanced List.mem_cons_self)
          (State.object_eq_some.mp at_))
    have enters : ∀ rounds, follow engine atom rounds s (.object ptr) = walk engine atom rounds s
        (.object ptr) := by
      intro rounds
      rw [follow, if_neg]
      simp only [State.classId, there, Option.map_some, ordinary, ne_eq, not_true_eq_false,
        not_false_eq_true]
    cases found : findOwnProperty atom o.properties with
    | none =>
      have missing : getOwnProperty engine s (.object ptr) atom = (.missing, s) := by
        rw [getOwnProperty_object engine there]
        simp only [getOwnPropertyInternal, found, exoticGetOwnProperty, ordinary]
      have proto : getPrototype engine s (.object ptr) = (o.proto, s.dup o.proto) := by
        simp only [getPrototype, there, ordinary, reduceCtorEq, if_false]
      obtain ⟨steps, -, goesOn⟩ := walk_missing lawful balanced there missing proto
      have fewer : Cell.Kept before.cells ((s.dup o.proto).free (.object ptr)).cells :=
        (kept.trans fun other node found => nodeAt_dup _ ▸ found).trans Cell.kept_release
      obtain ⟨out, last, runs, inherits, leaves⟩ := ih fewer steps.balanced
      refine ⟨out, last, fun rounds enough => ?_, ?_, ?_⟩
      · obtain ⟨rounds, rfl⟩ : ∃ less, rounds = less + 1 :=
          ⟨rounds - 1, by simp only [List.length_cons] at enough; omega⟩
        rw [enters, goesOn proto_ne_exception rounds]
        exact runs rounds (Nat.le_of_succ_le_succ enough)
      · simp only [Inherits, firstOwn, at_, Option.bind_some, found]
        exact inherits
      · exact ⟨leaves.balanced, leaves.guest.trans (steps.guest (by rw [ordinary]; exact nofun)),
          leaves.lost.trans
            (steps.lost (by rw [ordinary]; exact nofun) (by rw [ordinary]; exact nofun))⟩
    | some property =>
      have delivers :=
        getOwnPropertyInternal_delivers lawful balanced List.mem_cons_self there kept found
      rw [← getOwnProperty_object engine there] at delivers
      cases asked : getOwnProperty engine s (.object ptr) atom with
      | mk own after =>
        rw [asked] at delivers
        have answered : own ≠ .missing ∧ Delivers engine before ptr atom property own.out := by
          rcases delivers with ⟨rfl, delivers⟩ | ⟨desc, rfl, delivers⟩
          · exact ⟨nofun, delivers⟩
          · exact ⟨nofun, delivers⟩
        obtain ⟨last, runs, steps⟩ := walk_own lawful balanced there asked answered.1
        refine ⟨own.out, last, fun rounds enough => ?_, ?_, ?_⟩
        · obtain ⟨rounds, rfl⟩ : ∃ less, rounds = less + 1 :=
            ⟨rounds - 1, by simp only [List.length_cons] at enough; omega⟩
          rw [enters, runs rounds]
        · simp only [Inherits, firstOwn, at_, Option.bind_some, found]
          exact answered.2
        · exact ⟨steps.balanced, steps.guest (by rw [ordinary]; exact nofun),
            steps.lost (by rw [ordinary]; exact nofun) (by rw [ordinary]; exact nofun)⟩

end

/-! ### Rounds that disturb nothing -/

section
variable {s : State} {held : List Pointer} {ptr : Pointer} {atom : JSAtom} {o : JSObject}

def State.Counts (s : State) (value : JSValue) : Prop :=
  ∀ ptr ∈ value.pointers, 0 < Cell.countAt s.cells ptr

theorem free_dup_dup {value : JSValue} (other : JSValue) (counts : s.Counts value) :
    ((s.dup value).dup other).free value = s.dup other := by
  have same : Cell.release Node.refers value.pointers
      (other.pointers.foldr Cell.retain (value.pointers.foldr Cell.retain s.cells)) =
      other.pointers.foldr Cell.retain s.cells := by
    cases value with
    | object ptr => exact Cell.release_retain (counts ptr List.mem_cons_self)
    | other ptr => exact Cell.release_retain (counts ptr List.mem_cons_self)
    | _ => exact Cell.release_nil
  simp only [State.free, State.release, State.dup, same]

theorem free_dup (value : JSValue) (counts : s.Counts value) : (s.dup value).free value = s :=
  free_dup_dup .undefined counts

theorem State.Counts.dup {value : JSValue} (other : JSValue) (counts : s.Counts value) :
    (s.dup other).Counts value :=
  fun ptr member => Nat.lt_of_lt_of_le (counts ptr member) (Cell.countAt_foldr_retain _)

theorem refers_counts (balanced : s.Balanced held) (at_ : s.object ptr = some o) {value : JSValue}
    (within : ∀ other ∈ value.pointers, other ∈ o.refers) : s.Counts value :=
  fun other member =>
    Cell.Balanced.countAt_child balanced (State.object_eq_some.mp at_) (within other member)

-- A value that is read: the descriptor is filled and freed, and the object given back.
theorem readDescriptor_value {value : JSValue} (here : s.Counts (.object ptr))
    (counts : s.Counts value) :
    (readDescriptor ((s.dup (.object ptr)).dup value) ⟨false, value, .undefined, .undefined⟩).2.free
      (.object ptr) = s.dup value := by
  have read : (((s.dup (.object ptr)).dup value).dup value).free value =
      (s.dup (.object ptr)).dup value :=
    free_dup_dup value (counts.dup _)
  have empty : ∀ s : State, s.free .undefined = s := fun s => free_dup .undefined nofun
  unfold readDescriptor
  simp only [Bool.false_eq_true, if_false, read, empty]
  exact free_dup_dup value here

theorem readDescriptor_accessor {getter setter : Option Pointer} (here : s.Counts (.object ptr))
    (first : s.Counts (accessor getter)) (second : s.Counts (accessor setter)) :
    (readDescriptor (((s.dup (.object ptr)).dup (accessor getter)).dup (accessor setter))
      ⟨true, .undefined, accessor getter, accessor setter⟩).2.free (.object ptr) = s := by
  have empty : ∀ s : State, s.free .undefined = s := fun s => free_dup .undefined nofun
  have none : ∀ s : State, s.dup .undefined = s := fun _ => rfl
  have getterFreed : (((s.dup (.object ptr)).dup (accessor getter)).dup (accessor setter)).free
      (accessor getter) =
      (s.dup (.object ptr)).dup (accessor setter) := free_dup_dup _ (first.dup _)
  have setterFreed : ((s.dup (.object ptr)).dup (accessor setter)).free (accessor setter) =
      s.dup (.object ptr) :=
    free_dup _ (second.dup _)
  unfold readDescriptor
  simp only [if_true, none, empty, getterFreed, setterFreed]
  exact free_dup _ here

variable {engine}

-- A round that finds a slot changes no count but that of the result.
theorem walk_slot {slot : JSSlot} (balanced : s.Balanced held) (at_ : s.object ptr = some o)
    (here : s.Counts (.object ptr)) (found : findOwnProperty atom o.properties = some (.slot slot))
    {rounds : Nat} {out : JSValue} {last : State}
    (runs : walk engine atom (rounds + 1) (s.dup (.object ptr)) (.object ptr) = some (out, last))
    (value : out ≠ .exception) : last = s.dup out := by
  have asked : getOwnProperty engine (s.dup (.object ptr)) (.object ptr) atom =
      describe engine (s.dup (.object ptr)) atom slot := by
    rw [getOwnProperty_object engine (o := o) (by rw [State.object_dup, at_])]
    simp only [getOwnPropertyInternal, found]
  have inside : ∀ other ∈ slot.refers, other ∈ o.refers := fun other member =>
    List.mem_append_left _
      (refers_of_findOwnProperty (show findOwnProperty _ _ = some (.slot slot) from found) member)
  cases slot with
  | value read =>
    simp only [walk, asked, describe] at runs
    obtain ⟨rfl, rfl⟩ := Prod.mk.inj (Option.some.inj runs)
    exact readDescriptor_value here (refers_counts balanced at_ inside)
  | getset getter setter =>
    simp only [walk, asked, describe] at runs
    obtain ⟨rfl, rfl⟩ := Prod.mk.inj (Option.some.inj runs)
    refine readDescriptor_accessor here (refers_counts balanced at_ fun other member => ?_)
      (refers_counts balanced at_ fun other member => ?_)
    · exact inside other (List.mem_append_left _ (accessor_pointers getter ▸ member))
    · exact inside other (List.mem_append_right _ (accessor_pointers setter ▸ member))
  | varRef varRef =>
    have content : (s.dup (.object ptr)).variable varRef = s.variable varRef := by
      simp only [State.variable, nodeAt_dup]
    simp only [walk, asked, describe] at runs
    split at runs
    · next fails =>
        split at fails
        · obtain ⟨rfl, rfl⟩ := Prod.mk.inj (Option.some.inj runs)
          exact absurd rfl value
        · cases fails
    · next finds =>
        split at finds
        · cases finds
        · obtain ⟨same, rfl⟩ := Prod.mk.inj finds
          obtain rfl := Own.found.inj same
          obtain ⟨rfl, rfl⟩ := Prod.mk.inj (Option.some.inj runs)
          rw [content]
          refine readDescriptor_value here fun other member => ?_
          unfold State.variable at member
          split at member
          · next node => exact Cell.Balanced.countAt_child balanced node member
          · cases member
    · next misses =>
        split at misses
        · cases misses
        · cases misses

-- Neither the elements of an array or a string nor a proxy.
def JSClass.IsPlain (classId : JSClass) : Prop :=
  classId ≠ .array ∧ classId ≠ .string ∧ classId ≠ .proxy

theorem exoticGetOwnProperty_plain (plain : o.classId.IsPlain) :
    exoticGetOwnProperty engine s ptr o atom = (.missing, s) := by
  obtain ⟨noArray, noString, noProxy⟩ := plain
  unfold exoticGetOwnProperty
  split
  · next isArray => exact absurd isArray noArray
  · next isString => exact absurd isString noString
  · next isProxy => exact absurd isProxy noProxy
  · rfl

/-- The first own property is not one that has to be instantiated. -/
def FindsSlot (s : State) (atom : JSAtom) (run : List Pointer) : Prop :=
  ∀ place property, firstOwn s atom run = some (place, property) → ∃ slot, property = .slot slot

theorem walk_inherits (plain : o.classId.IsPlain) (at_ : s.object ptr = some o)
    (here : s.Counts (.object ptr)) (absent : findOwnProperty atom o.properties = none)
    (rounds : Nat) :
    walk engine atom (rounds + 1) (s.dup (.object ptr)) (.object ptr) =
      follow engine atom rounds (s.dup o.proto) o.proto := by
  have there : (s.dup (.object ptr)).object ptr = some o := by rw [State.object_dup, at_]
  have missing : getOwnProperty engine (s.dup (.object ptr)) (.object ptr) atom =
      (.missing, s.dup (.object ptr)) := by
    rw [getOwnProperty_object engine there]
    simp only [getOwnPropertyInternal, absent, exoticGetOwnProperty_plain plain]
  have proto : getPrototype engine (s.dup (.object ptr)) (.object ptr) =
      (o.proto, (s.dup (.object ptr)).dup o.proto) := by
    simp only [getPrototype, there, if_neg plain.2.2]
  simp only [walk, missing, proto, if_neg proto_ne_exception, free_dup_dup o.proto here, follow]

@[simp] theorem State.classId_dup {value other : JSValue} :
    (s.dup value).classId other = s.classId other := by
  cases other with
  | object ptr => simp only [State.classId, State.object_dup]
  | _ => rfl

-- Nothing but the result gets a reference.
theorem walk_quiet {next : JSValue} {run : List Pointer} (chain : Run s next run)
    (balanced : s.Balanced held) (at_ : s.object ptr = some o) (proto : o.proto = next)
    (plain : o.classId.IsPlain) (here : s.Counts (.object ptr))
    (finds : FindsSlot s atom (ptr :: run)) {rounds : Nat} {out : JSValue} {last : State}
    (runs : walk engine atom rounds (s.dup (.object ptr)) (.object ptr) = some (out, last))
    (answers : out ≠ .exception) : last = s.dup out := by
  have counted : s.Counts o.proto := refers_counts balanced at_ fun other member =>
    List.mem_append_right _ (List.mem_append_left _ (proto_pointers ▸ member))
  induction chain generalizing ptr o rounds with
  | @ends value outside =>
    cases rounds with
    | zero => cases runs
    | succ rounds =>
      cases found : findOwnProperty atom o.properties with
      | some property =>
        obtain ⟨slot, rfl⟩ :=
          finds ptr property (by simp only [firstOwn, at_, Option.bind_some, found])
        exact walk_slot balanced at_ here found runs answers
      | none =>
        rw [walk_inherits plain at_ here found, follow, State.classId_dup, proto,
          if_pos outside] at runs
        obtain ⟨rfl, rfl⟩ := Prod.mk.inj (Option.some.inj runs)
        exact free_dup _ (proto ▸ counted)
  | @next ptr' o' rest at' ordinary chain ih =>
    cases rounds with
    | zero => cases runs
    | succ rounds =>
      cases found : findOwnProperty atom o.properties with
      | some property =>
        obtain ⟨slot, rfl⟩ :=
          finds ptr property (by simp only [firstOwn, at_, Option.bind_some, found])
        exact walk_slot balanced at_ here found runs answers
      | none =>
        have enters : ¬s.classId (.object ptr') ≠ some .object := by
          simp only [State.classId, at', Option.map_some, ordinary, ne_eq, not_true_eq_false,
            not_false_eq_true]
        rw [walk_inherits plain at_ here found, follow, State.classId_dup, proto,
          if_neg enters] at runs
        have plain' : o'.classId.IsPlain := by
          rw [ordinary]
          exact ⟨nofun, nofun, nofun⟩
        have later : FindsSlot s atom (ptr' :: rest) := fun place property first => by
          refine finds place property ?_
          rw [firstOwn, at_, Option.bind_some, found]
          exact first
        exact ih at' rfl plain' (proto ▸ counted) later runs
          (refers_counts balanced at' fun other member =>
          List.mem_append_right _ (List.mem_append_left _ (proto_pointers ▸ member)))

end

/-! ### Reading a data property -/

section
variable {engine} {s : State} {held : List Pointer} {ptr : Pointer} {atom : JSAtom} {o : JSObject}

/-- The chain that the loop follows is finite: the ordinary objects from the prototype of the object
on. -/
def Finite (engine : Callees) (s : State) (ptr : Pointer) (atom : JSAtom) : Prop :=
  ∀ asked next before, getOwnProperty engine (s.dup (.object ptr)) (.object ptr) atom =
    (.missing, asked) →
    getPrototype engine asked (.object ptr) = (next, before) → ∃ run, Run before next run

end

-- An engine that has nothing to do.
def idle : Callees where
  throwNotAnObject s := s
  throwUninitialized s _ := s
  prepareUpdate s _ := (true, s)
  instantiate s _ _ _ _ _ := (.exception, s)
  createVarRef s := (none, s)
  getElement s _ _ := (.undefined, s)
  stringGetOwnProperty s _ _ := (.missing, s)
  proxyGetOwnProperty s _ _ := (.missing, s)
  proxyGetPrototype s _ := (.null, s)

theorem idle_lawful : Lawful idle where
  throwNotAnObject _ _ balanced := ⟨balanced, rfl, rfl⟩
  throwUninitialized _ _ _ balanced := ⟨balanced, rfl, rfl⟩
  prepareUpdate _ _ _ balanced _ := ⟨balanced, rfl, rfl⟩
  prepareUpdate_holds _ _ _ _ _ _ _ holds := holds
  instantiate _ _ _ _ _ _ _ balanced _ := ⟨balanced, rfl, rfl⟩
  instantiate_holds _ _ _ _ _ _ _ _ _ _ holds := holds
  instantiate_varRef _ _ _ _ _ _ _ _ _ _ isVarRef := nomatch isVarRef
  createVarRef _ _ balanced := ⟨balanced, rfl, rfl⟩
  createVarRef_fresh _ _ _ _ created := nomatch created
  createVarRef_holds _ _ _ _ _ _ _ holds := holds
  getElement _ _ _ _ balanced _ := ⟨balanced, rfl, rfl⟩
  stringGetOwnProperty _ _ _ _ balanced _ := ⟨balanced, rfl, rfl⟩
  proxyGetOwnProperty _ _ _ _ balanced _ := balanced
  stringGetOwnProperty_class _ _ _ _ _ _ := rfl
  proxyGetOwnProperty_class _ _ _ _ _ _ := rfl
  proxyGetPrototype _ _ _ balanced _ := balanced

-- An error whose name is on its prototype.
def anError : State :=
  ⟨[⟨1, 1, .object ⟨.error, none, [], some 2, []⟩⟩,
    ⟨2, 1, .object ⟨.object, none, [(55, .slot (.value (.other 3)))], none, []⟩⟩,
    ⟨3, 1, .other []⟩], [], 0⟩

theorem anError_balanced : anError.Balanced [1] := by
  refine ⟨by decide, fun address => ?_⟩
  rcases eq_or_ne address 1 with rfl | first
  · rfl
  · rcases eq_or_ne address 2 with rfl | second
    · rfl
    · rcases eq_or_ne address 3 with rfl | third
      · rfl
      · simp [anError, Cell.countAt, Cell.find, Cell.inside, Node.refers, JSObject.refers,
          JSProperty.refers, JSSlot.refers, JSValue.pointers, first.symm, second.symm, third.symm]

/-- An engine that gives a function its prototype object, as `js_instantiate_prototype` does. -/
def instantiating : Callees :=
  { idle with
    instantiate s _ ptr _ _ _ :=
      (.value (.object 9),
        { s with
          cells :=
            ⟨9, 1, .object ⟨.object, none, [(57, .slot (.value (.object ptr)))], none, []⟩⟩ ::
            Cell.retain ptr s.cells }) }

/-- A function of a realm, not asked for its `prototype` yet. -/
def aFunction : State :=
  ⟨[⟨1, 1, .object ⟨.other 13, none, [(56, .autoinit 2 .prototype 0)], none, []⟩⟩,
    ⟨2, 5, .other []⟩], [], 0⟩

end QuickJSBun.Engine.DataProperty
