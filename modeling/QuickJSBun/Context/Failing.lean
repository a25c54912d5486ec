import QuickJSBun.Context.Conserving
import QuickJSBun.Context.NotingValues
import QuickJSBun.Context.Scripted
import Mathlib.Logic.Relation
import Mathlib.Tactic.IntervalCases

/-! Conversions that throw. What a conversion has made on the way is disposed; the exception it throws
has the one handle that stays. An exception that cannot be described leaves its own.
-/

set_option autoImplicit false

namespace QuickJSBun.Context

open Library Effect

variable {σ V α : Type} (engine : Engine σ) (host : Host V σ)

def defineProps (object : JSValue) (values : HostValue V) : Run σ V Unit := do
  let entries : List (Text × HostValue V) ← host.ask (.entries values)
  .forEach (fun entry => do
    let handle ← newValue engine host entry.2
    withValue engine handle (defineProp engine (getException engine host) object entry.1 handle))
      entries

def setExport (module : Nat) (name : Text) (value : JSValue) : Run σ V Unit := do
  assertSameVM value
  let value ← ptr value
  let ok : Int ← call engine (.setModuleExport module (encode name) value)
  if ok < 0 then throwException (getException engine host) else pure ()

def setExports (module : Nat) (values : HostValue V) : Run σ V Unit := do
  let entries : List (Text × HostValue V) ← host.ask (.entries values)
  .forEach (fun entry => do
    let handle ← newValue engine host entry.2
    withValue engine handle (setExport engine host module entry.1 handle)) entries

inductive Conversion (V : Type) where
  | newValue (value : HostValue V)
  | newError (error : HostValue V)
  | defineProps (object : JSValue) (values : HostValue V)
  | setExports (module : Nat) (values : HostValue V)
  deriving Repr

def Conversion.convert (conversion : Conversion V) : Run σ V Unit :=
  match conversion with
  | .newValue value => do
    let _ ← Context.newValue engine host value
    pure ()
  | .newError error => do
    let _ ← Context.newError engine host error
    pure ()
  | .defineProps object values => Context.defineProps engine host object values
  | .setExports module values => Context.setExports engine host module values

/-- The handles in `vm.handles` that only the library has. -/
def World.Lists (w : World σ) (h : JSValue) : Prop :=
  ∃ handle, w.handles[h]? = some handle ∧ handle.listed = true ∧ handle.exposed = false

/-- The handle list is the one before, and what is thrown may have added its own handle. -/
structure Clean (e : HostValue V) (w w' : World σ) : Prop where
  kept : ∀ h, w.Lists h → w'.Lists h
  added : ∀ h, w'.Lists h → w.Lists h ∨ carried e h

-- What is in the list afterwards is what was left, but for what was lost.
theorem Step.lists_iff {left : JSValue → Prop} {flight : List Nat} {w w' : World σ}
    (sound : Sound flight w) (step : Step w w' nobody left) :
    ((∀ h, w.Lists h → w'.Lists h) ∧ ∀ h, w'.Lists h → w.Lists h ∨ left h) ↔
      ∀ h ∈ w'.undescribed, h ∉ w.undescribed → w'.Lists h → left h := by
  constructor
  · rintro ⟨-, added⟩ h undescribed new listed
    rcases added h listed with ⟨handle, found, -⟩ | isLeft
    · rcases step.lost h undescribed with earlier | above
      · exact absurd earlier new
      · exact absurd (List.getElem?_eq_some_iff.mp found).1 (Nat.not_lt.mpr above)
    · exact isLeft
  · intro described
    refine ⟨fun h ⟨handle, found, listed, unexposed⟩ => ?_, fun h lists => ?_⟩
    · rcases step.handles h handle found with same | ⟨exposed | freed, -⟩
      · exact ⟨handle, same, listed, unexposed⟩
      · rw [exposed] at unexposed
        cases unexposed
      · exact freed.elim
    · have ⟨handle, found, listed, unexposed⟩ := lists
      rcases Nat.lt_or_ge h w.handles.length with old | new
      · obtain same | ⟨-, same⟩ := step.handles h _ (List.getElem?_eq_getElem old)
        · rw [same] at found
          obtain rfl := Option.some.inj found
          exact .inl ⟨_, List.getElem?_eq_getElem old, listed, unexposed⟩
        · rw [same] at found
          obtain rfl := Option.some.inj found
          simp [Handle.listed] at listed
      · rcases step.created h handle new found listed with exposed | isLeft | undescribed
        · rw [exposed] at unexposed
          cases unexposed
        · exact .inr isLeft
        · refine .inr (described h undescribed (fun earlier => ?_) lists)
          obtain ⟨value, before⟩ := sound.lost h earlier
          exact absurd (List.getElem?_eq_some_iff.mp before).1 (Nat.not_lt.mpr new)

-- What is lost is in the list if it holds a reference.
theorem Sound.lists_lost {flight : List Nat} {w : World σ} (sound : Sound flight w) {h : JSValue}
    (lost : h ∈ w.undescribed) : w.Lists h ↔ (w.handle h).value.tag < 0 := by
  obtain ⟨value, found⟩ := sound.lost h lost
  rw [World.handle, found, Option.getD_some]
  constructor
  · rintro ⟨handle, its, listed, -⟩
    obtain rfl := Option.some.inj (found.symm.trans its)
    simpa [Handle.listed] using listed
  · exact fun heap => ⟨_, found, by simp [Handle.listed, heap], rfl⟩

-- Nothing is lost exactly if every exception that was taken on the way could be described.
theorem Mirrors.lists_iff {engine : Engine σ} {host : Host V σ} {left : JSValue → Prop}
    {flight flight' : List Nat} {n : World (Noted σ)} {w w' : World σ}
    (mirrors : Mirrors engine host w nobody n w') (sound : Sound flight w)
    (later : Sound flight' w') (step : Step w w' nobody left)
    (kept : ∀ h, left h → h ∉ w'.undescribed) :
    ((∀ h, w.Lists h → w'.Lists h) ∧ ∀ h, w'.Lists h → w.Lists h ∨ left h) ↔
      ∀ taking ∈ n.guest.2, taking.value.tag < 0 → taking.Describable engine host := by
  rw [step.lists_iff sound, ← mirrors.harmless_iff sound later]
  constructor
  · intro described h lost new heap
    exact kept h (described h lost new ((later.lists_lost lost).mpr heap)) lost
  · intro harmless h lost new lists
    exact absurd ((later.lists_lost lost).mp lists) (harmless h lost new)

theorem carried_kept {e : HostValue V} {flight : List Nat} {w w' : World σ}
    (later : Sound flight w')
    (yields : ∀ h ∈ e.handles, New w w' h ∨ ∃ handle, w'.handles[h]? = some handle ∧
      (handle.exposed = true ∨ handle.owned = false))
    (h : JSValue) (isCarried : carried e h) : h < w'.handles.length ∧ h ∉ w'.undescribed := by
  have member : h ∈ e.handles := by
    cases e with
    | exception value _ _ => exact List.mem_singleton.mpr isCarried
    | _ => exact isCarried.elim
  rcases yields h member with new | ⟨handle, found, known⟩
  · exact new.2
  · refine ⟨(List.getElem?_eq_some_iff.mp found).1, fun lost => ?_⟩
    obtain ⟨value, its⟩ := later.lost h lost
    obtain rfl := Option.some.inj (found.symm.trans its)
    exact known.elim nofun nofun

theorem Throws.kept {e : HostValue V} {flight : List Nat} {w w' : World σ} (throws : Throws e w w')
    (later : Sound flight w') (h : JSValue) (isCarried : carried e h) : h ∉ w'.undescribed :=
  (carried_kept later throws.yields h isCarried).2

theorem Notes.clean_iff {engine : Engine σ} {host : Host V σ} {y : Run (Noted σ) V α}
    {x : Run σ V α} {e : HostValue V} {outcome : Except (HostValue V) α} {flight flight' : List Nat}
    {w w' : World σ} (notes : Notes engine host y x) (runs : x.run w = (outcome, w'))
    (sound : Sound flight w) (later : Sound flight' w') (step : Step w w' nobody (carried e))
    (kept : ∀ h, carried e h → h ∉ w'.undescribed) : Clean e w w' ↔ Described engine host y w := by
  obtain ⟨n, noted, mirrors⟩ := notes.mirrored runs
  unfold Described takings
  rw [noted, ← mirrors.lists_iff sound later step kept]
  exact ⟨fun clean => ⟨clean.kept, clean.added⟩, fun both => ⟨both.1, both.2⟩⟩

section
variable (engine : LawfulEngine σ) (host : LawfulHost V σ)

theorem quiet_defineProps (object : JSValue) (values : HostValue V) :
    Quiet (defineProps engine.toEngine host.toHost object values) :=
  Quiet.bind (quiet_ask host _) fun _ => Quiet.forEach fun entry =>
    Quiet.using engine (makes_newValue engine host entry.2) fun handle =>
      quiet_defineProp engine (excepts_getException engine host) object entry.1 handle

theorem quiet_setExport (module : Nat) (name : Text) (value : JSValue) :
    Quiet (setExport engine.toEngine host.toHost module name value) := by
  refine Quiet.bind (quiet_assertSameVM value) fun _ => Quiet.bind (quiet_ptr value) fun _ => ?_
  refine Quiet.bind (quiet_call engine rfl fun _ => rfl) fun ok => ?_
  exact Quiet.ite (ends_throwException (excepts_getException engine host)) (Quiet.pure _)

theorem quiet_setExports (module : Nat) (values : HostValue V) :
    Quiet (setExports engine.toEngine host.toHost module values) :=
  Quiet.bind (quiet_ask host _) fun _ => Quiet.forEach fun entry =>
    Quiet.using engine (makes_newValue engine host entry.2) fun handle =>
      quiet_setExport engine host module entry.1 handle

-- What is thrown has its own handle only.
theorem Makes.throws {x : Run σ V JSValue} (makes : Makes x) {flight : List Nat} {w w' : World σ}
    {e : HostValue V} (sound : Sound flight w)
    (throws : (do let _ ← x; pure () : Run σ V Unit).run w = (.error e, w')) :
    Sound flight w' ∧ Throws e w w' := by
  have ends : Triple (· = w) (do let _ ← x; pure () : Run σ V Unit) (fun _ _ => True)
      (fun e w' => Sound flight w' ∧ Throws e w w') :=
    Triple.bind ((makes flight w sound).weaken (fun _ same => same) (fun _ _ _ => trivial)
      fun _ _ ends => ends)
      fun _ => Triple.pure () fun _ _ => trivial
  exact ends.thrown rfl throws

theorem convert_throws (conversion : Conversion V) {flight : List Nat} {w w' : World σ}
    {e : HostValue V} (sound : Sound flight w)
    (throws : (conversion.convert engine.toEngine host.toHost).run w = (.error e, w')) :
    Sound flight w' ∧ Throws e w w' := by
  cases conversion with
  | newValue value => exact (makes_newValue engine host value).throws sound throws
  | newError error => exact (makes_newError engine host error).throws sound throws
  | defineProps object values =>
    exact (quiet_defineProps engine host object values flight w sound).thrown rfl throws
  | setExports module values =>
    exact (quiet_setExports engine host module values flight w sound).thrown rfl throws

end

section
variable {engine : Engine σ} {host : Host V σ} (unaware : Unaware engine host)
include unaware

theorem notes_defineProps (object : JSValue) (values : HostValue V) :
    Notes engine host (defineProps engine.noting host.noting object values)
      (defineProps engine host object values) := by
  apply Notes.bind (notes_ask unaware _)
  intro entries
  refine Notes.forEach (fun entry => ?_) entries
  apply Notes.bind (notes_newValue unaware entry.2)
  intro handle
  exact notes_withValue unaware handle
    (notes_defineProp unaware (notes_getException unaware) object entry.1 handle)

theorem notes_setExport (module : Nat) (name : Text) (value : JSValue) :
    Notes engine host (setExport engine.noting host.noting module name value)
      (setExport engine host module name value) := by
  apply Notes.bind (notes_assertSameVM value)
  intro _
  apply Notes.bind (notes_ptr value)
  intro cell
  apply Notes.bind (notes_call unaware fun _ _ => rfl)
  intro ok
  exact Notes.ite (notes_throwException (notes_getException unaware)) (Notes.pure ())

theorem notes_setExports (module : Nat) (values : HostValue V) :
    Notes engine host (setExports engine.noting host.noting module values)
      (setExports engine host module values) := by
  apply Notes.bind (notes_ask unaware _)
  intro entries
  refine Notes.forEach (fun entry => ?_) entries
  apply Notes.bind (notes_newValue unaware entry.2)
  intro handle
  exact notes_withValue unaware handle (notes_setExport unaware module entry.1 handle)

theorem notes_convert (conversion : Conversion V) :
    Notes engine host (conversion.convert engine.noting host.noting)
      (conversion.convert engine host) := by
  cases conversion with
  | newValue value => exact Notes.bind (notes_newValue unaware value) fun _ => Notes.pure ()
  | newError error => exact Notes.bind (notes_newError unaware error) fun _ => Notes.pure ()
  | defineProps object values => exact notes_defineProps unaware object values
  | setExports module values => exact notes_setExports unaware module values

end

/-! ### Cyclic values -/

/-- `newContainer` with at most so many rounds of its loop over an array. -/
def newContainerRounds (rounds : Nat) (convert : HostValue V → Run σ V JSValue)
    (value : HostValue V) : Run σ V JSValue := do
  let isArray : Bool ← host.ask (.isArray value)
  if isArray then do
    let out : Value ← call engine .newArray
    let array ← resultValue (getException engine host) out
    orDispose engine array do
      defineItems engine host convert value array rounds 0
      pure array
  else do
    let prototype : Prototype ← host.ask (.getPrototypeOf value)
    .check (prototype != .other) (assertionError "Only plain objects can be converted to QuickJS")
    let out : Value ← call engine .newObject
    let object ← resultValue (getException engine host) out
    orDispose engine object do
      let keys : List Text ← host.ask (.keys value)
      defineMembers engine host convert value object keys
      pure object

def newValueRounds (rounds : Nat) : Nat → HostValue V → Run σ V JSValue
  | 0, value =>
    newValueAround engine host
      (fun _ => .throw (assertionError "Cannot convert host value nested deeper than 1024")) value
  | levels + 1, value =>
    newValueAround engine host
      (newContainerRounds engine host rounds (newValueRounds rounds levels)) value

/-- What a host object shows to who reads it. -/
inductive Shape (V : Type) where
  | array (names : List Text) (items : List (HostValue V))
  | record (prototype : Prototype) (members : List (Text × Descriptor V))

/-- Reading has no effect and always gives the same. -/
structure Stable (host : Host V σ) (shape : HostValue V → Shape V) : Prop where
  instanceOf : ∀ value constructor w,
    ∃ answer, (host.ask (.instanceOf value constructor)).run w = (.ok answer, w)
  array : ∀ value names items, shape value = .array names items → ∀ w,
    (host.ask (.isArray value)).run w = (.ok true, w) ∧
      (host.ask (.keys value)).run w = (.ok names, w) ∧
      (host.ask (.length value)).run w = (.ok items.length, w) ∧
      (host.ask (.iterate value)).run w = (.ok items, w)
  record : ∀ value prototype members, shape value = .record prototype members → ∀ w,
    (host.ask (.isArray value)).run w = (.ok false, w) ∧
      (host.ask (.getPrototypeOf value)).run w = (.ok prototype, w) ∧
      (host.ask (.keys value)).run w = (.ok (members.map (·.1)), w) ∧
      ∀ key, (host.ask (.getOwnPropertyDescriptor value key)).run w = (.ok (members.lookup key), w)

/-- An array or object has another as an item or a member. -/
inductive Child (host : Host V σ) (shape : HostValue V → Shape V) :
    HostValue V → HostValue V → Prop where
  | item {value item : HostValue V} {names : List Text} {items : List (HostValue V)} :
      isJsonLeaf host value = none → shape value = .array names items → item ∈ items →
      Child host shape value item
  | member {value item : HostValue V} {prototype : Prototype}
      {members : List (Text × Descriptor V)} {key : Text} :
      isJsonLeaf host value = none → shape value = .record prototype members →
      members.lookup key = some (.data item) → Child host shape value item

-- Some object in the value is inside itself.
def Cyclic (host : Host V σ) (shape : HostValue V → Shape V) (value : HostValue V) : Prop :=
  ∃ object, Relation.ReflTransGen (Child host shape) value object ∧
    Relation.TransGen (Child host shape) object object

-- The value is nested at least so deep.
def Deep (host : Host V σ) (shape : HostValue V → Shape V) : Nat → HostValue V → Prop
  | 0, _ => True
  | n + 1, value => ∃ item, Child host shape value item ∧ Deep host shape n item

variable {engine} {host} {shape : HostValue V → Shape V}

theorem Cyclic.deep {value : HostValue V} (cyclic : Cyclic host shape value) (n : Nat) :
    Deep host shape n value := by
  obtain ⟨object, reaches, around⟩ := cyclic
  obtain ⟨first, enters, back⟩ := Relation.TransGen.head'_iff.mp around
  induction n generalizing value with
  | zero => trivial
  | succ n ih =>
    rcases Relation.ReflTransGen.cases_head reaches with rfl | ⟨next, step, later⟩
    · exact ⟨first, enters, ih back⟩
    · exact ⟨next, step, ih later⟩

theorem allOf_pure {β : Type} {test : β → Run σ V Bool} {items : List β} {w : World σ}
    (answers : ∀ item ∈ items, ∃ answer, (test item).run w = (.ok answer, w)) :
    ∃ answer, (allOf test items).run w = (.ok answer, w) ∧
      ((∃ item ∈ items, (test item).run w = (.ok false, w)) → answer = false) := by
  induction items with
  | nil => exact ⟨true, rfl, fun ⟨item, member, _⟩ => nomatch member⟩
  | cons item rest ih =>
    obtain ⟨first, runs⟩ := answers item List.mem_cons_self
    obtain ⟨later, runsLater, falseLater⟩ :=
      ih fun other member => answers other (List.mem_cons_of_mem _ member)
    have step : (allOf test (item :: rest)).run w =
        (if first then allOf test rest else pure false : Run σ V Bool).run w :=
      Effect.bind_ok runs
    cases first with
    | false => exact ⟨false, step, fun _ => rfl⟩
    | true =>
      refine ⟨later, step.trans runsLater, fun ⟨other, member, refused⟩ => ?_⟩
      rcases List.mem_cons.mp member with rfl | inside
      · rw [refused] at runs
        cases runs
      · exact falseLater ⟨other, inside, refused⟩

theorem lookup_of_mem {members : List (Text × Descriptor V)} {key : Text}
    (member : key ∈ members.map (·.1)) : ∃ descriptor, members.lookup key = some descriptor := by
  induction members with
  | nil => cases member
  | cons first rest ih =>
    rw [List.lookup_cons]
    split
    · exact ⟨_, rfl⟩
    · next apart =>
        refine ih ((List.mem_cons.mp member).resolve_left fun same => ?_)
        rw [same, beq_self_eq_true] at apart
        cases apart

theorem mem_of_lookup {members : List (Text × Descriptor V)} {key : Text}
    {descriptor : Descriptor V} (found : members.lookup key = some descriptor) :
    key ∈ members.map (·.1) := by
  induction members with
  | nil => cases found
  | cons first rest ih =>
    rw [List.lookup_cons] at found
    split at found
    · next same => exact List.mem_cons.mpr (.inl (beq_iff_eq.mp same))
    · exact List.mem_cons_of_mem _ (ih found)

/-- What a member of a record is worth to `isJsonWithin`. -/
def isJsonMember (host : Host V σ) (levels : Nat) (descriptor : Option (Descriptor V)) :
    Run σ V Bool :=
  match descriptor with
  | none => .throw (typeError "descriptor is not an Object")
  | some .accessor => pure false
  | some (.data item) => isJsonWithin host levels item

-- `isJson` has an answer, which is no for what is nested too deep.
theorem isJsonWithin_stable (stable : Stable host shape) (levels : Nat) (value : HostValue V)
    (w : World σ) :
    ∃ answer, (isJsonWithin host levels value).run w = (.ok answer, w) ∧
      (Deep host shape (levels + 1) value → answer = false) := by
  induction levels generalizing value with
  | zero =>
    refine ⟨(isJsonLeaf host value).getD false, rfl, ?_⟩
    rintro ⟨item, child, -⟩
    cases child with
    | item leaf => rw [leaf]; rfl
    | member leaf => rw [leaf]; rfl
  | succ levels ih =>
    cases leaf : isJsonLeaf host value with
    | some answer =>
      refine ⟨answer, by simp only [isJsonWithin, leaf]; rfl, ?_⟩
      rintro ⟨item, child, -⟩
      cases child with
      | item none => rw [leaf] at none; cases none
      | member none => rw [leaf] at none; cases none
    | none =>
      cases shaped : shape value with
      | array names items =>
        obtain ⟨isArray, keys, length, iterate⟩ := stable.array value names items shaped w
        have step : (isJsonWithin host (levels + 1) value).run w =
            (if names.length ≠ items.length then pure false else do
              let items : List (HostValue V) ← host.ask (.iterate value)
              allOf (isJsonWithin host levels) items : Run σ V Bool).run w := by
          simp only [isJsonWithin, leaf]
          rw [Effect.bind_ok isArray, if_pos rfl, Effect.bind_ok keys, Effect.bind_ok length]
        by_cases holes : names.length ≠ items.length
        · rw [if_pos holes] at step
          exact ⟨false, step, fun _ => rfl⟩
        · rw [if_neg holes, Effect.bind_ok iterate] at step
          obtain ⟨answer, runs, refuses⟩ :=
            allOf_pure (fun item _ => (ih item).imp fun _ ends => ends.1 :
            ∀ item ∈ items, ∃ answer, (isJsonWithin host levels item).run w = (.ok answer, w))
          refine ⟨answer, step.trans runs, ?_⟩
          rintro ⟨item, child, deep⟩
          apply refuses
          obtain ⟨refused, answered, isRefused⟩ := ih item
          obtain rfl := isRefused deep
          cases child with
          | item none same member =>
            rw [shaped] at same
            obtain ⟨rfl, rfl⟩ := Shape.array.inj same
            exact ⟨item, member, answered⟩
          | member none same =>
            rw [shaped] at same
            cases same
      | record prototype members =>
        obtain ⟨isArray, hasPrototype, keys, descriptors⟩ :=
          stable.record value prototype members shaped w
        have step : (isJsonWithin host (levels + 1) value).run w =
            (if prototype = .other then pure false else do
              let keys : List Text ← host.ask (.keys value)
              allOf (fun key => do
                let descriptor :
                    Option (Descriptor V) ← host.ask (.getOwnPropertyDescriptor value key)
                isJsonMember host levels descriptor) keys : Run σ V Bool).run w := by
          simp only [isJsonWithin, leaf]
          rw [Effect.bind_ok isArray, if_neg Bool.false_ne_true]
          exact Effect.bind_ok hasPrototype
        by_cases foreign : prototype = .other
        · rw [if_pos foreign] at step
          exact ⟨false, step, fun _ => rfl⟩
        · rw [if_neg foreign, Effect.bind_ok keys] at step
          have answers : ∀ key ∈ members.map (·.1), ∃ answer, (do
              let descriptor :
                  Option (Descriptor V) ← host.ask (.getOwnPropertyDescriptor value key)
              isJsonMember host levels descriptor : Run σ V Bool).run w = (.ok answer, w) ∧
              ∀ item, members.lookup key = some (.data item) → Deep host shape (levels + 1) item →
                answer = false := by
            intro key member
            obtain ⟨descriptor, found⟩ := lookup_of_mem member
            have told := descriptors key
            rw [found] at told
            cases descriptor with
            | accessor => exact ⟨false, Effect.bind_ok told, fun _ _ _ => rfl⟩
            | data item =>
              obtain ⟨answer, runs, refuses⟩ := ih item
              refine ⟨answer, (Effect.bind_ok told).trans runs, fun other same deep => refuses ?_⟩
              rw [found] at same
              cases same
              exact deep
          obtain ⟨answer, runs, refuses⟩ :=
            allOf_pure fun key member => (answers key member).imp fun _ ends => ends.1
          refine ⟨answer, step.trans runs, ?_⟩
          rintro ⟨item, child, deep⟩
          apply refuses
          cases child with
          | item none same =>
            rw [shaped] at same
            cases same
          | @member _ _ key none same found =>
            rw [shaped] at same
            obtain ⟨rfl, rfl⟩ := Shape.record.inj same
            have inside : key ∈ members.map (·.1) := mem_of_lookup found
            obtain ⟨refused, answered, isRefused⟩ := answers key inside
            obtain rfl := isRefused item found deep
            exact ⟨key, inside, answered⟩

-- The length of an array is below a bound.
def Lengths (host : Host V σ) (bound : Nat) : Prop :=
  ∀ value w length w', (host.ask (.length value)).run w = (.ok length, w') → length < bound

theorem run_bind_congr {α β : Type} {x : Run σ V α} {f g : α → Run σ V β} {w : World σ}
    (same : ∀ a w', x.run w = (.ok a, w') → (f a).run w' = (g a).run w') :
    (x >>= f).run w = (x >>= g).run w := by
  show (Effect.bind x f).run w = (Effect.bind x g).run w
  simp only [Effect.bind]
  split
  · next a w' runs => exact same a w' runs
  · rfl

theorem run_ext {α : Type} {x y : Run σ V α} (same : ∀ w, x.run w = y.run w) : x = y := by
  cases x
  cases y
  exact congrArg Effect.mk (funext same)

theorem defineItems_rounds {bound : Nat} (lengths : Lengths host bound)
    (convert : HostValue V → Run σ V JSValue) (value : HostValue V) (array : JSValue)
    {rounds more index : Nat} (enough : bound ≤ index + rounds) (positive : 0 < rounds)
    (enoughMore : bound ≤ index + more) (positiveMore : 0 < more) (w : World σ) :
    (defineItems engine host convert value array rounds index).run w =
      (defineItems engine host convert value array more index).run w := by
  induction rounds generalizing more index w with
  | zero => cases positive
  | succ rounds ih =>
    obtain ⟨more, rfl⟩ : ∃ less, more = less + 1 := ⟨more - 1, by omega⟩
    refine run_bind_congr fun (length : Nat) w' measured => ?_
    have below : length < bound := lengths value w length w' measured
    by_cases inside : index < length
    · simp only [if_pos inside]
      refine run_bind_congr fun element w'' _ => run_bind_congr fun item _ _ =>
        run_bind_congr fun _ _ _ => ?_
      exact ih (by omega) (by omega) (by omega) (by omega) _
    · simp only [if_neg inside]

theorem newValueRounds_eq (lengths : Lengths host (2 ^ 32)) {rounds more : Nat}
    (enough : 2 ^ 32 ≤ rounds) (enoughMore : 2 ^ 32 ≤ more) (levels : Nat) (value : HostValue V) :
    newValueRounds engine host rounds levels value =
      newValueRounds engine host more levels value := by
  induction levels generalizing value with
  | zero => rfl
  | succ levels ih =>
    have same : newValueRounds engine host rounds levels = newValueRounds engine host more levels :=
      funext ih
    have loops : ∀ convert (value : HostValue V) array,
        defineItems engine host convert value array rounds 0 =
        defineItems engine host convert value array more 0 :=
      fun convert value array => run_ext fun w =>
      defineItems_rounds lengths convert value array (by omega) (by omega) (by omega) (by omega) w
    have containers :
        newContainerRounds engine host rounds (newValueRounds engine host rounds levels) =
        newContainerRounds engine host more (newValueRounds engine host more levels) := by
      rw [same]
      funext object
      unfold newContainerRounds
      simp only [loops]
    unfold newValueRounds
    rw [containers]

theorem newValueRounds_unbounded (levels : Nat) (value : HostValue V) :
    newValueRounds engine host unbounded levels value =
      newValueWithin engine host levels value := by
  induction levels generalizing value with
  | zero => rfl
  | succ levels ih =>
    have same : newValueRounds engine host unbounded levels = newValueWithin engine host levels :=
      funext ih
    unfold newValueRounds newValueWithin
    rw [same]
    rfl

-- A cyclic value is not written as JSON, and its conversion ends within the rounds that an array
-- allows.
theorem newValue_cyclic (lengths : Lengths host (2 ^ 32)) (stable : Stable host shape)
    {value : HostValue V} (cyclic : Cyclic host shape value) {rounds : Nat}
    (enough : 2 ^ 32 ≤ rounds) (w : World σ) :
    (newValue engine host value).run w = (newValueRounds engine host rounds 1024 value).run w := by
  have noJson : (takesJson host value).run w = (.ok false, w) := by
    obtain ⟨answer, runs, refuses⟩ := isJsonWithin_stable stable 1024 value w
    obtain rfl := refuses (cyclic.deep _)
    unfold takesJson
    split
    · rfl
    · obtain ⟨isHandle, told⟩ : ∃ isHandle,
          (instanceOf host value .jsValue).run w = (.ok isHandle, w) := by
        cases value with
        | other v => exact stable.instanceOf (.other v) .jsValue w
        | _ => exact ⟨_, rfl⟩
      rw [Effect.bind_ok told]
      cases isHandle with
      | true => rfl
      | false => exact runs
  rw [newValueRounds_eq lengths enough (by decide : 2 ^ 32 ≤ unbounded), newValueRounds_unbounded]
  exact Effect.bind_ok noJson

/-- A conversion that throws is clean exactly if every exception that the engine gave it on the way
could be described; and no cyclic value keeps a conversion from ending. -/
theorem conversions_clean (engine : LawfulEngine σ) (host : LawfulHost V σ)
    (unaware : Unaware engine.toEngine host.toHost) :
    (∀ (conversion : Conversion V) (flight : List Nat) (w : World σ) (e : HostValue V) (w' : World σ),
      Sound flight w → (conversion.convert engine.toEngine host.toHost).run w = (.error e, w') →
      (Clean e w w' ↔
        Described engine.toEngine host.toHost
          (conversion.convert engine.toEngine.noting host.toHost.noting) w)) ∧
      ∀ (shape : HostValue V → Shape V) (value : HostValue V) (rounds : Nat) (w : World σ),
        Lengths host.toHost (2 ^ 32) → Stable host.toHost shape → Cyclic host.toHost shape value →
        2 ^ 32 ≤ rounds →
        (newValue engine.toEngine host.toHost value).run w =
          (newValueRounds engine.toEngine host.toHost rounds 1024 value).run w := by
  constructor
  · intro conversion flight w e w' sound throws
    obtain ⟨later, thrown⟩ := convert_throws engine host conversion sound throws
    exact (notes_convert unaware conversion).clean_iff throws sound later thrown.step
      (thrown.kept later)
  · intro shape value rounds w lengths stable cyclic enough
    exact newValue_cyclic lengths stable cyclic enough w

/-! ### A revoked proxy on the way -/

/-- Cell 0 is a proxy whose trap throws cell 1, a revoked proxy; asking for its type throws cell 2,
a `TypeError`. -/
def revoked : Script Unit where
  reply native w :=
    match native with
    | .newAtomLen _ => (1 : Nat)
    | .definePropertyValue _ _ _ => (-1 : Int)
    | .getException => w.pending
    | .type (.heap .object cell) => if cell = 1 then (-1 : Int) else 10
    | native => native.idle
  pending native w :=
    match native with
    | .definePropertyValue _ _ _ => .heap .object 1
    | .getException => .uninitialized
    | .type (.heap .object cell) => if cell = 1 then .heap .object 2 else w.pending
    | _ => w.pending
  guest _ w := w.guest
  typed value w above := by
    cases value with
    | heap tag cell =>
      cases tag with
      | object => exact ⟨cell, rfl⟩
      | _ =>
        have none : (7 : Int) ≤ 0 := above
        cases none
    | _ =>
      have none : (7 : Int) ≤ 0 := above
      cases none

-- A host object with one member, the number 1.
def single : (op : HostOp Unit) → op.Reply Unit
  | .entries _ => [(text "a", .number (.int 1))]
  | op => op.idle

def singleHost : LawfulHost Unit Unit := answering (fun _ => false) (fun _ => []) single

def proxyWorld : World Unit where
  disposed := false
  cells := [16, 32, 48]
  references := [2, 1, 1]
  engine := [1, 1, 1]
  handles := constants ++ [⟨false, .heap .object 0, true, true, false⟩]
  atoms := []
  pending := .uninitialized
  inOutOfMemory := false
  hostDepth := 0
  scratch := 4096
  undescribed := []
  guest := ()

theorem proxyWorld_sound : Sound [] proxyWorld where
  references_length := rfl
  engine_length := rfl
  accounts
    | 0 => rfl
    | 1 => rfl
    | 2 => rfl
    | _ + 3 => rfl
  distinct cell other counted also same := by
    have first : cell < 3 := lt_length_of_counter counted
    have second : other < 3 := lt_length_of_counter also
    interval_cases cell <;> interval_cases other <;> first | rfl | cases same
  nonzero cell counted := by
    have first : cell < 3 := lt_length_of_counter counted
    interval_cases cell <;> exact nofun
  owned h handle found shared := by
    rcases Nat.lt_or_ge h 4 with below | above
    · interval_cases h <;> cases found <;> exact absurd rfl shared
    · obtain ⟨n, rfl⟩ := Nat.exists_eq_add_of_le above
      cases n with
      | zero => cases found; rfl
      | succ n => rw [Nat.add_comm] at found; cases found
  constants h handle isConstant :=
    (List.getElem?_append_left (List.getElem?_eq_some_iff.mp isConstant).1).trans isConstant
  lost _ member := nomatch member

/-- New objects are cells 1 and 2. Nothing can be defined on them: that throws cell 0, an error. -/
def refusing : Script Nat where
  reply native w :=
    match native with
    | .newObject => .heap .object w.guest
    | .newBigInt64 value => .shortBigInt value
    | .newAtomLen _ => (1 : Nat)
    | .definePropertyValue _ _ _ => (-1 : Int)
    | .getException => w.pending
    | .type (.heap .object _) => (10 : Int)
    | native => native.idle
  pending native w :=
    match native with
    | .definePropertyValue _ _ _ => .heap .object 0
    | .getException => .uninitialized
    | _ => w.pending
  guest native w :=
    match native with
    | .newObject => w.guest + 1
    | _ => w.guest
  typed value w above := by
    cases value with
    | heap tag cell =>
      cases tag with
      | object => exact ⟨cell, rfl⟩
      | _ =>
        have none : (7 : Int) ≤ 0 := above
        cases none
    | _ =>
      have none : (7 : Int) ≤ 0 := above
      cases none

/-- `{ inner: { n: 5n } }` -/
def nested : (op : HostOp Bool) → op.Reply Bool
  | .keys (.other outer) => if outer then [text "inner"] else [text "n"]
  | .getOwnPropertyDescriptor (.other outer) _ =>
    some (.data (if outer then .other false else .bigint 5))
  | op => op.idle

def nestedHost : LawfulHost Bool Nat := answering (fun _ => false) (fun _ => []) nested

/-- Both objects and the bigint have handles when the inner object refuses; of the three none is
left. -/
theorem conversions_clean_nested :
    ∃ w',
      ((Conversion.newValue (.other true)).convert refusing.engine.toEngine nestedHost.toHost).run
        (proxyWorld.withGuest 1) = (.error (.exception 8 (text "Error") (text "Error")), w') ∧
      Clean (.exception 8 (text "Error") (text "Error") : HostValue Bool)
        (proxyWorld.withGuest 1) w' := by
  obtain ⟨w', throws⟩ : ∃ w', ((Conversion.newValue (.other true)).convert refusing.engine.toEngine
      nestedHost.toHost).run (proxyWorld.withGuest 1) =
        (.error (.exception 8 (text "Error") (text "Error")), w') :=
    ⟨_, rfl⟩
  have clean :=
    (conversions_clean refusing.engine nestedHost (unaware_answering _ _ _ _)).1 _ [] _ _ _
    (proxyWorld_sound.withGuest 1) throws
  exact ⟨w', throws, clean.mpr (by decide +kernel)⟩

/-- `defineProps` on the proxy throws the `TypeError`; the handle of the revoked proxy stays. -/
theorem defineProps_leaks :
    ∃ w',
      ((Conversion.defineProps 4 (.other ())).convert revoked.engine.toEngine singleHost.toHost).run
        proxyWorld = (.error (.exception 7 (text "Error") (text "Error")), w') ∧
      w'.Lists 6 ∧ ¬Clean (.exception 7 (text "Error") (text "Error") : HostValue Unit)
        proxyWorld w' := by
  refine ⟨_, rfl, ⟨_, rfl, rfl, rfl⟩, fun clean => ?_⟩
  rcases clean.added 6 ⟨_, rfl, rfl, rfl⟩ with ⟨handle, found, -⟩ | isCarried
  · cases found
  · cases isCarried

end QuickJSBun.Context
