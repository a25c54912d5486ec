import QuickJSBun.Context.Failing
import QuickJSBun.Context.Placing
import Mathlib.Tactic.IntervalCases

/-! A dump aliases by guest identity. Every pointer in `seen` is the address of a cell
that the root or an entry of `kept` holds until the walk ends, so no address comes
back under another cell.
-/

set_option autoImplicit false

namespace QuickJSBun.Context

open Library Effect

variable {σ V α β : Type}

/-- An engine whose `qjs_bun_type` never takes a value on the heap for one that is not, nor an
object for none. -/
structure TypingEngine (σ : Type) extends LawfulEngine σ where
  kinds : ∀ tag cell w, (0 : Int) ≤ (call (.type (.heap tag cell)) w).1 →
    (4 : Int) ≤ (call (.type (.heap tag cell)) w).1 ∧
    (tag = .object → (7 : Int) ≤ (call (.type (.heap tag cell)) w).1)

namespace Walk

/-- The root or an entry of `kept` holds the cell. -/
def Holds (s : Walk σ) (root : JSValue) (tag : HeapTag) (cell : Nat) : Prop :=
  ∃ (h : JSValue) (handle : Handle), (h = root ∨ h ∈ s.kept) ∧ s.world.handles[h]? = some handle ∧
    handle.disposed = false ∧ handle.value = .heap tag cell

-- Nobody has disposed the root.
def Rooted (s : Walk σ) (root : JSValue) : Prop :=
  ∃ handle : Handle, s.world.handles[root]? = some handle ∧ handle.disposed = false

/-- What a guest value became: that of the entry of its cell, or no object at all. -/
def Found (s : Walk σ) (root : JSValue) (value : Value) (item : Dumped) : Prop :=
  match value with
  | .heap tag cell => s.Holds root tag cell ∧ (s.world.address cell, item) ∈ s.seen
  | _ => ∀ n, item ≠ .object n

structure Aliases (s : Walk σ) (root : JSValue) : Prop where
  entries : ∀ entry ∈ s.seen, ∃ tag cell, s.Holds root tag cell ∧ s.world.address cell = entry.1 ∧
    (tag = .object ↔ ∃ n, entry.2 = .object n)
  pointers : (s.seen.map (·.1)).Nodup
  reads : ∀ read ∈ s.reads, s.Found root read.value read.item
  objects : ∀ entry ∈ s.seen, ∀ n, entry.2 = .object n → n < s.objects.length
  distinct : ∀ entry ∈ s.seen, ∀ other ∈ s.seen, ∀ n, entry.2 = .object n → other.2 = .object n →
    entry = other

structure Tracked (s : Walk σ) (root : JSValue) : Prop where
  sound : Sound [] s.world
  known : root < s.world.handles.length
  kept : ∀ h ∈ s.kept, ∃ value, s.world.handles[h]? = some ⟨false, value, true, false, false⟩
  aliases : s.Rooted root → s.Aliases root

/-- What a part of the walk does: what was held is held, what was entered stays entered. -/
structure Fills (root : JSValue) (s s' : Walk σ) : Prop where
  tracked : s'.Tracked root
  valued : Valued s.world s'.world
  cells : s.world.cells <+: s'.world.cells
  seen : s.seen ⊆ s'.seen
  length_le : s.objects.length ≤ s'.objects.length
  rooted : s'.Rooted root → s.Rooted root
  holds : s'.Rooted root → ∀ tag cell, s.Holds root tag cell → s'.Holds root tag cell

def enter (s : Walk σ) (cell : Nat) (item : Dumped) : Walk σ :=
  { s with seen := s.seen ++ [(s.world.address cell, item)] }

end Walk

open Walk

theorem Walk.Holds.alive {s : Walk σ} {root : JSValue} {tag : HeapTag} {cell : Nat}
    (holds : s.Holds root tag cell) (sound : Sound [] s.world) :
    counter s.world.references cell ≠ 0 := by
  obtain ⟨h, handle, -, found, alive, value⟩ := holds
  have cells : handle.value.cells = [cell] := by rw [value]; rfl
  have owned := sound.owned h handle found (by simp [cells])
  have counted := le_tally (f := Handle.holds cell) (List.mem_of_getElem? found)
  have one : handle.holds cell = 1 := by simp [Handle.holds, owned, alive, cells]
  exact sound.counted (.inr (.inl (by simp only [World.held]; omega)))

/-! ### Steps of the world -/

section
variable {s s' s'' : Walk σ} {w' : World σ} {root : JSValue} {left : JSValue → Prop}

theorem Walk.Fills.refl (tracked : s.Tracked root) : Fills root s s where
  tracked := tracked
  valued := Valued.refl s.world
  cells := List.prefix_rfl
  seen _ member := member
  length_le := Nat.le_refl _
  rooted rooted := rooted
  holds _ _ _ holds := holds

theorem Walk.Fills.trans (first : Fills root s s') (second : Fills root s' s'') :
    Fills root s s'' where
  tracked := second.tracked
  valued := first.valued.trans second.valued
  cells := first.cells.trans second.cells
  seen _ member := second.seen (first.seen member)
  length_le := Nat.le_trans first.length_le second.length_le
  rooted rooted := first.rooted (second.rooted rooted)
  holds rooted tag cell holds :=
    second.holds rooted tag cell (first.holds (second.rooted rooted) tag cell holds)

theorem Walk.Fills.address (fills : Fills root s s') (tracked : s.Tracked root) {tag : HeapTag}
    {cell : Nat} (holds : s.Holds root tag cell) : s'.world.address cell = s.world.address cell :=
  address_prefix fills.cells (tracked.sound.lt (holds.alive tracked.sound))

theorem Walk.Fills.found (fills : Fills root s s') (tracked : s.Tracked root)
    (rooted : s'.Rooted root) {value : Value} {item : Dumped} (found : s.Found root value item) :
    s'.Found root value item := by
  cases value with
  | heap tag cell =>
    obtain ⟨holds, entered⟩ := found
    refine ⟨fills.holds rooted tag cell holds, ?_⟩
    rw [fills.address tracked holds]
    exact fills.seen entered
  | _ => exact found

theorem rooted_before (step : Step s.world w' nobody left) (known : root < s.world.handles.length)
    (rooted : Rooted { s with world := w' } root) : s.Rooted root := by
  obtain ⟨handle, found, alive⟩ := rooted
  refine ⟨_, List.getElem?_eq_getElem known, ?_⟩
  by_contra gone
  have stays := step.disposed (List.getElem?_eq_getElem known) (by simpa using gone)
  obtain rfl := Option.some.inj (found.symm.trans stays)
  exact gone alive

-- Handles of the walk are not exposed, so nobody else disposes them.
theorem holds_step (tracked : s.Tracked root) (step : Step s.world w' nobody left)
    (rooted : Rooted { s with world := w' } root) {tag : HeapTag} {cell : Nat}
    (holds : s.Holds root tag cell) : Holds { s with world := w' } root tag cell := by
  obtain ⟨h, handle, mine, found, alive, value⟩ := holds
  refine ⟨h, handle, mine, ?_, alive, value⟩
  obtain same | ⟨may, same⟩ := step.handles h handle found
  · exact same
  · rcases mine with rfl | member
    · obtain ⟨other, at_root, rootAlive⟩ := rooted
      obtain rfl := Option.some.inj (at_root.symm.trans same)
      cases rootAlive
    · obtain ⟨value, private_⟩ := tracked.kept h member
      obtain rfl := Option.some.inj (found.symm.trans private_)
      simp [nobody] at may

theorem address_step (tracked : s.Tracked root) (step : Step s.world w' nobody left) {tag : HeapTag}
    {cell : Nat} (holds : s.Holds root tag cell) : w'.address cell = s.world.address cell :=
  address_prefix step.cells (tracked.sound.lt (holds.alive tracked.sound))

theorem found_step (tracked : s.Tracked root) (step : Step s.world w' nobody left)
    (rooted : Rooted { s with world := w' } root) {value : Value} {item : Dumped}
    (found : s.Found root value item) : Found { s with world := w' } root value item := by
  cases value with
  | heap tag cell =>
    refine ⟨holds_step tracked step rooted found.1, ?_⟩
    have same := address_step tracked step found.1
    show (w'.address cell, item) ∈ s.seen
    rw [same]
    exact found.2
  | _ => exact found

theorem tracked_world (tracked : s.Tracked root) (sound : Sound [] w')
    (step : Step s.world w' nobody left) : Tracked { s with world := w' } root where
  sound := sound
  known := Nat.lt_of_lt_of_le tracked.known step.length_le
  kept h member := by
    obtain ⟨value, found⟩ := tracked.kept h member
    refine ⟨value, ?_⟩
    obtain same | ⟨may, -⟩ := step.handles h _ found
    · exact same
    · simp [nobody] at may
  aliases rooted := by
    have aliases := tracked.aliases (rooted_before step tracked.known rooted)
    refine ⟨fun entry member => ?_, aliases.pointers, fun read member => ?_, aliases.objects,
      aliases.distinct⟩
    · obtain ⟨tag, cell, holds, same, kind⟩ := aliases.entries entry member
      exact ⟨tag, cell, holds_step tracked step rooted holds,
        (address_step tracked step holds).trans same, kind⟩
    · exact found_step tracked step rooted (aliases.reads read member)

theorem fills_world (tracked : s.Tracked root) (sound : Sound [] w')
    (step : Step s.world w' nobody left) : Fills root s { s with world := w' } where
  tracked := tracked_world tracked sound step
  valued := step.valued
  cells := step.cells
  seen _ member := member
  length_le := Nat.le_refl _
  rooted rooted := rooted_before step tracked.known rooted
  holds rooted _ _ holds := holds_step tracked step rooted holds

-- A new handle that nobody else has joins `kept`.
theorem fills_keep {h : JSValue} (tracked : s.Tracked root) {value : Value}
    (found : s.world.handles[h]? = some ⟨false, value, true, false, false⟩) :
    Fills root s { s with kept := s.kept ++ [h] } := by
  have more : ∀ {tag cell}, s.Holds root tag cell →
      Holds { s with kept := s.kept ++ [h] } root tag cell := by
    rintro tag cell ⟨k, handle, mine, rest⟩
    exact ⟨k, handle, mine.imp id (List.mem_append_left _), rest⟩
  have tracked' : Tracked { s with kept := s.kept ++ [h] } root := by
    refine ⟨tracked.sound, tracked.known, fun k member => ?_, fun rooted => ?_⟩
    · rcases List.mem_append.mp member with earlier | new
      · exact tracked.kept k earlier
      · obtain rfl := List.mem_singleton.mp new
        exact ⟨value, found⟩
    · have aliases := tracked.aliases rooted
      refine ⟨fun entry member => ?_, aliases.pointers, fun read member => ?_, aliases.objects,
        aliases.distinct⟩
      · obtain ⟨tag, cell, holds, rest⟩ := aliases.entries entry member
        exact ⟨tag, cell, more holds, rest⟩
      · have old := aliases.reads read member
        unfold Found at old ⊢
        split at old
        · exact ⟨more old.1, old.2⟩
        · exact old
  exact ⟨tracked', Valued.refl _, List.prefix_rfl, fun _ member => member, Nat.le_refl _,
    fun rooted => rooted, fun _ _ _ holds => more holds⟩

theorem fills_made (tracked : s.Tracked root) (nodes : Nat) (listed : List Listing)
    (objects : List HostObject) (longer : s.objects.length ≤ objects.length) :
    Fills root s { s with nodes, objects, listed } := by
  have tracked' : Tracked { s with nodes, objects, listed } root := by
    refine ⟨tracked.sound, tracked.known, tracked.kept, fun rooted => ?_⟩
    have aliases := tracked.aliases rooted
    refine ⟨aliases.entries, aliases.pointers, aliases.reads, fun entry member n isObject =>
      ?_, aliases.distinct⟩
    exact Nat.lt_of_lt_of_le (aliases.objects entry member n isObject) longer
  exact ⟨tracked', Valued.refl _, List.prefix_rfl, fun _ member =>
    member, longer, fun rooted => rooted, fun _ _ _ holds => holds⟩

theorem fills_put (tracked : s.Tracked root) {objects : List HostObject}
    (longer : s.objects.length ≤ objects.length) {read : Read}
    (found : s.Rooted root → s.Found root read.value read.item) :
    Fills root s { s with objects, reads := read :: s.reads } := by
  have tracked' : Tracked { s with objects, reads := read :: s.reads } root := by
    refine ⟨tracked.sound, tracked.known, tracked.kept, fun rooted => ?_⟩
    have aliases := tracked.aliases rooted
    refine ⟨aliases.entries, aliases.pointers, fun other member =>
      ?_, fun entry member n isObject => ?_, aliases.distinct⟩
    · rcases List.mem_cons.mp member with rfl | earlier
      · exact found rooted
      · exact aliases.reads other earlier
    · exact Nat.lt_of_lt_of_le (aliases.objects entry member n isObject) longer
  exact ⟨tracked', Valued.refl _, List.prefix_rfl, fun _ member =>
    member, longer, fun rooted => rooted, fun _ _ _ holds => holds⟩

end

/-! ### Entries -/

theorem getSeen_eq_some {seen : List (Nat × Dumped)} {pointer : Nat} {result : Dumped}
    (found : getSeen pointer seen = some result) : (pointer, result) ∈ seen := by
  obtain ⟨entry, isEntry, rfl⟩ := Option.map_eq_some_iff.mp found
  have same : entry.1 = pointer := by simpa using List.find?_some isEntry
  rw [← same]
  exact List.mem_of_find?_eq_some isEntry

theorem not_mem_of_getSeen {seen : List (Nat × Dumped)} {pointer : Nat}
    (absent : getSeen pointer seen = none) : ∀ entry ∈ seen, entry.1 ≠ pointer := by
  intro entry member same
  simp only [getSeen, Option.map_eq_none_iff, List.find?_eq_none] at absent
  exact absent entry member (by simp [same])

theorem setSeen_new {seen : List (Nat × Dumped)} {pointer : Nat} (result : Dumped)
    (absent : getSeen pointer seen = none) :
    setSeen pointer result seen = seen ++ [(pointer, result)] := by
  have none : seen.any (·.1 == pointer) = false := by
    simp only [List.any_eq_false, beq_iff_eq]
    exact fun entry member => not_mem_of_getSeen absent entry member
  simp [setSeen, none]

section
variable {s : Walk σ} {root : JSValue} {tag : HeapTag} {cell : Nat} {item : Dumped}

theorem fills_enter (tracked : s.Tracked root) (held : s.Rooted root → s.Holds root tag cell)
    (absent : getSeen (s.world.address cell) s.seen = none)
    (kind : tag = .object ↔ ∃ n, item = .object n)
    (fresh : s.Rooted root → ∀ n, item = .object n → n < s.objects.length ∧
      ∀ entry ∈ s.seen, entry.2 ≠ .object n) :
    Fills root s (s.enter cell item) := by
  have tracked' : Tracked (s.enter cell item) root := by
    refine ⟨tracked.sound, tracked.known, tracked.kept, fun rooted => ?_⟩
    have aliases := tracked.aliases rooted
    have cases_of : ∀ {entry}, entry ∈ (s.enter cell item).seen → entry ∈ s.seen ∨
        entry = (s.world.address cell, item) :=
      fun member => (List.mem_append.mp member).imp id List.mem_singleton.mp
    refine ⟨fun entry member => ?_, ?_, fun read member => ?_, fun entry member n isObject => ?_,
      fun entry member other isOther n isObject isToo => ?_⟩
    · rcases cases_of member with earlier | rfl
      · exact aliases.entries entry earlier
      · exact ⟨tag, cell, held rooted, rfl, kind⟩
    · simp only [enter, List.map_append, List.nodup_append]
      refine ⟨aliases.pointers, by simp, fun pointer inside other isNew => ?_⟩
      obtain ⟨old, isOld, rfl⟩ := List.mem_map.mp inside
      rw [List.mem_singleton.mp isNew]
      exact not_mem_of_getSeen absent old isOld
    · have old := aliases.reads read member
      unfold Found at old ⊢
      split at old
      · exact ⟨old.1, List.mem_append_left _ old.2⟩
      · exact old
    · rcases cases_of member with earlier | rfl
      · exact aliases.objects entry earlier n isObject
      · exact (fresh rooted n isObject).1
    · rcases cases_of member with earlier | rfl
      · rcases cases_of isOther with too | rfl
        · exact aliases.distinct entry earlier other too n isObject isToo
        · exact absurd isObject ((fresh rooted n isToo).2 entry earlier)
      · rcases cases_of isOther with too | rfl
        · exact absurd isToo ((fresh rooted n isObject).2 other too)
        · rfl
  exact ⟨tracked', Valued.refl _, List.prefix_rfl, fun _ member => List.mem_append_left _ member,
    Nat.le_refl _, fun rooted => rooted, fun _ _ _ holds => holds⟩

theorem found_enter (holds : s.Holds root tag cell) :
    (s.enter cell item).Found root (.heap tag cell) item :=
  ⟨holds, List.mem_append_right _ (List.mem_singleton.mpr rfl)⟩

end

/-! ### What `type` says -/

def JSValueType.onHeap : JSValueType → Bool
  | .undefined | .null | .boolean | .number => false
  | _ => true

def JSValueType.isObject : JSValueType → Bool
  | .object | .function | .array | .error => true
  | _ => false

/-- `type` takes objects for objects, and nothing on the heap for what is never there. -/
def JSValueType.Suits (found : JSValueType) : Value → Prop
  | .heap tag _ => found.onHeap = true ∧ (tag = .object ↔ found.isObject = true)
  | _ => found.isObject = false

theorem JSValueType.Suits.heap {found : JSValueType} {value : Value} (suits : found.Suits value)
    (isObject : found.isObject = true) : ∃ cell, value = .heap .object cell := by
  cases value with
  | heap tag cell => exact ⟨cell, by rw [suits.2.mpr isObject]⟩
  | _ => exact absurd (isObject.symm.trans suits) (by simp)

theorem JSValueType.Suits.plain {found : JSValueType} {value : Value} (suits : found.Suits value)
    (never : found.onHeap = false) (tag : HeapTag) (cell : Nat) : value ≠ .heap tag cell := by
  intro isHeap
  rw [isHeap] at suits
  exact absurd (never.symm.trans suits.1) (by simp)

theorem JSValueType.Suits.tag {found : JSValueType} {value : Value} (suits : found.Suits value)
    (tag : HeapTag) (cell : Nat) (isHeap : value = .heap tag cell) :
    tag = .object ↔ found.isObject = true := by
  rw [isHeap] at suits
  exact suits.2

theorem JSValueType.Suits.no_object {found : JSValueType} {value : Value}
    (suits : found.Suits value) (notHeap : ∀ tag cell, value ≠ .heap tag cell) :
    found.isObject ≠ true := by
  intro isObject
  obtain ⟨cell, isHeap⟩ := suits.heap isObject
  exact notHeap _ _ isHeap

theorem types_kinds {n : Nat} {found : JSValueType} (at_n : types[n]? = some found) :
    (found.onHeap = true ↔ 4 ≤ n) ∧ (found.isObject = true ↔ 7 ≤ n) := by
  have few : n < 11 := (List.getElem?_eq_some_iff.mp at_n).1
  interval_cases n <;> (obtain rfl := Option.some.inj at_n; decide)

theorem ends_ptr (h : JSValue) (w : World σ) :
    Triple (· = w) (ptr h : Run σ V Value) (fun value w' => w' = w ∧ value = (w.handle h).value ∧
      ∃ handle : Handle, w.handles[h]? = some handle ∧ handle.disposed = false ∧
      handle.value = value)
      (fun e w' => w' = w ∧ e.handles = []) := by
  refine Triple.bind (Q := fun a w' => a = w ∧ w' = w)
    (Triple.get fun _ same => ⟨same, same⟩) fun a => ?_
  refine Triple.bind (Q := fun _ w' => a = w ∧ w' = w ∧ (a.handle h).disposed = false)
    (Triple.check (fun _ both alive => ⟨both.1, both.2, by simpa using alive⟩) fun _ both _ =>
      ⟨both.2, rfl⟩) fun _ => ?_
  refine Triple.pure _ fun w' ends => ?_
  obtain ⟨rfl, rfl, alive⟩ := ends
  cases found : w'.handles[h]? with
  | none => simp [World.handle, found] at alive
  | some handle =>
    exact ⟨rfl, rfl, handle, rfl, by simpa [World.handle, found] using alive,
      by simp [World.handle, found]⟩

theorem suits_code (engine : TypingEngine σ) (value : Value) (w : World σ) {found : JSValueType}
    {code : Int} (answer : (engine.call (.type value) w).1 = code) (positive : 0 ≤ code)
    (at_code : types[code.toNat]? = some found) : found.Suits value := by
  obtain ⟨heap, object⟩ := types_kinds at_code
  have typed := engine.typed value w
  rw [answer] at typed
  have isTyped : found.isObject = true → ∃ cell, value = .heap .object cell := fun isObject =>
    typed (by have above := object.mp isObject; omega)
  cases value with
  | heap tag cell =>
    have kinds := engine.kinds tag cell w
    rw [answer] at kinds
    obtain ⟨above, objects⟩ := kinds positive
    refine ⟨heap.mpr (by omega), fun isObject => object.mpr (by have := objects isObject; omega),
      fun isObject => ?_⟩
    obtain ⟨other, same⟩ := isTyped isObject
    exact (Value.heap.inj same).1
  | _ =>
    refine Bool.eq_false_iff.mpr fun isObject => ?_
    obtain ⟨other, same⟩ := isTyped isObject
    cases same

variable (engine : TypingEngine σ) (host : LawfulHost V σ)

theorem ends_type (h : JSValue) :
    Ends (V := V) (type engine.toEngine (getException engine.toEngine host.toHost) h)
      fun found w w' =>
      Step w w' nobody nobody ∧ found.Suits (w.handle h).value := fun flight w sound => by
  have excepts := excepts_getException engine.toLawfulEngine host
  refine Triple.bind
    ((ends_ptr h w).weaken (fun _ same => same) (fun _ _ ends => ends) fun e w' isW => ?_)
    fun value => Triple.each fun w' ends => ?_
  · rw [isW.1]
    exact ⟨sound, .plain (Step.refl w) isW.2⟩
  obtain ⟨rfl, isValue, -⟩ := ends
  have acts := ((engine.acts (.type value) flight w' sound).frame flight).kept sound
  refine Triple.bind (Q := fun code s => (engine.call (.type value) w').1 = code ∧ Sound flight s ∧
    Step w' s nobody nobody) (Triple.lift fun s isW => ?_) fun code => Triple.each fun s ends => ?_
  · subst isW
    exact ⟨rfl, acts⟩
  obtain ⟨answer, later, step⟩ := ends
  split
  · exact (throws_exception excepts later).weaken (fun _ same => same) (fun _ _ never => never.elim)
      fun _ _ ends => ⟨ends.1, ends.2.after step⟩
  · split
    · next found' at_code =>
        refine Triple.pure _ fun s' isS => ?_
        subst isS
        refine ⟨later, step, ?_⟩
        split at at_code
        · next positive =>
            rw [← isValue]
            exact suits_code engine value w' answer positive at_code
        · cases at_code
    · refine Triple.throw _ fun s' isS => ?_
      subst isS
      exact ⟨later, .plain step rfl⟩

/-! ### The walk -/

theorem Valued.handle {w w' : World σ} (valued : Valued w w') {h : JSValue}
    (known : h < w.handles.length) : (w'.handle h).value = (w.handle h).value := by
  have found := List.getElem?_eq_getElem known
  obtain ⟨later, at_h, same⟩ := valued h _ found
  simp [World.handle, at_h, found, same]

theorem Value.tag_heap (tag : HeapTag) (cell : Nat) : (Value.heap tag cell).tag < 0 := by
  cases tag <;> simp [Value.tag]

theorem Value.heap_or_plain (value : Value) :
    (∃ tag cell, value = .heap tag cell) ∨ (∀ tag cell, value ≠ .heap tag cell) ∧
    ¬value.tag < 0 := by
  cases value with
  | heap tag cell => exact .inl ⟨tag, cell, rfl⟩
  | _ => exact .inr ⟨fun _ _ same => (by cases same), by simp [Value.tag]⟩

theorem found_plain {s : Walk σ} {root : JSValue} {value : Value} {item : Dumped}
    (plain : ∀ tag cell, value ≠ .heap tag cell) (noObject : ∀ n, item ≠ .object n) :
    s.Found root value item := by
  cases value with
  | heap tag cell => exact absurd rfl (plain tag cell)
  | _ => exact noObject

section
variable {root : JSValue} {s : Walk σ}

def Visited (root : JSValue) (s : Walk σ) (h : JSValue) (item : Dumped) (s' : Walk σ) : Prop :=
  Fills root s s' ∧ (s'.Rooted root → s'.Found root (s.world.handle h).value item)

theorem triple_onWorld {x : Run σ V α} {post : α → World σ → Prop}
    {fails : HostValue V → World σ → Prop} (triple : Triple (· = s.world) x post fails) :
    Triple (· = s) (onWorld x) (fun a s' => ∃ w', s' = { s with world := w' } ∧ post a w')
      (fun _ _ => True) :=
  (onWorld_ends triple).weaken (fun _ same => same) (fun _ _ ends => ends) fun _ _ _ => trivial

theorem fills_quiet {x : Run σ V α} (quiet : Quiet x) (tracked : s.Tracked root) :
    Triple (· = s) (onWorld x) (fun _ s' => Fills root s s' ∧ ∃ w', s' = { s with world := w' })
      (fun _ _ => True) := by
  refine (triple_onWorld (quiet [] s.world tracked.sound)).weaken (fun _ same => same)
    (fun a s' ends => ?_) fun _ _ ends => ends
  obtain ⟨w', rfl, sound, step⟩ := ends
  exact ⟨fills_world tracked sound step, w', rfl⟩

/-- A conversion enters nothing. It makes a new host object of an object, and none of anything
else. -/
def Converts (root : JSValue) (convert : WalkRun σ V Dumped) (makes : Prop) : Prop :=
  ∀ s : Walk σ, s.Tracked root →
    Triple (· = s) convert
      (fun d s' => Fills root s s' ∧ s'.seen = s.seen ∧ (makes ↔ ∃ n, d = .object n) ∧
        ∀ n, d = .object n → s.objects.length ≤ n ∧ n < s'.objects.length)
      (fun _ _ => True)

theorem enters_new {cell pointer : Nat} {item : Dumped}
    (absent : getSeen (s.world.address cell) s.seen = none) (here : pointer = s.world.address cell)
    {next : Unit → WalkRun σ V α} {post : α → Walk σ → Prop}
    (rest : Triple (· = s.enter cell item) (next ()) post fun _ _ => True) :
    Triple (· = s)
      (Effect.modify (fun s => { s with seen := setSeen pointer item s.seen }) >>= next) post
      fun _ _ => True := by
  apply Triple.modify_bind
  rw [here, setSeen_new item absent]
  exact rest

theorem visits_leaf {h : JSValue} {convert : WalkRun σ V Dumped} {makes : Prop}
    (converts : Converts root convert makes) (tracked : s.Tracked root)
    (mine : h = root ∨ h ∈ s.kept)
    (kind : ∀ tag cell, (s.world.handle h).value = .heap tag cell → (tag = .object ↔ makes))
    (plain : (∀ tag cell, (s.world.handle h).value ≠ .heap tag cell) → ¬makes) :
    Triple (· = s) (visitLeaf h convert) (Visited root s h) (fun _ _ => True) := by
  refine Triple.bind (triple_onWorld (ends_ptr h s.world)) fun value =>
    Triple.each fun s' ends => ?_
  obtain ⟨w', rfl, rfl, isValue, handle, found, alive, its⟩ := ends
  apply Triple.get_bind
  dsimp only
  rw [← isValue] at kind plain
  rcases value.heap_or_plain with ⟨tag, cell, rfl⟩ | ⟨notHeap, notNegative⟩
  · have holds : s.Holds root tag cell := ⟨h, handle, mine, found, alive, its⟩
    rw [if_pos (Value.tag_heap tag cell)]
    split
    · next existing isSeen =>
        refine Triple.pure _ fun s' isS => ?_
        subst isS
        refine ⟨.refl tracked, fun _ => ?_⟩
        rw [← isValue]
        exact ⟨holds, getSeen_eq_some isSeen⟩
    · next absent =>
        have positive : s.world.pointer (.heap tag cell) ≠ 0 :=
          tracked.sound.nonzero cell (holds.alive tracked.sound)
        refine Triple.bind (converts s tracked) fun d => Triple.each fun s' ends => ?_
        obtain ⟨fills, seen, isObject, isNew⟩ := ends
        rw [if_pos positive]
        -- the cell is where it was when its pointer was read
        have here : s'.world.address cell = s.world.address cell := fills.address tracked holds
        have still : getSeen (s'.world.address cell) s'.seen = none := by
          rw [here, seen]; exact absent
        apply enters_new still here.symm
        refine Triple.pure d fun s'' isS => ?_
        subst isS
        have held := fun rooted => fills.holds rooted tag cell holds
        refine ⟨fills.trans
          (fills_enter fills.tracked held still ((kind tag cell rfl).trans isObject)
            fun rooted n same => ?_),
          fun rooted => ?_⟩
        · refine ⟨(isNew n same).2, fun entry member isToo => ?_⟩
          rw [seen] at member
          have old := (tracked.aliases (fills.rooted rooted)).objects entry member n isToo
          exact absurd old (Nat.not_lt.mpr (isNew n same).1)
        · rw [← isValue]
          exact found_enter (held rooted)
  · rw [if_neg notNegative]
    split
    · next existing isSeen =>
        refine Triple.pure _ fun s' isS => ?_
        subst isS
        refine ⟨.refl tracked, fun rooted => ?_⟩
        -- no entry has the pointer 0
        obtain ⟨tag, cell, holds, zero, -⟩ :=
          (tracked.aliases rooted).entries _ (getSeen_eq_some isSeen)
        exact absurd zero (tracked.sound.nonzero cell (holds.alive tracked.sound))
    · refine Triple.bind (converts s tracked) fun d => Triple.each fun s' ends => ?_
      obtain ⟨fills, -, isObject, -⟩ := ends
      rw [if_neg (by simp)]
      refine Triple.pure d fun s'' isS => ?_
      subst isS
      refine ⟨fills, fun _ => ?_⟩
      rw [← isValue]
      exact found_plain notHeap fun n same => plain notHeap (isObject.mpr ⟨n, same⟩)

-- A container is entered before it is filled, so it is found in itself.
theorem visits_container {h : JSValue} {empty : HostObject} {fill : Nat → WalkRun σ V Unit}
    (fills : ∀ n (s : Walk σ), s.Tracked root →
      Triple (· = s) (fill n) (fun _ => Fills root s) (fun _ _ => True))
    (tracked : s.Tracked root) (mine : h = root ∨ h ∈ s.kept)
    (heap : ∃ cell, (s.world.handle h).value = .heap .object cell) :
    Triple (· = s) (visitContainer h empty fill) (Visited root s h) (fun _ _ => True) := by
  refine Triple.bind (triple_onWorld (ends_ptr h s.world)) fun value =>
    Triple.each fun s' ends => ?_
  obtain ⟨w', rfl, rfl, isValue, handle, found, alive, its⟩ := ends
  obtain ⟨cell, isHeap⟩ := heap
  obtain rfl := isValue.trans isHeap
  have holds : s.Holds root .object cell := ⟨h, handle, mine, found, alive, its⟩
  apply Triple.get_bind
  dsimp only
  split
  · next existing isSeen =>
      refine Triple.pure _ fun s' isS => ?_
      subst isS
      refine ⟨.refl tracked, fun _ => ?_⟩
      rw [← isValue]
      exact ⟨holds, getSeen_eq_some isSeen⟩
  · next absent =>
      refine Triple.bind
        (Q := fun n s' => n = s.objects.length ∧ s' = { s with objects := s.objects ++ [empty] })
        (Triple.lift fun s' isS => by rw [isS]; exact ⟨rfl, rfl⟩) fun object =>
          Triple.each fun s' ends => ?_
      obtain ⟨rfl, rfl⟩ := ends
      have longer := fills_made tracked s.nodes s.listed (s.objects ++ [empty]) (by simp)
      have entered : Fills root { s with objects := s.objects ++ [empty] }
          (Walk.enter { s with objects := s.objects ++ [empty] } cell
            (.object s.objects.length)) := by
        refine fills_enter longer.tracked (fun _ => holds) absent (by simp) fun rooted n isNew => ?_
        obtain rfl := Dumped.object.inj isNew
        refine ⟨by simp, fun entry member isToo => ?_⟩
        exact absurd ((tracked.aliases rooted).objects entry member _ isToo) (Nat.lt_irrefl _)
      refine enters_new (s := { s with objects := s.objects ++ [empty] }) absent rfl ?_
      refine Triple.bind (fills _ _ entered.tracked) fun _ => Triple.each fun s' filled =>
        Triple.pure _ fun s'' isS => ?_
      subst isS
      refine ⟨(longer.trans entered).trans filled, fun rooted => ?_⟩
      rw [← isValue]
      exact filled.found entered.tracked rooted (found_enter holds)

def Visits (root : JSValue) (visit : JSValue → WalkRun σ V Dumped) : Prop :=
  ∀ (s : Walk σ) (h : JSValue), s.Tracked root → h = root ∨ h ∈ s.kept →
    Triple (· = s) (visit h) (Visited root s h) (fun _ _ => True)

-- One entry is read, kept, visited, and put into the host object.
theorem fills_round {x : Run σ V JSValue} (makes : MakesNew x)
    {visit : JSValue → WalkRun σ V Dumped} (visits : Visits root visit)
    (change : Dumped → List HostObject → List HostObject)
    (same : ∀ item objects, (change item objects).length = objects.length) (place : Place)
    (tracked : s.Tracked root) :
    Triple (· = s) (do
      let entry ← onWorld x
      keep entry
      let item ← visit entry
      put (change item) place entry item) (fun _ => Fills root s) (fun _ _ => True) := by
  refine Triple.bind (triple_onWorld (makes [] s.world tracked.sound)) fun entry =>
    Triple.each fun s' ends => ?_
  obtain ⟨w', rfl, sound, step, -, -, value, found⟩ := ends
  have read := fills_world tracked sound step
  have kept := fills_keep read.tracked found
  apply Triple.modify_bind
  refine Triple.bind (visits _ entry kept.tracked (.inr (by simp))) fun item =>
    Triple.each fun s' visited => ?_
  obtain ⟨visited, became⟩ := visited
  refine Triple.modify fun s'' isS => ?_
  subst isS
  have entered := visited.valued.handle (h := entry) (List.getElem?_eq_some_iff.mp found).1
  refine ((read.trans kept).trans visited).trans
    (fills_put visited.tracked (Nat.le_of_eq (same item _).symm) fun rooted => ?_)
  rw [entered]
  exact became rooted

theorem fills_then {x : WalkRun σ V Unit} {y : WalkRun σ V Unit}
    (first : Triple (· = s) x (fun _ => Fills root s) (fun _ _ => True))
    (next : ∀ s', s'.Tracked root → Triple (· = s') y (fun _ => Fills root s') (fun _ _ => True)) :
    Triple (· = s) (x >>= fun _ => y) (fun _ => Fills root s) (fun _ _ => True) := by
  refine Triple.bind first fun _ => Triple.each fun s' filled => ?_
  exact (next s' filled.tracked).weaken (fun _ same => same) (fun _ _ ends => filled.trans ends)
    fun _ _ ends => ends

theorem fills_nothing (tracked : s.Tracked root) :
    Triple (· = s) (Pure.pure () : WalkRun σ V Unit) (fun _ => Fills root s) (fun _ _ => True) := by
  refine Triple.pure _ fun s' isS => ?_
  subst isS
  exact .refl tracked

end

section
variable {root : JSValue} {s : Walk σ} (engine : LawfulEngine σ) (host : LawfulHost V σ)

theorem fills_items {visit : JSValue → WalkRun σ V Dumped} (visits : Visits root visit)
    (h : JSValue) (array count index : Nat) (tracked : s.Tracked root) :
    Triple (· = s) (visitItems engine.toEngine host.toHost visit h array count index)
      (fun _ => Fills root s)
      (fun _ _ => True) := by
  induction count generalizing s index with
  | zero => exact fills_nothing tracked
  | succ count ih =>
    have made := makesNew_getIndex engine (excepts_getException engine host) h index
    have round := fills_round made visits (push array) (by simp [push]) (.item array index) tracked
    have both := fills_then round fun s' later => ih (index + 1) later
    simp only [bind_assoc] at both
    exact both

theorem fills_members {visit : JSValue → WalkRun σ V Dumped} (visits : Visits root visit)
    (h : JSValue) (object : Nat) (keys : List Text) (tracked : s.Tracked root) :
    Triple (· = s) (visitMembers engine.toEngine host.toHost visit h object keys)
      (fun _ => Fills root s)
      (fun _ _ => True) := by
  induction keys generalizing s with
  | nil => exact fills_nothing tracked
  | cons key rest ih =>
    have made := makesNew_getProp engine (excepts_getException engine host) h key
    have round :=
      fills_round made visits (defineHost object key) (by simp [defineHost]) (.member object key)
      tracked
    exact fills_then round fun s' later => ih later

theorem converts_quiet {x : Run σ V α} (quiet : Quiet x) (result : α → Dumped)
    (plain : ∀ a n, result a ≠ .object n) :
    Converts root (do
      let a ← onWorld x
      Pure.pure (result a)) False := fun s tracked => by
  refine Triple.bind (fills_quiet quiet tracked) fun a => Triple.each fun s' ends =>
    Triple.pure _ fun s'' isS => ?_
  obtain ⟨fills, w', rfl⟩ := ends
  subst isS
  refine ⟨fills, rfl, ⟨False.elim, fun ⟨n, isObject⟩ => plain a n isObject⟩, fun n isObject => ?_⟩
  exact absurd isObject (plain a n)

theorem converts_error (h : JSValue) :
    Converts root (do
      let error ← onWorld (toError engine.toEngine host.toHost h)
      let object ← newHostObject error
      Pure.pure (Dumped.object object)) True := fun s tracked => by
  refine Triple.bind (fills_quiet (quiet_toError engine host h) tracked) fun error =>
    Triple.each fun s' ends => ?_
  obtain ⟨fills, w', rfl⟩ := ends
  rintro _ rfl
  have made := fills_made fills.tracked s.nodes s.listed (s.objects ++ [error]) (by simp)
  refine ⟨fills.trans made, rfl, by simp, fun n isObject => ?_⟩
  obtain rfl := Dumped.object.inj isObject
  simp

end

section
variable {root : JSValue} (engine : TypingEngine σ) (host : LawfulHost V σ)

theorem visits_plain {s : Walk σ} {h : JSValue} {x : Run σ V α} (quiet : Quiet x)
    {result : α → Dumped} (plain : ∀ a n, result a ≠ .object n) (tracked : s.Tracked root)
    (notHeap : ∀ tag cell, (s.world.handle h).value ≠ .heap tag cell) :
    Triple (· = s) (do
      let a ← onWorld x
      Pure.pure (result a)) (Visited root s h) (fun _ _ => True) :=
  (converts_quiet quiet result plain s tracked).weaken (fun _ same => same)
    (fun _ _ ends =>
      ⟨ends.1, fun _ => found_plain notHeap fun n isObject => ends.2.2.1.mpr ⟨n, isObject⟩⟩)
    fun _ _ ends => ends

theorem known_handle {s : Walk σ} {h : JSValue} (tracked : s.Tracked root) (mine : h = root ∨ h ∈ s.kept) :
    h < s.world.handles.length := by
  rcases mine with rfl | member
  · exact tracked.known
  · obtain ⟨value, found⟩ := tracked.kept h member
    exact (List.getElem?_eq_some_iff.mp found).1

theorem visits_visit (maxDepth maxNodes levels : Nat) :
    Visits root (visit engine.toEngine host.toHost maxDepth maxNodes levels) := by
  have excepts := excepts_getException engine.toLawfulEngine host
  induction levels with
  | zero => exact fun s h tracked mine => Triple.throw _ fun _ _ => trivial
  | succ levels ih =>
    intro s h tracked mine
    have counted := fills_made tracked (s.nodes + 1) s.listed s.objects (Nat.le_refl _)
    apply Triple.modify_bind
    apply Triple.get_bind
    refine Triple.bind (Q := fun _ s' => s' = { s with nodes := s.nodes + 1 })
      (Triple.check (fun _ isS _ => isS) fun _ _ _ => trivial) fun _ => Triple.each fun s' isS => ?_
    subst isS
    refine Triple.bind (triple_onWorld (ends_type engine host h [] _ tracked.sound)) fun found =>
      Triple.each fun s' ends => ?_
    obtain ⟨w', rfl, sound, step, suits⟩ := ends
    have typed := counted.trans (fills_world counted.tracked sound step)
    have same : (w'.handle h).value = (s.world.handle h).value := step.valued.handle (known_handle counted.tracked mine)
    suffices visited : Triple (· = { s with nodes := s.nodes + 1, world := w' }) _
        (Visited root { s with nodes := s.nodes + 1, world := w' } h) fun _ _ => True by
      refine visited.weaken (fun _ isS => isS) (fun d s' ends => ?_) fun _ _ ends => ends
      refine ⟨typed.trans ends.1, ?_⟩
      have became := ends.2
      rw [same] at became
      exact became
    have later := typed.tracked
    have suits' : found.Suits (w'.handle h).value := by
      rw [same]
      exact suits
    -- what `type` says of the value decides what the walk makes of it
    cases found with
    | undefined | null =>
      refine Triple.pure _ fun s' isS => ?_
      subst isS
      exact ⟨.refl later, fun _ => found_plain (suits'.plain rfl) nofun⟩
    | boolean => exact visits_plain (quiet_toBoolean engine.toLawfulEngine host h) nofun later (suits'.plain rfl)
    | number => exact visits_plain (quiet_toNumber engine.toLawfulEngine host h) nofun later (suits'.plain rfl)
    | bigint =>
      have converts : Converts root _ False :=
        converts_quiet (quiet_toBigInt engine.toLawfulEngine excepts h) .bigint nofun
      refine visits_leaf converts later mine (fun tag cell isHeap => ?_) fun _ => id
      exact (suits'.tag tag cell isHeap).trans (by simp [JSValueType.isObject])
    | string =>
      have converts : Converts root _ False :=
        converts_quiet (quiet_valueToString engine.toLawfulEngine excepts h) .string nofun
      refine visits_leaf converts later mine (fun tag cell isHeap => ?_) fun _ => id
      exact (suits'.tag tag cell isHeap).trans (by simp [JSValueType.isObject])
    | error =>
      have converts : Converts root _ True := converts_error engine.toLawfulEngine host h
      refine visits_leaf converts later mine (fun tag cell isHeap => ?_) fun notHeap _ =>
        suits'.no_object notHeap rfl
      exact (suits'.tag tag cell isHeap).trans (by simp [JSValueType.isObject])
    | array =>
      refine visits_container (fun array s tracked => ?_) later mine (suits'.heap rfl)
      apply Triple.bind (fills_quiet (quiet_valueLength engine.toLawfulEngine host h) tracked)
      intro length
      apply Triple.each
      intro s' ends
      have announced :=
        ends.1.trans (fills_made ends.1.tracked s'.nodes (.items array length.indices :: s'.listed)
          s'.objects (Nat.le_refl _))
      apply Triple.modify_bind
      refine (fills_items engine.toLawfulEngine host ih h array length.indices 0
        announced.tracked).weaken
        (fun _ same => same) (fun _ _ fills => announced.trans fills) fun _ _ ends => ends
    | object =>
      refine visits_container (fun object s tracked => ?_) later mine (suits'.heap rfl)
      apply Triple.bind (fills_quiet (quiet_keys engine.toLawfulEngine excepts h) tracked)
      intro keys
      apply Triple.each
      intro s' ends
      have announced :=
        ends.1.trans (fills_made ends.1.tracked s'.nodes (.members object keys :: s'.listed)
          s'.objects (Nat.le_refl _))
      apply Triple.modify_bind
      refine (fills_members engine.toLawfulEngine host ih h object keys announced.tracked).weaken
        (fun _ same => same) (fun _ _ fills => announced.trans fills) fun _ _ ends => ends
    | symbol | function => exact Triple.throw _ fun _ _ => trivial

end

/-! ### `dump` -/

theorem ends_assertSameVM (h : JSValue) (w : World σ) :
    Triple (· = w) (assertSameVM h : Run σ V Unit) (fun _ w' => w' = w ∧ h < w.handles.length)
      (fun _ _ => True) := by
  refine Triple.bind (Q := fun a w' => w' = w) (Triple.get fun _ same => same) fun a => ?_
  refine Triple.bind (Q := fun _ w' => w' = w)
    (Triple.check (fun _ isW _ => isW) fun _ _ _ => trivial) fun _ => ?_
  refine Triple.bind ((ends_ptr h w).weaken (fun _ same => same) (fun _ _ ends => ends) fun _ _ _ =>
    trivial) fun value => ?_
  refine Triple.pure _ fun w' ends => ?_
  obtain ⟨same, -, handle, found, -⟩ := ends
  exact ⟨same, (List.getElem?_eq_some_iff.mp found).1⟩

theorem tracked_start {w : World σ} (sound : Sound [] w) {root : JSValue}
    (known : root < w.handles.length) : Tracked ⟨w, [], [], 0, [], [], []⟩ root where
  sound := sound
  known := known
  kept _ member := by cases member
  aliases _ := ⟨by simp, by simp, by simp, by simp, by simp⟩

theorem built_start {r : Result} (built : Built (fun _ => False) ⟨[], [], []⟩ r) :
    r.Placed ∧ ∀ n < r.objects.length, r.Complete n := by
  refine ⟨built.placed fun place => ?_, fun n below => built.complete n below (Nat.zero_le n)⟩
  cases place with
  | item array index => rfl
  | member object key => rfl

-- What every handle holds goes by one tag.
def OneTag (w : World σ) : Prop :=
  ∀ handle ∈ w.handles, ∀ other ∈ w.handles, ∀ cell ∈ handle.value.cells, cell ∈ other.value.cells →
    handle.value = other.value

/-- The guest values that a dump visited, with what became of them. -/
def Walk.visited (s : Walk σ) (root : JSValue) (value : Dumped) : List (Value × Dumped) :=
  ((s.world.handle root).value, value) :: s.reads.map fun read => (read.value, read.item)

/-- What a completed dump has made: at every place of the result is what was visited for it last,
every host object is complete, and two values that were visited are one host object exactly when
they were one cell. -/
structure ByIdentity (s : Walk σ) (root : JSValue) (value : Dumped) : Prop where
  places : s.result.Placed
  complete : ∀ n < s.objects.length, s.result.Complete n
  same : ∀ one ∈ s.visited root value, ∀ other ∈ s.visited root value, ∀ cell ∈ one.1.cells,
    cell ∈ other.1.cells → one.2 = other.2
  apart : ∀ one ∈ s.visited root value, ∀ other ∈ s.visited root value, ∀ n, one.2 = .object n →
    other.2 = .object n → ∃ cell, one.1.cells = [cell] ∧ other.1.cells = [cell]
  /-- What is on the heap comes from `seen`, under its own address. -/
  entered : ∀ one ∈ s.visited root value, ∀ cell ∈ one.1.cells,
    (s.world.address cell, one.2) ∈ s.seen
  addresses : ∀ one ∈ s.visited root value, ∀ other ∈ s.visited root value, ∀ cell ∈ one.1.cells,
    ∀ second ∈ other.1.cells, s.world.address cell = s.world.address second → cell = second
  pointers : (s.seen.map (·.1)).Nodup
  alive : ∀ entry ∈ s.seen, ∃ tag cell, s.Holds root tag cell ∧ s.world.address cell = entry.1 ∧
    counter s.world.references cell ≠ 0
  objects : OneTag s.world → ∀ one ∈ s.visited root value, (∃ n, one.2 = .object n) ↔
    ∃ cell, one.1 = .heap .object cell

section
variable (engine : TypingEngine σ) (host : LawfulHost V σ)

theorem ends_dump (root : JSValue) (options : JSDumpOptions) {w : World σ} (sound : Sound [] w) :
    Triple (· = w) (dump engine.toEngine host.toHost root options)
      (fun found _ => found.2.Tracked root ∧
        (found.2.Rooted root → found.2.Found root (found.2.world.handle root).value found.1) ∧
        found.2.result.Placed ∧ ∀ n < found.2.objects.length, found.2.result.Complete n)
          (fun _ _ => True) := by
  refine Triple.bind (ends_assertSameVM root w) fun _ => Triple.each fun w' ends => ?_
  obtain ⟨rfl, known⟩ := ends
  refine Triple.bind (Q := fun _ s => s = w')
    (Triple.check (fun _ isW _ => isW) fun _ _ _ => trivial) fun _ => ?_
  refine Triple.bind (Q := fun _ s => s = w')
    (Triple.check (fun _ isW _ => isW) fun _ _ _ => trivial) fun _ => ?_
  have enters := @quiet_call _ V engine.toLawfulEngine .enterScope rfl (fun _ => rfl) [] w' sound
  refine Triple.bind (enters.weaken (fun _ same => same) (fun _ _ ends => ends) fun _ _ _ =>
    trivial) fun _ =>
    Triple.each fun s ends => ?_
  obtain ⟨entered, step⟩ := ends
  have start := tracked_start entered (Nat.lt_of_lt_of_le known step.length_le)
  have visits := visits_visit engine host (options.maxDepth.getD 1024).toNat
    (options.maxNodes.getD 1000000).toNat ((options.maxDepth.getD 1024).toNat + 1) _ root
      start (.inl rfl)
  have builds := builds_visit engine.toEngine host.toHost (options.maxDepth.getD 1024).toNat
    (options.maxNodes.getD 1000000).toNat ((options.maxDepth.getD 1024).toNat + 1) root ⟨[], [], []⟩
  refine Triple.bind
    (Q := fun ended _ => ∀ d, ended.1 = .ok d →
      Visited root ⟨s, [], [], 0, [], [], []⟩ root d ended.2 ∧
    Built (fun _ => False) ⟨[], [], []⟩ ended.2.result)
      (Triple.lift fun s' isS => ?_) fun ended => ?_
  · subst isS
    intro d returns
    exact ⟨visits.returned rfl (Prod.ext returns rfl), builds.returned rfl (Prod.ext returns rfl)⟩
  obtain ⟨outcome, walk⟩ := ended
  cases outcome with
  | ok d =>
    refine Triple.each fun s' ends => Triple.bind (Triple.any _) fun _ =>
      Triple.bind (Triple.any _) fun _ => ?_
    obtain ⟨⟨fills, found⟩, built⟩ := ends d rfl
    have same := fills.valued.handle (h := root) (Nat.lt_of_lt_of_le known step.length_le)
    rw [← same] at found
    exact Triple.pure _ fun _ _ => ⟨fills.tracked, found, built_start built⟩
  | error e =>
    -- the way out of a walk that threw never returns
    refine Triple.tryFinally (?_ : Triple _ _ (fun _ _ => False) fun _ _ => True)
      (fun _ _ never => never.elim)
      fun _ => Triple.any _
    refine Triple.bind (Triple.any _) fun late => ?_
    split
    · exact Triple.throw _ fun _ _ => trivial
    · refine Triple.bind (Triple.any _) fun _ => Triple.bind (Triple.any _) fun _ => ?_
      exact Triple.bind (Triple.any _) fun _ => Triple.bind (Triple.any _) fun _ =>
        Triple.throw _ fun _ _ => trivial

theorem Walk.Found.heap {s : Walk σ} {root : JSValue} {value : Value} {item : Dumped}
    (found : s.Found root value item) {cell : Nat} (inside : cell ∈ value.cells) :
    (∃ tag, value = .heap tag cell ∧ s.Holds root tag cell) ∧
    (s.world.address cell, item) ∈ s.seen := by
  cases value with
  | heap tag other =>
    obtain rfl := List.mem_singleton.mp inside
    exact ⟨⟨tag, rfl, found.1⟩, found.2⟩
  | _ => cases inside

theorem Walk.Found.object {s : Walk σ} {root : JSValue} {value : Value} {n : Nat}
    (found : s.Found root value (.object n)) :
    ∃ tag cell, value = .heap tag cell ∧ (s.world.address cell, .object n) ∈ s.seen := by
  cases value with
  | heap tag cell => exact ⟨tag, cell, rfl, found.2⟩
  | _ => exact absurd rfl (found n)

-- The entry of a cell says what the cell is.
theorem tag_of_entry {s : Walk σ} {root : JSValue} (tracked : s.Tracked root)
    (rooted : s.Rooted root) (oneTag : OneTag s.world) {tag : HeapTag} {cell : Nat} {item : Dumped}
    (found : s.Found root (.heap tag cell) item) : tag = .object ↔ ∃ n, item = .object n := by
  obtain ⟨holds, entered⟩ := found
  obtain ⟨tag', cell', holds', same, kind⟩ := (tracked.aliases rooted).entries _ entered
  obtain rfl :=
    tracked.sound.distinct _ _ (holds'.alive tracked.sound) (holds.alive tracked.sound) same
  obtain ⟨h, handle, -, at_h, -, its⟩ := holds
  obtain ⟨h', handle', -, at_h', -, its'⟩ := holds'
  have values :=
    oneTag handle (List.mem_of_getElem? at_h) handle' (List.mem_of_getElem? at_h') cell'
    (by rw [its]; exact List.mem_cons_self) (by rw [its']; exact List.mem_cons_self)
  have tags := (Value.heap.inj (its.symm.trans (values.trans its'))).1
  rw [tags]
  exact kind

/-- Two places of a completed dump hold one host object exactly when the guest values read for them
last were one cell, and every entry of `seen` belongs to a cell that is still held when the walk
ends. -/
theorem dump_aliases_by_identity (root : JSValue) (options : JSDumpOptions) {w w' : World σ}
    {value : Dumped} {s : Walk σ} (sound : Sound [] w)
    (completes : (dump engine.toEngine host.toHost root options).run w = (.ok (value, s), w'))
    (rooted : s.Rooted root) : ByIdentity s root value := by
  obtain ⟨tracked, atRoot, placed, complete⟩ :=
    (ends_dump engine host root options sound).returned rfl completes
  have aliases := tracked.aliases rooted
  have found : ∀ one ∈ s.visited root value, s.Found root one.1 one.2 := by
    intro one member
    rcases List.mem_cons.mp member with rfl | read
    · exact atRoot rooted
    · obtain ⟨its, isRead, rfl⟩ := List.mem_map.mp read
      exact aliases.reads its isRead
  have entry_eq : ∀ {pointer item other}, (pointer, item) ∈ s.seen → (pointer, other) ∈ s.seen →
      item = other := by
    intro pointer item other first second
    have same := List.inj_on_of_nodup_map aliases.pointers first second rfl
    exact congrArg Prod.snd same
  have cell_eq : ∀ one ∈ s.visited root value, ∀ other ∈ s.visited root value, ∀ cell ∈ one.1.cells,
      ∀ second ∈ other.1.cells, s.world.address cell = s.world.address second → cell = second := by
    intro one isOne other isOther cell inOne second inOther same
    obtain ⟨⟨tag, -, holds⟩, -⟩ := (found one isOne).heap inOne
    obtain ⟨⟨tag', -, holds'⟩, -⟩ := (found other isOther).heap inOther
    exact tracked.sound.distinct _ _ (holds.alive tracked.sound) (holds'.alive tracked.sound) same
  refine ⟨placed, complete, fun one isOne other isOther cell inOne inOther =>
    ?_, fun one isOne other isOther n isObject isToo => ?_,
    fun one isOne cell inOne => ((found one isOne).heap inOne).2, cell_eq, aliases.pointers,
    fun entry isEntry => ?_, fun oneTag one isOne => ?_⟩
  · exact entry_eq ((found one isOne).heap inOne).2 ((found other isOther).heap inOther).2
  · obtain ⟨value, item⟩ := one
    obtain ⟨value', item'⟩ := other
    obtain rfl : item = .object n := isObject
    obtain rfl : item' = .object n := isToo
    obtain ⟨tag, cell, rfl, entered⟩ := (found _ isOne).object
    obtain ⟨tag', cell', rfl, entered'⟩ := (found _ isOther).object
    have same := congrArg Prod.fst (aliases.distinct _ entered _ entered' n rfl rfl)
    obtain rfl := cell_eq _ isOne _ isOther cell List.mem_cons_self cell' List.mem_cons_self same
    exact ⟨cell, rfl, rfl⟩
  · obtain ⟨tag, cell, holds, same, -⟩ := aliases.entries entry isEntry
    exact ⟨tag, cell, holds, same, holds.alive tracked.sound⟩
  · obtain ⟨value, item⟩ := one
    constructor
    · rintro ⟨n, rfl⟩
      obtain ⟨tag, cell, rfl, entered⟩ := (found _ isOne).object
      have kind := tag_of_entry tracked rooted oneTag (found _ isOne)
      exact ⟨cell, congrArg (Value.heap · cell) (kind.mpr ⟨n, rfl⟩)⟩
    · rintro ⟨cell, rfl⟩
      exact (tag_of_entry tracked rooted oneTag (found _ isOne)).mp rfl

end

/-- Cell 0 is `{ a: x, b: {}, c: x }` where `x` is cell 1, `{ a: <cell 0> }`. -/
def sharing : Script Unit where
  reply native _ :=
    match native with
    | .newAtomLen name => (name.headD 0).toNat
    | .ownKeys (.heap .object cell) =>
      match cell with
      | 0 => some [encode (text "a"), encode (text "b"), encode (text "c")]
      | 1 => some [encode (text "a")]
      | _ => some []
    | .getProperty (.heap .object cell) atom =>
      .heap .object (if cell = 1 then 0 else if atom = 98 then 2 else 1)
    | .type (.heap .object _) => (7 : Int)
    | .type (.heap _ _) => (-2 : Int)
    | native => native.idle
  pending _ w := w.pending
  guest _ w := w.guest
  typed value w above := by
    cases value with
    | heap tag cell =>
      cases tag with
      | object => exact ⟨cell, rfl⟩
      | _ =>
        have none : (7 : Int) ≤ -2 := above
        cases none
    | _ =>
      have none : (7 : Int) ≤ 0 := above
      cases none

def sharingEngine : TypingEngine Unit where
  toLawfulEngine := sharing.engine
  kinds tag cell w positive := by
    cases tag with
    | object => exact ⟨(by decide : (4 : Int) ≤ 7), fun _ => (by decide : (7 : Int) ≤ 7)⟩
    | _ =>
      have none : (0 : Int) ≤ -2 := positive
      cases none

theorem dump_shares :
    ∃ s w', (dump sharingEngine.toEngine singleHost.toHost 4 ⟨some 4, none⟩).run proxyWorld =
      (.ok (.object 0, s), w') ∧
      s.objects = [.object [(text "a", .object 1), (text "b", .object 2), (text "c", .object 1)],
        .object [(text "a", .object 0)], .object []] ∧
      ByIdentity s 4 (.object 0) := by
  refine ⟨_, _, rfl, by decide +kernel, ?_⟩
  exact dump_aliases_by_identity sharingEngine singleHost 4 ⟨some 4, none⟩ proxyWorld_sound rfl
    ⟨_, rfl, rfl⟩

end QuickJSBun.Context
