import Mathlib.Algebra.Order.Group.Nat
import Mathlib.Data.List.Basic
import Mathlib.Logic.Function.Basic
import QuickJSBun.Library.Machine

/-! The finalizers of registered classes: a table that `qjs_bun_new_class` grows to the class id and
writes before the engine has seen the id, and `qjs_bun_class_finalize`, which reads it.
-/

set_option autoImplicit false

namespace QuickJSBun.Bridge.Finalizers

open Library

variable {F : Type}

/-- The table of a runtime: the block behind `state->finalizers`, whose cells may be NULL, and
`finalizer_count`. -/
structure QJSBunRuntime (F : Type) where
  finalizers : List (Option F)
  finalizerCount : UInt32
  deriving DecidableEq, Repr

/-- `realloc` keeps what fits; the rest of the new block holds anything. -/
def realloc (block : List (Option F)) (junk : Nat → Option F) (count : Nat) : List (Option F) :=
  (List.range count).map fun i => if i < block.length then (block[i]?).join else junk i

/-- `memset` of `count` cells from a cell on. -/
def clear (block : List (Option F)) (from_ count : Nat) : List (Option F) :=
  block.mapIdx fun i cell => if from_ ≤ i ∧ i < from_ + count then none else cell

/-- `class_id + 1` -/
def newCount (classId : UInt32) : UInt32 := classId + 1

/-- The first part of `qjs_bun_new_class`; `none` if `realloc` fails. `answer` is what it leaves in
the new cells. -/
def grow (state : QJSBunRuntime F) (classId : UInt32) (answer : Option (Nat → Option F)) :
    Option (QJSBunRuntime F) :=
  if state.finalizerCount ≤ classId then
    answer.map fun junk =>
      let count := newCount classId
      { finalizers :=
          clear (realloc state.finalizers junk count.toNat) state.finalizerCount.toNat
            (count - state.finalizerCount).toNat
        finalizerCount := count }
  else some state

/-- Whether `state->finalizers[class_id] = finalizer` is a write inside the table and its block. -/
def Inside (state : QJSBunRuntime F) (classId : UInt32) : Prop :=
  classId < state.finalizerCount ∧ classId.toNat < state.finalizers.length

instance (state : QJSBunRuntime F) (classId : UInt32) : Decidable (Inside state classId) :=
  inferInstanceAs (Decidable (_ ∧ _))

def write (state : QJSBunRuntime F) (classId : UInt32) (finalizer : F) : QJSBunRuntime F :=
  { state with finalizers := state.finalizers.set classId.toNat (some finalizer) }

/-- A runtime's table and its classes, each with whether its finalizer is
`qjs_bun_class_finalize`. The last four are not in the source: the finalizer last written for a
class, what `registerClass` was given for those it has registered, whether a size has wrapped,
and whether a write went outside. -/
structure State (F : Type) where
  table : QJSBunRuntime F
  classes : List (UInt32 × Bool)
  written : UInt32 → Option F
  given : UInt32 → Option (Option F)
  wrapped : Bool
  corrupt : Bool

/-- `JS_IsRegisteredClass` -/
def State.isRegistered (s : State F) (classId : UInt32) : Bool := s.classes.any (·.1 == classId)

/-- `JS_NewClass`, which may also run out of memory. -/
def jsNewClass (s : State F) (classId : UInt32) (finalizes refuses : Bool) :
    Option (List (UInt32 × Bool)) :=
  if 2 ^ 16 ≤ classId.toNat || s.isRegistered classId || refuses then none
  else some ((classId, finalizes) :: s.classes)

/-- A call of `registerClass`, with what `realloc` answers and whether `JS_NewClass` runs out of
memory. -/
structure Register (F : Type) where
  classId : UInt32
  finalizer : Option F
  block : Option (Nat → Option F)
  refuses : Bool

/-- `state->finalizers` has grown, or not; `none` when `qjs_bun_new_class` returns before the
write. -/
def Register.table (s : State F) (event : Register F) : Option (QJSBunRuntime F) :=
  match event.finalizer with
  | some _ => grow s.table event.classId event.block
  | none => some s.table

def Register.wraps (s : State F) (event : Register F) : Bool :=
  event.finalizer.isSome && decide (s.table.finalizerCount ≤ event.classId) &&
    decide ((newCount event.classId).toNat ≠ event.classId.toNat + 1)

/-- `state->finalizers[class_id] = finalizer` -/
def Register.store (s : State F) (event : Register F) (table : QJSBunRuntime F) : State F :=
  match event.finalizer with
  | some finalizer =>
    { s with
      table := write table event.classId finalizer
      written := Function.update s.written event.classId (some finalizer)
      corrupt := s.corrupt || !decide (Inside table event.classId) }
  | none => { s with table }

/-- The write, and then `JS_NewClass`. -/
def Register.finish (s : State F) (event : Register F) (table : QJSBunRuntime F) : State F :=
  match jsNewClass s event.classId event.finalizer.isSome event.refuses with
  | some classes =>
    { event.store s table with classes, given := Function.update s.given event.classId (some event.finalizer) }
  | none => event.store s table

/-- `qjs_bun_new_class`. A `realloc` to nothing leaves `state->finalizers` dangling. -/
def Register.run (s : State F) (event : Register F) : State F :=
  let wraps := event.wraps s
  match event.table s with
  | none =>
    { s with
      wrapped := s.wrapped || wraps
      corrupt := s.corrupt || wraps && decide (s.table.finalizers ≠ []) }
  | some table => { event.finish s table with wrapped := s.wrapped || wraps }

/-- `registerClass` asserts that the id is positive and not registered. -/
def step (s : State F) (event : Register F) : Option (State F) :=
  if event.classId = 0 || s.isRegistered event.classId then none else some (event.run s)

def qjsBunClassFinalize (state : QJSBunRuntime F) (classId : UInt32) : Option F :=
  if classId < state.finalizerCount then (state.finalizers[classId.toNat]?).join else none

def State.finalizes (s : State F) (classId : UInt32) : Option F :=
  match s.classes.find? (·.1 == classId) with
  | some (_, true) => qjsBunClassFinalize s.table classId
  | _ => none

-- A runtime starts with the engine's own classes.
def machine (builtin : List UInt32) : Machine (State F) (Register F) :=
  ⟨⟨⟨[], 0⟩, builtin.map (·, false), fun _ => none, fun _ => none, false, false⟩, step⟩

/-! ### The table -/

/-- Every size and write was right, the table holds what was written, and a freed object calls what
its class was given. -/
structure Sound (s : State F) : Prop where
  unwrapped : s.wrapped = false
  intact : s.corrupt = false
  allocated : s.table.finalizers.length = s.table.finalizerCount.toNat
  entries : ∀ classId, qjsBunClassFinalize s.table classId = s.written classId
  finalizes : ∀ classId finalizer, s.given classId = some finalizer →
    s.finalizes classId = finalizer

/-- A class with a finalizer has an id below the largest of 32 bits. -/
def Register.Admits (event : Register F) : Prop :=
  event.finalizer.isSome → event.classId.toNat + 1 < 2 ^ 32

instance (event : Register F) : Decidable event.Admits := inferInstanceAs (Decidable (_ → _))

theorem toNat_newCount {classId : UInt32} (fits : classId.toNat + 1 < 2 ^ 32) :
    (newCount classId).toNat = classId.toNat + 1 := by
  rw [newCount, UInt32.toNat_add, UInt32.toNat_one]
  exact Nat.mod_eq_of_lt fits

theorem getElem?_clear_realloc (block : List (Option F)) (junk : Nat → Option F) (count i : Nat)
    (longer : block.length ≤ count) :
    ((clear (realloc block junk count) block.length (count - block.length))[i]?).join =
      (block[i]?).join := by
  simp only [clear, realloc, List.getElem?_mapIdx, List.getElem?_map]
  by_cases known : i < block.length
  · have below : i < count := Nat.lt_of_lt_of_le known longer
    simp [known, below, Nat.not_le.mpr known]
  · have outside : block[i]? = none := List.getElem?_eq_none (Nat.le_of_not_lt known)
    rw [outside]
    by_cases below : i < count
    · simp [known, below, Nat.le_of_not_lt known, Nat.add_sub_of_le longer]
    · simp [below]

theorem grow_spec {state grown : QJSBunRuntime F} {classId : UInt32}
    {answer : Option (Nat → Option F)}
    (allocated : state.finalizers.length = state.finalizerCount.toNat)
    (fits : classId.toNat + 1 < 2 ^ 32) (grows : grow state classId answer = some grown) :
    grown.finalizers.length = grown.finalizerCount.toNat ∧ classId < grown.finalizerCount ∧
      ∀ other, qjsBunClassFinalize grown other = qjsBunClassFinalize state other := by
  unfold grow at grows
  split at grows
  · next reaches =>
      obtain ⟨junk, -, rfl⟩ := Option.map_eq_some_iff.mp grows
      have count := toNat_newCount fits
      rw [UInt32.le_iff_toNat_le] at reaches
      have more : (newCount classId - state.finalizerCount).toNat = classId.toNat + 1 -
          state.finalizers.length := by
        rw [UInt32.toNat_sub, count, allocated]
        omega
      refine ⟨?_, ?_, fun other => ?_⟩
      · simp [clear, realloc]
      · rw [UInt32.lt_iff_toNat_lt, count]
        exact Nat.lt_succ_self _
      · have cells :=
          getElem?_clear_realloc state.finalizers junk (classId.toNat + 1) other.toNat (by omega)
        simp only [qjsBunClassFinalize, more, count, ← allocated, UInt32.lt_iff_toNat_lt, cells]
        by_cases known : other.toNat < state.finalizers.length
        · have below : other.toNat < classId.toNat + 1 := by omega
          rw [if_pos below, if_pos known]
        · have outside : state.finalizers[other.toNat]? = none :=
            List.getElem?_eq_none (Nat.le_of_not_lt known)
          rw [if_neg known, outside]
          split
          · rfl
          · rfl
  · next inside =>
      obtain rfl := Option.some.inj grows
      exact ⟨allocated, Nat.lt_of_not_le inside, fun _ => rfl⟩

theorem write_spec {state : QJSBunRuntime F} {classId : UInt32} (finalizer : F)
    (allocated : state.finalizers.length = state.finalizerCount.toNat)
    (inside : classId < state.finalizerCount) :
    Inside state classId ∧
    (write state classId finalizer).finalizers.length = state.finalizerCount.toNat ∧
      ∀ other, qjsBunClassFinalize (write state classId finalizer) other =
        Function.update (qjsBunClassFinalize state) classId (some finalizer) other := by
  have within : classId.toNat < state.finalizers.length := by
    rw [allocated]
    exact UInt32.lt_iff_toNat_lt.mp inside
  refine ⟨⟨inside, within⟩, by rw [write, List.length_set, allocated], fun other => ?_⟩
  by_cases same : other = classId
  · subst same
    rw [Function.update_self]
    simp [qjsBunClassFinalize, write, inside, List.getElem?_set_self within]
  · have apart : classId.toNat ≠ other.toNat := fun equal => same (UInt32.toNat_inj.mp equal.symm)
    rw [Function.update_of_ne same]
    simp only [qjsBunClassFinalize, write, List.getElem?_set_ne apart]

/-! ### Registrations -/

/-- A class that was registered keeps its place, and its finalizer was written last. -/
def Good (s : State F) : Prop :=
  ∀ classId finalizer, s.given classId = some finalizer →
    s.classes.find? (·.1 == classId) = some (classId, finalizer.isSome) ∧
      ∀ f, finalizer = some f → s.written classId = some f

theorem Good.registered {s : State F} (good : Good s) {classId : UInt32} {finalizer : Option F}
    (given : s.given classId = some finalizer) : s.isRegistered classId = true := by
  have found := (good classId finalizer given).1
  exact List.any_eq_true.mpr ⟨_, List.mem_of_find?_eq_some found, beq_self_eq_true classId⟩

theorem step_eq {s s' : State F} {event : Register F} (steps : step s event = some s') :
    s.isRegistered event.classId = false ∧ s' = event.run s := by
  unfold step at steps
  split at steps
  · cases steps
  · next admitted =>
      simp only [Bool.or_eq_true, not_or, Bool.not_eq_true] at admitted
      exact ⟨admitted.2, (Option.some.inj steps).symm⟩

theorem store_classes (s : State F) (event : Register F) (table : QJSBunRuntime F) :
    (event.store s table).classes = s.classes ∧ (event.store s table).given = s.given := by
  unfold Register.store
  split
  · exact ⟨rfl, rfl⟩
  · exact ⟨rfl, rfl⟩

-- A registration enters a class with its finalizer, or none.
theorem finish_classes (s : State F) (event : Register F) (table : QJSBunRuntime F) :
    (event.finish s table).classes = s.classes ∧ (event.finish s table).given = s.given ∨
      (event.finish s table).classes = (event.classId, event.finalizer.isSome) :: s.classes ∧
        (event.finish s table).given = Function.update s.given event.classId (some event.finalizer) := by
  unfold Register.finish
  split
  · next made =>
      unfold jsNewClass at made
      split at made
      · cases made
      · exact .inr ⟨(Option.some.inj made).symm, rfl⟩
  · exact .inl (store_classes s event table)

theorem finish_table (s : State F) (event : Register F) (table : QJSBunRuntime F) :
    (event.finish s table).table = (event.store s table).table ∧
      (event.finish s table).written = (event.store s table).written ∧
      (event.finish s table).corrupt = (event.store s table).corrupt := by
  unfold Register.finish
  split
  · exact ⟨rfl, rfl, rfl⟩
  · exact ⟨rfl, rfl, rfl⟩

theorem finish_none {s : State F} {event : Register F} (none_ : event.finalizer = none)
    (table : QJSBunRuntime F) :
    (event.finish s table).table = table ∧ (event.finish s table).written = s.written ∧
      (event.finish s table).corrupt = s.corrupt := by
  have same := finish_table s event table
  have stored : event.store s table = { s with table } := by rw [Register.store, none_]
  rwa [stored] at same

theorem finish_some {s : State F} {event : Register F} {finalizer : F}
    (some_ : event.finalizer = some finalizer) (table : QJSBunRuntime F) :
    (event.finish s table).table = write table event.classId finalizer ∧
      (event.finish s table).written = Function.update s.written event.classId (some finalizer) ∧
      (event.finish s table).corrupt = (s.corrupt || !decide (Inside table event.classId)) := by
  have same := finish_table s event table
  unfold Register.store at same
  rwa [some_] at same

theorem finish_written (s : State F) (event : Register F) (table : QJSBunRuntime F) :
    (∀ classId, classId ≠ event.classId →
      (event.finish s table).written classId = s.written classId) ∧
      ∀ f, event.finalizer = some f → (event.finish s table).written event.classId = some f := by
  cases given : event.finalizer with
  | none =>
    rw [(finish_none given table).2.1]
    exact ⟨fun _ _ => rfl, fun _ same => nomatch same⟩
  | some finalizer =>
    rw [(finish_some given table).2.1]
    exact ⟨fun _ other => Function.update_of_ne other _ _, fun f same =>
      same ▸ Function.update_self _ _ _⟩

theorem good_step {s s' : State F} {event : Register F} (good : Good s)
    (steps : step s event = some s') : Good s' := by
  obtain ⟨unregistered, rfl⟩ := step_eq steps
  unfold Register.run
  dsimp only
  split
  · exact good
  · next table _ =>
      intro classId finalizer given
      show (event.finish s table).classes.find? (·.1 == classId) = _ ∧
        ∀ f, finalizer = some f → (event.finish s table).written classId = some f
      have old : s.given classId = some finalizer → classId ≠ event.classId := by
        rintro before rfl
        rw [good.registered before] at unregistered
        cases unregistered
      obtain ⟨others, itself⟩ := finish_written s event table
      rcases finish_classes s event table with ⟨classes, same⟩ | ⟨classes, made⟩
      · have before : s.given classId = some finalizer := by rwa [← same]
        rw [classes, others classId (old before)]
        exact good classId finalizer before
      · have given : Function.update s.given event.classId (some event.finalizer) classId =
            some finalizer := by
          rwa [← made]
        by_cases isThis : classId = event.classId
        · subst isThis
          rw [Function.update_self] at given
          obtain rfl := Option.some.inj given
          have first : ((event.classId, event.finalizer.isSome).1 == event.classId) = true :=
            beq_self_eq_true _
          exact ⟨by rw [classes, List.find?_cons, first], itself⟩
        · rw [Function.update_of_ne isThis] at given
          have first : ((event.classId, event.finalizer.isSome).1 == classId) = false := by
            simpa using fun equal => isThis equal.symm
          rw [classes, List.find?_cons, first, others classId isThis]
          exact good classId finalizer given

theorem good_start (builtin : List UInt32) : Good (machine (F := F) builtin).init :=
  fun _ _ given => nomatch given

theorem finalizes_given {s : State F} (good : Good s)
    (entries : ∀ classId, qjsBunClassFinalize s.table classId = s.written classId)
    {classId : UInt32} {finalizer : Option F} (given : s.given classId = some finalizer) :
    s.finalizes classId = finalizer := by
  obtain ⟨found, last⟩ := good classId finalizer given
  cases finalizer with
  | none => simp only [State.finalizes, found, Option.isSome_none]
  | some f => simp only [State.finalizes, found, Option.isSome_some, entries, last f rfl]

/-! ### Runs -/

-- Every id reaches `finalizer_count` or is below it, but for the largest its size wraps.
theorem wraps_largest {s : State F} {event : Register F} (some_ : event.finalizer.isSome = true)
    (largest : ¬event.classId.toNat + 1 < 2 ^ 32) : event.wraps s = true := by
  have bound := event.classId.toNat_lt
  have others := s.table.finalizerCount.toNat_lt
  have reaches : s.table.finalizerCount ≤ event.classId := by
    rw [UInt32.le_iff_toNat_le]
    omega
  have wraps : (newCount event.classId).toNat ≠ event.classId.toNat + 1 := by
    rw [newCount, UInt32.toNat_add, UInt32.toNat_one]
    omega
  simp [Register.wraps, some_, reaches, wraps]

theorem wraps_admitted {s : State F} {event : Register F} (admits : event.Admits) :
    event.wraps s = false := by
  unfold Register.wraps
  cases given : event.finalizer with
  | none => rfl
  | some finalizer =>
    have fits := admits (by rw [given]; rfl)
    simp [toNat_newCount fits]

-- With an admitted id the table stays sound.
theorem sound_finish {s : State F} {event : Register F} {table : QJSBunRuntime F} (sound : Sound s)
    (admits : event.Admits) (made : event.table s = some table) :
    (event.finish s table).corrupt = false ∧
      (event.finish s table).table.finalizers.length =
        (event.finish s table).table.finalizerCount.toNat ∧
      ∀ classId, qjsBunClassFinalize (event.finish s table).table classId =
        (event.finish s table).written classId := by
  unfold Register.table at made
  cases given : event.finalizer with
  | none =>
    rw [given] at made
    obtain rfl := Option.some.inj made
    obtain ⟨same, written, intact⟩ := finish_none (s := s) given s.table
    rw [same, written, intact]
    exact ⟨sound.intact, sound.allocated, sound.entries⟩
  | some finalizer =>
    rw [given] at made
    have fits := admits (by rw [given]; rfl)
    obtain ⟨allocated, inside, kept⟩ := grow_spec sound.allocated fits made
    obtain ⟨within, length, lookups⟩ := write_spec finalizer allocated inside
    obtain ⟨same, written, intact⟩ := finish_some (s := s) given table
    rw [same, written, intact]
    refine ⟨?_, length, fun classId => ?_⟩
    · rw [sound.intact, decide_eq_true within]
      rfl
    · rw [lookups classId]
      by_cases isThis : classId = event.classId
      · subst isThis
        rw [Function.update_self, Function.update_self]
      · rw [Function.update_of_ne isThis, Function.update_of_ne isThis, kept classId,
          sound.entries classId]

theorem sound_step {s s' : State F} {event : Register F} (good : Good s) (sound : Sound s)
    (steps : step s event = some s') : Sound s' ↔ event.Admits := by
  have good' := good_step good steps
  obtain ⟨unregistered, rfl⟩ := step_eq steps
  constructor
  · intro after some_
    by_contra largest
    have wraps := wraps_largest (s := s) some_ largest
    have unwrapped := after.unwrapped
    unfold Register.run at unwrapped
    rw [wraps] at unwrapped
    split at unwrapped
    · simp at unwrapped
    · simp at unwrapped
  · intro admits
    have unwrapped := wraps_admitted (s := s) admits
    unfold Register.run at good' ⊢
    simp only [unwrapped, Bool.or_false, Bool.false_and] at good' ⊢
    split at good'
    · exact ⟨sound.unwrapped, sound.intact, sound.allocated, sound.entries, sound.finalizes⟩
    · next table made =>
        obtain ⟨intact, allocated, entries⟩ := sound_finish sound admits made
        exact ⟨sound.unwrapped, intact, allocated, entries, fun classId finalizer given =>
          finalizes_given good' entries given⟩

theorem sound_start (builtin : List UInt32) : Sound (machine (F := F) builtin).init where
  unwrapped := rfl
  intact := rfl
  allocated := rfl
  entries _ := rfl
  finalizes _ _ given := nomatch given

/-- The runs in which the table is sound in every state are those in which no class with a finalizer
has the largest id. -/
theorem finalizers_sound (builtin : List UInt32) (s : State F) :
    ((machine builtin).Reaches (fun _ event => event.Admits) s → Sound s) ∧
      ((machine builtin).Reaches (fun _ event => event.Admits) s ↔
        (machine builtin).Reaches ((machine builtin).Keeping Sound) s) :=
  Machine.reaches_iff_keeping
    ⟨good_start builtin, fun good _ steps => good_step good steps⟩ (sound_start builtin)
    fun good sound steps => sound_step good sound steps

/-- Class 25 is refused after its finalizer was written and registered again, class 40 finds no
memory, and the table has grown twice over cells that hold anything. -/
theorem finalizers_sound_grown :
    ∃ s : State Nat, (machine [1, 2, 3]).Reaches ((machine [1, 2, 3]).Keeping Sound) s ∧
      Sound s ∧ s.table.finalizerCount = 26 ∧ s.finalizes 20 = some 7 ∧ s.finalizes 25 = some 9 ∧
      s.finalizes 22 = none := by
  let junk : Nat → Option Nat := fun cell => some cell
  let events : List (Register Nat) :=
    [⟨20, some 7, some junk, false⟩, ⟨25, some 8, some junk, true⟩, ⟨22, none, none, false⟩,
      ⟨40, some 6, none, false⟩, ⟨25, some 9, none, false⟩]
  obtain ⟨s, runs, count, first, again, plain⟩ : ∃ s,
      (machine [1, 2, 3]).run (fun _ event => event.Admits)
        (machine [1, 2, 3]).init events = some s ∧
      s.table.finalizerCount = 26 ∧ s.given 20 = some (some 7) ∧ s.given 25 = some (some 9) ∧
      s.finalizes 22 = none :=
    ⟨_, rfl, rfl, rfl, rfl, rfl⟩
  have reaches : (machine [1, 2, 3]).Reaches (fun _ event => event.Admits) s :=
    Machine.Reaches.init.run events runs
  obtain ⟨sound, exactly⟩ := finalizers_sound [1, 2, 3] s
  have kept := sound reaches
  exact ⟨s, exactly.mp reaches, kept, count,
    kept.finalizes 20 (some 7) first, kept.finalizes 25 (some 9) again, plain⟩

/-- A finalizer for the class 4294967295: the block has no cell, and the write goes outside. -/
theorem finalizers_largest :
    ∃ s : State Nat, (machine [1, 2, 3]).Reaches (fun _ _ => True) s ∧
      s.wrapped = true ∧ s.corrupt = true ∧ ¬Sound s := by
  refine ⟨_, Machine.Reaches.init.step (e := ⟨0xFFFFFFFF, some 7, some fun _ => none, false⟩)
    trivial rfl, rfl, rfl, ?_⟩
  intro sound
  cases sound.unwrapped

end QuickJSBun.Bridge.Finalizers
