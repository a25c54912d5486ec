import QuickJSBun.Engine.AtomsKept

/-! `JS_InitAtoms`: where the engine has memory, a runtime starts with a table of the predefined
atoms, none of which reads as a number that has a tag, and with no other reference.
-/

set_option autoImplicit false

namespace QuickJSBun.Engine.Atoms

open Library Library.Chained Library.Chained.Table Engine.Strings

/-! ### Texts of numbers -/

theorem isIndex_head {text : Text} (index : IsIndex text) :
    ∃ u rest, text = u :: rest ∧ isDigit u = true := by
  obtain ⟨n, -, rfl⟩ := index
  cases written : digits n with
  | nil => exact absurd written (digits_ne_nil n)
  | cons u rest =>
    exact ⟨u, rest, rfl, isDigit_digits n u (by rw [written]; exact List.mem_cons_self)⟩

-- No predefined name begins with a digit, and all are short.
def Plain (str : String) : Bool :=
  decide ((initBytes str).length < 64) && !(initBytes str).head?.any fun b => isDigit b.toUInt16

theorem length_jsAtomInit : jsAtomInit.length = 242 := by decide +kernel

theorem jsAtomInit_plain : jsAtomInit.all Plain = true := by decide +kernel

theorem not_index_of_plain {str : String} (plain : Plain str = true) :
    ¬IsIndex (JSString.str8 (initBytes str)).text := by
  intro index
  obtain ⟨u, rest, shape, digit⟩ := isIndex_head index
  simp only [Plain, Bool.and_eq_true, Bool.not_eq_true'] at plain
  cases bytes : initBytes str with
  | nil =>
    rw [bytes] at shape
    cases shape
  | cons b later =>
    rw [bytes] at shape plain
    obtain ⟨rfl, -⟩ := List.cons.inj shape
    simp only [List.head?_cons, Option.any_some] at plain
    rw [plain.2] at digit
    cases digit

/-! ### The start -/

def initKeys (i : Nat) : List String → List (AtomType × Text)
  | [] => []
  | str :: rest =>
    ((atomTypeInit i).stored, (JSString.str8 (initBytes str)).text) :: initKeys (i + 1) rest

-- A number for a key, so that keys are compared as numbers.
def codeOf (key : AtomType × Text) : Nat :=
  key.2.foldl (fun h u => h * 65536 + u.toNat) key.1.number

theorem nodup_initKeys : (initKeys 1 jsAtomInit).Nodup :=
  List.Nodup.of_map codeOf (by decide +kernel)

theorem length_initKeys (i : Nat) (strs : List String) :
    (initKeys i strs).length = strs.length := by
  induction strs generalizing i with
  | nil => rfl
  | cons str rest ih => rw [initKeys, List.length_cons, List.length_cons, ih]

theorem getElem?_initKeys {strs : List String} {i k : Nat} {str : String}
    (found : strs[k]? = some str) :
    (initKeys i strs)[k]? =
      some ((atomTypeInit (i + k)).stored, (JSString.str8 (initBytes str)).text) := by
  induction strs generalizing i k with
  | nil => cases found
  | cons first rest ih =>
    cases k with
    | zero =>
      obtain rfl := Option.some.inj found
      rfl
    | succ k =>
      have later := @ih (i + 1) k found
      rw [Nat.add_assoc, Nat.add_comm 1] at later
      exact later

/-- After so many names: each has the place of its number, and the places after them are free, in
order. -/
structure Starting (done : List (AtomType × Text)) (rt : JSRuntime) : Prop where
  valid : rt.Valid
  placed : ∀ k key, done[k]? = some key → rt.Is (k + 1) key.1 key.2
  used : ∀ i p, rt.table.value i = some p → i ≤ done.length
  order : (rt.table.slots = [] ∧ rt.table.freeHead = 0 ∧ done = []) ∨
    (rt.table.freeHead = done.length + 1 ∧ Ordered rt.table)

variable {rt rt' : JSRuntime} {done : List (AtomType × Text)} {i : Nat} {memory : Memory}

theorem Starting.not_crowded (starting : Starting done rt) : ¬rt.Crowded := by
  rintro ⟨full, large⟩
  rcases starting.order with ⟨empty, -, -⟩ | ⟨some, -⟩
  · rw [empty] at large
    exact absurd large (by decide)
  · omega

theorem Starting.of_table (starting : Starting done rt) (same : rt'.table = rt.table) :
    Starting done rt' where
  valid := starting.valid.of_table same
  placed k key found := by
    rw [JSRuntime.Is, same]
    exact starting.placed k key found
  used := same ▸ starting.used
  order := same ▸ starting.order

theorem Starting.readied {grown : JSRuntime} (starting : Starting done rt)
    (readied : Readied rt grown) :
    (∀ k key, done[k]? = some key → grown.Is (k + 1) key.1 key.2) ∧
    (∀ i p, grown.table.value i = some p → i ≤ done.length) ∧
      grown.table.freeHead = done.length + 1 ∧ Ordered grown.table := by
  rcases readied with ⟨some, rfl⟩ | ⟨none, idle, -, first⟩
  · rcases starting.order with ⟨-, none, -⟩ | order
    · exact absurd none some
    · exact ⟨starting.placed, starting.used, order⟩
  · rcases starting.order with ⟨empty, -, rfl⟩ | ⟨some, -⟩
    · obtain ⟨one, ordered⟩ := first empty
      refine ⟨fun k key found => ?_, fun i p found => ?_, one, ordered⟩
      · rw [List.getElem?_nil] at found
        cases found
      · by_cases null : i = 0
        · omega
        · exact starting.used i p ((idle.value i null).symm.trans found)
    · omega

-- What is in the table has been put there.
theorem Starting.mem {atomType : AtomType} {text : Text} (starting : Starting done rt)
    (known : rt.Is i atomType text) : (atomType, text) ∈ done := by
  obtain ⟨some, p, stored, rfl, rfl⟩ := known
  have low := starting.used i p stored
  have inside : i - 1 < done.length := by omega
  obtain ⟨-, q, stored', sameType, sameText⟩ :=
    starting.placed (i - 1) _ (List.getElem?_eq_getElem inside)
  rw [Nat.sub_add_cancel (Nat.pos_of_ne_zero some), stored] at stored'
  obtain rfl := Option.some.inj stored'
  rw [sameType, sameText]
  exact List.getElem_mem inside

theorem Starting.step {str : JSString} {atomType : AtomType} (starting : Starting done rt)
    (few : done.length + 1 < 710) (obtained : Obtained memory rt str atomType i rt') (some : i ≠ 0)
    (new : (atomType.stored, str.text) ∉ done) :
    Starting (done ++ [(atomType.stored, str.text)]) rt' := by
  cases obtained with
  | refused => exact absurd rfl some
  | found known shared => exact absurd (starting.mem known) new
  | @placed grown _ readied placed =>
    obtain ⟨before, used, here, ordered⟩ := starting.readied readied
    have leads := placed.leads
    rw [ordered _ (Nat.le_refl _) (by omega)] at leads
    have next : grown.table.freeHead + 1 = rt'.table.freeHead := Option.some.inj leads
    have length : (done ++ [(atomType.stored, str.text)]).length = done.length + 1 :=
      List.length_append
    refine ⟨placed.valid, fun k key found => ?_, fun j q found =>
      ?_, .inr ⟨by omega, fun j after before => ?_⟩⟩
    · by_cases old : k < done.length
      · rw [List.getElem?_append_left old] at found
        exact (before k key found).kept placed.kept
      · have last : k = done.length := by
          have := (List.getElem?_eq_some_iff.mp found).1
          omega
        subst last
        rw [List.getElem?_concat_length] at found
        obtain rfl := Option.some.inj found
        have stored := placed.value (done.length + 1)
        rw [if_pos here.symm] at stored
        exact ⟨Nat.succ_ne_zero _, _, stored, rfl, rfl⟩
    · rw [placed.value] at found
      by_cases isIt : j = grown.table.freeHead
      · omega
      · rw [if_neg isIt] at found
        have := used j q found
        omega
    · rw [placed.freeNext j (by omega)]
      exact ordered j (by omega) before

theorem newAtomInit_ends (starting : Starting done rt) (few : done.length + 1 < 710) {str : String}
    (plain : Plain str = true) {atomType : AtomType}
    (new : (atomType.stored, (JSString.str8 (initBytes str)).text) ∉ done) :
    Effect.Triple (· = rt) (newAtomInit memory str atomType)
      (fun i rt' => (i = 0 ∧ ¬memory.Ample) ∨
        (i ≠ 0 ∧ Starting (done ++ [(atomType.stored, (JSString.str8 (initBytes str)).text)]) rt'))
          fun _ _ => False := by
  have short : (initBytes str).length < 64 := by
    simp only [Plain, Bool.and_eq_true, decide_eq_true_eq] at plain
    exact plain.1
  unfold newAtomInit
  have allocates : Makes memory (jsAllocString memory (initBytes str).length false) fun _ => True :=
    jsAllocString_narrow (by omega) (by omega)
  refine Effect.Triple.bind (attempt_ends allocates rt) fun result =>
    Effect.Triple.each fun _ ends => ?_
  obtain ⟨⟨calls, rfl⟩, ⟨_, rfl, -⟩ | ⟨rfl, starved⟩⟩ := ends
  · have starting' : Starting done { rt with calls } := starting.of_table rfl
    have fits : (JSString.str8 (initBytes str)).len ≤ lenMax := by
      show ((initBytes str).length : Int) ≤ lenMax
      unfold lenMax
      omega
    refine (newAtom_ends starting'.valid fits fun _ => not_index_of_plain plain).weaken
      (fun _ start => start) ?_ ?_
    · intro i rt' obtained
      by_cases none : i = 0
      · left
        refine ⟨none, ?_⟩
        rcases obtained.gained starting'.valid with ⟨-, -, starved⟩ | ⟨-, some, -⟩
        · exact starved.resolve_right starting'.not_crowded
        · exact absurd none some
      · exact .inr ⟨none, starting'.step few obtained none new⟩
    · rintro e _ ⟨-, crowded⟩
      exact starting'.not_crowded crowded
  · exact Effect.Triple.pure 0 fun _ _ => .inl ⟨rfl, starved⟩

theorem initAtomsFrom_ends {strs : List String} {next : Nat} (starting : Starting done rt)
    (few : done.length + strs.length < 710) (plain : strs.all Plain = true)
    (new : (done ++ initKeys next strs).Nodup) :
    Effect.Triple (· = rt) (initAtomsFrom memory next strs)
      (fun done' rt' => (done' = true ∧ Starting (done ++ initKeys next strs) rt') ∨
        (done' = false ∧ ¬memory.Ample))
      fun _ _ => False := by
  induction strs generalizing rt done next with
  | nil =>
    refine Effect.Triple.pure true ?_
    rintro _ rfl
    rw [initKeys, List.append_nil]
    exact .inl ⟨rfl, starting⟩
  | cons str rest ih =>
    rw [List.all_cons, Bool.and_eq_true] at plain
    rw [List.length_cons] at few
    rw [initAtomsFrom]
    have shape : done ++ initKeys next (str :: rest) =
        (done ++ [((atomTypeInit next).stored, (JSString.str8 (initBytes str)).text)]) ++
          initKeys (next + 1) rest := by
      rw [initKeys, List.append_assoc, List.singleton_append]
    rw [shape] at new ⊢
    have fresh : ((atomTypeInit next).stored, (JSString.str8 (initBytes str)).text) ∉ done := by
      have front := (List.nodup_append.mp new).1
      exact fun member => (List.nodup_append.mp front).2.2 _ member _ List.mem_cons_self rfl
    refine Effect.Triple.bind (newAtomInit_ends starting (by omega) plain.1 fresh) fun i =>
      Effect.Triple.each fun rt' ends => ?_
    rcases ends with ⟨rfl, starved⟩ | ⟨some, starting'⟩
    · rw [if_pos rfl]
      exact Effect.Triple.pure false fun _ _ => .inr ⟨rfl, starved⟩
    · rw [if_neg some]
      refine ih starting' ?_ plain.2 new
      rw [List.length_append, List.length_singleton]
      omega

-- Every predefined atom has its number.
def JSRuntime.Initial (rt : JSRuntime) : Prop :=
  ∀ k str, jsAtomInit[k]? = some str →
    rt.Is (k + 1) (atomTypeInit (k + 1)).stored (JSString.str8 (initBytes str)).text

theorem JSRuntime.Initial.kept (initial : rt.Initial)
    (kept : ∀ j p, rt.table.value j = some p → atomIsConst j = true →
      ∃ q, rt'.table.value j = some q ∧ q.str = p.str ∧ q.atomType = p.atomType) : rt'.Initial := by
  intro k str found
  obtain ⟨some, p, stored, sameType, sameText⟩ := initial k str found
  have low : k + 1 < atomEnd := by
    have inside := (List.getElem?_eq_some_iff.mp found).1
    rw [length_jsAtomInit] at inside
    unfold atomEnd
    omega
  have const : atomIsConst (k + 1) = true := by rw [atomIsConst, decide_eq_true low, Bool.true_or]
  obtain ⟨q, stored', str', atomType'⟩ := kept (k + 1) p stored const
  exact ⟨some, q, stored', atomType'.trans sameType, by rw [str']; exact sameText⟩

/-- A valid table of the predefined atoms only, each at its number. -/
structure Started (rt : JSRuntime) : Prop where
  valid : rt.Valid
  counts : rt.Counts []
  initial : rt.Initial
  used : ∀ i p, rt.table.value i = some p → i < atomEnd
  room : ¬rt.Crowded

theorem Starting.started (starting : Starting (initKeys 1 jsAtomInit) rt) : Started rt := by
  have used : ∀ i p, rt.table.value i = some p → i < atomEnd := by
    intro i p found
    have low := starting.used i p found
    rw [length_initKeys, length_jsAtomInit] at low
    unfold atomEnd
    omega
  refine ⟨starting.valid, fun i counted => ?_, fun k str found => ?_, used, starting.not_crowded⟩
  · -- every place in use is that of a predefined atom
    have unused : rt.table.value i = none := by
      cases found : rt.table.value i with
      | none => rfl
      | some p =>
        rw [atomIsConst, decide_eq_true (used i p found), Bool.true_or] at counted
        cases counted
    rw [JSRuntime.references, unused]
    refine ⟨rfl, fun p found => ?_⟩
    cases found
  · have key := starting.placed k _ (getElem?_initKeys found)
    rwa [Nat.add_comm 1] at key

theorem jsInitAtoms_ends : Effect.Triple (· = noAtoms) (jsInitAtoms memory)
    (fun done rt => (done = true ∧ Started rt) ∨ (done = false ∧ ¬memory.Ample)) fun _ _ =>
      False := by
  unfold jsInitAtoms
  have empty : noAtoms.table.Holds (bucketOf noAtoms.table.heads.length) := holds_empty _
  refine Effect.Triple.bind (jsResizeAtomHash_ends empty (Nat.le_refl 512)) fun done =>
    Effect.Triple.each fun rt ends => ?_
  obtain ⟨same, holds, heads, starved⟩ := ends
  cases done with
  | false =>
    rw [if_neg Bool.false_ne_true]
    exact Effect.Triple.pure false fun _ _ => .inr ⟨rfl, (starved rfl).resolve_right (by decide)⟩
  | true =>
    rw [if_pos rfl]
    have unused : ∀ i, rt.table.value i = none := same.value
    have slots : rt.table.slots = [] := List.length_eq_zero_iff.mp same.slots
    have valid : rt.Valid := by
      refine ⟨holds, ?_, fun i p found => ?_, fun i j p q found => ?_, ?_⟩
      · rw [heads]
        exact Nat.le_refl 512
      · rw [unused] at found
        cases found
      · rw [unused] at found
        cases found
      · rw [slots]
        exact Nat.zero_le _
    have starting : Starting [] rt := by
      refine ⟨valid, fun k key found => ?_, fun i p found => ?_, .inl ⟨slots, same.freeHead, rfl⟩⟩
      · rw [List.getElem?_nil] at found
        cases found
      · rw [unused] at found
        cases found
    have few : ([] : List (AtomType × Text)).length + jsAtomInit.length < 710 := by
      rw [length_jsAtomInit]
      decide
    refine (initAtomsFrom_ends starting few jsAtomInit_plain nodup_initKeys).weaken
      (fun _ start => start) ?_
      fun _ _ never => never
    rintro done rt' (⟨rfl, ends⟩ | failed)
    · exact .inl ⟨rfl, ends.started⟩
    · exact .inr failed

/-- Where the engine has memory `JS_InitAtoms` succeeds, and when it does every predefined atom
has the number of its place in the list, although it is found by its text, and no other place is
used. -/
theorem jsInitAtoms_exact (memory : Memory) :
    (memory.Ample → ∃ rt, (jsInitAtoms memory).run noAtoms = (.ok true, rt)) ∧
    ∀ rt, (jsInitAtoms memory).run noAtoms = (.ok true, rt) →
      rt.Valid ∧ rt.Initial ∧ ∀ i p, rt.table.value i = some p → i < atomEnd := by
  have ends : Effect.Triple (· = noAtoms) (jsInitAtoms memory) _ _ := jsInitAtoms_ends
  constructor
  · intro ample
    cases runs : (jsInitAtoms memory).run noAtoms with
    | mk outcome rt =>
      cases outcome with
      | ok done =>
        rcases ends.returned rfl runs with ⟨rfl, -⟩ | ⟨-, starved⟩
        · exact ⟨rt, rfl⟩
        · exact absurd ample starved
      | error e => exact (ends.thrown rfl runs).elim
  · intro rt runs
    rcases ends.returned rfl runs with ⟨-, started⟩ | ⟨failed, -⟩
    · exact ⟨started.valid, started.initial, started.used⟩
    · cases failed

end QuickJSBun.Engine.Atoms
