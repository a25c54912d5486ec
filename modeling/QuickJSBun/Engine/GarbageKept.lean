import QuickJSBun.Engine.GarbageCollected

/-! Runs of a runtime. Objects are made, references are copied, moved and given up, and garbage is collected, in any
order. Counts stay right, no function fails, and what goes was finalized once.
-/

set_option autoImplicit false

namespace QuickJSBun.Engine.Garbage

open QuickJSBun.Library

variable {rt rt' : JSRuntime} {outside : List Nat} {p q : Nat} {o o' : JSGCObject}
    {s s' : State} {e : Event}

/-! ### The calls between collections -/

theorem JSRuntime.Valid.added (valid : rt.Valid (o.children ++ outside)) (fresh : rt.heap p = none)
    (one : o.refCount = 1) (typed : ∀ part, ∀ c ∈ o.part part, ∀ child, rt.heap c = some child →
      admits o.gcObjType part child.gcObjType = true) :
    ({ rt.put p o with gcObjList := rt.gcObjList ++ [p] } : JSRuntime).Valid (p :: outside) := by
  have new : p ∉ rt.listed := fun member => by
    obtain ⟨o', found⟩ := (valid.alive p).mp member
    rw [fresh] at found
    cases found
  generalize made : ({ rt.put p o with gcObjList := rt.gcObjList ++ [p] } : JSRuntime) = rt'
  have lists : rt'.listed.Perm (p :: rt.listed) := by
    rw [← made]
    show (rt.gcObjList ++ [p] ++ (rt.gcZeroRefCountList ++ rt.tmpObjList)).Perm _
    rw [List.append_assoc, List.singleton_append]
    exact List.perm_middle
  have heap : ∀ q, rt'.heap q = (rt.put p o).heap q := fun q => by rw [← made]
  have kids : ∀ q ∈ rt.listed, rt'.kids q = rt.kids q := by
    intro q member
    have other : q ≠ p := fun same => new (same ▸ member)
    unfold JSRuntime.kids
    rw [heap, put_of_ne other]
  have own : rt'.kids p = o.children := kids_of_heap (by rw [heap, put_self])
  have refs : ∀ q, rt'.graph.refs (p :: outside) q = rt.graph.refs (o.children ++ outside) q +
      if p = q then 1 else 0 := by
    intro q
    rw [Graph.refs_cons]
    congr 1
    refine Graph.refs_of_perm ?_
    show (rt'.listed.flatMap rt'.kids ++ outside).Perm
        (rt.listed.flatMap rt.kids ++ (o.children ++ outside))
    refine ((lists.flatMap_right _).append_right _).trans ?_
    rw [List.flatMap_cons, own, List.flatMap_congr kids, ← List.append_assoc]
    exact List.perm_append_comm.append_right _
  have nobody : rt.graph.refs (o.children ++ outside) p = 0 := by
    by_contra some
    obtain ⟨o', found⟩ := valid.inside p (Nat.pos_of_ne_zero some)
    rw [fresh] at found
    cases found
  have before : ∀ q o', rt'.heap q = some o' → q = p ∧ o' = o ∨ q ≠ p ∧ rt.heap q = some o' :=
    fun q o' found =>
    heap_put (by rwa [heap] at found)
  have child : ∀ c child, rt'.heap c = some child →
      (∃ r o', rt.heap r = some o' ∧ c ∈ o'.children) ∨ c ∈ o.children →
      rt.heap c = some child := by
    intro c child found referred
    rcases before c child found with ⟨rfl, -⟩ | ⟨-, found⟩
    · have some : 0 < rt.graph.refs (o.children ++ outside) c := by
        rcases referred with ⟨r, o', found', kid⟩ | kid
        · exact valid.refs_kid found' kid
        · exact Graph.refs_root (List.mem_append_left _ kid)
      omega
    · exact found
  refine ⟨?_, fun q => ?_, fun q o' found => ?_, fun q referred =>
    ?_, fun q o' found part c member child' at_ => ?_⟩
  · rw [lists.nodup_iff]
    exact List.nodup_cons.mpr ⟨new, valid.nodup⟩
  · rw [lists.mem_iff, List.mem_cons, valid.alive, heap]
    by_cases same : q = p
    · subst same
      exact iff_of_true (.inl rfl) ⟨o, put_self⟩
    · rw [or_iff_right same, put_of_ne same]
  · rw [refs]
    rcases before q o' found with ⟨rfl, rfl⟩ | ⟨other, found⟩
    · rw [nobody, if_pos rfl, one]
      rfl
    · rw [if_neg (Ne.symm other)]
      exact valid.counts q o' found
  · rw [heap]
    by_cases same : q = p
    · subst same
      exact ⟨o, put_self⟩
    · rw [refs, if_neg (Ne.symm same)] at referred
      rw [put_of_ne same]
      exact valid.inside q referred
  · rcases before q o' found with ⟨rfl, rfl⟩ | ⟨-, found⟩
    · exact typed part c member child' (child c child' at_ (.inr (mem_part member)))
    · exact valid.typed q o' found part c member child'
        (child c child' at_ (.inl ⟨q, o', found, mem_part member⟩))

theorem JSRuntime.Valid.raised (valid : rt.Valid outside) (found : rt.heap q = some o) :
    (rt.put q { o with refCount := o.refCount + 1 }).Valid (q :: outside) := by
  have graph := @graph_put_same rt q o { o with refCount := o.refCount + 1 } found rfl
  refine ⟨valid.nodup, fun p => ?_, fun p o' at_ => ?_, fun p referred =>
    ?_, fun p o' at_ part c member child at_child => ?_⟩
  · rw [listed_put, valid.alive]
    exact (put_there found).symm
  · rw [graph, Graph.refs_cons]
    rcases heap_put at_ with ⟨rfl, rfl⟩ | ⟨other, before⟩
    · have := valid.counts p o found
      rw [if_pos rfl]
      dsimp only
      omega
    · rw [valid.counts p o' before, if_neg (Ne.symm other), Nat.add_zero]
  · by_cases same : p = q
    · subst same
      exact ⟨_, put_self⟩
    · rw [graph, Graph.refs_cons, if_neg (Ne.symm same), Nat.add_zero] at referred
      rw [put_of_ne same]
      exact valid.inside p referred
  · refine valid.typed_put found ?_ (fun part c member => ?_) at_ member at_child
    · rfl
    · exact valid.typed q o found part c member

-- Between the calls every count is positive.
theorem Settled.positive (settled : Settled .none [] rt) (valid : rt.Valid outside)
    (found : rt.heap p = some o) : 0 < o.refCount := by
  cases main : o.gcObjType.isMain with
  | false => exact settled.used p o found main List.not_mem_nil
  | true =>
    have counted := valid.counts p o found
    have waits := settled.zero JSGCPhase.noConfusion p o found
    rw [settled.idle rfl] at waits
    have some : o.refCount ≠ 0 := fun zero => List.not_mem_nil (waits.mpr ⟨main, zero⟩)
    omega

theorem Settled.put (settled : Settled .none [] rt) (valid : rt.Valid outside)
    (positive : 0 < o'.refCount) (mark : o'.mark = false) (live : o'.freeMark = false) :
    Settled .none [] (rt.put p o') := by
  refine ⟨settled.current, fun _ never => absurd never List.not_mem_nil, fun q o'' at_ aux idle =>
    ?_, fun _ q o'' at_ => ?_, settled.idle, fun q member o'' at_ => ?_, fun q o'' at_ marked => ?_⟩
  · rcases heap_put at_ with ⟨rfl, rfl⟩ | ⟨-, before⟩
    · exact positive
    · exact settled.used q o'' before aux idle
  · have waits : q ∉ (rt.put p o').gcZeroRefCountList := by
      rw [show (rt.put p o').gcZeroRefCountList = [] from settled.idle rfl]
      exact List.not_mem_nil
    refine iff_of_false waits fun both => ?_
    rcases heap_put at_ with ⟨rfl, rfl⟩ | ⟨-, before⟩
    · have := both.2
      omega
    · have := settled.positive valid before
      have := both.2
      omega
  · rcases heap_put at_ with ⟨rfl, rfl⟩ | ⟨-, before⟩
    · exact mark
    · exact settled.unmarked q member o'' before
  · rcases heap_put at_ with ⟨rfl, rfl⟩ | ⟨-, before⟩
    · rw [live] at marked
      cases marked
    · exact settled.live q o'' before marked

/-! ### Runs -/

structure State.Good (s : State) : Prop where
  valid : s.rt.Valid s.held
  settled : Settled .none [] s.rt
  garbage : s.rt.tmpObjList = []
  once : ∀ p, s.rt.finalized.count p + standing s.rt p = s.created.count p

namespace State.Good

theorem unmarked (good : s.Good) (found : s.rt.heap p = some o) :
    o.mark = false ∧ o.freeMark = false := by
  have listed : p ∈ s.rt.gcObjList := by
    have member := (good.valid.alive p).mpr ⟨o, found⟩
    unfold JSRuntime.listed at member
    rwa [good.settled.idle rfl, good.garbage, List.append_nil, List.append_nil] at member
  refine ⟨good.settled.unmarked p listed o found, ?_⟩
  rw [← Bool.not_eq_true]
  intro marked
  rcases good.settled.live p o found marked with busy | removing
  · exact List.not_mem_nil busy
  · exact JSGCPhase.noConfusion removing.1

theorem init : State.Good machine.init := by
  refine ⟨⟨List.nodup_nil, fun p => ?_, fun p o found => ?_, fun p referred =>
    ?_, fun p o found => ?_⟩,
    ⟨rfl, fun _ never => absurd never List.not_mem_nil, fun p o found => ?_, fun _ p o found =>
      ?_, fun _ => rfl,
      fun _ never => absurd never List.not_mem_nil, fun p o found => ?_⟩, rfl, fun p => rfl⟩
  · refine iff_of_false List.not_mem_nil ?_
    rintro ⟨o, found⟩
    cases found
  · cases found
  · cases referred
  · cases found
  · cases found
  · cases found
  · cases found

end State.Good

theorem fits_admits {t : JSGCObjectType} {part : Part} {pointers : List Nat}
    (fits : s.fits t part pointers = true) :
    ∀ c ∈ pointers, ∀ child, s.rt.heap c = some child → admits t part child.gcObjType = true := by
  intro c member child found
  have fit := List.all_eq_true.mp fits c member
  rw [found] at fit
  exact fit

theorem standing_of_unmarked (found : rt.heap p = some o) (unmarked : o.freeMark = false) :
    standing rt p = if o.gcObjType.isMain then 1 else 0 := by
  rw [standing_of_heap found, unmarked]
  simp only [and_true]

namespace State.Good

-- A function of the engine is called as its callers may call it.
theorem call (good : s.Good) (admissible : s.admissible e = true) :
    Effect.Triple (· = s.rt) (State.call e)
      (fun _ rt => State.Good ⟨rt, s.heldAfter e, s.createdAfter e⟩) fun _ _ => False := by
  cases e with
  | add p gcObjType header fields data =>
    simp only [State.admissible, Bool.and_eq_true, decide_eq_true_eq,
      Option.isNone_iff_eq_none] at admissible
    obtain ⟨⟨⟨⟨fresh, headerFits⟩, fieldsFit⟩, dataFits⟩, mine⟩ := admissible
    have held : s.held.Perm
        (header ++ (fields ++ data) ++ s.held.diff (header ++ (fields ++ data))) :=
      (List.subperm_append_diff_self_of_count_le (List.subperm_ext_iff.mp mine)).symm
    have typed : ∀ part,
        ∀ c ∈ (JSGCObject.mk gcObjType 1 false false header fields data).part part, ∀ child,
        s.rt.heap c = some child → admits gcObjType part child.gcObjType = true := by
      intro part
      cases part with
      | header => exact fits_admits headerFits
      | fields => exact fits_admits fieldsFit
      | data => exact fits_admits dataFits
    have valid :=
      (good.valid.reordered held).added (o := ⟨gcObjType, 1, false, false, header, fields, data⟩)
        fresh rfl typed
    refine Effect.Triple.modify_bind (Effect.Triple.modify ?_)
    rintro _ rfl
    have settled :
        Settled .none [] (s.rt.put p ⟨gcObjType, 1, false, false, header, fields, data⟩) :=
      good.settled.put good.valid (show (0 : Int) < 1 by decide) rfl rfl
    refine ⟨valid,
      ⟨settled.current, settled.taken, settled.used, settled.zero, settled.idle,
        fun q member o found => ?_,
      settled.live⟩, good.garbage, fun q => ?_⟩
    · rcases List.mem_append.mp member with before | last
      · exact settled.unmarked q before o found
      · rcases heap_put found with ⟨-, rfl⟩ | ⟨other, -⟩
        · rfl
        · exact absurd (List.mem_singleton.mp last) other
    · have once := good.once q
      show s.rt.finalized.count q +
          standing (s.rt.put p ⟨gcObjType, 1, false, false, header, fields, data⟩) q =
        (if gcObjType.isMain then s.created ++ [p] else s.created).count q
      by_cases same : q = p
      · subst same
        have before : standing s.rt q = 0 := by
          unfold standing
          rw [fresh]
        rw [standing_of_unmarked put_self rfl]
        rw [before] at once
        cases main : gcObjType.isMain with
        | true => simp only [if_true, List.count_append, List.count_singleton_self]; omega
        | false => simpa using once
      · rw [standing_congr (put_of_ne same)]
        cases main : gcObjType.isMain with
        | true =>
          rw [if_pos rfl, List.count_append, List.count_singleton,
            if_neg (by simpa using Ne.symm same)]
          exact once
        | false => exact once
  | dup p =>
    obtain ⟨o, found⟩ :=
      Option.isSome_iff_exists.mp (show (s.rt.heap p).isSome = true from admissible)
    obtain ⟨mark, live⟩ := good.unmarked found
    have positive := good.settled.positive good.valid found
    refine load_bind found (Effect.Triple.modify ?_)
    rintro _ rfl
    refine ⟨good.valid.raised found, good.settled.put good.valid (by dsimp only; omega) mark live,
      good.garbage, fun q => ?_⟩
    have same : standing (s.rt.put p { o with refCount := o.refCount + 1 }) q = standing s.rt q :=
      standing_put found rfl rfl
    exact (congrArg (s.rt.finalized.count q + ·) same).trans (good.once q)
  | move p header fields data held =>
    cases found : s.rt.heap p with
    | none =>
      rw [State.admissible, found] at admissible
      cases admissible
    | some o =>
      rw [State.admissible, found] at admissible
      simp only [Bool.and_eq_true, decide_eq_true_eq] at admissible
      obtain ⟨⟨⟨headerFits, fieldsFit⟩, dataFits⟩, moved⟩ := admissible
      obtain ⟨mark, live⟩ := good.unmarked found
      have typed : ∀ part, ∀ c ∈ ({ o with header, fields, data } : JSGCObject).part part, ∀ child,
          s.rt.heap c = some child → admits o.gcObjType part child.gcObjType = true := by
        intro part
        cases part with
        | header => exact fits_admits headerFits
        | fields => exact fits_admits fieldsFit
        | data => exact fits_admits dataFits
      have positive : 0 < o.refCount := good.settled.positive good.valid found
      refine load_bind found (Effect.Triple.modify ?_)
      rintro _ rfl
      refine ⟨good.valid.exchanged found rfl rfl moved typed,
        good.settled.put good.valid positive mark live, good.garbage, fun q => ?_⟩
      have same : standing (s.rt.put p { o with header, fields, data }) q = standing s.rt q :=
        standing_put found rfl rfl
      exact (congrArg (s.rt.finalized.count q + ·) same).trans (good.once q)
  | free p =>
    have member : p ∈ s.held := List.contains_iff_mem.mp admissible
    have held : s.held.Perm (p :: s.held.erase p) := List.perm_cons_erase member
    refine (freeReference_ends (good.valid.reordered held) good.settled).weaken (fun _ same => same)
      (fun _ rt ends => ?_)
      fun _ _ never => never
    refine ⟨ends.valid, ends.settled, List.eq_nil_iff_forall_not_mem.mpr fun q garbage =>
      ?_, fun q => ?_⟩
    · have before := ends.shrinks.garbage q garbage
      rw [good.garbage] at before
      exact List.not_mem_nil before
    · exact (ends.shrinks.once q).trans (good.once q)
  | runGC =>
    refine (jsRunGC_collects good.valid good.settled good.garbage).weaken (fun _ same => same)
      (fun _ rt ends => ?_)
      fun _ _ never => never
    exact ⟨ends.valid, ends.settled, ends.garbage, fun q => (ends.once q).trans (good.once q)⟩

-- No call fails, so that every admissible one is a step.
theorem steps (good : s.Good) (admissible : s.admissible e = true) :
    ∃ rt, (State.call e).run s.rt = (.ok (), rt) ∧
    step s e = some ⟨rt, s.heldAfter e, s.createdAfter e⟩ := by
  cases runs : (State.call e).run s.rt with
  | mk outcome rt =>
    cases outcome with
    | ok done =>
      refine ⟨rt, rfl, ?_⟩
      unfold step
      rw [if_pos admissible, runs]
    | error e' => exact ((good.call admissible).thrown rfl runs).elim

theorem step (good : s.Good) (steps : step s e = some s') :
    s'.Good ∧ ∃ rt, (State.call e).run s.rt = (.ok (), rt) ∧
    s' = ⟨rt, s.heldAfter e, s.createdAfter e⟩ := by
  by_cases admissible : s.admissible e = true
  · obtain ⟨rt, runs, same⟩ := good.steps admissible
    rw [steps] at same
    obtain rfl := Option.some.inj same
    exact ⟨(good.call admissible).returned rfl runs, rt, runs, rfl⟩
  · unfold Garbage.step at steps
    rw [if_neg admissible] at steps
    cases steps

end State.Good

theorem reached_good (reaches : machine.Reaches (fun _ _ => True) s) : s.Good := by
  have kept : machine.Invariant (fun _ _ => True) State.Good :=
    ⟨State.Good.init, fun good _ steps => (good.step steps).1⟩
  exact kept.reached reaches

/-! ### What every run keeps -/

def twoInCycle : List Event :=
  [.add 0 .shape [] [] [], .dup 0, .add 1 .jsObject [0] [] [], .add 2 .jsObject [0] [1] [], .dup 1,
    .move 1 [0] [2] [] [1]]

theorem cycle_reached :
    ∃ s, machine.Reaches (fun _ _ => True) s ∧ s.held = [1] ∧ (s.rt.heap 2).isSome = true := by
  have runs : ((machine.run (fun _ _ => True) machine.init twoInCycle).map fun s =>
      (s.held, (s.rt.heap 2).isSome)) = some ([1], true) := by decide +kernel
  obtain ⟨s, run, same⟩ := Option.map_eq_some_iff.mp runs
  rw [Prod.mk.injEq] at same
  exact ⟨s, Machine.Reaches.run twoInCycle .init run, same⟩

/-- The cycle is let go and collected, and its addresses are used again by objects of which one is
freed. -/
def recycled : List Event :=
  twoInCycle ++ [.free 1, .runGC, .add 0 .shape [] [] [], .dup 0, .add 1 .jsObject [0] [] [],
    .free 1, .add 1 .jsObject [0] [] []]

theorem recycled_reached :
    ∃ s, machine.Reaches (fun _ _ => True) s ∧ s.held = [1] ∧ s.created = [1, 2, 1, 1] ∧
    s.rt.finalized = [1, 2, 1] ∧ s.rt.heap 1 = some ⟨.jsObject, 1, false, false, [0], [], []⟩ ∧
    s.rt.heap 2 = none := by
  have runs : ((machine.run (fun _ _ => True) machine.init recycled).map fun s =>
      (s.held, s.created, s.rt.finalized, s.rt.heap 1, s.rt.heap 2)) =
      some ([1], [1, 2, 1, 1], [1, 2, 1], some ⟨.jsObject, 1, false, false, [0], [], []⟩,
        none) := by decide +kernel
  obtain ⟨s, run, same⟩ := Option.map_eq_some_iff.mp runs
  simp only [Prod.mk.injEq] at same
  exact ⟨s, Machine.Reaches.run recycled .init run, same⟩

/-- A function of the engine that is called with what its caller holds fails no assertion, uses
nothing that was freed and ends, in whatever order there were calls before. -/
theorem calls_return (reaches : machine.Reaches (fun _ _ => True) s)
    (admissible : s.admissible e = true) : ∃ rt, (State.call e).run s.rt = (.ok (), rt) := by
  obtain ⟨rt, runs, -⟩ := (reached_good reaches).steps admissible
  exact ⟨rt, runs⟩

theorem calls_return_cycle : ∃ s, machine.Reaches (fun _ _ => True) s ∧ s.held = [1] ∧
    ∃ rt, (State.call (.free 1)).run s.rt = (.ok (), rt) := by
  obtain ⟨s, reaches, held, -⟩ := cycle_reached
  refine ⟨s, reaches, held, calls_return reaches ?_⟩
  show s.held.contains 1 = true
  rw [held]
  rfl

/-- The count of an object is the number of references to it, from objects and from outside. There
is one at least, and none to anything that was freed. -/
theorem counts_exact (reaches : machine.Reaches (fun _ _ => True) s) :
    (∀ p o, s.rt.heap p = some o → o.refCount = s.rt.graph.refs s.held p ∧ 0 < o.refCount ∧
      ∀ q ∈ o.children, (s.rt.heap q).isSome = true) ∧
    ∀ q ∈ s.held, (s.rt.heap q).isSome = true := by
  have good := reached_good reaches
  refine ⟨fun p o found =>
    ⟨good.valid.counts p o found, good.settled.positive good.valid found, fun q kid => ?_⟩,
    fun q root => ?_⟩
  · exact Option.isSome_iff_exists.mpr (good.valid.kid found kid)
  · exact Option.isSome_iff_exists.mpr (good.valid.root root)

theorem counts_exact_recycled :
    ∃ s, machine.Reaches (fun _ _ => True) s ∧ s.held = [1] ∧ s.rt.finalized = [1, 2, 1] ∧
      s.rt.graph.refs s.held 1 = 1 ∧ (s.rt.heap 0).isSome = true ∧
      ∀ q ∈ s.held, (s.rt.heap q).isSome = true := by
  obtain ⟨s, reaches, held, -, finalized, one, -⟩ := recycled_reached
  obtain ⟨counts, roots⟩ := counts_exact reaches
  obtain ⟨count, -, kids⟩ := counts 1 _ one
  have shape : (s.rt.heap 0).isSome = true := kids 0 (by decide)
  have single : ((s.rt.graph.refs s.held 1 : Nat) : Int) = 1 := count.symm
  exact ⟨s, reaches, held, finalized, by exact_mod_cast single, shape, roots⟩

/-- A collection leaves what can be reached from outside, as it was up to counts and marks, and
nothing else. -/
theorem collection_exact (reaches : machine.Reaches (fun _ _ => True) s)
    (steps : step s .runGC = some s') :
    (∀ p, (s'.rt.heap p).isSome = true ↔ s.rt.graph.Reach s.held p) ∧
    ∀ p o', s'.rt.heap p = some o' → ∃ o, s.rt.heap p = some o ∧ Same o o' := by
  have good := reached_good reaches
  obtain ⟨-, rt, runs, rfl⟩ := good.step steps
  have collected := (jsRunGC_collects good.valid good.settled good.garbage).returned rfl runs
  refine ⟨fun p => ⟨fun there => ?_, fun reach => ?_⟩, fun p o' found => ?_⟩
  · obtain ⟨o, found⟩ := Option.isSome_iff_exists.mp there
    exact collected.reached p o found
  · obtain ⟨-, o', -, found, -⟩ := collected.kept p reach
    exact Option.isSome_iff_exists.mpr ⟨o', found⟩
  · obtain ⟨o, o₁, found₀, found₁, same⟩ := collected.kept p (collected.reached p o' found)
    rw [show rt.heap p = some o' from found] at found₁
    obtain rfl := Option.some.inj found₁
    exact ⟨o, found₀, same⟩

theorem collection_exact_cycle :
    ∃ s s', machine.Reaches (fun _ _ => True) s ∧ s.held = [1] ∧ step s .runGC = some s' ∧
    ((s'.rt.heap 2).isSome = true ↔ s.rt.graph.Reach s.held 2) := by
  obtain ⟨s, reaches, held, -⟩ := cycle_reached
  obtain ⟨rt, -, steps⟩ := (reached_good reaches).steps (e := .runGC) rfl
  exact ⟨s, _, reaches, held, steps, (collection_exact reaches steps).1 2⟩

/-- A reference that is given up takes nothing away that can still be reached, and what it leaves
are at most cycles: if the references go downwards, everything else is freed at once. -/
theorem free_exact (reaches : machine.Reaches (fun _ _ => True) s)
    (steps : step s (.free q) = some s') :
    (∀ p, s.rt.graph.Reach s'.held p → ∃ o o', s.rt.heap p = some o ∧ s'.rt.heap p = some o' ∧
      Same o o') ∧
    ∀ rank : Nat → Nat, (∀ p, ∀ c ∈ s'.rt.kids p, rank c < rank p) →
      ∀ p, (s'.rt.heap p).isSome = true ↔ s'.rt.graph.Reach s'.held p := by
  have good := reached_good reaches
  obtain ⟨good', rt, runs, rfl⟩ := good.step steps
  have admissible : q ∈ s.held := by
    unfold step at steps
    by_cases holds : s.admissible (.free q) = true
    · exact List.contains_iff_mem.mp holds
    · rw [if_neg holds] at steps
      cases steps
  have held : s.held.Perm (q :: s.held.erase q) := List.perm_cons_erase admissible
  have ends := (freeReference_ends (good.valid.reordered held) good.settled).returned rfl runs
  refine ⟨fun p reach => ?_, fun rank lower p => ⟨fun there => ?_, fun reach => ?_⟩⟩
  · have kept : p ∈ rt.graph.nodes ∧ rt.graph.Reach (s.held.erase q) p := by
      refine reach.kept (fun p _ node => ?_) fun p referred =>
        (ends.valid.alive p).mpr (ends.valid.inside p referred)
      obtain ⟨o', found⟩ := (ends.valid.alive p).mp node
      obtain ⟨o, found₀, -, -, parts⟩ := ends.shrinks.object p o' found
      show rt.kids p = s.rt.kids p
      rw [kids_of_heap found, kids_of_heap found₀, children_of_parts parts]
    obtain ⟨o', found⟩ := (ends.valid.alive p).mp kept.1
    obtain ⟨o, found₀, type, live, parts⟩ := ends.shrinks.object p o' found
    exact ⟨o, o', found₀, found, type, live, parts⟩
  · refine Graph.Reach.of_rank lower (fun p node => ?_)
      ((ends.valid.alive p).mpr (Option.isSome_iff_exists.mp there))
    obtain ⟨o, found⟩ := (ends.valid.alive p).mp node
    have positive := good'.settled.positive good'.valid found
    rw [ends.valid.counts p o found] at positive
    exact_mod_cast positive
  · refine Option.isSome_iff_exists.mpr ?_
    cases reach with
    | root root => exact ends.valid.root root
    | @step r _ _ kid =>
      cases found : rt.heap r with
      | none =>
        rw [show rt.graph.kids r = [] from kids_free found] at kid
        exact absurd kid List.not_mem_nil
      | some o =>
        rw [show rt.graph.kids r = o.children from kids_of_heap found] at kid
        exact ends.valid.kid found kid

/-- An object that refers to another one of its shape, until it is given up. -/
def chain : List Event :=
  [.add 0 .shape [] [] [], .dup 0, .add 1 .jsObject [0] [] [], .dup 1, .add 2 .jsObject [0] [1] []]

theorem free_exact_chain :
    ∃ s s', machine.Reaches (fun _ _ => True) s ∧ step s (.free 2) = some s' ∧
    ∀ p, (s'.rt.heap p).isSome = true ↔ s'.rt.graph.Reach s'.held p := by
  have runs : (machine.run (fun _ _ => True) machine.init chain).bind
      (fun s => (step s (.free 2)).map fun s' =>
      (s'.rt.listed, s'.rt.kids 0, s'.rt.kids 1)) = some ([0, 1], [], [0]) := by decide +kernel
  obtain ⟨s, run, ends⟩ := Option.bind_eq_some_iff.mp runs
  obtain ⟨s', steps, same⟩ := Option.map_eq_some_iff.mp ends
  rw [Prod.mk.injEq, Prod.mk.injEq] at same
  obtain ⟨listed, zero, one⟩ := same
  have reaches : machine.Reaches (fun _ _ => True) s := Machine.Reaches.run chain .init run
  have good := reached_good (reaches.step trivial steps)
  refine ⟨s, s', reaches, steps, (free_exact reaches steps).2 id fun p c kid => ?_⟩
  have member : p ∈ s'.rt.listed := by
    refine (good.valid.alive p).mpr ?_
    cases found : s'.rt.heap p with
    | none =>
      rw [kids_free found] at kid
      exact absurd kid List.not_mem_nil
    | some o => exact ⟨o, rfl⟩
  rw [listed] at member
  rcases List.mem_cons.mp member with rfl | member
  · rw [zero] at kid
    exact absurd kid List.not_mem_nil
  · obtain rfl := List.mem_singleton.mp member
    rw [one] at kid
    obtain rfl := List.mem_singleton.mp kid
    exact Nat.zero_lt_one

/-- What `free_gc_object` takes it took as often as it was made, but for what is still there: no
object is finalized twice, and none goes without. -/
theorem finalized_once (reaches : machine.Reaches (fun _ _ => True) s) (p : Nat) :
    s.rt.finalized.count p + ((s.rt.heap p).elim 0 fun o => if o.gcObjType.isMain then 1 else 0) =
      s.created.count p := by
  have good := reached_good reaches
  rw [← good.once p]
  congr 1
  cases found : s.rt.heap p with
  | none =>
    unfold standing
    rw [found]
    rfl
  | some o => exact (standing_of_unmarked found (good.unmarked found).2).symm

theorem finalized_once_recycled : ∃ s, machine.Reaches (fun _ _ => True) s ∧ s.held = [1] ∧
    s.created = [1, 2, 1, 1] ∧ (s.rt.heap 1).isSome = true ∧ s.rt.finalized.count 1 = 2 ∧
    s.rt.heap 2 = none ∧ s.rt.finalized.count 2 = 1 := by
  obtain ⟨s, reaches, held, created, -, one, two⟩ := recycled_reached
  have again := finalized_once reaches 1
  have once := finalized_once reaches 2
  rw [one, created] at again
  rw [two, created] at once
  refine ⟨s, reaches, held, created, by rw [one]; rfl, ?_, two, once⟩
  exact Nat.succ.inj again

end QuickJSBun.Engine.Garbage
