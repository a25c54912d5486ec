import QuickJSBun.Engine.GarbageTraced
import QuickJSBun.Engine.GarbageZeroed

/-! `gc_free_cycles` and the whole collection: what cannot be reached from outside is freed, each object once, and
what can be reached is as it was.
-/

set_option autoImplicit false

namespace QuickJSBun.Engine.Garbage

open QuickJSBun.Library

variable {rt₀ rt rt' : JSRuntime} {outside : List Nat} {p q : Nat} {o o' : JSGCObject}

-- The same object, up to its count.
structure Same (o o' : JSGCObject) : Prop where
  type : o'.gcObjType = o.gcObjType
  live : o'.freeMark = o.freeMark
  parts : ∀ part, o'.part part = o.part part

/-- While cycles are removed: what can be reached is on the list of objects and as it was, and what
was freed and is still referred to waits at the end of the list of zero counts. -/
structure Cycles (rt₀ : JSRuntime) (outside : List Nat) (rt : JSRuntime) : Prop where
  valid : rt.Valid outside
  settled : Settled .removeCycles [] rt
  kept : ∀ q, rt₀.graph.Reach outside q →
    q ∈ rt.gcObjList ∧ ∃ o o', rt₀.heap q = some o ∧ rt.heap q = some o' ∧ Same o o'
  reached : ∀ q ∈ rt.gcObjList, rt₀.graph.Reach outside q
  freed : ∀ q ∈ rt.gcZeroRefCountList, ∀ o, rt.heap q = some o → o.gcObjType.isMain = true →
    o.children = [] ∧ o.freeMark = true
  once : ∀ p, rt.finalized.count p + standing rt p = rt₀.finalized.count p + standing rt₀ p

theorem Cycles.apart (cycles : Cycles rt₀ outside rt)
    (member : p ∈ rt.gcZeroRefCountList ∨ p ∈ rt.tmpObjList) : ¬rt₀.graph.Reach outside p := by
  intro reach
  have other : p ∈ rt.gcZeroRefCountList ++ rt.tmpObjList := List.mem_append.mpr member
  exact (List.nodup_append.mp cycles.valid.nodup).2.2 p (cycles.kept p reach).1 p other rfl

-- The graph that is left has what could be reached.
theorem Cycles.survives (cycles : Cycles rt₀ outside rt) (valid' : rt'.Valid outside)
    (same : ∀ q o', rt₀.graph.Reach outside q → rt'.heap q = some o' →
      ∃ o, rt.heap q = some o ∧ Same o o')
    (listed : ∀ q ∈ rt'.gcZeroRefCountList ++ rt'.tmpObjList, ¬rt₀.graph.Reach outside q)
    (reach : rt₀.graph.Reach outside q) :
    q ∈ rt'.gcObjList ∧ ∃ o o', rt₀.heap q = some o ∧ rt'.heap q = some o' ∧ Same o o' := by
  have whole : ∀ q o', rt₀.graph.Reach outside q → rt'.heap q = some o' →
      ∃ o, rt₀.heap q = some o ∧ Same o o' := by
    intro q o' reach found
    obtain ⟨o₁, found₁, same₁⟩ := same q o' reach found
    obtain ⟨-, o, o₂, found₀, found₂, same₀⟩ := cycles.kept q reach
    rw [found₁] at found₂
    obtain rfl := Option.some.inj found₂
    exact ⟨o, found₀, same₁.type.trans same₀.type, same₁.live.trans same₀.live, fun part =>
      (same₁.parts part).trans (same₀.parts part)⟩
  have alive : q ∈ rt'.graph.nodes ∧ rt'.graph.Reach outside q := by
    refine reach.kept (fun p reach node => ?_) fun p referred =>
      (valid'.alive p).mpr (valid'.inside p referred)
    obtain ⟨o', found⟩ := (valid'.alive p).mp node
    obtain ⟨o, found₀, same⟩ := whole p o' reach found
    show rt'.kids p = rt₀.kids p
    rw [kids_of_heap found, kids_of_heap found₀, children_of_parts same.parts]
  obtain ⟨o', found⟩ := (valid'.alive q).mp alive.1
  obtain ⟨o, found₀, same⟩ := whole q o' reach found
  exact ⟨(List.mem_append.mp alive.1).resolve_right fun other => listed q other reach, o, o',
    found₀, found, same⟩

-- An object of the other types is left for those who free it.
theorem Cycles.left (cycles : Cycles rt₀ outside rt) (member : p ∈ rt.tmpObjList)
    (found : rt.heap p = some o) (aux : o.gcObjType.isMain = false) :
    Cycles rt₀ outside (rt.toKept p) := by
  have valid' := cycles.valid.kept found
  have settled' : Settled .removeCycles [] (rt.toKept p) :=
    cycles.settled.kept cycles.valid (fun _ never => never)
    (fun _ never _ => absurd never List.not_mem_nil) fun _ never => absurd never List.not_mem_nil
  have zeroes : ∀ q ∈ (rt.toKept p).gcZeroRefCountList, q ∈ rt.gcZeroRefCountList ∨ q = p := by
    intro q listed
    rcases List.mem_append.mp listed with before | last
    · exact .inl ((mem_zero_unlist cycles.valid).mp before).1
    · exact .inr (List.mem_singleton.mp last)
  refine ⟨valid', settled', fun q reach => ?_, fun q listed =>
    cycles.reached q (mem_gcObjList_unlist cycles.valid listed).1,
    fun q listed o' at_ main => ?_, cycles.once⟩
  · refine cycles.survives valid' (fun q o' _ at_ => ⟨o', at_, rfl, rfl, fun _ => rfl⟩)
      (fun q listed => ?_) reach
    rcases List.mem_append.mp listed with zero | garbage
    · rcases zeroes q zero with before | rfl
      · exact cycles.apart (.inl before)
      · exact cycles.apart (.inr member)
    · exact cycles.apart (.inr (mem_tmpObjList_unlist cycles.valid garbage).1)
  · rcases zeroes q listed with before | rfl
    · exact cycles.freed q before o' at_ main
    · rw [show rt.heap q = some o' from at_] at found
      obtain rfl := Option.some.inj found
      rw [aux] at main
      cases main

theorem Cycles.lost (cycles : Cycles rt₀ outside rt) (member : p ∈ rt.tmpObjList)
    (valid' : rt'.Valid outside) (settled' : Settled .removeCycles [] rt')
    (loses : Loses .removeCycles p rt rt') : Cycles rt₀ outside rt' := by
  have unlike : ∀ q, rt₀.graph.Reach outside q → q ≠ p := by
    rintro q reach rfl
    exact cycles.apart (.inr member) reach
  refine ⟨valid', settled', fun q reach => ?_, fun q listed =>
    cycles.reached q (loses.listed q listed).1,
    fun q listed o' at_ main => ?_, fun q => (loses.once q).trans (cycles.once q)⟩
  · refine cycles.survives valid' (fun q o' reach at_ => ?_) (fun q listed => ?_) reach
    · obtain ⟨o, before, type, live, parts⟩ := loses.object q o' (unlike q reach) at_
      exact ⟨o, before, type, live, parts⟩
    · rcases List.mem_append.mp listed with zero | garbage
      · rcases loses.zeroes rfl q zero with before | rfl
        · exact cycles.apart (.inl before)
        · exact cycles.apart (.inr member)
      · exact cycles.apart (.inr (loses.garbage q garbage).1)
  · by_cases same : q = p
    · subst same
      rcases loses.itself with gone | ⟨-, -, o₁, found, zombie⟩
      · rw [gone] at at_
        cases at_
      · rw [at_] at found
        obtain rfl := Option.some.inj found
        exact zombie
    · obtain ⟨o, before, type, live, parts⟩ := loses.object q o' same at_
      have zero := (loses.zeroes rfl q listed).resolve_right same
      rw [children_of_parts parts, live]
      exact cycles.freed q zero o before (type ▸ main)

theorem gcFreeCyclesFrom_ends {fuel : Nat} (cycles : Cycles rt₀ outside rt)
    (enough : rt.tmpObjList.length < fuel) :
    Effect.Triple (· = rt) (gcFreeCyclesFrom fuel)
      (fun _ rt' => Cycles rt₀ outside rt' ∧ rt'.tmpObjList = [])
      fun _ _ => False := by
  induction fuel generalizing rt with
  | zero => omega
  | succ fuel ih =>
    unfold gcFreeCyclesFrom
    refine Effect.Triple.get_bind ?_
    have once : rt.tmpObjList.Nodup :=
      (List.nodup_append.mp (List.nodup_append.mp cycles.valid.nodup).2.1).2.1
    cases garbage : rt.tmpObjList with
    | nil =>
      refine Effect.Triple.pure () ?_
      rintro _ rfl
      exact ⟨cycles, garbage⟩
    | cons p rest =>
      have member : p ∈ rt.tmpObjList := by rw [garbage]; exact List.mem_cons_self
      obtain ⟨o, found⟩ :=
        (cycles.valid.alive p).mp (List.mem_append_right _ (List.mem_append_right _ member))
      have less : ∀ rt' : JSRuntime, (∀ q ∈ rt'.tmpObjList, q ∈ rt.tmpObjList ∧ q ≠ p) →
          rt'.listed.Nodup → rt'.tmpObjList.length < fuel := by
        intro rt' fewer nodup
        have once' : rt'.tmpObjList.Nodup :=
          (List.nodup_append.mp (List.nodup_append.mp nodup).2.1).2.1
        have inside : rt'.tmpObjList ⊆ rt.tmpObjList.erase p := fun q listed =>
          once.mem_erase_iff.mpr (fewer q listed).symm
        have most := (List.subperm_of_subset once' inside).length_le
        rw [List.length_erase_of_mem member] at most
        have := List.length_pos_of_mem member
        omega
      have round : Effect.Triple (· = rt) (gcFreeCyclesObject p)
          (fun _ rt' => Cycles rt₀ outside rt' ∧ rt'.tmpObjList.length < fuel) fun _ _ =>
            False := by
        unfold gcFreeCyclesObject
        refine load_bind found (Effect.Triple.ite (fun main => ?_) fun aux => ?_)
        · -- it has not been freed before, since it would not be on this list any more
          have unmarked : o.freeMark = false := by
            rw [← Bool.not_eq_true]
            intro marked
            rcases cycles.settled.live p o found marked with busy | ⟨-, zero⟩
            · exact List.not_mem_nil busy
            · have apart := (List.nodup_append.mp (List.nodup_append.mp cycles.valid.nodup).2.1).2.2
              exact apart p zero p member rfl
          refine (freeGcObject_loses JSGCPhase.noConfusion cycles.valid cycles.settled found main
            unmarked List.not_mem_nil (.inl rfl)).weaken (fun _ same => same)
              (fun _ rt' ends => ?_) fun _ _ never => never
          obtain ⟨valid', settled', loses⟩ := ends
          exact ⟨cycles.lost member valid' settled' loses, less rt' loses.garbage valid'.nodup⟩
        · refine Effect.Triple.modify_bind (Effect.Triple.modify ?_)
          rintro _ rfl
          have left := cycles.left member found (Bool.eq_false_iff.mpr aux)
          exact ⟨left, less (rt.toKept p)
            (fun q listed => mem_tmpObjList_unlist cycles.valid listed) left.valid.nodup⟩
      refine Effect.Triple.bind round fun _ => Effect.Triple.each fun rt' ends => ih ends.1 ends.2

-- The types of which an object of the other types may have another one.
theorem admits_aux {t u : JSGCObjectType} {part : Part} (fits : admits t part u = true)
    (aux : t.isMain = false) (aux' : u.isMain = false) : t = .jsContext ∧ u = .shape := by
  revert fits aux aux'
  cases t <;> cases u <;> cases part <;> decide

-- Whoever refers to an object on the list of zero counts is of the other types and on it as well.
theorem Cycles.referrer (cycles : Cycles rt₀ outside rt) (empty : rt.tmpObjList = [])
    (member : p ∈ rt.gcZeroRefCountList) (referred : 0 < rt.graph.refs outside p) :
    ∃ r o, r ∈ rt.gcZeroRefCountList ∧ rt.heap r = some o ∧ o.gcObjType.isMain = false ∧
    p ∈ o.children := by
  have unreached := cycles.apart (.inl member)
  rcases Graph.refs_pos.mp referred with ⟨r, node, kid⟩ | root
  · obtain ⟨o, found⟩ := (cycles.valid.alive r).mp node
    have kid' : p ∈ o.children := by
      rwa [show rt.graph.kids r = o.children from kids_of_heap found] at kid
    rcases List.mem_append.mp node with listed | others
    · -- what can be reached refers to what can be reached only
      have reach := cycles.reached r listed
      obtain ⟨-, o₀, o', found₀, found', same⟩ := cycles.kept r reach
      rw [found] at found'
      obtain rfl := Option.some.inj found'
      refine absurd (reach.step ?_) unreached
      rwa [show rt₀.graph.kids r = o₀.children from kids_of_heap found₀,
        ← children_of_parts same.parts]
    · rw [empty, List.append_nil] at others
      refine ⟨r, o, others, found, ?_, kid'⟩
      rw [← Bool.not_eq_true]
      intro main
      rw [(cycles.freed r others o found main).1] at kid'
      exact List.not_mem_nil kid'
  · exact absurd (.root root) unreached

-- Only what went through `free_gc_object` is left on the list of zero counts in the end.
theorem Cycles.mains (cycles : Cycles rt₀ outside rt) (empty : rt.tmpObjList = [])
    (member : p ∈ rt.gcZeroRefCountList) (found : rt.heap p = some o) :
    o.gcObjType.isMain = true := by
  have used : ∀ {q o}, rt.heap q = some o → o.gcObjType.isMain = false →
      0 < rt.graph.refs outside q := by
    intro q o found aux
    have positive := cycles.settled.used q o found aux List.not_mem_nil
    rw [cycles.valid.counts q o found] at positive
    exact_mod_cast positive
  by_contra other
  have aux := Bool.eq_false_iff.mpr other
  -- a shape is referred to by a context, and that by nothing of its kind
  obtain ⟨r, o₁, member₁, found₁, aux₁, kid₁⟩ := cycles.referrer empty member (used found aux)
  obtain ⟨part, in_part⟩ := part_of_mem kid₁
  obtain ⟨context, -⟩ := admits_aux (cycles.valid.typed r o₁ found₁ part p in_part o found) aux₁ aux
  obtain ⟨r', o₂, -, found₂, aux₂, kid₂⟩ := cycles.referrer empty member₁ (used found₁ aux₁)
  obtain ⟨part', in_part'⟩ := part_of_mem kid₂
  obtain ⟨-, shape⟩ :=
    admits_aux (cycles.valid.typed r' o₂ found₂ part' r in_part' o₁ found₁) aux₂ aux₁
  rw [context] at shape
  cases shape

theorem freeKept_all {todo : List Nat} (once : todo.Nodup)
    (objects : ∀ p ∈ todo, ∃ o, rt.heap p = some o ∧ o.gcObjType.isMain = true) :
    Effect.Triple (· = rt) (Effect.forEach freeKept todo)
      (fun _ rt' => rt' = { rt with heap := fun p => if p ∈ todo then none else rt.heap p })
        fun _ _ => False := by
  induction todo generalizing rt with
  | nil =>
    refine Effect.Triple.pure () ?_
    rintro _ rfl
    rfl
  | cons p rest ih =>
    obtain ⟨o, found, main⟩ := objects p List.mem_cons_self
    obtain ⟨new, once'⟩ := List.nodup_cons.mp once
    have round : Effect.Triple (· = rt) (freeKept p) (fun _ rt' => rt' = rt.free p) fun _ _ =>
        False := by
      unfold freeKept
      refine load_bind found
        (Effect.Triple.bind (Q := fun _ rt' => rt' = rt) (Effect.Triple.check (fun _ same _ => same)
        fun _ _ wrong => ?_) fun _ => Effect.Triple.modify ?_)
      · rw [main] at wrong
        cases wrong
      · rintro _ rfl
        rfl
    refine Effect.Triple.bind round fun _ => Effect.Triple.each fun rt' freed => ?_
    subst freed
    refine (ih once' fun q member => ?_).weaken (fun _ same => same) (fun _ rt'' ends => ?_)
      fun _ _ never => never
    · have other : q ≠ p := fun same => new (same ▸ member)
      obtain ⟨o', found', main'⟩ := objects q (List.mem_cons_of_mem _ member)
      exact ⟨o', (free_of_ne other).trans found', main'⟩
    · rw [ends]
      unfold JSRuntime.free
      congr 1
      funext q
      show (if q ∈ rest then none else Function.update rt.heap p none q) = _
      by_cases same : q = p
      · subst same
        rw [Function.update_self, if_pos List.mem_cons_self, if_neg new]
      · rw [Function.update_of_ne same]
        simp only [List.mem_cons, same, false_or]

structure Collected (rt₀ : JSRuntime) (outside : List Nat) (rt : JSRuntime) : Prop where
  valid : rt.Valid outside
  settled : Settled .none [] rt
  garbage : rt.tmpObjList = []
  kept : ∀ q, rt₀.graph.Reach outside q → ∃ o o', rt₀.heap q = some o ∧
    rt.heap q = some o' ∧ Same o o'
  reached : ∀ q o, rt.heap q = some o → rt₀.graph.Reach outside q
  once : ∀ p, rt.finalized.count p + standing rt p = rt₀.finalized.count p + standing rt₀ p

theorem Cycles.collected (cycles : Cycles rt₀ outside rt) (empty : rt.tmpObjList = []) :
    Collected rt₀ outside { rt.inPhase .none with
      heap := fun p => if p ∈ rt.gcZeroRefCountList then none else rt.heap p
      gcZeroRefCountList := [] } := by
  obtain ⟨gcOnce, -, apart⟩ := List.nodup_append.mp cycles.valid.nodup
  have listed : ∀ p, p ∈ rt.gcObjList → p ∉ rt.gcZeroRefCountList := fun p member other =>
    apart p member p (List.mem_append_left _ other) rfl
  have before : ∀ p o, (if p ∈ rt.gcZeroRefCountList then none else rt.heap p) = some o →
      p ∈ rt.gcObjList ∧ rt.heap p = some o := by
    intro p o at_
    by_cases zero : p ∈ rt.gcZeroRefCountList
    · rw [if_pos zero] at at_
      cases at_
    · rw [if_neg zero] at at_
      have member := (cycles.valid.alive p).mpr ⟨o, at_⟩
      unfold JSRuntime.listed at member
      rw [empty, List.append_nil, List.mem_append, or_iff_left zero] at member
      exact ⟨member, at_⟩
  have after : ∀ p, p ∈ rt.gcObjList →
      (if p ∈ rt.gcZeroRefCountList then none else rt.heap p) = rt.heap p := fun p member =>
    if_neg (listed p member)
  have unreferred : ∀ p ∈ rt.gcZeroRefCountList, ¬0 < rt.graph.refs outside p := by
    intro p member referred
    obtain ⟨r, o, member', found, aux, -⟩ := cycles.referrer empty member referred
    rw [cycles.mains empty member' found] at aux
    cases aux
  generalize collected : ({ rt.inPhase .none with
      heap := fun p => if p ∈ rt.gcZeroRefCountList then none else rt.heap p
      gcZeroRefCountList := [] } : JSRuntime) = rt'
  have heap : ∀ p, rt'.heap p = if p ∈ rt.gcZeroRefCountList then none else rt.heap p :=
    fun p => by rw [← collected]
  have lists : rt'.listed = rt.gcObjList := by
    rw [← collected]
    show rt.gcObjList ++ ([] ++ rt.tmpObjList) = _
    rw [empty, List.append_nil, List.append_nil]
  have kids : ∀ p ∈ rt.gcObjList, rt'.kids p = rt.kids p := by
    intro p member
    unfold JSRuntime.kids
    rw [heap, after p member]
  -- what goes has no references any more
  have refs : ∀ p, rt'.graph.refs outside p = rt.graph.refs outside p := by
    intro p
    refine Graph.refs_of_perm (List.Perm.of_eq ?_)
    show rt'.listed.flatMap rt'.kids ++ outside = rt.listed.flatMap rt.kids ++ outside
    have none : rt.gcZeroRefCountList.flatMap rt.kids = [] := by
      refine List.flatMap_eq_nil_iff.mpr fun q member => ?_
      obtain ⟨o, found⟩ :=
        (cycles.valid.alive q).mp (List.mem_append_right _ (List.mem_append_left _ member))
      rw [kids_of_heap found]
      exact (cycles.freed q member o found (cycles.mains empty member found)).1
    rw [lists, List.flatMap_congr kids]
    unfold JSRuntime.listed
    rw [empty, List.append_nil, List.flatMap_append, none, List.append_nil]
  have valid : rt'.Valid outside := by
    refine ⟨by rwa [lists], fun p => ?_, fun p o at_ => ?_, fun p referred =>
      ?_, fun p o at_ part c member child at_child => ?_⟩
    · rw [lists, heap]
      refine ⟨fun member => ?_, fun there => (before p _ there.choose_spec).1⟩
      rw [after p member]
      exact (cycles.valid.alive p).mp (List.mem_append_left _ member)
    · rw [heap] at at_
      rw [refs]
      exact cycles.valid.counts p o (before p o at_).2
    · rw [refs] at referred
      have survives : p ∉ rt.gcZeroRefCountList := fun member => unreferred p member referred
      rw [heap, if_neg survives]
      exact cycles.valid.inside p referred
    · rw [heap] at at_ at_child
      exact cycles.valid.typed p o (before p o at_).2 part c member child
        (before c child at_child).2
  have positive : ∀ p ∈ rt.gcObjList, 0 < rt.graph.refs outside p := by
    intro p member
    have reach := cycles.reached p member
    cases reach with
    | root root => exact Graph.refs_root root
    | @step r _ reach kid =>
      obtain ⟨inList, o, o', found₀, found, same⟩ := cycles.kept r reach
      refine Graph.refs_kid (List.mem_append_left _ inList) ?_
      show p ∈ rt.kids r
      rw [show rt₀.graph.kids r = o.children from kids_of_heap found₀] at kid
      rwa [kids_of_heap found, children_of_parts same.parts]
  have standing' : ∀ p, standing rt' p = standing rt p := by
    intro p
    by_cases zero : p ∈ rt.gcZeroRefCountList
    · obtain ⟨o, found⟩ :=
        (cycles.valid.alive p).mp (List.mem_append_right _ (List.mem_append_left _ zero))
      have marked := (cycles.freed p zero o found (cycles.mains empty zero found)).2
      rw [standing_of_heap found, if_neg fun both =>
        Bool.true_eq_false.mp (marked.symm.trans both.2)]
      unfold standing
      rw [heap, if_pos zero]
    · exact standing_congr (by rw [heap, if_neg zero])
  subst collected
  refine ⟨valid,
    ⟨rfl, fun _ never => absurd never List.not_mem_nil, fun p o at_ aux idle => ?_, fun _ p o at_ =>
      ?_, fun _ => rfl,
    fun p member o at_ => ?_, fun p o at_ marked => ?_⟩, empty, fun q reach => ?_, fun q o at_ =>
      ?_, fun p => ?_⟩
  · exact cycles.settled.used p o (before p o at_).2 aux idle
  · obtain ⟨member, found⟩ := before p o at_
    refine iff_of_false List.not_mem_nil fun both => ?_
    have count := cycles.valid.counts p o found
    have := positive p member
    have := both.2
    omega
  · exact cycles.settled.unmarked p member o (before p o at_).2
  · obtain ⟨member, found⟩ := before p o at_
    rcases cycles.settled.live p o found marked with busy | ⟨-, zero⟩
    · exact .inl busy
    · exact absurd zero (listed p member)
  · obtain ⟨member, o, o', found₀, found, same⟩ := cycles.kept q reach
    exact ⟨o, o', found₀, (after q member).trans found, same⟩
  · exact cycles.reached q (before q o at_).1
  · rw [standing']
    exact cycles.once p

-- Where nothing waits to be freed nothing is.
theorem freeZeroRefcount_idle (current : rt.gcPhase = .none) (empty : rt.gcZeroRefCountList = []) :
    Effect.Triple (· = rt) freeZeroRefcount (fun _ rt' => rt' = rt) fun _ _ => False := by
  unfold freeZeroRefcount
  refine Effect.Triple.modify_bind (Effect.Triple.get_bind ?_)
  have round : Effect.Triple (· = rt.inPhase .decref)
      (freeZeroRounds ((rt.inPhase .decref).listed.length + 1))
      (fun _ rt' => rt' = rt.inPhase .decref) fun _ _ => False := by
    unfold freeZeroRounds
    refine Effect.Triple.get_bind ?_
    rw [show (rt.inPhase .decref).gcZeroRefCountList = [] from empty]
    exact Effect.Triple.pure () fun _ same => same
  refine Effect.Triple.bind round fun _ => Effect.Triple.modify ?_
  rintro _ rfl
  unfold JSRuntime.inPhase
  rw [← current]

-- What `gc_scan` leaves is what `gc_free_cycles` starts from.
theorem Separated.cycles (all : AllListed rt₀ outside) (settled : Settled .none [] rt₀)
    (separated : Separated rt₀ outside rt) : Cycles rt₀ outside (rt.inPhase .removeCycles) := by
  have earlier : ∀ p o', rt.heap p = some o' → ∃ o, rt₀.heap p = some o ∧ Same o o' ∧
      o'.refCount = o.refCount := by
    intro p o' at_
    obtain ⟨mark, there, -⟩ := separated.heap p
    rw [there] at at_
    obtain ⟨o, found, rfl⟩ := Option.map_eq_some_iff.mp at_
    exact ⟨o, found, ⟨rfl, rfl, fun part => by cases part <;> rfl⟩, rfl⟩
  have lists : (rt.inPhase .removeCycles).listed.Perm rt₀.listed := by
    show (rt.gcObjList ++ (rt.gcZeroRefCountList ++ rt.tmpObjList)).Perm _
    rw [separated.divided.zero, List.nil_append, all.listed]
    exact separated.divided.lists
  have valid : (rt.inPhase .removeCycles).Valid outside := by
    refine all.valid.relisted lists fun p => ?_
    rw [show (rt.inPhase .removeCycles).heap p = rt.heap p from rfl]
    obtain ⟨mark, there, -⟩ := separated.heap p
    rw [there]
    cases found : rt₀.heap p with
    | none => exact .inl ⟨rfl, rfl⟩
    | some o => exact .inr ⟨o, _, rfl, rfl, rfl, rfl, fun part => by cases part <;> rfl⟩
  refine ⟨valid,
    ⟨rfl, fun _ never => absurd never List.not_mem_nil, fun p o' at_ aux idle =>
      ?_, fun collecting => absurd rfl collecting,
    fun top => (by cases top), fun p member o' at_ => ?_, fun p o' at_ marked => ?_⟩,
    fun q reach => ?_,
    fun q member => (separated.kept q).mp member, fun q member => ?_, fun p => ?_⟩
  · obtain ⟨o, found, same, count⟩ := earlier p o' at_
    rw [count]
    exact settled.used p o found (same.type ▸ aux) idle
  · obtain ⟨mark, there, unmarked⟩ := separated.heap p
    rw [show rt.heap p = some o' from at_] at there
    obtain ⟨o, -, rfl⟩ := Option.map_eq_some_iff.mp there.symm
    exact unmarked member
  · obtain ⟨o, found, same, -⟩ := earlier p o' at_
    exact .inl ((settled.live p o found (same.live ▸ marked)).resolve_right fun removing =>
      JSGCPhase.noConfusion removing.1)
  · have member := (separated.kept q).mpr reach
    obtain ⟨o', at_⟩ := (valid.alive q).mp (List.mem_append_left _ member)
    obtain ⟨o, found, same, -⟩ := earlier q o' at_
    exact ⟨member, o, o', found, at_, same⟩
  · rw [show (rt.inPhase .removeCycles).gcZeroRefCountList =
      [] from separated.divided.zero] at member
    exact absurd member List.not_mem_nil
  · have same : standing (rt.inPhase .removeCycles) p = standing rt₀ p := by
      obtain ⟨mark, there, -⟩ := separated.heap p
      unfold standing
      rw [show (rt.inPhase .removeCycles).heap p = rt.heap p from rfl, there]
      cases rt₀.heap p with
      | none => rfl
      | some o => rfl
    rw [same, show (rt.inPhase .removeCycles).finalized = rt₀.finalized from separated.log]

theorem gcFreeCycles_collects (cycles : Cycles rt₀ outside (rt.inPhase .removeCycles)) :
    Effect.Triple (· = rt) gcFreeCycles (fun _ => Collected rt₀ outside) fun _ _ => False := by
  unfold gcFreeCycles
  refine Effect.Triple.modify_bind (Effect.Triple.get_bind ?_)
  have enough : (rt.inPhase .removeCycles).tmpObjList.length <
      (rt.inPhase .removeCycles).listed.length + 1 := by
    unfold JSRuntime.listed
    rw [List.length_append, List.length_append]
    omega
  refine Effect.Triple.bind (gcFreeCyclesFrom_ends cycles enough) fun _ =>
    Effect.Triple.each fun rt₁ ends =>
    Effect.Triple.modify_bind (Effect.Triple.get_bind ?_)
  obtain ⟨cycles₁, empty⟩ := ends
  have once : rt₁.gcZeroRefCountList.Nodup :=
    (List.nodup_append.mp (List.nodup_append.mp cycles₁.valid.nodup).2.1).1
  have objects : ∀ p ∈ rt₁.gcZeroRefCountList, ∃ o, rt₁.heap p = some o ∧
      o.gcObjType.isMain = true := by
    intro p member
    obtain ⟨o, found⟩ :=
      (cycles₁.valid.alive p).mp (List.mem_append_right _ (List.mem_append_left _ member))
    exact ⟨o, found, cycles₁.mains empty member found⟩
  refine Effect.Triple.bind
    (@freeKept_all (rt₁.inPhase .none) rt₁.gcZeroRefCountList once objects) fun _ =>
    Effect.Triple.modify fun rt₂ freed => ?_
  subst freed
  exact cycles₁.collected empty

-- `JS_RunGC` fails nowhere, and leaves exactly what can be reached from outside.
theorem jsRunGC_collects (valid : rt₀.Valid outside) (settled : Settled .none [] rt₀)
    (garbage : rt₀.tmpObjList = []) :
    Effect.Triple (· = rt₀) jsRunGC (fun _ => Collected rt₀ outside) fun _ _ => False := by
  have all : AllListed rt₀ outside := ⟨valid, settled.idle rfl, garbage⟩
  have weak : Effect.Triple (· = rt₀) gcRemoveWeakObjects (fun _ rt' => rt' = rt₀) fun _ _ =>
      False := by
    unfold gcRemoveWeakObjects
    refine Effect.Triple.modify_bind (Effect.Triple.modify_bind ?_)
    have same : (rt₀.inPhase .decref).inPhase .none = rt₀ := by
      unfold JSRuntime.inPhase
      rw [← settled.current]
    rw [same]
    exact freeZeroRefcount_idle settled.current (settled.idle rfl)
  unfold jsRunGC
  refine Effect.Triple.bind weak fun _ =>
    Effect.Triple.bind (gcDecref_decreases all settled.unmarked) fun _ =>
    Effect.Triple.each fun rt₁ decreased => ?_
  obtain ⟨seen, whole, decreased⟩ := decreased
  exact Effect.Triple.bind (gcScan_separates all decreased whole) fun _ =>
    Effect.Triple.each fun rt₂ separated =>
    gcFreeCycles_collects (separated.cycles all settled)

end QuickJSBun.Engine.Garbage
