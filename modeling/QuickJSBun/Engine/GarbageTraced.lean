import QuickJSBun.Engine.GarbageFreed

/-! `gc_decref` and `gc_scan`: what can be reached from outside is left on the list of objects, the rest is on the
temporary list, and every count is what it was.
-/

set_option autoImplicit false

namespace QuickJSBun.Engine.Garbage

open QuickJSBun.Library

variable {rt₀ rt rt' : JSRuntime} {outside : List Nat} {p q : Nat} {o o' : JSGCObject}

-- An object with another count and another mark.
def JSGCObject.traced (o : JSGCObject) (refCount : Int) (mark : Bool) : JSGCObject :=
  { o with refCount, mark }

@[simp] theorem children_traced {n : Int} {b : Bool} : (o.traced n b).children = o.children := rfl

/-- `objects` are those that were on the list; what is not on it any more is on the temporary
one. -/
structure Divided (objects : List Nat) (rt : JSRuntime) : Prop where
  lists : (rt.gcObjList ++ rt.tmpObjList).Perm objects
  zero : rt.gcZeroRefCountList = []

-- What is on neither list is not listed, and so on.
theorem Divided.nodup {objects : List Nat} (divided : Divided objects rt) (once : objects.Nodup) :
    (rt.gcObjList ++ rt.tmpObjList).Nodup := divided.lists.nodup_iff.mpr once

def JSRuntime.toTmp (rt : JSRuntime) (p : Nat) : JSRuntime :=
  { rt.unlist p with tmpObjList := (rt.unlist p).tmpObjList ++ [p] }

def JSRuntime.toGc (rt : JSRuntime) (p : Nat) : JSRuntime :=
  { rt.unlist p with gcObjList := (rt.unlist p).gcObjList ++ [p] }

theorem unlist_of_gc {objects : List Nat} (divided : Divided objects rt) (once : objects.Nodup)
    (member : p ∈ rt.gcObjList) :
    rt.toTmp p = { rt with gcObjList := rt.gcObjList.erase p, tmpObjList := rt.tmpObjList ++ [p] } := by
  have apart := (List.nodup_append.mp (divided.nodup once)).2.2
  have absent : p ∉ rt.tmpObjList := fun again => apart p member p again rfl
  unfold JSRuntime.toTmp JSRuntime.unlist
  dsimp only
  rw [List.erase_of_not_mem absent, divided.zero]
  rfl

theorem unlist_of_tmp {objects : List Nat} (divided : Divided objects rt) (once : objects.Nodup)
    (member : p ∈ rt.tmpObjList) :
    rt.toGc p = { rt with gcObjList := rt.gcObjList ++ [p], tmpObjList := rt.tmpObjList.erase p } := by
  have apart := (List.nodup_append.mp (divided.nodup once)).2.2
  have absent : p ∉ rt.gcObjList := fun again => apart p again p member rfl
  unfold JSRuntime.toGc JSRuntime.unlist
  dsimp only
  rw [List.erase_of_not_mem absent, divided.zero]
  rfl

theorem Divided.toTmp {objects : List Nat} (divided : Divided objects rt) (once : objects.Nodup)
    (member : p ∈ rt.gcObjList) : Divided objects (rt.toTmp p) := by
  rw [unlist_of_gc divided once member]
  refine ⟨?_, divided.zero⟩
  have moved : (rt.gcObjList.erase p ++ (rt.tmpObjList ++ [p])).Perm (rt.gcObjList ++ rt.tmpObjList) := by
    rw [← List.append_assoc]
    refine List.perm_append_comm.trans ?_
    rw [List.singleton_append, ← List.cons_append]
    exact (List.perm_cons_erase member).symm.append_right _
  exact moved.trans divided.lists

theorem Divided.toGc {objects : List Nat} (divided : Divided objects rt) (once : objects.Nodup)
    (member : p ∈ rt.tmpObjList) : Divided objects (rt.toGc p) := by
  rw [unlist_of_tmp divided once member]
  refine ⟨?_, divided.zero⟩
  have moved : (rt.gcObjList ++ [p] ++ rt.tmpObjList.erase p).Perm
      (rt.gcObjList ++ rt.tmpObjList) := by
    rw [List.append_assoc, List.singleton_append]
    exact (List.perm_cons_erase member).symm.append_left _
  exact moved.trans divided.lists

theorem mem_toTmp {objects : List Nat} (divided : Divided objects rt) (once : objects.Nodup)
    (member : p ∈ rt.gcObjList) : q ∈ (rt.toTmp p).tmpObjList ↔ q ∈ rt.tmpObjList ∨ q = p := by
  rw [unlist_of_gc divided once member, List.mem_append, List.mem_singleton]

/-! ### Counting down -/

/-- The references in `given` were taken off the counts, and the objects in `done` were seen. -/
structure Decreased (rt₀ : JSRuntime) (outside done given : List Nat) (rt : JSRuntime) : Prop where
  divided : Divided rt₀.gcObjList rt
  heap : ∀ q, rt.heap q = (rt₀.heap q).map fun o =>
    o.traced (rt₀.graph.refs outside q - given.count q) (decide (q ∈ done))
  garbage : ∀ q, q ∈ rt.tmpObjList ↔ q ∈ done ∧ (rt₀.graph.refs outside q : Int) - given.count q = 0
  current : rt.gcPhase = rt₀.gcPhase
  log : rt.finalized = rt₀.finalized

/-- A runtime whose objects are all on the list of objects. -/
structure AllListed (rt₀ : JSRuntime) (outside : List Nat) : Prop where
  valid : rt₀.Valid outside
  zero : rt₀.gcZeroRefCountList = []
  garbage : rt₀.tmpObjList = []

theorem AllListed.listed (all : AllListed rt₀ outside) : rt₀.listed = rt₀.gcObjList := by
  unfold JSRuntime.listed
  rw [all.zero, all.garbage, List.append_nil, List.append_nil]

theorem AllListed.once (all : AllListed rt₀ outside) : rt₀.gcObjList.Nodup :=
  all.listed ▸ all.valid.nodup

theorem AllListed.mem_iff (all : AllListed rt₀ outside) :
    p ∈ rt₀.gcObjList ↔ ∃ o, rt₀.heap p = some o := by
  rw [← all.listed]
  exact all.valid.alive p

section
variable {done given : List Nat} (all : AllListed rt₀ outside)
include all

theorem gcDecrefChild_decreases {c : Nat} (start : Decreased rt₀ outside done given rt)
    (child : c ∈ rt₀.gcObjList) (enough : (c :: given).count c ≤ rt₀.graph.refs outside c) :
    Effect.Triple (· = rt) (gcDecrefChild c) (fun _ => Decreased rt₀ outside done (c :: given))
      fun _ _ => False := by
  obtain ⟨o, found₀⟩ := all.mem_iff.mp child
  have found := start.heap c
  rw [found₀, Option.map_some] at found
  rw [List.count_cons_self] at enough
  have positive : 0 < (rt₀.graph.refs outside c : Int) - given.count c := by omega
  unfold gcDecrefChild
  refine load_bind found
    (Effect.Triple.bind (Q := fun _ rt' => rt' = rt) (Effect.Triple.check (fun _ same _ => same)
    fun _ _ wrong => of_decide_eq_false wrong positive) fun _ => Effect.Triple.modify_bind ?_)
  have less : (rt₀.graph.refs outside c : Int) - given.count c - 1 = rt₀.graph.refs outside c -
      (c :: given).count c := by
    rw [List.count_cons_self]
    omega
  have others : ∀ q, q ≠ c → (c :: given).count q = given.count q :=
    fun q other => List.count_cons_of_ne (Ne.symm other)
  have heap : ∀ q,
      (rt.put c (o.traced ((rt₀.graph.refs outside c : Int) - given.count c - 1)
        (decide (c ∈ done)))).heap q =
      (rt₀.heap q).map fun o => o.traced (rt₀.graph.refs outside q - (c :: given).count q)
        (decide (q ∈ done)) := by
    intro q
    by_cases same : q = c
    · subst same
      rw [put_self, found₀, Option.map_some, less]
    · rw [put_of_ne same, start.heap, others q same]
  have outOf : c ∉ rt.tmpObjList := fun member => by
    have := ((start.garbage c).mp member).2
    omega
  have member : c ∈ rt.gcObjList :=
    (List.mem_append.mp (start.divided.lists.mem_iff.mpr child)).resolve_right outOf
  refine Effect.Triple.ite (fun empty => ?_) fun some => ?_
  · have empty : (rt₀.graph.refs outside c : Int) - given.count c - 1 = 0 ∧
        decide (c ∈ done) = true := empty
    refine Effect.Triple.modify_bind (Effect.Triple.modify ?_)
    rintro _ rfl
    have divided : Divided rt₀.gcObjList (rt.toTmp c) := start.divided.toTmp all.once member
    refine ⟨⟨divided.lists, divided.zero⟩, heap, fun q => ?_, start.current, start.log⟩
    refine (mem_toTmp start.divided all.once member).trans ?_
    rw [start.garbage]
    by_cases same : q = c
    · subst same
      rw [← less]
      exact iff_of_true (.inr rfl) ⟨of_decide_eq_true empty.2, empty.1⟩
    · rw [or_iff_left same, others q same]
  · have some : ¬((rt₀.graph.refs outside c : Int) - given.count c - 1 = 0 ∧
        decide (c ∈ done) = true) := some
    refine Effect.Triple.pure () ?_
    rintro _ rfl
    refine ⟨⟨start.divided.lists, start.divided.zero⟩, heap, fun q => ?_, start.current, start.log⟩
    refine (start.garbage q).trans ?_
    by_cases same : q = c
    · subst same
      rw [← less]
      refine iff_of_false (fun both => ?_) fun both => some ⟨both.2, decide_eq_true both.1⟩
      have := both.2
      omega
    · rw [others q same]

omit all in
theorem Decreased.reordered {given' : List Nat} (start : Decreased rt₀ outside done given rt)
    (same : given.Perm given') : Decreased rt₀ outside done given' rt := by
  refine ⟨start.divided, fun q => ?_, fun q => ?_, start.current, start.log⟩
  · rw [← same.count_eq]
    exact start.heap q
  · rw [← same.count_eq]
    exact start.garbage q

theorem gcDecrefChildren_decrease {cs : List Nat} (start : Decreased rt₀ outside done given rt)
    (children : ∀ c ∈ cs, c ∈ rt₀.gcObjList)
    (enough : ∀ c, (cs ++ given).count c ≤ rt₀.graph.refs outside c) :
    Effect.Triple (· = rt) (Effect.forEach gcDecrefChild cs)
      (fun _ => Decreased rt₀ outside done (cs ++ given)) fun _ _ => False := by
  induction cs generalizing given rt with
  | nil =>
    refine Effect.Triple.pure () ?_
    rintro _ rfl
    exact start
  | cons c rest ih =>
    have first : (c :: given).count c ≤ rt₀.graph.refs outside c := by
      have all := enough c
      rw [List.cons_append, List.count_cons_self, List.count_append] at all
      rw [List.count_cons_self]
      omega
    refine Effect.Triple.bind
      (gcDecrefChild_decreases all start (children c List.mem_cons_self) first) fun _ =>
      Effect.Triple.each fun rt' next => ?_
    refine (ih next (fun c' member => children c' (List.mem_cons_of_mem _ member)) fun c' =>
      ?_).weaken (fun _ same => same)
      (fun _ _ ends => ends.reordered List.perm_middle) fun _ _ never => never
    rw [List.perm_middle.count_eq]
    exact enough c'

theorem gcDecrefObject_decreases (start : Decreased rt₀ outside done given rt)
    (member : p ∈ rt₀.gcObjList) (new : p ∉ done)
    (enough : ∀ c, (rt₀.kids p ++ given).count c ≤ rt₀.graph.refs outside c) :
    Effect.Triple (· = rt) (gcDecrefObject p)
      (fun _ => Decreased rt₀ outside (p :: done) (rt₀.kids p ++ given))
      fun _ _ => False := by
  obtain ⟨o, found₀⟩ := all.mem_iff.mp member
  have found := start.heap p
  rw [found₀, Option.map_some, decide_eq_false new] at found
  have kids : rt₀.kids p = o.children := kids_of_heap found₀
  unfold gcDecrefObject
  refine load_bind found
    (Effect.Triple.bind (Q := fun _ rt' => rt' = rt) (Effect.Triple.check (fun _ same _ => same)
    fun _ _ wrong => Bool.noConfusion wrong) fun _ => ?_)
  rw [kids] at enough ⊢
  refine Effect.Triple.bind
    (gcDecrefChildren_decrease all start
      (fun c kid => all.mem_iff.mpr (all.valid.kid found₀ kid)) enough)
    fun _ => Effect.Triple.each fun rt' next => ?_
  rw [children_traced] at next
  have found' := next.heap p
  rw [found₀, Option.map_some, decide_eq_false new] at found'
  refine load_bind found' (Effect.Triple.modify_bind ?_)
  have heap : ∀ q,
      (rt'.put p (o.traced (rt₀.graph.refs outside p - (o.children ++ given).count p) true)).heap
        q =
      (rt₀.heap q).map fun o' =>
        o'.traced (rt₀.graph.refs outside q - (o.children ++ given).count q)
          (decide (q ∈ p :: done)) := by
    intro q
    by_cases same : q = p
    · subst same
      rw [put_self, found₀, Option.map_some, decide_eq_true List.mem_cons_self]
    · rw [put_of_ne same, next.heap]
      simp only [List.mem_cons, same, false_or]
  have outOf : p ∉ rt'.tmpObjList := fun again => new ((next.garbage p).mp again).1
  have listed : p ∈ rt'.gcObjList :=
    (List.mem_append.mp (next.divided.lists.mem_iff.mpr member)).resolve_right outOf
  refine Effect.Triple.ite (fun empty => ?_) fun some => ?_
  · have empty : (rt₀.graph.refs outside p : Int) - (o.children ++ given).count p = 0 := empty
    refine Effect.Triple.modify_bind (Effect.Triple.modify ?_)
    rintro _ rfl
    have divided : Divided rt₀.gcObjList (rt'.toTmp p) := next.divided.toTmp all.once listed
    refine ⟨⟨divided.lists, divided.zero⟩, heap, fun q => ?_, next.current, next.log⟩
    refine (mem_toTmp next.divided all.once listed).trans ?_
    rw [next.garbage]
    by_cases same : q = p
    · subst same
      exact iff_of_true (.inr rfl) ⟨List.mem_cons_self, empty⟩
    · simp only [List.mem_cons, same, false_or, or_false]
  · have some : ¬(rt₀.graph.refs outside p : Int) - (o.children ++ given).count p = 0 := some
    refine Effect.Triple.pure () ?_
    rintro _ rfl
    refine ⟨⟨next.divided.lists, next.divided.zero⟩, heap, fun q => ?_, next.current, next.log⟩
    refine (next.garbage q).trans ?_
    by_cases same : q = p
    · subst same
      exact iff_of_false (fun both => new both.1) fun both => some both.2
    · simp only [List.mem_cons, same, false_or]

-- The references of some of the objects are no more than there are.
theorem given_le {some rest : List Nat} (split : (some ++ rest).Perm rt₀.gcObjList) (c : Nat) :
    (some.flatMap rt₀.kids).count c ≤ rt₀.graph.refs outside c := by
  have parts := (split.flatMap_right rt₀.kids).count_eq c
  rw [List.flatMap_append, List.count_append] at parts
  rw [Graph.refs_append]
  have whole : rt₀.graph.refs [] c = (rt₀.gcObjList.flatMap rt₀.kids).count c := by
    show ((rt₀.listed.flatMap rt₀.kids) ++ []).count c = _
    rw [all.listed, List.append_nil]
  omega

theorem gcDecrefObjects_decrease {todo : List Nat}
    (start : Decreased rt₀ outside done (done.flatMap rt₀.kids) rt)
    (split : (done ++ todo).Perm rt₀.gcObjList) :
    Effect.Triple (· = rt) (Effect.forEach gcDecrefObject todo)
      (fun _ rt' => ∃ seen : List Nat, seen.Perm rt₀.gcObjList ∧
        Decreased rt₀ outside seen (seen.flatMap rt₀.kids) rt')
      fun _ _ => False := by
  induction todo generalizing done rt with
  | nil =>
    refine Effect.Triple.pure () ?_
    rintro _ rfl
    rw [List.append_nil] at split
    exact ⟨done, split, start⟩
  | cons p rest ih =>
    have nodup : (done ++ p :: rest).Nodup := split.nodup_iff.mpr all.once
    have new : p ∉ done :=
      fun again => (List.nodup_append.mp nodup).2.2 p again p List.mem_cons_self rfl
    have member : p ∈ rt₀.gcObjList := split.mem_iff.mp (List.mem_append_right _ List.mem_cons_self)
    have split' : (p :: done ++ rest).Perm rt₀.gcObjList := List.perm_middle.symm.trans split
    have enough := given_le all split'
    rw [List.flatMap_cons] at enough
    refine Effect.Triple.bind (gcDecrefObject_decreases all start member new enough) fun _ =>
      Effect.Triple.each fun rt' next => ?_
    rw [← List.flatMap_cons] at next
    exact ih next split'

theorem gcDecref_decreases
    (unmarked : ∀ p ∈ rt₀.gcObjList, ∀ o, rt₀.heap p = some o → o.mark = false) :
    Effect.Triple (· = rt₀) gcDecref
      (fun _ rt' => ∃ seen : List Nat, seen.Perm rt₀.gcObjList ∧
        Decreased rt₀ outside seen (seen.flatMap rt₀.kids) rt')
      fun _ _ => False := by
  unfold gcDecref
  refine Effect.Triple.modify_bind (Effect.Triple.get_bind ?_)
  have start : Decreased rt₀ outside []
      (List.flatMap rt₀.kids []) { rt₀ with tmpObjList := [] } := by
    refine ⟨⟨?_, all.zero⟩, fun q => ?_, fun q => ?_, rfl, rfl⟩
    · rw [List.append_nil]
    · show rt₀.heap q = _
      cases found : rt₀.heap q with
      | none => rfl
      | some o =>
        have count := all.valid.counts q o found
        have mark := unmarked q (all.mem_iff.mpr ⟨o, found⟩) o found
        rw [Option.map_some, List.flatMap_nil, List.count_nil,
          decide_eq_false List.not_mem_nil, ← count]
        show some o = some { o with refCount := o.refCount - ((0 : Nat) : Int), mark := false }
        rw [Int.natCast_zero, Int.sub_zero, ← mark]
    · exact iff_of_false List.not_mem_nil fun both => List.not_mem_nil both.1
  exact gcDecrefObjects_decrease all start (List.Perm.refl _)

end

/-! ### Counting up -/

/-- The references in `given`, which are those of the objects in `done`, were put on the counts
again. -/
structure Increased (rt₀ : JSRuntime) (outside done given : List Nat) (rt : JSRuntime) : Prop where
  divided : Divided rt₀.gcObjList rt
  heap : ∀ q, ∃ mark,
    rt.heap q = (rt₀.heap q).map (fun o => o.traced (outside.count q + given.count q) mark) ∧
    (q ∈ done → mark = false)
  kept : ∀ q, q ∈ rt.gcObjList ↔ q ∈ rt₀.gcObjList ∧ 0 < outside.count q + given.count q
  seen : ∃ rest, rt.gcObjList = done ++ rest
  reached : ∀ q ∈ rt.gcObjList, rt₀.graph.Reach outside q
  current : rt.gcPhase = rt₀.gcPhase
  log : rt.finalized = rt₀.finalized

section
variable {done given : List Nat} (all : AllListed rt₀ outside)
include all

theorem Decreased.increased {seen : List Nat}
    (ends : Decreased rt₀ outside seen (seen.flatMap rt₀.kids) rt)
    (whole : seen.Perm rt₀.gcObjList) : Increased rt₀ outside [] [] rt := by
  have left : ∀ q, (rt₀.graph.refs outside q : Int) - (seen.flatMap rt₀.kids).count q =
      outside.count q := by
    intro q
    have inner : rt₀.graph.refs [] q = (seen.flatMap rt₀.kids).count q := by
      rw [(whole.flatMap_right rt₀.kids).count_eq]
      show ((rt₀.listed.flatMap rt₀.kids) ++ []).count q = _
      rw [all.listed, List.append_nil]
    rw [Graph.refs_append, inner]
    omega
  have kept : ∀ q, q ∈ rt.gcObjList ↔ q ∈ rt₀.gcObjList ∧ 0 < outside.count q := by
    intro q
    have here := ends.divided.lists.mem_iff (a := q)
    have apart := (List.nodup_append.mp (ends.divided.nodup all.once)).2.2
    have garbage := ends.garbage q
    rw [left q, whole.mem_iff] at garbage
    rw [List.mem_append] at here
    constructor
    · intro member
      refine ⟨here.mp (.inl member), Nat.pos_of_ne_zero fun zero => ?_⟩
      exact apart q member q (garbage.mpr ⟨here.mp (.inl member), by rw [zero]; rfl⟩) rfl
    · rintro ⟨member, positive⟩
      refine (here.mpr member).resolve_right fun again => ?_
      have := (garbage.mp again).2
      omega
  refine ⟨ends.divided, fun q =>
    ⟨decide (q ∈ seen), ?_, fun never => absurd never List.not_mem_nil⟩, fun q => ?_,
    ⟨rt.gcObjList, rfl⟩, fun q member => .root (List.count_pos_iff.mp ((kept q).mp member).2),
    ends.current, ends.log⟩
  · rw [ends.heap q, left q, List.count_nil]
    rfl
  · rw [List.count_nil]
    exact kept q

theorem gcScanIncrefChild_increases {c : Nat} (start : Increased rt₀ outside done given rt)
    (child : c ∈ rt₀.gcObjList) (reached : rt₀.graph.Reach outside c) :
    Effect.Triple (· = rt) (gcScanIncrefChild c) (fun _ => Increased rt₀ outside done (c :: given))
      fun _ _ => False := by
  obtain ⟨o, found₀⟩ := all.mem_iff.mp child
  obtain ⟨mark, found, unmarked⟩ := start.heap c
  rw [found₀, Option.map_some] at found
  have more : ((outside.count c : Int) + given.count c) + 1 = outside.count c +
      (c :: given).count c := by
    rw [List.count_cons_self]
    omega
  have others : ∀ q, q ≠ c → (c :: given).count q = given.count q :=
    fun q other => List.count_cons_of_ne (Ne.symm other)
  have heap : ∀ (rt' : JSRuntime) (mark' : Bool),
      rt'.heap = Function.update rt.heap c
        (some (o.traced ((outside.count c : Int) + given.count c + 1) mark')) →
      (c ∈ done → mark' = false) → ∀ q, ∃ mark, rt'.heap q =
        (rt₀.heap q).map (fun o => o.traced (outside.count q + (c :: given).count q) mark) ∧
        (q ∈ done → mark = false) := by
    intro rt' mark' put unmarked' q
    by_cases same : q = c
    · subst same
      refine ⟨mark', ?_, unmarked'⟩
      rw [put, Function.update_self, found₀, Option.map_some, more]
    · obtain ⟨mark'', there, seen⟩ := start.heap q
      refine ⟨mark'', ?_, seen⟩
      rw [put, Function.update_of_ne same, there, others q same]
  unfold gcScanIncrefChild
  refine load_bind found (Effect.Triple.ite (fun first => ?_) fun again => ?_)
  · have first : (outside.count c : Int) + given.count c + 1 = 1 := first
    have outOf : c ∉ rt.gcObjList := fun member => by
      have := ((start.kept c).mp member).2
      omega
    have member : c ∈ rt.tmpObjList :=
      (List.mem_append.mp (start.divided.lists.mem_iff.mpr child)).resolve_left outOf
    refine Effect.Triple.modify_bind (Effect.Triple.modify_bind (Effect.Triple.modify ?_))
    rintro _ rfl
    have moved := unlist_of_tmp start.divided all.once member
    have lists : (rt.toGc c).gcObjList = rt.gcObjList ++ [c] := by rw [moved]
    have divided : Divided rt₀.gcObjList (rt.toGc c) := start.divided.toGc all.once member
    obtain ⟨rest, seen⟩ := start.seen
    refine ⟨⟨divided.lists, divided.zero⟩, heap _ false rfl fun _ => rfl, fun q =>
      ?_, ⟨rest ++ [c], ?_⟩, fun q member => ?_, start.current, start.log⟩
    · show q ∈ (rt.toGc c).gcObjList ↔ _
      rw [lists, List.mem_append, List.mem_singleton, start.kept]
      by_cases same : q = c
      · subst same
        rw [List.count_cons_self]
        exact iff_of_true (.inr rfl) ⟨child, by omega⟩
      · rw [or_iff_left same, others q same]
    · show (rt.toGc c).gcObjList = _
      rw [lists, seen, List.append_assoc]
    · have member : q ∈ (rt.toGc c).gcObjList := member
      rw [lists] at member
      rcases List.mem_append.mp member with before | last
      · exact start.reached q before
      · rwa [List.mem_singleton.mp last]
  · have again : ¬(outside.count c : Int) + given.count c + 1 = 1 := again
    refine Effect.Triple.modify ?_
    rintro _ rfl
    refine ⟨⟨start.divided.lists, start.divided.zero⟩, heap _ mark rfl unmarked, fun q =>
      ?_, start.seen, start.reached, start.current, start.log⟩
    refine (start.kept q).trans ?_
    by_cases same : q = c
    · subst same
      rw [List.count_cons_self]
      exact and_congr_right fun _ => iff_of_true (by omega) (by omega)
    · rw [others q same]

theorem gcScanChildren_increase {cs : List Nat} (start : Increased rt₀ outside done given rt)
    (children : ∀ c ∈ cs, c ∈ rt₀.gcObjList) (reached : ∀ c ∈ cs, rt₀.graph.Reach outside c) :
    Effect.Triple (· = rt) (Effect.forEach gcScanIncrefChild cs)
      (fun _ => Increased rt₀ outside done (cs.reverse ++ given))
      fun _ _ => False := by
  induction cs generalizing given rt with
  | nil =>
    refine Effect.Triple.pure () ?_
    rintro _ rfl
    exact start
  | cons c rest ih =>
    refine Effect.Triple.bind
      (gcScanIncrefChild_increases all start (children c List.mem_cons_self)
        (reached c List.mem_cons_self))
      fun _ => Effect.Triple.each fun rt' next => ?_
    rw [List.reverse_cons, List.append_assoc, List.singleton_append]
    exact ih next (fun c' member => children c' (List.mem_cons_of_mem _ member)) fun c' member =>
      reached c' (List.mem_cons_of_mem _ member)

omit all in
theorem Increased.reordered {given' : List Nat} (start : Increased rt₀ outside done given rt)
    (same : given.Perm given') : Increased rt₀ outside done given' rt := by
  refine { start with heap := fun q => ?_, kept := fun q => ?_ }
  · rw [← same.count_eq]
    exact start.heap q
  · rw [← same.count_eq]
    exact start.kept q

-- The loop over the list of objects ends, since no more can be put at its end than there are.
theorem gcScanFrom_increases {fuel : Nat}
    (start : Increased rt₀ outside done (done.flatMap rt₀.kids) rt)
    (enough : rt₀.gcObjList.length < fuel + done.length) :
    Effect.Triple (· = rt) (gcScanFrom fuel done.length)
      (fun _ rt' => Increased rt₀ outside rt'.gcObjList (rt'.gcObjList.flatMap rt₀.kids) rt')
        fun _ _ => False := by
  induction fuel generalizing done rt with
  | zero =>
    obtain ⟨rest, seen⟩ := start.seen
    have all := start.divided.lists.length_eq
    rw [List.length_append, seen, List.length_append] at all
    omega
  | succ fuel ih =>
    obtain ⟨rest, seen⟩ := start.seen
    unfold gcScanFrom
    refine Effect.Triple.get_bind ?_
    cases rest with
    | nil =>
      rw [List.append_nil] at seen
      rw [seen, List.getElem?_eq_none (Nat.le_refl _)]
      refine Effect.Triple.pure () ?_
      rintro _ rfl
      rw [seen]
      exact start
    | cons p rest =>
      have here : rt.gcObjList[done.length]? = some p := by
        rw [seen, List.getElem?_append_right (Nat.le_refl _), Nat.sub_self]
        rfl
      rw [here]
      have member : p ∈ rt.gcObjList := List.mem_of_getElem? here
      obtain ⟨listed, positive⟩ := (start.kept p).mp member
      obtain ⟨o, found₀⟩ := all.mem_iff.mp listed
      have kids : rt₀.kids p = o.children := kids_of_heap found₀
      obtain ⟨mark, found, -⟩ := start.heap p
      rw [found₀, Option.map_some] at found
      have some : 0 < (outside.count p : Int) + (done.flatMap rt₀.kids).count p := by omega
      refine load_bind found
        (Effect.Triple.bind (Q := fun _ rt' => rt' = rt) (Effect.Triple.check (fun _ same _ => same)
        fun _ _ wrong => of_decide_eq_false wrong some) fun _ => Effect.Triple.modify_bind ?_)
      have start' : Increased rt₀ outside (done ++ [p]) (done.flatMap rt₀.kids)
          (rt.put p
            (o.traced ((outside.count p : Int) + (done.flatMap rt₀.kids).count p) false)) := by
        refine ⟨⟨start.divided.lists, start.divided.zero⟩, fun q => ?_, start.kept, ⟨rest, ?_⟩,
          start.reached, start.current, start.log⟩
        · by_cases same : q = p
          · subst same
            refine ⟨false, ?_, fun _ => rfl⟩
            rw [put_self, found₀, Option.map_some]
          · obtain ⟨mark', there, unmarked⟩ := start.heap q
            refine ⟨mark', ?_, fun member => ?_⟩
            · rw [put_of_ne same, there]
            · rw [List.mem_append, List.mem_singleton, or_iff_left same] at member
              exact unmarked member
        · rw [List.append_assoc, List.singleton_append]
          exact seen
      refine Effect.Triple.bind
        (gcScanChildren_increase all start'
          (fun c kid => all.mem_iff.mpr (all.valid.kid found₀ kid))
        fun c kid => (start.reached p member).step (by rwa [show rt₀.graph.kids p = _ from kids]))
          fun _ =>
        Effect.Triple.each fun rt' next => ?_
      have given :
          ((o.traced ((outside.count p : Int) + (done.flatMap rt₀.kids).count p)
            mark).children.reverse ++ done.flatMap rt₀.kids).Perm
              ((done ++ [p]).flatMap rt₀.kids) := by
        rw [children_traced, List.flatMap_append, List.flatMap_cons, List.flatMap_nil,
          List.append_nil, kids]
        exact ((List.reverse_perm _).append_right _).trans List.perm_append_comm
      have next' := next.reordered given
      have ends := ih next' (by rw [List.length_append, List.length_singleton]; omega)
      rwa [List.length_append, List.length_singleton] at ends

end

/-! ### Both passes -/

/-- Between the loops of `gc_scan`: the objects on the lists stay where they are. -/
structure Restored (rt₀ : JSRuntime) (outside : List Nat) (rt₁ : JSRuntime) (given : List Nat)
    (rt : JSRuntime) : Prop where
  heap : ∀ q, ∃ mark,
    rt.heap q = (rt₀.heap q).map (fun o => o.traced (outside.count q + given.count q) mark) ∧
    (q ∈ rt₁.gcObjList → mark = false)
  listed : rt.gcObjList = rt₁.gcObjList
  zero : rt.gcZeroRefCountList = rt₁.gcZeroRefCountList
  garbage : rt.tmpObjList = rt₁.tmpObjList
  current : rt.gcPhase = rt₁.gcPhase
  log : rt.finalized = rt₁.finalized

/-- What can be reached is on the list of objects, without a mark, the rest is on the temporary
list, and nothing else has changed. -/
structure Separated (rt₀ : JSRuntime) (outside : List Nat) (rt : JSRuntime) : Prop where
  divided : Divided rt₀.gcObjList rt
  heap : ∀ q, ∃ mark, rt.heap q = (rt₀.heap q).map (fun o => { o with mark }) ∧
    (q ∈ rt.gcObjList → mark = false)
  kept : ∀ q, q ∈ rt.gcObjList ↔ rt₀.graph.Reach outside q
  current : rt.gcPhase = rt₀.gcPhase
  log : rt.finalized = rt₀.finalized

section
variable {rt₁ : JSRuntime} {given : List Nat} (all : AllListed rt₀ outside)
include all

theorem gcScanChild2_restores {c : Nat} (start : Restored rt₀ outside rt₁ given rt)
    (child : c ∈ rt₀.gcObjList) :
    Effect.Triple (· = rt) (gcScanIncrefChild2 c) (fun _ => Restored rt₀ outside rt₁ (c :: given))
      fun _ _ => False := by
  obtain ⟨o, found₀⟩ := all.mem_iff.mp child
  obtain ⟨mark, found, unmarked⟩ := start.heap c
  rw [found₀, Option.map_some] at found
  unfold gcScanIncrefChild2
  refine load_bind found (Effect.Triple.modify ?_)
  rintro _ rfl
  refine ⟨fun q => ?_, start.listed, start.zero, start.garbage, start.current, start.log⟩
  by_cases same : q = c
  · subst same
    refine ⟨mark, ?_, unmarked⟩
    rw [put_self, found₀, Option.map_some, List.count_cons_self]
    show some (o.traced ((outside.count q : Int) + given.count q + 1) mark) = _
    rw [Int.add_assoc]
    rfl
  · obtain ⟨mark', there, unmarked'⟩ := start.heap q
    refine ⟨mark', ?_, unmarked'⟩
    rw [put_of_ne same, there, List.count_cons_of_ne (Ne.symm same)]

theorem gcScanChildren2_restore {cs : List Nat} (start : Restored rt₀ outside rt₁ given rt)
    (children : ∀ c ∈ cs, c ∈ rt₀.gcObjList) :
    Effect.Triple (· = rt) (Effect.forEach gcScanIncrefChild2 cs)
      (fun _ => Restored rt₀ outside rt₁ (cs.reverse ++ given))
      fun _ _ => False := by
  induction cs generalizing given rt with
  | nil =>
    refine Effect.Triple.pure () ?_
    rintro _ rfl
    exact start
  | cons c rest ih =>
    refine Effect.Triple.bind
      (gcScanChild2_restores all start (children c List.mem_cons_self)) fun _ =>
      Effect.Triple.each fun rt' next => ?_
    rw [List.reverse_cons, List.append_assoc, List.singleton_append]
    exact ih next fun c' member => children c' (List.mem_cons_of_mem _ member)

omit all in
theorem Restored.reordered {given' : List Nat} (start : Restored rt₀ outside rt₁ given rt)
    (same : given.Perm given') : Restored rt₀ outside rt₁ given' rt := by
  refine { start with heap := fun q => ?_ }
  rw [← same.count_eq]
  exact start.heap q

theorem gcRestoreAll {todo : List Nat} (start : Restored rt₀ outside rt₁ given rt)
    (objects : ∀ p ∈ todo, p ∈ rt₀.gcObjList) :
    Effect.Triple (· = rt) (Effect.forEach gcRestore todo)
      (fun _ => Restored rt₀ outside rt₁ (todo.flatMap rt₀.kids ++ given))
      fun _ _ => False := by
  induction todo generalizing given rt with
  | nil =>
    refine Effect.Triple.pure () ?_
    rintro _ rfl
    exact start
  | cons p rest ih =>
    obtain ⟨o, found₀⟩ := all.mem_iff.mp (objects p List.mem_cons_self)
    have kids : rt₀.kids p = o.children := kids_of_heap found₀
    obtain ⟨mark, found, -⟩ := start.heap p
    rw [found₀, Option.map_some] at found
    have round : Effect.Triple (· = rt) (gcRestore p)
        (fun _ => Restored rt₀ outside rt₁ (o.children.reverse ++ given))
        fun _ _ => False := by
      unfold gcRestore
      exact load_bind found
        (gcScanChildren2_restore all start fun c kid => all.mem_iff.mpr (all.valid.kid found₀ kid))
    refine Effect.Triple.bind round fun _ => Effect.Triple.each fun rt' next => ?_
    refine (ih next fun p' member => objects p' (List.mem_cons_of_mem _ member)).weaken
      (fun _ same => same)
      (fun _ _ ends => ends.reordered ?_) fun _ _ never => never
    rw [List.flatMap_cons, kids]
    refine (List.perm_append_comm_assoc _ _ _).trans ?_
    rw [List.append_assoc]
    exact (List.reverse_perm _).append_right _

theorem gcScan_separates {seen : List Nat}
    (ends : Decreased rt₀ outside seen (seen.flatMap rt₀.kids) rt)
    (whole : seen.Perm rt₀.gcObjList) :
    Effect.Triple (· = rt) gcScan (fun _ => Separated rt₀ outside) fun _ _ => False := by
  have start := ends.increased all whole
  have length : rt₀.gcObjList.length < rt.listed.length + 1 + ([] : List Nat).length := by
    have lists := ends.divided.lists.length_eq
    unfold JSRuntime.listed
    rw [ends.divided.zero, List.nil_append, lists, List.length_nil]
    omega
  unfold gcScan
  refine Effect.Triple.get_bind ?_
  refine Effect.Triple.bind (gcScanFrom_increases all start length) fun _ =>
    Effect.Triple.each fun rt₁ scanned =>
    Effect.Triple.get_bind ?_
  have start₁ : Restored rt₀ outside rt₁ (rt₁.gcObjList.flatMap rt₀.kids) rt₁ :=
    ⟨scanned.heap, rfl, rfl, rfl, rfl, rfl⟩
  have objects : ∀ p ∈ rt₁.tmpObjList, p ∈ rt₀.gcObjList := fun p member =>
    scanned.divided.lists.mem_iff.mp (List.mem_append_right _ member)
  refine (gcRestoreAll all start₁ objects).weaken (fun _ same => same) (fun _ rt₂ done => ?_)
    fun _ _ never => never
  -- all references are on the counts again
  have given : (rt₁.tmpObjList.flatMap rt₀.kids ++ rt₁.gcObjList.flatMap rt₀.kids).Perm
      (rt₀.gcObjList.flatMap rt₀.kids) := by
    rw [← List.flatMap_append]
    exact (List.perm_append_comm.trans scanned.divided.lists).flatMap_right _
  have total : ∀ q,
      outside.count q +
        (rt₁.tmpObjList.flatMap rt₀.kids ++ rt₁.gcObjList.flatMap rt₀.kids).count q =
      rt₀.graph.refs outside q := by
    intro q
    rw [given.count_eq, Graph.refs_append, Nat.add_comm]
    show _ = ((rt₀.listed.flatMap rt₀.kids) ++ []).count q + _
    rw [all.listed, List.append_nil]
  have closed : ∀ q, rt₀.graph.Reach outside q → q ∈ rt₁.gcObjList := by
    intro q reach
    refine @Graph.Reach.within _ _ _ _ (· ∈ rt₁.gcObjList) reach (fun q root => ?_)
      fun p q member kid => ?_
    · exact (scanned.kept q).mpr
        ⟨all.mem_iff.mpr (all.valid.root root), Nat.lt_of_lt_of_le (List.count_pos_iff.mpr root)
          (Nat.le_add_right _ _)⟩
    · obtain ⟨o, found⟩ := all.mem_iff.mp ((scanned.kept p).mp member).1
      have kid' : q ∈ o.children := by
        rwa [show rt₀.graph.kids p = o.children from kids_of_heap found] at kid
      refine (scanned.kept q).mpr ⟨all.mem_iff.mpr (all.valid.kid found kid'), ?_⟩
      have given : 0 < (rt₁.gcObjList.flatMap rt₀.kids).count q :=
        List.count_pos_iff.mpr (List.mem_flatMap.mpr ⟨p, member, kid⟩)
      omega
  refine ⟨⟨by rw [done.listed, done.garbage]; exact scanned.divided.lists,
    done.zero.trans scanned.divided.zero⟩, fun q => ?_,
    fun q => ?_, done.current.trans scanned.current, done.log.trans scanned.log⟩
  · obtain ⟨mark, there, unmarked⟩ := done.heap q
    refine ⟨mark, ?_, fun member => unmarked (done.listed ▸ member)⟩
    rw [there]
    cases found : rt₀.heap q with
    | none => rfl
    | some o =>
      have count := all.valid.counts q o found
      have sum := total q
      rw [Option.map_some, Option.map_some]
      show some { o with refCount := _, mark } = some { o with mark }
      rw [count, ← sum]
      rfl
  · rw [done.listed]
    exact ⟨scanned.reached q, closed q⟩

end

end QuickJSBun.Engine.Garbage
