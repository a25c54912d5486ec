import QuickJSBun.Engine.Garbage
import Mathlib.Data.List.Nodup
import Mathlib.Data.List.Perm.Basic
import Mathlib.Data.List.Count

/-! The heap of the collector as a graph. The count of an object is the number of references to it, from the
objects on the lists and from outside; what is referred to is allocated, and what is allocated is on one list.
-/

set_option autoImplicit false

namespace QuickJSBun.Engine.Garbage

open QuickJSBun.Library

namespace JSRuntime

def kids (rt : JSRuntime) (p : Nat) : List Nat := ((rt.heap p).map JSGCObject.children).getD []

def graph (rt : JSRuntime) : Graph Nat := ⟨rt.listed, rt.kids⟩

/-- `outside` are the references that no object on a list has. -/
structure Valid (rt : JSRuntime) (outside : List Nat) : Prop where
  nodup : rt.listed.Nodup
  alive : ∀ p, p ∈ rt.listed ↔ ∃ o, rt.heap p = some o
  counts : ∀ p o, rt.heap p = some o → o.refCount = rt.graph.refs outside p
  inside : ∀ p, 0 < rt.graph.refs outside p → ∃ o, rt.heap p = some o
  typed : ∀ p o, rt.heap p = some o → ∀ part, ∀ c ∈ o.part part, ∀ child, rt.heap c = some child →
    admits o.gcObjType part child.gcObjType = true

end JSRuntime

variable {rt rt' : JSRuntime} {outside outside' : List Nat} {p q : Nat} {o o' : JSGCObject}

@[simp] theorem put_self : (rt.put p o).heap p = some o := Function.update_self _ _ _

theorem put_of_ne (other : q ≠ p) : (rt.put p o).heap q = rt.heap q :=
  Function.update_of_ne other _ _

@[simp] theorem listed_put : (rt.put p o).listed = rt.listed := rfl

@[simp] theorem free_self : (rt.free p).heap p = none := Function.update_self _ _ _

theorem free_of_ne (other : q ≠ p) : (rt.free p).heap q = rt.heap q :=
  Function.update_of_ne other _ _

theorem heap_put (found : (rt.put p o).heap q = some o') :
    q = p ∧ o' = o ∨ q ≠ p ∧ rt.heap q = some o' := by
  by_cases same : q = p
  · subst same
    rw [put_self] at found
    exact .inl ⟨rfl, (Option.some.inj found).symm⟩
  · rw [put_of_ne same] at found
    exact .inr ⟨same, found⟩

-- A put in the place of an object adds none and leaves every type.
theorem put_there (found : rt.heap q = some o) :
    (∃ o'', (rt.put q o').heap p = some o'') ↔ ∃ o'', rt.heap p = some o'' := by
  by_cases same : p = q
  · subst same
    exact iff_of_true ⟨_, put_self⟩ ⟨o, found⟩
  · rw [put_of_ne same]

theorem put_type {child : JSGCObject} (found : rt.heap q = some o)
    (type : o'.gcObjType = o.gcObjType) (at_ : (rt.put q o').heap p = some child) :
    ∃ child', rt.heap p = some child' ∧ child'.gcObjType = child.gcObjType := by
  rcases heap_put at_ with ⟨rfl, rfl⟩ | ⟨-, before⟩
  · exact ⟨o, found, type.symm⟩
  · exact ⟨child, before, rfl⟩

theorem kids_of_heap (found : rt.heap p = some o) : rt.kids p = o.children := by
  unfold JSRuntime.kids
  rw [found]
  rfl

theorem kids_free (found : rt.heap p = none) : rt.kids p = [] := by
  unfold JSRuntime.kids
  rw [found]
  rfl

theorem kids_put : (rt.put p o).kids = Function.update rt.kids p o.children := by
  funext q
  by_cases same : q = p
  · subst same
    rw [Function.update_self, kids_of_heap put_self]
  · rw [Function.update_of_ne same]
    unfold JSRuntime.kids
    rw [put_of_ne same]

theorem graph_put_same (found : rt.heap p = some o) (same : o'.children = o.children) :
    (rt.put p o').graph = rt.graph := by
  unfold JSRuntime.graph
  rw [kids_put, same, ← kids_of_heap found, Function.update_eq_self]
  rfl

theorem mem_part {part : Part} (member : q ∈ o.part part) : q ∈ o.children := by
  unfold JSGCObject.children
  cases part with
  | header => exact List.mem_append_left _ member
  | fields => exact List.mem_append_right _ (List.mem_append_left _ member)
  | data => exact List.mem_append_right _ (List.mem_append_right _ member)

theorem part_of_mem (member : q ∈ o.children) : ∃ part, q ∈ o.part part := by
  unfold JSGCObject.children at member
  rcases List.mem_append.mp member with header | rest
  · exact ⟨.header, header⟩
  · rcases List.mem_append.mp rest with fields | data
    · exact ⟨.fields, fields⟩
    · exact ⟨.data, data⟩

theorem children_of_parts (same : ∀ part, o'.part part = o.part part) :
    o'.children = o.children := by
  unfold JSGCObject.children
  rw [show o'.header = o.header from same .header, show o'.fields = o.fields from same .fields,
    show o'.data = o.data from same .data]

@[simp] theorem children_emptied : o.emptied.children = [] := rfl

theorem part_emptied (part : Part) : o.emptied.part part = [] := by cases part <;> rfl

namespace JSRuntime.Valid

theorem refs_kid (valid : rt.Valid outside) (found : rt.heap p = some o) (member : q ∈ o.children) :
    0 < rt.graph.refs outside q :=
  Graph.refs_kid ((valid.alive p).mpr ⟨o, found⟩)
    (by rwa [show rt.graph.kids p = _ from kids_of_heap found])

-- What an object refers to is allocated.
theorem kid (valid : rt.Valid outside) (found : rt.heap p = some o) (member : q ∈ o.children) :
    ∃ child, rt.heap q = some child :=
  valid.inside q (valid.refs_kid found member)

theorem root (valid : rt.Valid outside) (member : p ∈ outside) : ∃ o, rt.heap p = some o :=
  valid.inside p (Graph.refs_root member)

theorem count_pos (valid : rt.Valid outside) (member : p ∈ outside) (found : rt.heap p = some o) :
    0 < o.refCount := by
  rw [valid.counts p o found]
  exact_mod_cast Graph.refs_root member

theorem reordered (valid : rt.Valid outside) (same : outside.Perm outside') :
    rt.Valid outside' := by
  have refs : ∀ p, rt.graph.refs outside' p = rt.graph.refs outside p := fun p =>
    Graph.refs_of_perm ((same.symm.append_left _))
  refine { valid with
    counts := fun p o found => ?_
    inside := fun p referred => ?_ }
  · rw [refs]
    exact valid.counts p o found
  · rw [refs] at referred
    exact valid.inside p referred

-- An object whose references stay moves to another list, or has another mark.
theorem relisted (valid : rt.Valid outside) (lists : rt'.listed.Perm rt.listed)
    (objects : ∀ p, rt'.heap p = none ∧ rt.heap p = none ∨ ∃ o o', rt.heap p = some o ∧
      rt'.heap p = some o' ∧ o'.gcObjType = o.gcObjType ∧ o'.refCount = o.refCount ∧
      ∀ part, o'.part part = o.part part) :
    rt'.Valid outside := by
  have kids : ∀ p, rt'.kids p = rt.kids p := by
    intro p
    rcases objects p with ⟨after, before⟩ | ⟨o, o', before, after, -, -, same⟩
    · rw [kids_free after, kids_free before]
    · rw [kids_of_heap after, kids_of_heap before, children_of_parts same]
  have refs : ∀ p, rt'.graph.refs outside p = rt.graph.refs outside p := fun p =>
    Graph.refs_of_perm (Graph.references_perm lists (fun p _ => kids p) (List.Perm.refl _))
  have back : ∀ p o', rt'.heap p = some o' → ∃ o, rt.heap p = some o ∧
      o'.gcObjType = o.gcObjType ∧ o'.refCount = o.refCount ∧
      ∀ part, o'.part part = o.part part := by
    intro p o' found
    rcases objects p with ⟨after, -⟩ | ⟨o, o₁, before, after, same⟩
    · rw [after] at found
      cases found
    · rw [after] at found
      obtain rfl := Option.some.inj found
      exact ⟨o, before, same⟩
  have there : ∀ p, (∃ o, rt'.heap p = some o) ↔ ∃ o, rt.heap p = some o := by
    intro p
    rcases objects p with ⟨after, before⟩ | ⟨o, o', before, after, -⟩
    · rw [after, before]
    · exact iff_of_true ⟨o', after⟩ ⟨o, before⟩
  refine ⟨lists.nodup_iff.mpr valid.nodup, fun p => ?_, fun p o' found => ?_, fun p referred => ?_,
    fun p o' found part c member child at_ => ?_⟩
  · rw [lists.mem_iff, valid.alive, there]
  · obtain ⟨o, before, -, count, -⟩ := back p o' found
    rw [count, refs]
    exact valid.counts p o before
  · rw [refs] at referred
    exact (there p).mpr (valid.inside p referred)
  · obtain ⟨o, before, type, -, same⟩ := back p o' found
    obtain ⟨child', before', type', -, -⟩ := back c child at_
    rw [type, type']
    rw [same] at member
    exact valid.typed p o before part c member child' before'

theorem typed_put (valid : rt.Valid outside) (found : rt.heap q = some o)
    (type : o'.gcObjType = o.gcObjType)
    (typed : ∀ part, ∀ c ∈ o'.part part, ∀ child, rt.heap c = some child →
      admits o'.gcObjType part child.gcObjType = true) {o'' child : JSGCObject} {part : Part}
    {c : Nat} (at_ : (rt.put q o').heap p = some o'') (member : c ∈ o''.part part)
    (at_child : (rt.put q o').heap c = some child) :
    admits o''.gcObjType part child.gcObjType = true := by
  obtain ⟨child', before, type'⟩ := put_type found type at_child
  rw [← type']
  rcases heap_put at_ with ⟨rfl, rfl⟩ | ⟨-, before'⟩
  · exact typed part c member child' before
  · exact valid.typed p o'' before' part c member child' before

theorem lowered (valid : rt.Valid (q :: outside)) (found : rt.heap q = some o) :
    (rt.put q { o with refCount := o.refCount - 1 }).Valid outside := by
  have graph := @graph_put_same rt q o { o with refCount := o.refCount - 1 } found rfl
  refine ⟨valid.nodup, fun p => ?_, fun p o' at_ => ?_, fun p referred =>
    ?_, fun p o' at_ part c member child at_child => ?_⟩
  · rw [listed_put, valid.alive]
    exact (put_there found).symm
  · rw [graph]
    rcases heap_put at_ with ⟨rfl, rfl⟩ | ⟨other, before⟩
    · have := valid.counts p o found
      rw [Graph.refs_cons, if_pos rfl] at this
      dsimp only
      omega
    · rw [valid.counts p o' before, Graph.refs_cons, if_neg (Ne.symm other), Nat.add_zero]
  · rw [graph] at referred
    exact (put_there found).mpr (valid.inside p (by rw [Graph.refs_cons]; omega))
  · refine valid.typed_put found ?_ (fun part c member => ?_) at_ member at_child
    · rfl
    · exact valid.typed q o found part c member

theorem exchanged (valid : rt.Valid outside) (found : rt.heap q = some o)
    (type : o'.gcObjType = o.gcObjType) (count : o'.refCount = o.refCount)
    (moved : (o'.children ++ outside').Perm (o.children ++ outside))
    (typed : ∀ part, ∀ c ∈ o'.part part, ∀ child, rt.heap c = some child →
      admits o'.gcObjType part child.gcObjType = true) :
    (rt.put q o').Valid outside' := by
  have node : q ∈ rt.graph.nodes := (valid.alive q).mpr ⟨o, found⟩
  have refs : ∀ p, (rt.put q o').graph.refs outside' p = rt.graph.refs outside p := by
    intro p
    refine Graph.refs_of_perm ?_
    unfold graph
    rw [kids_put]
    refine Graph.references_exchange node valid.nodup ?_
    rwa [show rt.graph.kids q = _ from kids_of_heap found]
  refine ⟨valid.nodup, fun p => ?_, fun p o'' at_ => ?_, fun p referred =>
    ?_, fun p o'' at_ part c member child at_child => ?_⟩
  · rw [listed_put, valid.alive]
    exact (put_there found).symm
  · rw [refs]
    rcases heap_put at_ with ⟨rfl, rfl⟩ | ⟨-, before⟩
    · rw [count]
      exact valid.counts p o found
    · exact valid.counts p o'' before
  · rw [refs] at referred
    exact (put_there found).mpr (valid.inside p referred)
  · exact valid.typed_put found type typed at_ member at_child

-- What an object referred to before it was emptied is of the types it may refer to.
theorem typed_emptied (valid : rt.Valid outside) (found : rt.heap q = some o)
    (type : o'.gcObjType = o.gcObjType) (parts : ∀ part, o'.part part = o.part part) :
    ∀ part, ∀ c ∈ o'.part part, ∀ child, (rt.put q o'.emptied).heap c = some child →
      admits o.gcObjType part child.gcObjType = true := by
  intro part c member child at_
  rw [parts] at member
  have same : o'.emptied.gcObjType = o.gcObjType := type
  obtain ⟨child', before, type'⟩ := put_type found same at_
  rw [← type']
  exact valid.typed q o found part c member child' before

theorem taken (valid : rt.Valid outside) (found : rt.heap q = some o) :
    (rt.put q o.emptied).Valid (o.children ++ outside) := by
  refine valid.exchanged found rfl rfl (List.Perm.refl _) ?_
  intro part c member
  rw [part_emptied] at member
  exact absurd member List.not_mem_nil

end JSRuntime.Valid

theorem listed_unlist (nodup : rt.listed.Nodup) : (rt.unlist p).listed = rt.listed.erase p := by
  unfold JSRuntime.listed at *
  obtain ⟨-, rest, apart⟩ := List.nodup_append.mp nodup
  obtain ⟨-, -, apart'⟩ := List.nodup_append.mp rest
  unfold JSRuntime.unlist
  dsimp only
  by_cases first : p ∈ rt.gcObjList
  · have absent : p ∉ rt.gcZeroRefCountList ++ rt.tmpObjList :=
      fun again => apart p first p again rfl
    rw [List.mem_append, not_or] at absent
    rw [List.erase_append_left _ first, List.erase_of_not_mem absent.1,
      List.erase_of_not_mem absent.2]
  · rw [List.erase_append_right _ first, List.erase_of_not_mem first]
    by_cases second : p ∈ rt.gcZeroRefCountList
    · have absent : p ∉ rt.tmpObjList := fun again => apart' p second p again rfl
      rw [List.erase_append_left _ second, List.erase_of_not_mem absent]
    · rw [List.erase_append_right _ second, List.erase_of_not_mem second]

namespace JSRuntime.Valid

-- An object that nobody refers to goes.
theorem freed (valid : rt.Valid outside) (found : rt.heap p = some o) (none : o.children = [])
    (zero : o.refCount = 0) : ((rt.unlist p).free p).Valid outside := by
  have member : p ∈ rt.listed := (valid.alive p).mpr ⟨o, found⟩
  have listed : ((rt.unlist p).free p).listed = rt.listed.erase p := listed_unlist valid.nodup
  have heap : ∀ q, q ≠ p → ((rt.unlist p).free p).heap q = rt.heap q :=
    fun q other => free_of_ne other
  have kids : ((rt.unlist p).free p).kids = rt.kids := by
    funext q
    by_cases same : q = p
    · subst same
      rw [kids_free free_self, kids_of_heap found, none]
    · unfold JSRuntime.kids
      rw [heap q same]
  have refs : ∀ q, ((rt.unlist p).free p).graph.refs outside q = rt.graph.refs outside q := by
    intro q
    refine Graph.refs_of_perm ?_
    unfold graph
    rw [listed, kids]
    exact @Graph.references_remove _ rt.graph outside p _ member
      (by rw [show rt.graph.kids p = _ from kids_of_heap found, none])
  have nobody : rt.graph.refs outside p = 0 := by
    have := valid.counts p o found
    omega
  have before : ∀ q o', ((rt.unlist p).free p).heap q = some o' → q ≠ p ∧ rt.heap q = some o' := by
    intro q o' at_
    by_cases same : q = p
    · subst same
      rw [free_self] at at_
      cases at_
    · exact ⟨same, by rwa [heap q same] at at_⟩
  refine ⟨?_, fun q => ?_, fun q o' at_ => ?_, fun q referred =>
    ?_, fun q o' at_ part c among child at_child => ?_⟩
  · rw [listed]
    exact valid.nodup.erase p
  · rw [listed, valid.nodup.mem_erase_iff, valid.alive]
    constructor
    · rintro ⟨other, o', at_⟩
      exact ⟨o', by rwa [heap q other]⟩
    · rintro ⟨o', at_⟩
      exact ⟨(before q o' at_).1, o', (before q o' at_).2⟩
  · rw [refs]
    exact valid.counts q o' (before q o' at_).2
  · rw [refs] at referred
    by_cases same : q = p
    · subst same
      omega
    · rw [heap q same]
      exact valid.inside q referred
  · exact valid.typed q o' (before q o' at_).2 part c among child (before c child at_child).2

end JSRuntime.Valid

end QuickJSBun.Engine.Garbage
