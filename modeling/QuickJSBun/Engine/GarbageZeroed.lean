import QuickJSBun.Engine.GarbageFreed

/-! `free_gc_object` on an object that nothing refers to, or that only garbage refers to, and
`free_zero_refcount`, which frees what waits until nothing does.
-/

set_option autoImplicit false

namespace QuickJSBun.Engine.Garbage

open QuickJSBun.Library

variable {rt rt' rt'' : JSRuntime} {outside : List Nat} {p q : Nat} {o o' : JSGCObject}
    {phase : JSGCPhase} {busy : List Nat}

theorem JSRuntime.Valid.logged (valid : rt.Valid outside) : (rt.logged q).Valid outside :=
  ⟨valid.nodup, valid.alive, valid.counts, valid.inside, valid.typed⟩

theorem Settled.logged (settled : Settled phase busy rt) : Settled phase busy (rt.logged q) :=
  ⟨settled.current, settled.taken, settled.used, settled.zero, settled.idle, settled.unmarked,
    settled.live⟩

/-- An object goes through `free_gc_object`, and may be kept on a list without its references. -/
structure Loses (phase : JSGCPhase) (q : Nat) (rt rt' : JSRuntime) : Prop where
  object : ∀ p o', p ≠ q → rt'.heap p = some o' → ∃ o, rt.heap p = some o ∧
    o'.gcObjType = o.gcObjType ∧ o'.freeMark = o.freeMark ∧ ∀ part, o'.part part = o.part part
  itself : rt'.heap q = none ∨ phase = .removeCycles ∧ q ∈ rt'.gcZeroRefCountList ∧
    ∃ o', rt'.heap q = some o' ∧ o'.children = [] ∧ o'.freeMark = true
  once : ∀ p, rt'.finalized.count p + standing rt' p = rt.finalized.count p + standing rt p
  listed : ∀ p ∈ rt'.gcObjList, p ∈ rt.gcObjList ∧ p ≠ q
  garbage : ∀ p ∈ rt'.tmpObjList, p ∈ rt.tmpObjList ∧ p ≠ q
  zeroes : phase = .removeCycles → ∀ p ∈ rt'.gcZeroRefCountList, p ∈ rt.gcZeroRefCountList ∨ p = q

-- A kept object is at the end of the list of zero counts.
def JSRuntime.toKept (rt : JSRuntime) (p : Nat) : JSRuntime :=
  { rt.unlist p with gcZeroRefCountList := (rt.unlist p).gcZeroRefCountList ++ [p] }

theorem toKept_listed (valid : rt.Valid outside) (found : rt.heap p = some o) :
    (rt.toKept p).listed.Perm rt.listed := by
  have moved : (rt.toKept p).listed.Perm (p :: (rt.unlist p).listed) := by
    unfold JSRuntime.listed JSRuntime.toKept
    dsimp only
    rw [List.append_assoc, List.singleton_append, ← List.append_assoc, ← List.append_assoc]
    exact List.perm_middle
  rw [listed_unlist valid.nodup] at moved
  exact moved.trans (List.perm_cons_erase ((valid.alive p).mpr ⟨o, found⟩)).symm

theorem JSRuntime.Valid.kept (valid : rt.Valid outside) (found : rt.heap p = some o) :
    (rt.toKept p).Valid outside := by
  refine valid.relisted (toKept_listed valid found) fun q => ?_
  rw [show (rt.toKept p).heap q = rt.heap q from rfl]
  cases before : rt.heap q with
  | none => exact .inl ⟨rfl, rfl⟩
  | some o' => exact .inr ⟨o', o', rfl, rfl, rfl, rfl, fun _ => rfl⟩

-- What is kept, or is left for others to free, while cycles are removed.
theorem Settled.kept {busy' : List Nat} (settled : Settled .removeCycles busy' rt)
    (valid : rt.Valid outside) (more : ∀ p ∈ busy, p ∈ busy')
    (mains : ∀ p ∈ busy', p ∉ busy → ∃ o, rt.heap p = some o ∧ o.gcObjType.isMain = true)
    (others : ∀ p ∈ busy', p ∈ busy ∨ p = q) : Settled .removeCycles busy (rt.toKept q) := by
  refine ⟨settled.current, fun p member => settled.taken p (more p member),
    fun p o' at_ aux idle => ?_, fun collecting => absurd rfl collecting, fun top => (by cases top),
    fun p member => settled.unmarked p (mem_gcObjList_unlist valid member).1,
    fun p o' at_ freed => ?_⟩
  · refine settled.used p o' at_ aux fun member => ?_
    obtain ⟨o, found, main⟩ := mains p member idle
    rw [show rt.heap p = some o' from at_] at found
    obtain rfl := Option.some.inj found
    rw [aux] at main
    cases main
  · by_cases same : p = q
    · exact .inr ⟨rfl, List.mem_append_right _ (List.mem_singleton.mpr same)⟩
    · rcases settled.live p o' at_ freed with member | ⟨-, member⟩
      · exact .inl ((others p member).resolve_right same)
      · exact .inr ⟨rfl, List.mem_append_left _ ((mem_zero_unlist valid).mpr ⟨member, same⟩)⟩

theorem freeStructure_loses (ends : After phase (q :: busy) outside ((rt.logged q).put q o') rt')
    (found : rt.heap q = some o) (main : o.gcObjType.isMain = true) (unmarked : o.freeMark = false)
    (free : q ∉ busy) (type : o'.gcObjType = o.gcObjType) (marked : o'.freeMark = true) :
    Effect.Triple (· = rt') (freeStructure q)
      (fun _ rt'' => rt''.Valid outside ∧ Settled phase busy rt'' ∧ Loses phase q rt rt'')
      fun _ _ => False := by
  obtain ⟨o₁, found', empty, count⟩ := ends.settled.taken q List.mem_cons_self
  obtain ⟨o₂, at_, type', mark', -⟩ := ends.shrinks.object q o₁ found'
  rw [put_self] at at_
  obtain rfl := Option.some.inj at_
  have main' : o₁.gcObjType.isMain = true := by rw [type', type, main]
  have object : ∀ p o₃, p ≠ q → rt'.heap p = some o₃ → ∃ o, rt.heap p = some o ∧
      o₃.gcObjType = o.gcObjType ∧
      o₃.freeMark = o.freeMark ∧ ∀ part, o₃.part part = o.part part := by
    intro p o₃ other at_
    obtain ⟨o₄, before, same⟩ := ends.shrinks.object p o₃ at_
    exact ⟨o₄, (put_of_ne other).symm.trans before, same⟩
  have marked' : o₁.freeMark = true := mark'.trans marked
  have once : ∀ p rt'', rt''.finalized = rt'.finalized → (p ≠ q → rt''.heap p = rt'.heap p) →
      (p = q → standing rt'' q = 0) →
      rt''.finalized.count p + standing rt'' p = rt.finalized.count p + standing rt p := by
    intro p rt'' log others itself
    have before := ends.shrinks.once p
    rw [log]
    by_cases same : p = q
    · subst same
      rw [itself rfl, standing_of_heap found, if_pos ⟨main, unmarked⟩]
      rw [standing_of_heap put_self, standing_of_heap found', marked', marked] at before
      simpa [JSRuntime.logged, JSRuntime.put] using before
    · rw [standing_congr (others same)]
      rw [standing_congr (put_of_ne same)] at before
      have log' : ((rt.logged q).put q o').finalized.count p = rt.finalized.count p := by
        show (rt.finalized ++ [q]).count p = _
        rw [List.count_append, List.count_singleton, if_neg (by simpa using Ne.symm same)]
        rfl
      rw [log'] at before
      exact before
  unfold freeStructure
  refine Effect.Triple.modify_bind
    (Effect.Triple.get_bind (load_bind (show (rt'.unlist q).heap q = some o₁ from found') ?_))
  rw [show (rt'.unlist q).gcPhase = phase from ends.settled.current]
  by_cases keep : phase = .removeCycles ∧ o₁.refCount ≠ 0
  · rw [if_pos keep]
    refine Effect.Triple.modify ?_
    rintro _ rfl
    obtain ⟨removing, -⟩ := keep
    subst removing
    have settled : Settled .removeCycles busy (rt'.toKept q) := by
      refine ends.settled.kept ends.valid (fun p member => List.mem_cons_of_mem _ member)
        (fun p member idle => ?_)
        fun p member => (List.mem_cons.mp member).symm
      obtain rfl := (List.mem_cons.mp member).resolve_right idle
      exact ⟨o₁, found', main'⟩
    refine ⟨ends.valid.kept found', settled, ?_⟩
    · refine ⟨object,
        .inr ⟨rfl, List.mem_append_right _ (List.mem_singleton.mpr rfl), o₁, found', empty,
          marked'⟩, fun p => ?_,
        fun p member => ?_, fun p member => ?_, fun _ p member => ?_⟩
      · refine once p _ rfl (fun _ => rfl) fun _ => ?_
        have zombie := standing_of_heap (show (rt'.toKept q).heap q = some o₁ from found')
        rw [marked', if_neg (fun both => Bool.true_eq_false.mp both.2)] at zombie
        exact zombie
      · obtain ⟨member', other⟩ := mem_gcObjList_unlist ends.valid member
        exact ⟨ends.shrinks.listed p member', other⟩
      · obtain ⟨member', other⟩ := mem_tmpObjList_unlist ends.valid member
        exact ⟨ends.shrinks.garbage p member', other⟩
      · rcases List.mem_append.mp member with before | last
        · exact .inl (ends.shrinks.zeroes rfl p ((mem_zero_unlist ends.valid).mp before).1)
        · exact .inr (List.mem_singleton.mp last)
  · rw [if_neg keep]
    refine Effect.Triple.modify ?_
    rintro _ rfl
    have zero : o₁.refCount = 0 := by
      rcases count with removing | zero
      · by_contra some
        exact keep ⟨removing.1, some⟩
      · exact zero
    refine ⟨ends.valid.freed found' empty zero, ends.settled.ended ends.valid free,
      fun p o₃ other at_ => ?_, .inl free_self,
      fun p => ?_, fun p member => ?_, fun p member => ?_, fun removing p member => ?_⟩
    · exact object p o₃ other ((free_of_ne other).symm.trans at_)
    · refine once p _ rfl (fun other => free_of_ne other) fun _ => ?_
      unfold standing
      rw [free_self]
    · obtain ⟨member', other⟩ := mem_gcObjList_unlist ends.valid member
      exact ⟨ends.shrinks.listed p member', other⟩
    · obtain ⟨member', other⟩ := mem_tmpObjList_unlist ends.valid member
      exact ⟨ends.shrinks.garbage p member', other⟩
    · exact .inl (ends.shrinks.zeroes removing p ((mem_zero_unlist ends.valid).mp member).1)

-- What the functions of `free_gc_object` have in common.
theorem main_ends {release : JSGCObject → Collecting Unit} (valid : rt.Valid outside)
    (settled : Settled phase busy rt) (found : rt.heap q = some o)
    (main : o.gcObjType.isMain = true) (unmarked : o.freeMark = false) (free : q ∉ busy)
    (count : phase = .removeCycles ∨ o.refCount = 0) (low : o' = { o with freeMark := true })
    (releases : ∀ {rt' : JSRuntime},
      (∀ part, ∀ c ∈ o'.part part, ∀ child, rt'.heap c = some child →
        admits o.gcObjType part child.gcObjType = true) →
        Effect.Triple (After phase (q :: busy) (o'.children ++ outside) rt') (release o')
          (fun _ => After phase (q :: busy) outside rt') fun _ _ => False) :
    Effect.Triple (· = (rt.logged q).put q o') (do
        let o ← take q
        release o
        freeStructure q)
      (fun _ rt' => rt'.Valid outside ∧ Settled phase busy rt' ∧ Loses phase q rt rt') fun _ _ =>
        False := by
  have type : o'.gcObjType = o.gcObjType := by rw [low]
  have parts : ∀ part, o'.part part = o.part part := by
    intro part
    rw [low]
    cases part <;> rfl
  refine take_bind put_self ?_
  have emptied : ((rt.logged q).put q o').put q o'.emptied = (rt.logged q).put q o'.emptied := by
    unfold JSRuntime.put
    dsimp only
    rw [Function.update_idem]
  rw [emptied]
  have moved : (o'.emptied.children ++ (o'.children ++ outside)).Perm (o.children ++ outside) := by
    rw [children_emptied, List.nil_append, children_of_parts parts]
  have valid' : ((rt.logged q).put q o'.emptied).Valid (o'.children ++ outside) := by
    refine valid.logged.exchanged found type (by rw [low]; rfl) moved fun part c member => ?_
    rw [part_emptied] at member
    exact absurd member List.not_mem_nil
  have settled' : Settled phase (q :: busy) ((rt.logged q).put q o'.emptied) := by
    refine settled.logged.begun found type (by rw [low]; rfl) rfl ?_ fun collecting => ?_
    · rcases count with removing | zero
      · exact .inl ⟨removing, main⟩
      · exact .inr (by rw [low]; exact zero)
    · rw [low]
      exact settled.zero collecting q o found
  have logged : (rt.logged q).Valid outside := valid.logged
  have typed := logged.typed_emptied found type parts
  refine Effect.Triple.bind
    ((releases typed).weaken (fun rt' same => ?_) (fun _ _ ends => ends) fun _ _ never => never)
    fun _ => Effect.Triple.each fun rt' ends => ?_
  · subst same
    exact ⟨valid', settled', Shrinks.refl⟩
  · exact freeStructure_loses ends found main unmarked free type (by rw [low]; rfl)

theorem After.reordered {outside' : List Nat} (ends : After phase busy outside rt rt')
    (same : outside.Perm outside') : After phase busy outside' rt rt' :=
  ⟨ends.valid.reordered same, ends.settled, ends.shrinks⟩

section
variable {collect : Collecting Unit}

theorem freeGcObject_loses (within : phase ≠ .none) (valid : rt.Valid outside)
    (settled : Settled phase busy rt) (found : rt.heap q = some o)
    (main : o.gcObjType.isMain = true) (unmarked : o.freeMark = false) (free : q ∉ busy)
    (count : phase = .removeCycles ∨ o.refCount = 0) :
    Effect.Triple (· = rt) (freeGcObject collect q)
      (fun _ rt' => rt'.Valid outside ∧ Settled phase busy rt' ∧ Loses phase q rt rt') fun _ _ =>
        False := by
  have collects : phase = .none → Collects collect := fun top => absurd top within
  unfold freeGcObject
  refine Effect.Triple.modify_bind (load_bind found (Effect.Triple.modify_bind ?_))
  show Effect.Triple (· = (rt.logged q).put q _) _ _ _
  cases type : o.gcObjType with
  | jsObject =>
    have ends := @main_ends rt outside q o _ phase busy (fun o => do
        Effect.forEach (freeReference collect) o.fields
        Effect.forEach (jsFreeShape collect) o.header
        Effect.forEach (freeReference collect) o.data) valid settled found main unmarked free
          count rfl ?_
    · simp only [bind_assoc] at ends
      rw [type] at ends
      exact ends
    intro rt' typed
    have order : (o.children ++ outside).Perm (o.fields ++ (o.header ++ (o.data ++ outside))) := by
      unfold JSGCObject.children
      rw [← List.append_assoc o.fields, ← List.append_assoc (o.fields ++ o.header),
        ← List.append_assoc o.header]
      exact (List.perm_append_comm.append_right _).append_right _
    refine Effect.Triple.bind (((freeReference_frees collects).forEach fun _ _ _ _ => rfl).weaken
      (fun _ start => After.reordered start order) (fun _ _ ends => ends) fun _ _ never =>
        never) fun _ => ?_
    refine Effect.Triple.bind
      ((jsFreeShape_frees collects).forEach fun c member child at_ => ?_) fun _ =>
      (freeReference_frees collects).forEach fun _ _ _ _ => rfl
    have fits := typed .header c member child at_
    rwa [type] at fits
  | functionBytecode =>
    have header : o.header = [] :=
      @JSRuntime.Valid.part_nil _ _ _ _ valid found .header fun t => by rw [type]; rfl
    have ends := @main_ends rt outside q o _ phase busy (fun o => do
        Effect.forEach (jsFreeValueRT collect) o.fields
        Effect.forEach (jsFreeContext collect) o.data) valid settled found main unmarked free
          count rfl ?_
    · simp only [bind_assoc] at ends
      rw [type] at ends
      exact ends
    intro rt' typed
    have order : o.children ++ outside = o.fields ++ (o.data ++ outside) := by
      unfold JSGCObject.children
      rw [header, List.nil_append, List.append_assoc]
    show Effect.Triple (After phase (q :: busy) (o.children ++ outside) rt') _ _ _
    rw [order]
    refine Effect.Triple.bind ((jsFreeValueRT_frees collects).forEach fun c member child at_ =>
      ?_) fun _ =>
      (jsFreeContext_frees collects).forEach fun c member child at_ => ?_
    · have fits := typed .fields c member child at_
      rw [type] at fits
      exact isMain_of_isValue fits
    · have fits := typed .data c member child at_
      rwa [type] at fits
  | asyncFunction =>
    have ends := @main_ends rt outside q o _ phase busy (fun o => do
        Effect.forEach (jsFreeValueRT collect) o.fields
        Effect.forEach (jsFreeValueRT collect) o.header
        Effect.forEach (jsFreeValueRT collect) o.data) valid settled found main unmarked free
          count rfl ?_
    · simp only [bind_assoc] at ends
      rw [type] at ends
      exact ends
    intro rt' typed
    have order : (o.children ++ outside).Perm (o.fields ++ (o.header ++ (o.data ++ outside))) := by
      unfold JSGCObject.children
      rw [← List.append_assoc o.fields, ← List.append_assoc (o.fields ++ o.header),
        ← List.append_assoc o.header]
      exact (List.perm_append_comm.append_right _).append_right _
    have values : ∀ part, ∀ c ∈ o.part part, ∀ child, rt'.heap c = some child →
        child.gcObjType.isMain = true := by
      intro part c member child at_
      have fits := typed part c (by cases part <;> exact member) child at_
      rw [type] at fits
      cases part <;> exact isMain_of_isValue fits
    refine Effect.Triple.bind (((jsFreeValueRT_frees collects).forEach (values .fields)).weaken
      (fun _ start => After.reordered start order) (fun _ _ ends => ends) fun _ _ never =>
        never) fun _ => ?_
    exact Effect.Triple.bind ((jsFreeValueRT_frees collects).forEach (values .header)) fun _ =>
      (jsFreeValueRT_frees collects).forEach (values .data)
  | module =>
    have ends := @main_ends rt outside q o _ phase busy (fun o => do
        Effect.forEach (jsFreeValueRT collect) o.header
        Effect.forEach (freeVarRef collect) o.fields
        Effect.forEach (jsFreeValueRT collect) o.data) valid settled found main unmarked free
          count rfl ?_
    · simp only [bind_assoc] at ends
      rw [type] at ends
      exact ends
    intro rt' typed
    have order : o.children ++ outside = o.header ++ (o.fields ++ (o.data ++ outside)) := by
      unfold JSGCObject.children
      rw [List.append_assoc, List.append_assoc]
    show Effect.Triple (After phase (q :: busy) (o.children ++ outside) rt') _ _ _
    rw [order]
    refine Effect.Triple.bind ((jsFreeValueRT_frees collects).forEach fun c member child at_ =>
      ?_) fun _ =>
      Effect.Triple.bind ((freeVarRef_frees collects).forEach fun c member child at_ => ?_) fun _ =>
      (jsFreeValueRT_frees collects).forEach fun c member child at_ => ?_
    · have fits := typed .header c member child at_
      rw [type] at fits
      exact isMain_of_isValue fits
    · have fits := typed .fields c member child at_
      rwa [type] at fits
    · have fits := typed .data c member child at_
      rw [type] at fits
      exact isMain_of_isValue fits
  | shape =>
    rw [type] at main
    cases main
  | varRef =>
    rw [type] at main
    cases main
  | jsContext =>
    rw [type] at main
    cases main

end

/-! ### All that waits -/

theorem Loses.shrinks (loses : Loses .decref q rt rt') :
    rt'.heap q = none ∧ Shrinks .decref rt rt' := by
  have gone : rt'.heap q = none :=
    loses.itself.resolve_right fun kept => JSGCPhase.noConfusion kept.1
  refine ⟨gone, fun p o' at_ => ?_, loses.once, fun p member => (loses.listed p member).1,
    fun p member => (loses.garbage p member).1, fun removing => JSGCPhase.noConfusion removing⟩
  by_cases same : p = q
  · subst same
    rw [gone] at at_
    cases at_
  · exact loses.object p o' same at_

theorem fewer (valid : rt.Valid outside) (valid' : rt'.Valid outside)
    (shrinks : Shrinks phase rt rt') (member : q ∈ rt.listed) (gone : rt'.heap q = none) :
    rt'.listed.length < rt.listed.length := by
  have inside : rt'.listed ⊆ rt.listed.erase q := by
    intro p listed
    obtain ⟨o', at_⟩ := (valid'.alive p).mp listed
    obtain ⟨o, before, -⟩ := shrinks.object p o' at_
    refine valid.nodup.mem_erase_iff.mpr ⟨?_, (valid.alive p).mpr ⟨o, before⟩⟩
    rintro rfl
    rw [gone] at at_
    cases at_
  have most := (List.subperm_of_subset valid'.nodup inside).length_le
  rw [List.length_erase_of_mem member] at most
  have := List.length_pos_of_mem member
  omega

-- Each round frees the object at the head of the list, so that there are no more rounds than
-- objects.
theorem freeZeroRounds_ends {fuel : Nat} (enough : rt.listed.length < fuel)
    (valid : rt.Valid outside) (settled : Settled .decref busy rt)
    (free : ∀ p ∈ busy, p ∉ rt.gcZeroRefCountList) :
    Effect.Triple (· = rt) (freeZeroRounds fuel)
      (fun _ rt' => After .decref busy outside rt rt' ∧ rt'.gcZeroRefCountList = []) fun _ _ =>
        False := by
  induction fuel generalizing rt with
  | zero => omega
  | succ fuel ih =>
    unfold freeZeroRounds
    refine Effect.Triple.get_bind ?_
    cases waiting : rt.gcZeroRefCountList with
    | nil =>
      refine Effect.Triple.pure () ?_
      rintro _ rfl
      exact ⟨⟨valid, settled, Shrinks.refl⟩, waiting⟩
    | cons p rest =>
      have member : p ∈ rt.gcZeroRefCountList := by rw [waiting]; exact List.mem_cons_self
      have listed : p ∈ rt.listed := List.mem_append_right _ (List.mem_append_left _ member)
      obtain ⟨o, found⟩ := (valid.alive p).mp listed
      obtain ⟨main, zero⟩ := (settled.zero JSGCPhase.noConfusion p o found).mp member
      have idle : p ∉ busy := fun taken => free p taken member
      have unmarked : o.freeMark = false := by
        rw [← Bool.not_eq_true]
        intro marked
        exact idle ((settled.live p o found marked).resolve_right fun removing =>
          JSGCPhase.noConfusion removing.1)
      refine load_bind found (Effect.Triple.bind (Q := fun _ rt' => rt' = rt)
        (Effect.Triple.check (fun _ same _ => same) fun _ _ wrong => ?_) fun _ => ?_)
      · rw [beq_iff_eq.mpr zero] at wrong
        cases wrong
      · refine Effect.Triple.bind
          (freeGcObject_loses JSGCPhase.noConfusion valid settled found main unmarked idle
            (.inr zero))
          fun _ => Effect.Triple.each fun rt' ends => ?_
        obtain ⟨valid', settled', loses⟩ := ends
        obtain ⟨gone, shrinks⟩ := loses.shrinks
        have less := fewer valid valid' shrinks listed gone
        have free' : ∀ p ∈ busy, p ∉ rt'.gcZeroRefCountList := by
          intro b taken waits
          obtain ⟨o', found', -⟩ := settled'.taken b taken
          obtain ⟨o₁, found₁, -, removing | zero₁⟩ := settled.taken b taken
          · exact JSGCPhase.noConfusion removing.1
          obtain ⟨o₂, found₂, type, -⟩ := shrinks.object b o' found'
          rw [found₁] at found₂
          obtain rfl := Option.some.inj found₂
          have main' := ((settled'.zero JSGCPhase.noConfusion b o' found').mp waits).1
          rw [type] at main'
          exact free b taken ((settled.zero JSGCPhase.noConfusion b o₁ found₁).mpr ⟨main', zero₁⟩)
        refine (ih (by omega) valid' settled' free').weaken (fun _ same => same)
          (fun _ _ ends => ⟨After.trans shrinks ends.1, ends.2⟩) fun _ _ never => never

theorem freeZeroRefcount_collects : Collects freeZeroRefcount := by
  intro busy outside rt valid settled free
  have valid' : (rt.inPhase .decref).Valid outside :=
    ⟨valid.nodup, valid.alive, valid.counts, valid.inside, valid.typed⟩
  unfold freeZeroRefcount
  refine Effect.Triple.modify_bind (Effect.Triple.get_bind ?_)
  refine Effect.Triple.bind (freeZeroRounds_ends (Nat.lt_succ_self _) valid' settled free) fun _ =>
    Effect.Triple.modify fun rt' ends => ?_
  obtain ⟨⟨valid, settled, shrinks⟩, empty⟩ := ends
  refine ⟨⟨valid.nodup, valid.alive, valid.counts, valid.inside, valid.typed⟩,
    ⟨rfl, fun p member => ?_, settled.used, fun _ => settled.zero JSGCPhase.noConfusion, fun _ =>
      empty, settled.unmarked, fun p o at_ marked => ?_⟩,
    ⟨shrinks.object, shrinks.once, shrinks.listed, shrinks.garbage, fun removing =>
      JSGCPhase.noConfusion removing⟩⟩
  · obtain ⟨o, found, none, removing | zero⟩ := settled.taken p member
    · exact JSGCPhase.noConfusion removing.1
    · exact ⟨o, found, none, .inr zero⟩
  · exact .inl ((settled.live p o at_ marked).resolve_right fun removing =>
      JSGCPhase.noConfusion removing.1)

-- A reference is given up while nothing is being freed.
theorem freeReference_ends (valid : rt.Valid (q :: outside)) (settled : Settled .none [] rt) :
    Effect.Triple (· = rt) (freeReference freeZeroRefcount q)
      (fun _ => After .none [] outside rt) fun _ _ => False := by
  obtain ⟨o, found⟩ := valid.root List.mem_cons_self
  exact freeReference_frees (fun _ => freeZeroRefcount_collects) valid settled found rfl

end QuickJSBun.Engine.Garbage
