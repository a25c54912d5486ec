import QuickJSBun.Engine.GarbageCounted

/-! What giving a reference up does to a heap whose counts are right. Nothing fails, the counts stay right, what
is still referred to keeps its references, and what is not referred to any more has gone when no phase is left.
-/

set_option autoImplicit false

namespace QuickJSBun.Engine.Garbage

open QuickJSBun.Library

variable {rt rt' rt'' : JSRuntime} {outside : List Nat} {p q : Nat} {o o' : JSGCObject}
    {phase : JSGCPhase} {busy : List Nat}

/-- `busy` are the objects that are being freed: they have no references of their own any more.
Other objects with count zero wait in `gc_zero_ref_count_list`, unless cycles are removed, when they
are freed in turn anyway. -/
structure Settled (phase : JSGCPhase) (busy : List Nat) (rt : JSRuntime) : Prop where
  current : rt.gcPhase = phase
  taken : ∀ p ∈ busy, ∃ o, rt.heap p = some o ∧ o.children = [] ∧
    (phase = .removeCycles ∧ o.gcObjType.isMain = true ∨ o.refCount = 0)
  used : ∀ p o, rt.heap p = some o → o.gcObjType.isMain = false → p ∉ busy → 0 < o.refCount
  zero : phase ≠ .removeCycles → ∀ p o, rt.heap p = some o →
    (p ∈ rt.gcZeroRefCountList ↔ o.gcObjType.isMain = true ∧ o.refCount = 0)
  idle : phase = .none → rt.gcZeroRefCountList = []
  unmarked : ∀ p ∈ rt.gcObjList, ∀ o, rt.heap p = some o → o.mark = false
  live : ∀ p o, rt.heap p = some o → o.freeMark = true →
    p ∈ busy ∨ phase = .removeCycles ∧ p ∈ rt.gcZeroRefCountList

/-- 1 for what `free_gc_object` will still take. -/
def standing (rt : JSRuntime) (p : Nat) : Nat :=
  match rt.heap p with
  | some o => if o.gcObjType.isMain = true ∧ o.freeMark = false then 1 else 0
  | none => 0

/-- Objects go, and the others keep their references. What goes through `free_gc_object` does so
once. -/
structure Shrinks (phase : JSGCPhase) (rt rt' : JSRuntime) : Prop where
  object : ∀ p o', rt'.heap p = some o' → ∃ o, rt.heap p = some o ∧ o'.gcObjType = o.gcObjType ∧
    o'.freeMark = o.freeMark ∧ ∀ part, o'.part part = o.part part
  once : ∀ p, rt'.finalized.count p + standing rt' p = rt.finalized.count p + standing rt p
  listed : ∀ p ∈ rt'.gcObjList, p ∈ rt.gcObjList
  garbage : ∀ p ∈ rt'.tmpObjList, p ∈ rt.tmpObjList
  zeroes : phase = .removeCycles → ∀ p ∈ rt'.gcZeroRefCountList, p ∈ rt.gcZeroRefCountList

theorem Shrinks.refl : Shrinks phase rt rt :=
  ⟨fun _ o' found => ⟨o', found, rfl, rfl, fun _ => rfl⟩, fun _ => rfl, fun _ member =>
    member, fun _ member => member, fun _ _ member => member⟩

theorem Shrinks.trans (first : Shrinks phase rt rt') (second : Shrinks phase rt' rt'') :
    Shrinks phase rt rt'' := by
  refine ⟨fun p o'' found => ?_, fun p => (second.once p).trans (first.once p),
    fun p member => first.listed p (second.listed p member), fun p member =>
      first.garbage p (second.garbage p member),
    fun removing p member => first.zeroes removing p (second.zeroes removing p member)⟩
  obtain ⟨o', found', type', mark', same'⟩ := second.object p o'' found
  obtain ⟨o, found, type, mark, same⟩ := first.object p o' found'
  exact ⟨o, found, type'.trans type, mark'.trans mark, fun part => (same' part).trans (same part)⟩

theorem standing_of_heap (found : rt.heap p = some o) :
    standing rt p = if o.gcObjType.isMain = true ∧ o.freeMark = false then 1 else 0 := by
  unfold standing
  rw [found]

theorem standing_congr (same : rt'.heap p = rt.heap p) : standing rt' p = standing rt p := by
  unfold standing
  rw [same]

-- Another object in its place, which was and is not about to be freed, or both was and is.
theorem standing_put (found : rt.heap q = some o) (type : o'.gcObjType = o.gcObjType)
    (mark : o'.freeMark = o.freeMark) : standing (rt.put q o') p = standing rt p := by
  by_cases same : p = q
  · subst same
    rw [standing_of_heap put_self, standing_of_heap found, type, mark]
  · exact standing_congr (put_of_ne same)

theorem Shrinks.put (found : rt.heap q = some o) (type : o'.gcObjType = o.gcObjType)
    (mark : o'.freeMark = o.freeMark) (parts : ∀ part, o'.part part = o.part part) :
    Shrinks phase rt (rt.put q o') := by
  refine ⟨fun p o'' at_ => ?_, fun p => ?_, fun _ member => member, fun _ member =>
    member, fun _ _ member => member⟩
  · rcases heap_put at_ with ⟨rfl, rfl⟩ | ⟨-, before⟩
    · exact ⟨o, found, type, mark, parts⟩
    · exact ⟨o'', before, rfl, rfl, fun _ => rfl⟩
  · rw [standing_put found type mark]
    rfl

-- What is being freed is not what a reference is given up of, as far as counts matter.
theorem Settled.free_to_count (settled : Settled phase busy rt) (found : rt.heap q = some o)
    (counted : 0 < o.refCount) : q ∉ busy ∨ phase = .removeCycles ∧ o.gcObjType.isMain = true := by
  by_cases member : q ∈ busy
  · obtain ⟨o', found', -, removing | zero⟩ := settled.taken q member
    · rw [found] at found'
      obtain rfl := Option.some.inj found'
      exact .inr removing
    · rw [found] at found'
      obtain rfl := Option.some.inj found'
      omega
  · exact .inl member

theorem Settled.counted {n : Int} (settled : Settled phase busy rt) (found : rt.heap q = some o)
    (counted : 0 < o.refCount) (still : 0 < n ∨ phase = .removeCycles ∧ o.gcObjType.isMain = true) :
    Settled phase busy (rt.put q { o with refCount := n }) := by
  refine ⟨settled.current, fun p member => ?_, fun p o' at_ type idle =>
    ?_, fun collecting p o' at_ => ?_, settled.idle,
    fun p member o' at_ => ?_, fun p o' at_ freed => ?_⟩
  · by_cases same : p = q
    · subst same
      obtain free | removing := settled.free_to_count found counted
      · exact absurd member free
      obtain ⟨o', found', none, -⟩ := settled.taken p member
      rw [found] at found'
      obtain rfl := Option.some.inj found'
      exact ⟨_, put_self, none, .inl removing⟩
    · obtain ⟨o', found', rest⟩ := settled.taken p member
      exact ⟨o', by rwa [put_of_ne same], rest⟩
  · rcases heap_put at_ with ⟨rfl, rfl⟩ | ⟨-, before⟩
    · rcases still with positive | ⟨-, main⟩
      · exact positive
      · rw [show o.gcObjType.isMain = false from type] at main
        cases main
    · exact settled.used p o' before type idle
  · have before := settled.zero collecting
    rcases heap_put at_ with ⟨rfl, rfl⟩ | ⟨-, at_⟩
    · have positive : 0 < n := still.resolve_right fun removing => collecting removing.1
      refine (before p o found).trans (iff_of_false (fun both => ?_) fun both => ?_)
      · omega
      · have : n = 0 := both.2
        omega
    · exact before p o' at_
  · rcases heap_put at_ with ⟨rfl, rfl⟩ | ⟨-, before⟩
    · exact settled.unmarked p member o found
    · exact settled.unmarked p member o' before
  · rcases heap_put at_ with ⟨rfl, rfl⟩ | ⟨-, before⟩
    · exact settled.live p o found freed
    · exact settled.live p o' before freed

/-! ### One reference -/

/-- What a function that gives references up leaves of `rt`. -/
structure After (phase : JSGCPhase) (busy outside : List Nat) (rt rt' : JSRuntime) : Prop where
  valid : rt'.Valid outside
  settled : Settled phase busy rt'
  shrinks : Shrinks phase rt rt'

theorem After.trans (first : Shrinks phase rt rt') (second : After phase busy outside rt' rt'') :
    After phase busy outside rt rt'' :=
  ⟨second.valid, second.settled, first.trans second.shrinks⟩

-- A reference to an object of a type in question is given up.
def Frees (phase : JSGCPhase) (takes : JSGCObjectType → Bool) (f : Nat → Collecting Unit) : Prop :=
  ∀ ⦃busy outside : List Nat⦄ ⦃q : Nat⦄ ⦃o : JSGCObject⦄ ⦃rt : JSRuntime⦄, rt.Valid (q :: outside) →
    Settled phase busy rt → rt.heap q = some o → takes o.gcObjType = true →
    Effect.Triple (· = rt) (f q) (fun _ => After phase busy outside rt) fun _ _ => False

/-- What `free_zero_refcount` does, where it is called. -/
def Collects (collect : Collecting Unit) : Prop :=
  ∀ ⦃busy outside : List Nat⦄ ⦃rt : JSRuntime⦄, rt.Valid outside →
    Settled .decref busy (rt.inPhase .decref) → (∀ p ∈ busy, p ∉ rt.gcZeroRefCountList) →
    Effect.Triple (· = rt) collect (fun _ => After .none busy outside rt) fun _ _ => False

section
variable {post : Unit → JSRuntime → Prop} {α : Type} {ends : α → JSRuntime → Prop}
    {fails : Failure → JSRuntime → Prop}

theorem load_bind {f : JSGCObject → Collecting α} (found : rt.heap p = some o)
    (continues : Effect.Triple (· = rt) (f o) ends fails) :
    Effect.Triple (· = rt) (load p >>= f) ends fails := by
  rintro rt rfl
  have loaded : (load p).run rt = (.ok o, rt) := by
    show (match rt.heap p with
      | some o => (Pure.pure o : Collecting JSGCObject)
      | none => Effect.throw .freed).run rt = _
    rw [found]
    rfl
  rw [Effect.bind_ok loaded]
  exact continues rt rfl

theorem lower_bind {f : Int → Collecting α} (found : rt.heap p = some o)
    (continues : Effect.Triple (· = rt.put p { o with refCount := o.refCount - 1 })
      (f (o.refCount - 1)) ends fails) :
    Effect.Triple (· = rt) (lower p >>= f) ends fails := by
  unfold lower
  rw [bind_assoc]
  refine load_bind found ?_
  rw [bind_assoc]
  exact Effect.Triple.modify_bind continues

theorem take_bind {f : JSGCObject → Collecting α} (found : rt.heap p = some o)
    (continues : Effect.Triple (· = rt.put p o.emptied) (f o) ends fails) :
    Effect.Triple (· = rt) (take p >>= f) ends fails := by
  unfold take
  rw [bind_assoc]
  refine load_bind found ?_
  rw [bind_assoc]
  exact Effect.Triple.modify_bind continues

end

theorem Frees.forEach {takes : JSGCObjectType → Bool} {f : Nat → Collecting Unit} {items : List Nat}
    (frees : Frees phase takes f)
    (typed : ∀ c ∈ items, ∀ o, rt.heap c = some o → takes o.gcObjType = true) :
    Effect.Triple (After phase busy (items ++ outside) rt) (Effect.forEach f items)
      (fun _ => After phase busy outside rt)
      fun _ _ => False := by
  induction items with
  | nil => exact Effect.Triple.pure () fun _ ends => ends
  | cons c rest ih =>
    refine Effect.Triple.bind (Q := fun _ => After phase busy (rest ++ outside) rt)
      (Effect.Triple.each fun rt' before => ?_)
      fun _ => ih fun c' member => typed c' (List.mem_cons_of_mem _ member)
    obtain ⟨o', found⟩ := before.valid.root List.mem_cons_self
    obtain ⟨o, found₀, type, -⟩ := before.shrinks.object c o' found
    have takes' := typed c List.mem_cons_self o found₀
    rw [← type] at takes'
    exact (frees before.valid before.settled found takes').weaken (fun _ same => same)
      (fun _ _ ends => After.trans before.shrinks ends) fun _ _ never => never

/-- The list of zero counts gets an object at its head, which is taken from where it was. -/
def JSRuntime.toZero (rt : JSRuntime) (p : Nat) : JSRuntime :=
  { rt.unlist p with gcZeroRefCountList := p :: (rt.unlist p).gcZeroRefCountList }

theorem toZero_listed (valid : rt.Valid outside) (found : rt.heap p = some o) :
    (rt.toZero p).listed.Perm rt.listed := by
  have moved : (rt.toZero p).listed.Perm (p :: (rt.unlist p).listed) := List.perm_middle
  rw [listed_unlist valid.nodup] at moved
  exact moved.trans (List.perm_cons_erase ((valid.alive p).mpr ⟨o, found⟩)).symm

theorem mem_gcObjList_unlist (valid : rt.Valid outside) (member : q ∈ (rt.unlist p).gcObjList) :
    q ∈ rt.gcObjList ∧ q ≠ p := by
  have nodup : rt.gcObjList.Nodup := (List.nodup_append.mp valid.nodup).1
  exact (nodup.mem_erase_iff.mp member).symm

theorem mem_zero_unlist (valid : rt.Valid outside) :
    q ∈ (rt.unlist p).gcZeroRefCountList ↔ q ∈ rt.gcZeroRefCountList ∧ q ≠ p := by
  have nodup : rt.gcZeroRefCountList.Nodup :=
    (List.nodup_append.mp (List.nodup_append.mp valid.nodup).2.1).1
  exact nodup.mem_erase_iff.trans and_comm

theorem mem_tmpObjList_unlist (valid : rt.Valid outside) (member : q ∈ (rt.unlist p).tmpObjList) :
    q ∈ rt.tmpObjList ∧ q ≠ p := by
  have nodup : rt.tmpObjList.Nodup :=
    (List.nodup_append.mp (List.nodup_append.mp valid.nodup).2.1).2.1
  exact (nodup.mem_erase_iff.mp member).symm

section
variable {mark : Bool}

-- The last reference to an object was given up, which now waits for `free_zero_refcount`.
theorem Settled.zeroed (settled : Settled phase busy rt) (valid : rt.Valid (q :: outside))
    (found : rt.heap q = some o) (main : o.gcObjType.isMain = true) (last : o.refCount - 1 = 0)
    (collecting : phase ≠ .removeCycles) :
    Settled .decref busy
      (((rt.toZero q).put q { o with refCount := o.refCount - 1, mark }).inPhase .decref) := by
  have free : q ∉ busy :=
    (settled.free_to_count found (by omega)).resolve_right fun removing => collecting removing.1
  refine ⟨rfl, fun p member => ?_, fun p o' at_ aux idle => ?_, fun _ p o' at_ => ?_,
    fun top => (by cases top), fun p member o' at_ => ?_, fun p o' at_ freed => ?_⟩
  · have other : p ≠ q := fun same => free (same ▸ member)
    obtain ⟨o', found', none, removing | zero⟩ := settled.taken p member
    · exact absurd removing.1 collecting
    · exact ⟨o', (put_of_ne other).trans found', none, .inr zero⟩
  · rcases heap_put at_ with ⟨rfl, rfl⟩ | ⟨-, before⟩
    · rw [show o.gcObjType.isMain = false from aux] at main
      cases main
    · exact settled.used p o' before aux idle
  · have listed : p ∈ (rt.toZero q).gcZeroRefCountList ↔ p = q ∨
        p ∈ rt.gcZeroRefCountList ∧ p ≠ q :=
      List.mem_cons.trans (or_congr_right (mem_zero_unlist valid))
    refine listed.trans ?_
    rcases heap_put at_ with ⟨rfl, rfl⟩ | ⟨other, before⟩
    · exact iff_of_true (.inl rfl) ⟨main, last⟩
    · rw [or_iff_right other, and_iff_left other]
      exact settled.zero collecting p o' before
  · obtain ⟨member', other⟩ := mem_gcObjList_unlist valid member
    exact settled.unmarked p member' o' ((put_of_ne other).symm.trans at_)
  · rcases heap_put at_ with ⟨rfl, rfl⟩ | ⟨-, before⟩
    · exact .inl ((settled.live p o found freed).resolve_right fun removing =>
        collecting removing.1)
    · exact .inl ((settled.live p o' before freed).resolve_right fun removing =>
        collecting removing.1)

theorem Shrinks.zeroed (valid : rt.Valid outside) (found : rt.heap q = some o)
    (collecting : phase ≠ .removeCycles) {n : Int} :
    Shrinks phase rt ((rt.toZero q).put q { o with refCount := n, mark }) := by
  have put := @Shrinks.put rt q o { o with refCount := n, mark } phase found rfl rfl fun part => by
    cases part <;> rfl
  exact ⟨put.object, put.once, fun p member => (mem_gcObjList_unlist valid member).1,
    fun p member => (mem_tmpObjList_unlist valid member).1, fun removing =>
      absurd removing collecting⟩

theorem JSRuntime.Valid.zeroed (valid : rt.Valid (q :: outside)) (found : rt.heap q = some o) :
    ((rt.toZero q).put q { o with refCount := o.refCount - 1, mark }).Valid outside := by
  refine (valid.lowered found).relisted (toZero_listed valid found) fun p => ?_
  by_cases same : p = q
  · subst same
    exact .inr ⟨_, _, put_self, put_self, rfl, rfl, fun part => by cases part <;> rfl⟩
  · rw [put_of_ne same, put_of_ne same]
    rw [show (rt.toZero q).heap p = rt.heap p from rfl]
    cases before : rt.heap p with
    | none => exact .inl ⟨rfl, rfl⟩
    | some o' => exact .inr ⟨o', o', rfl, rfl, rfl, rfl, fun _ => rfl⟩

end

-- What is not freed at once stays as it is, up to its count.
theorem After.counted (valid : rt.Valid (q :: outside)) (settled : Settled phase busy rt)
    (found : rt.heap q = some o)
    (still : 0 < o.refCount - 1 ∨ phase = .removeCycles ∧ o.gcObjType.isMain = true) :
    After phase busy outside rt (rt.put q { o with refCount := o.refCount - 1 }) :=
  ⟨valid.lowered found, settled.counted found (valid.count_pos List.mem_cons_self found) still,
    Shrinks.put found rfl rfl fun part => by cases part <;> rfl⟩

section
variable {collect : Collecting Unit}

-- Outside of all phases the objects that wait are freed at once.
theorem zeroed_ends {mark : Bool} (collects : phase = .none → Collects collect)
    (valid : rt.Valid (q :: outside)) (settled : Settled phase busy rt) (found : rt.heap q = some o)
    (main : o.gcObjType.isMain = true) (last : o.refCount - 1 = 0)
    (collecting : phase ≠ .removeCycles) :
    Effect.Triple (· = (rt.toZero q).put q { o with refCount := o.refCount - 1, mark })
      (if phase = .none then collect else Pure.pure ())
        (fun _ => After phase busy outside rt) fun _ _ => False := by
  have valid' : _ := @JSRuntime.Valid.zeroed rt outside q o mark valid found
  have shrinks : Shrinks phase rt _ :=
    @Shrinks.zeroed rt (q :: outside) q o phase mark valid found collecting (o.refCount - 1)
  have settled' :=
    @Settled.zeroed rt outside q o phase busy mark settled valid found main last collecting
  cases phase with
  | none =>
    have free : q ∉ busy :=
      (settled.free_to_count found (by omega)).resolve_right fun removing => collecting removing.1
    rw [if_pos rfl]
    refine (collects rfl valid' settled' fun p member => ?_).weaken (fun _ same => same)
      (fun _ _ ends => After.trans shrinks ends) fun _ _ never => never
    have alone :
        ((rt.toZero q).put q { o with refCount := o.refCount - 1, mark }).gcZeroRefCountList =
          [q] := by
      show q :: rt.gcZeroRefCountList.erase q = [q]
      rw [settled.idle rfl]
      rfl
    rw [alone, List.mem_singleton]
    exact fun same => free (same ▸ member)
  | decref =>
    rw [if_neg JSGCPhase.noConfusion]
    refine Effect.Triple.pure () ?_
    rintro _ rfl
    have stays : ((rt.toZero q).put q { o with refCount := o.refCount - 1, mark }).inPhase .decref =
        (rt.toZero q).put q { o with refCount := o.refCount - 1, mark } := by
      unfold JSRuntime.inPhase JSRuntime.put JSRuntime.toZero JSRuntime.unlist
      rw [← settled.current]
    rw [stays] at settled'
    exact ⟨valid', settled', shrinks⟩
  | removeCycles => exact absurd rfl collecting

theorem jsFreeValueRT_frees (collects : phase = .none → Collects collect) :
    Frees phase JSGCObjectType.isMain (jsFreeValueRT collect) := by
  intro busy outside q o rt valid settled found main
  unfold jsFreeValueRT
  refine lower_bind found ?_
  have counted := valid.count_pos List.mem_cons_self found
  by_cases last : o.refCount - 1 ≤ 0
  · rw [if_pos last]
    unfold jsFreeValueRT0
    refine Effect.Triple.get_bind ?_
    rw [show (rt.put q { o with refCount := o.refCount - 1 }).gcPhase = phase from settled.current]
    by_cases collecting : phase ≠ .removeCycles
    · rw [if_pos collecting]
      refine Effect.Triple.modify_bind
        (Effect.Triple.modify_bind (load_bind put_self (Effect.Triple.modify_bind ?_)))
      have same : ((rt.put q { o with refCount := o.refCount - 1 }).toZero q).put q
          { o with refCount := o.refCount - 1, mark := true } =
          (rt.toZero q).put q { o with refCount := o.refCount - 1, mark := true } := by
        unfold JSRuntime.put JSRuntime.toZero JSRuntime.unlist
        dsimp only
        rw [Function.update_idem]
      show Effect.Triple
          (· = ((rt.put q { o with refCount := o.refCount - 1 }).toZero q).put q _) _ _ _
      rw [same]
      exact zeroed_ends collects valid settled found main (by omega) collecting
    · rw [if_neg collecting]
      refine Effect.Triple.pure () ?_
      rintro _ rfl
      exact After.counted valid settled found (.inr ⟨not_not.mp collecting, main⟩)
  · rw [if_neg last]
    refine Effect.Triple.pure () ?_
    rintro _ rfl
    exact After.counted valid settled found (.inl (by omega))

theorem asyncFuncFree_frees (collects : phase = .none → Collects collect) :
    Frees phase JSGCObjectType.isMain (asyncFuncFree collect) := by
  intro busy outside q o rt valid settled found main
  unfold asyncFuncFree
  refine lower_bind found ?_
  have counted := valid.count_pos List.mem_cons_self found
  by_cases last : o.refCount - 1 = 0
  · rw [if_pos last]
    refine Effect.Triple.get_bind ?_
    rw [show (rt.put q { o with refCount := o.refCount - 1 }).gcPhase = phase from settled.current]
    by_cases collecting : phase ≠ .removeCycles
    · rw [if_pos collecting]
      refine Effect.Triple.modify_bind (Effect.Triple.modify_bind ?_)
      exact @zeroed_ends _ _ _ _ _ _ _ o.mark collects valid settled found main last collecting
    · rw [if_neg collecting]
      refine Effect.Triple.pure () ?_
      rintro _ rfl
      exact After.counted valid settled found (.inr ⟨not_not.mp collecting, main⟩)
  · rw [if_neg last]
    refine Effect.Triple.pure () ?_
    rintro _ rfl
    exact After.counted valid settled found (.inl (by omega))

theorem freeReferent_frees (collects : phase = .none → Collects collect) :
    Frees phase JSGCObjectType.isMain (freeReferent collect) := by
  intro busy outside q o rt valid settled found main
  unfold freeReferent
  refine load_bind found ?_
  split
  · exact asyncFuncFree_frees collects valid settled found main
  · exact jsFreeValueRT_frees collects valid settled found main

end

/-! ### One object -/

-- An object starts to be freed, and has no references of its own from then on.
theorem Settled.begun (settled : Settled phase busy rt) (found : rt.heap q = some o)
    (type : o'.gcObjType = o.gcObjType) (mark : o'.mark = o.mark) (none : o'.children = [])
    (count : phase = .removeCycles ∧ o.gcObjType.isMain = true ∨ o'.refCount = 0)
    (zero : phase ≠ .removeCycles →
      (q ∈ rt.gcZeroRefCountList ↔ o.gcObjType.isMain = true ∧ o'.refCount = 0)) :
    Settled phase (q :: busy) (rt.put q o') := by
  refine ⟨settled.current, fun p member => ?_, fun p o'' at_ aux idle =>
    ?_, fun collecting p o'' at_ => ?_, settled.idle,
    fun p member o'' at_ => ?_, fun p o'' at_ freed => ?_⟩
  · by_cases same : p = q
    · subst same
      exact ⟨o', put_self, none, by rwa [type]⟩
    · obtain ⟨o'', found', rest⟩ := settled.taken p (List.mem_of_ne_of_mem same member)
      exact ⟨o'', by rwa [put_of_ne same], rest⟩
  · rcases heap_put at_ with ⟨rfl, -⟩ | ⟨-, before⟩
    · exact absurd List.mem_cons_self idle
    · exact settled.used p o'' before aux fun member => idle (List.mem_cons_of_mem _ member)
  · rcases heap_put at_ with ⟨rfl, rfl⟩ | ⟨-, before⟩
    · rw [type]
      exact zero collecting
    · exact settled.zero collecting p o'' before
  · rcases heap_put at_ with ⟨rfl, rfl⟩ | ⟨-, before⟩
    · rw [mark]
      exact settled.unmarked p member o found
    · exact settled.unmarked p member o'' before
  · rcases heap_put at_ with ⟨rfl, rfl⟩ | ⟨-, before⟩
    · exact .inl List.mem_cons_self
    · exact (settled.live p o'' before freed).imp_left (List.mem_cons_of_mem _)

theorem Settled.ended (settled : Settled phase (q :: busy) rt) (valid : rt.Valid outside)
    (free : q ∉ busy) : Settled phase busy ((rt.unlist q).free q) := by
  have before : ∀ p o', ((rt.unlist q).free q).heap p = some o' → p ≠ q ∧ rt.heap p = some o' := by
    intro p o' at_
    by_cases same : p = q
    · subst same
      rw [free_self] at at_
      cases at_
    · exact ⟨same, (free_of_ne same).symm.trans at_⟩
  refine ⟨settled.current, fun p member => ?_, fun p o' at_ aux idle =>
    ?_, fun collecting p o' at_ => ?_, fun top => ?_,
    fun p member o' at_ => ?_, fun p o' at_ freed => ?_⟩
  · have other : p ≠ q := fun same => free (same ▸ member)
    obtain ⟨o', found, rest⟩ := settled.taken p (List.mem_cons_of_mem _ member)
    exact ⟨o', (free_of_ne other).trans found, rest⟩
  · obtain ⟨other, found⟩ := before p o' at_
    exact settled.used p o' found aux fun member => idle (List.mem_of_ne_of_mem other member)
  · obtain ⟨other, found⟩ := before p o' at_
    refine ((mem_zero_unlist valid).trans ?_).trans (settled.zero collecting p o' found)
    rw [and_iff_left other]
  · show rt.gcZeroRefCountList.erase q = []
    rw [settled.idle top]
    rfl
  · exact settled.unmarked p (mem_gcObjList_unlist valid member).1 o' (before p o' at_).2
  · obtain ⟨other, found⟩ := before p o' at_
    rcases settled.live p o' found freed with member | ⟨removing, member⟩
    · exact .inl (List.mem_of_ne_of_mem other member)
    · exact .inr ⟨removing, (mem_zero_unlist valid).mpr ⟨member, other⟩⟩

theorem JSRuntime.Valid.part_nil (valid : rt.Valid outside) (found : rt.heap p = some o)
    {part : Part} (never : ∀ t, admits o.gcObjType part t = false) : o.part part = [] := by
  refine List.eq_nil_iff_forall_not_mem.mpr fun c member => ?_
  obtain ⟨child, at_⟩ := valid.kid found (mem_part member)
  have fits := valid.typed p o found part c member child at_
  rw [never] at fits
  cases fits

-- What is left of an object that was freed with its count zero, by functions that only shrink the
-- heap.
theorem Shrinks.ended {release : Shrinks phase (rt.put q o') rt'} (valid : rt'.Valid outside)
    (found : rt.heap q = some o) (aux : o.gcObjType.isMain = false)
    (type : o'.gcObjType = o.gcObjType) : Shrinks phase rt ((rt'.unlist q).free q) := by
  have unlike : ¬(o'.gcObjType.isMain = true ∧ o'.freeMark = false) := fun both => by
    rw [type, aux] at both
    exact Bool.false_ne_true both.1
  refine ⟨fun p o₁ at_ => ?_, fun p => ?_, fun p member =>
    release.listed p (mem_gcObjList_unlist valid member).1,
    fun p member => release.garbage p (mem_tmpObjList_unlist valid member).1,
    fun removing p member => release.zeroes removing p ((mem_zero_unlist valid).mp member).1⟩
  · by_cases same : p = q
    · subst same
      rw [free_self] at at_
      cases at_
    · obtain ⟨o₂, before, same'⟩ := release.object p o₁ ((free_of_ne same).symm.trans at_)
      rw [put_of_ne same] at before
      exact ⟨o₂, before, same'⟩
  · have once := release.once p
    by_cases same : p = q
    · subst same
      -- neither is nor was it anything that `free_gc_object` takes
      have now : standing ((rt'.unlist p).free p) p = 0 := by
        unfold standing
        rw [free_self]
      have then_ : standing rt p = 0 := by
        rw [standing_of_heap found,
          if_neg (fun both => by rw [aux] at both; exact Bool.false_ne_true both.1)]
      have meanwhile : standing (rt.put p o') p = 0 := by
        rw [standing_of_heap put_self, if_neg unlike]
      have later : standing rt' p = 0 := by
        cases at_ : rt'.heap p with
        | none =>
          unfold standing
          rw [at_]
        | some o₁ =>
          obtain ⟨o₂, before, type', -⟩ := release.object p o₁ at_
          rw [put_self] at before
          obtain rfl := Option.some.inj before
          rw [standing_of_heap at_, type',
            if_neg (fun both => by rw [type, aux] at both; exact Bool.false_ne_true both.1)]
      rw [now, then_]
      rw [later, meanwhile] at once
      exact once
    · rw [standing_congr (put_of_ne same)] at once
      rw [standing_congr (free_of_ne same)]
      exact once

-- The last reference to an object of the other types was given up.
theorem aux_ends {release : JSGCObject → Collecting Unit} (valid : rt.Valid (q :: outside))
    (settled : Settled phase busy rt) (found : rt.heap q = some o)
    (aux : o.gcObjType.isMain = false) (last : o.refCount - 1 = 0)
    (low : o' = { o with refCount := o.refCount - 1 })
    (releases : ∀ {rt' : JSRuntime},
      (∀ part, ∀ c ∈ o'.part part, ∀ child, rt'.heap c = some child →
        admits o.gcObjType part child.gcObjType = true) →
        Effect.Triple (After phase (q :: busy) (o'.children ++ outside) rt') (release o')
          (fun _ => After phase (q :: busy) outside rt') fun _ _ => False) :
    Effect.Triple (· = rt.put q o') (do
        let o ← take q
        release o
        listDel q
        jsFreeRt q)
      (fun _ => After phase busy outside rt) fun _ _ => False := by
  have free : q ∉ busy := (settled.free_to_count found (by omega)).resolve_right fun removing => by
    rw [aux] at removing
    exact Bool.false_ne_true removing.2
  have type : o'.gcObjType = o.gcObjType := by rw [low]
  have parts : ∀ part, o'.part part = o.part part := by
    intro part
    rw [low]
    cases part <;> rfl
  refine take_bind put_self ?_
  have emptied : (rt.put q o').put q o'.emptied = rt.put q o'.emptied := by
    unfold JSRuntime.put
    dsimp only
    rw [Function.update_idem]
  have lowered : (rt.put q o').Valid outside := by
    rw [low]
    exact valid.lowered found
  have valid' := lowered.taken put_self
  have settled' : Settled phase (q :: busy) (rt.put q o'.emptied) := by
    refine settled.begun found type (by rw [low]; rfl) rfl (.inr (by rw [low]; exact last))
      fun collecting => ?_
    refine (settled.zero collecting q o found).trans (iff_of_false ?_ ?_) <;>
    · rw [aux]
      exact fun both => Bool.false_ne_true both.1
  rw [emptied] at valid' ⊢
  have typed := valid.typed_emptied found type parts
  refine Effect.Triple.bind
    ((releases typed).weaken (fun rt' same => ?_) (fun _ _ ends => ends) fun _ _ never => never)
    fun _ => Effect.Triple.each fun rt' ends => ?_
  · subst same
    exact ⟨valid', settled', Shrinks.refl⟩
  · refine Effect.Triple.modify_bind (Effect.Triple.modify ?_)
    rintro _ rfl
    -- nobody has touched the object meanwhile
    obtain ⟨o₁, found', none, zero⟩ := ends.settled.taken q List.mem_cons_self
    obtain ⟨o₂, at_, type', -⟩ := ends.shrinks.object q o₁ found'
    rw [put_self] at at_
    obtain rfl := Option.some.inj at_
    have zero' : o₁.refCount = 0 := zero.resolve_left fun removing => by
      rw [type', show o'.emptied.gcObjType = o.gcObjType from type, aux] at removing
      exact Bool.false_ne_true removing.2
    exact ⟨ends.valid.freed found' none zero', ends.settled.ended ends.valid free,
      @Shrinks.ended rt rt' outside q o o'.emptied phase ends.shrinks ends.valid found aux type⟩

theorem isMain_of_isValue {t : JSGCObjectType} (value : t.isValue = true) : t.isMain = true := by
  cases t <;> first | rfl | cases value

section
variable {collect : Collecting Unit}

theorem jsFreeShape_frees (collects : phase = .none → Collects collect) :
    Frees phase (fun t => t == .shape) (jsFreeShape collect) := by
  intro busy outside q o rt valid settled found shape
  have type := beq_iff_eq.mp shape
  have aux : o.gcObjType.isMain = false := by rw [type]; rfl
  have fields : o.fields = [] :=
    @JSRuntime.Valid.part_nil _ _ _ _ valid found .fields fun t => by rw [type]; rfl
  have data : o.data = [] :=
    @JSRuntime.Valid.part_nil _ _ _ _ valid found .data fun t => by rw [type]; rfl
  unfold jsFreeShape
  refine lower_bind found ?_
  have counted := valid.count_pos List.mem_cons_self found
  by_cases last : o.refCount - 1 ≤ 0
  · rw [if_pos last]
    have zero : o.refCount - 1 = 0 := by omega
    refine Effect.Triple.bind
      (Q := fun _ rt' => rt' = rt.put q { o with refCount := o.refCount - 1 })
      (Effect.Triple.check (fun _ same _ => same) fun _ _ wrong => ?_) fun _ => ?_
    · rw [beq_iff_eq.mpr zero] at wrong
      cases wrong
    · refine @aux_ends _ _ _ _ _ _ _ (fun o => Effect.forEach (jsFreeValueRT collect) o.header)
        valid settled found aux zero rfl ?_
      intro rt' typed
      have children : JSGCObject.children { o with refCount := o.refCount - 1 } = o.header := by
        show o.header ++ (o.fields ++ o.data) = _
        rw [fields, data, List.append_nil, List.append_nil]
      rw [children]
      refine (jsFreeValueRT_frees collects).forEach fun c member child at_ => ?_
      have fits := typed .header c member child at_
      rw [type] at fits
      exact isMain_of_isValue fits
  · rw [if_neg last]
    refine Effect.Triple.pure () ?_
    rintro _ rfl
    exact After.counted valid settled found (.inl (by omega))

theorem freeVarRef_frees (collects : phase = .none → Collects collect) :
    Frees phase (fun t => t == .varRef) (freeVarRef collect) := by
  intro busy outside q o rt valid settled found varRef
  have type := beq_iff_eq.mp varRef
  have aux : o.gcObjType.isMain = false := by rw [type]; rfl
  have fields : o.fields = [] :=
    @JSRuntime.Valid.part_nil _ _ _ _ valid found .fields fun t => by rw [type]; rfl
  have data : o.data = [] :=
    @JSRuntime.Valid.part_nil _ _ _ _ valid found .data fun t => by rw [type]; rfl
  have counted := valid.count_pos List.mem_cons_self found
  unfold freeVarRef
  refine load_bind found ?_
  refine Effect.Triple.bind (Q := fun _ rt' => rt' = rt)
    (Effect.Triple.check (fun _ same _ => same) fun _ _ wrong => ?_)
    fun _ => lower_bind found ?_
  · exact of_decide_eq_false wrong counted
  by_cases last : o.refCount - 1 = 0
  · rw [if_pos last]
    refine @aux_ends _ _ _ _ _ _ _ (fun o => Effect.forEach (freeReferent collect) o.header) valid
      settled found aux last rfl ?_
    intro rt' typed
    have children : JSGCObject.children { o with refCount := o.refCount - 1 } = o.header := by
      show o.header ++ (o.fields ++ o.data) = _
      rw [fields, data, List.append_nil, List.append_nil]
    rw [children]
    refine (freeReferent_frees collects).forEach fun c member child at_ => ?_
    have fits := typed .header c member child at_
    rwa [type] at fits
  · rw [if_neg last]
    refine Effect.Triple.pure () ?_
    rintro _ rfl
    exact After.counted valid settled found (.inl (by omega))

theorem jsFreeContext_frees (collects : phase = .none → Collects collect) :
    Frees phase (fun t => t == .jsContext) (jsFreeContext collect) := by
  intro busy outside q o rt valid settled found context
  have type := beq_iff_eq.mp context
  have aux : o.gcObjType.isMain = false := by rw [type]; rfl
  have data : o.data = [] :=
    @JSRuntime.Valid.part_nil _ _ _ _ valid found .data fun t => by rw [type]; rfl
  unfold jsFreeContext
  refine lower_bind found ?_
  have counted := valid.count_pos List.mem_cons_self found
  by_cases more : 0 < o.refCount - 1
  · rw [if_pos more]
    refine Effect.Triple.pure () ?_
    rintro _ rfl
    exact After.counted valid settled found (.inl more)
  · rw [if_neg more]
    have zero : o.refCount - 1 = 0 := by omega
    refine Effect.Triple.bind
      (Q := fun _ rt' => rt' = rt.put q { o with refCount := o.refCount - 1 })
      (Effect.Triple.check (fun _ same _ => same) fun _ _ wrong => ?_) fun _ => ?_
    · rw [beq_iff_eq.mpr zero] at wrong
      cases wrong
    · have ends := @aux_ends rt outside q o _ phase busy (fun o => do
          Effect.forEach (jsFreeValueRT collect) o.header
          Effect.forEach (jsFreeShape collect) o.fields) valid settled found aux zero rfl ?_
      · simp only [bind_assoc] at ends
        exact ends
      · intro rt' typed
        have children : JSGCObject.children { o with refCount := o.refCount - 1 } ++ outside =
            o.header ++ (o.fields ++ outside) := by
          show o.header ++ (o.fields ++ o.data) ++ outside = _
          rw [data, List.append_nil, List.append_assoc]
        rw [children]
        refine Effect.Triple.bind ((jsFreeValueRT_frees collects).forEach fun c member child at_ =>
          ?_) fun _ =>
          (jsFreeShape_frees collects).forEach fun c member child at_ => ?_
        · have fits := typed .header c member child at_
          rw [type] at fits
          exact isMain_of_isValue fits
        · have fits := typed .fields c member child at_
          rwa [type] at fits

theorem freeReference_frees (collects : phase = .none → Collects collect) :
    Frees phase (fun _ => true) (freeReference collect) := by
  intro busy outside q o rt valid settled found _
  unfold freeReference
  refine load_bind found ?_
  cases type : o.gcObjType with
  | jsObject => exact jsFreeValueRT_frees collects valid settled found (by rw [type]; rfl)
  | functionBytecode => exact jsFreeValueRT_frees collects valid settled found (by rw [type]; rfl)
  | shape => exact jsFreeShape_frees collects valid settled found (by rw [type]; rfl)
  | varRef => exact freeVarRef_frees collects valid settled found (by rw [type]; rfl)
  | asyncFunction => exact asyncFuncFree_frees collects valid settled found (by rw [type]; rfl)
  | jsContext => exact jsFreeContext_frees collects valid settled found (by rw [type]; rfl)
  | module => exact jsFreeValueRT_frees collects valid settled found (by rw [type]; rfl)

end

end QuickJSBun.Engine.Garbage
