import QuickJSBun.Context.Walking

/-! What a walk leaves in the host objects that it makes: at every place what was visited for
it last, and a place for everything that the guest array or object showed.
-/

set_option autoImplicit false

namespace QuickJSBun.Context

open Library Effect

variable {σ V α : Type}

/-- The host objects of a walk, with what was read for them. -/
structure Result where
  objects : List HostObject
  reads : List Read
  listed : List Listing

def Walk.result (s : Walk σ) : Result := ⟨s.objects, s.reads, s.listed⟩

namespace Result

def items (r : Result) (array : Nat) : Option (List Dumped) :=
  match r.objects[array]? with
  | some (.array items) => some items
  | _ => none

def members (r : Result) (object : Nat) : Option (List (Text × Dumped)) :=
  match r.objects[object]? with
  | some (.object members) => some members
  | _ => none

def lookup (r : Result) : Place → Option Dumped
  | .item array index => (r.items array).bind fun items => items[index]?
  | .member object key => (r.members object).bind fun members => member key members

def readAt (r : Result) (place : Place) : Option Read :=
  r.reads.find? fun read => decide (read.place = place)

def Placed (r : Result) : Prop := ∀ place, r.lookup place = (r.readAt place).map (·.item)

/-- A host object has the items, or the keys, that its guest object showed, and no others. -/
def Complete (r : Result) (n : Nat) : Prop :=
  (∀ items, r.items n = some items → .items n items.length ∈ r.listed) ∧
    ∀ members, r.members n = some members →
      ∃ keys, .members n keys ∈ r.listed ∧ ∀ key, (member key members).isSome ↔ key ∈ keys

theorem items_congr {r r' : Result} {n : Nat} (same : r'.objects[n]? = r.objects[n]?) :
    r'.items n = r.items n := by
  unfold items
  rw [same]

theorem members_congr {r r' : Result} {n : Nat} (same : r'.objects[n]? = r.objects[n]?) :
    r'.members n = r.members n := by
  unfold members
  rw [same]

theorem Complete.mono {r r' : Result} {n : Nat} (complete : r.Complete n)
    (same : r'.objects[n]? = r.objects[n]?) (listed : r.listed ⊆ r'.listed) : r'.Complete n := by
  constructor
  · intro items found
    rw [items_congr same] at found
    exact listed (complete.1 items found)
  · intro members found
    rw [members_congr same] at found
    obtain ⟨keys, shown, each⟩ := complete.2 members found
    exact ⟨keys, listed shown, each⟩

/-! ### Making and filling -/

def make (r : Result) (object : HostObject) : Result := { r with objects := r.objects ++ [object] }

def put (r : Result) (change : List HostObject → List HostObject) (read : Read) : Result :=
  { r with objects := change r.objects, reads := read :: r.reads }

def announced (r : Result) (listing : Listing) : Result := { r with listed := listing :: r.listed }

theorem readAt_put (r : Result) (change : List HostObject → List HostObject) (read : Read)
    (place : Place) :
    (r.put change read).readAt place =
      if read.place = place then some read else r.readAt place := by
  unfold readAt put
  rw [List.find?_cons]
  by_cases same : read.place = place
  · simp [same]
  · simp [same]

theorem lookup_push {r : Result} {array : Nat} {items : List Dumped} (item : Dumped) (read : Read)
    (here : r.items array = some items) (place : Place) :
    (r.put (push array item) read).lookup place =
      if Place.item array items.length = place then some item else r.lookup place := by
  have found : r.objects[array]? = some (.array items) := by
    unfold Result.items at here
    split at here
    · next other => rw [other, Option.some.inj here]
    · cases here
  cases place with
  | item other index =>
    by_cases same : array = other
    · subst same
      have pushed : (r.put (push array item) read).items array = some (items ++ [item]) := by
        simp [Result.items, put, push, found]
      simp only [lookup, pushed, here, Option.bind_some, Place.item.injEq, true_and]
      rw [List.getElem?_append]
      by_cases below : index < items.length
      · rw [if_pos below, if_neg (by omega)]
      · rw [if_neg below]
        by_cases last : items.length = index
        · simp [last]
        · have above : items.length < index := by omega
          rw [if_neg last, List.getElem?_eq_none (by simp; omega), List.getElem?_eq_none (by omega)]
    · have still : (r.put (push array item) read).items other = r.items other := by
        apply items_congr
        simp [put, push, same]
      simp only [lookup, still, Place.item.injEq, same, false_and, if_false]
  | member object key =>
    have still : (r.put (push array item) read).members object = r.members object := by
      by_cases same : array = object
      · subst same
        simp [Result.members, put, push, found]
      · apply members_congr
        simp [put, push, same]
    simp only [lookup, still, reduceCtorEq, if_false]

theorem lookup_define {r : Result} {object : Nat} {members : List (Text × Dumped)} (key : Text)
    (item : Dumped) (read : Read) (here : r.members object = some members) (place : Place) :
    (r.put (defineHost object key item) read).lookup place =
      if Place.member object key = place then some item else r.lookup place := by
  have found : r.objects[object]? = some (.object members) := by
    unfold Result.members at here
    split at here
    · next other => rw [other, Option.some.inj here]
    · cases here
  cases place with
  | item array index =>
    have still : (r.put (defineHost object key item) read).items array = r.items array := by
      by_cases same : object = array
      · subst same
        simp [Result.items, put, defineHost, found]
      · apply items_congr
        simp [put, defineHost, same]
    simp only [lookup, still, reduceCtorEq, if_false]
  | member other name =>
    by_cases same : object = other
    · subst same
      have defined : (r.put (defineHost object key item) read).members object =
          some (define arrayIndex key item members) := by
        simp [Result.members, put, defineHost, found]
      simp only [lookup, defined, here, Option.bind_some, member_define,
        Place.member.injEq, true_and]
    · have still : (r.put (defineHost object key item) read).members other = r.members other := by
        apply members_congr
        simp [put, defineHost, same]
      simp only [lookup, still, Place.member.injEq, same, false_and, if_false]

end Result

/-! ### What a part of the walk does to the host objects -/

/-- It fills `mine`, and may make others, which are complete when it ends. -/
structure Built (mine : Nat → Prop) (r r' : Result) : Prop where
  placed : r.Placed → r'.Placed
  older : ∀ n < r.objects.length, ¬mine n → r'.objects[n]? = r.objects[n]?
  length_le : r.objects.length ≤ r'.objects.length
  complete : ∀ n < r'.objects.length, r.objects.length ≤ n → r'.Complete n
  listed : r.listed ⊆ r'.listed

section
variable {mine : Nat → Prop} {r r' r'' : Result}

theorem Built.refl (mine : Nat → Prop) (r : Result) : Built mine r r where
  placed placed := placed
  older _ _ _ := rfl
  length_le := Nat.le_refl _
  complete n below above := by omega
  listed _ member := member

theorem Built.trans (first : Built mine r r') (second : Built mine r' r'')
    (inside : ∀ n, mine n → n < r.objects.length) : Built mine r r'' where
  placed placed := second.placed (first.placed placed)
  older n below apart := by
    have still := second.older n (Nat.lt_of_lt_of_le below first.length_le) apart
    exact still.trans (first.older n below apart)
  length_le := Nat.le_trans first.length_le second.length_le
  complete n below above := by
    by_cases early : n < r'.objects.length
    · have apart : ¬mine n := fun isMine => absurd (inside n isMine) (Nat.not_lt.mpr above)
      exact (first.complete n early above).mono (second.older n early apart) second.listed
    · exact second.complete n below (Nat.le_of_not_lt early)
  listed _ member := second.listed (first.listed member)

theorem Built.weaken {other : Nat → Prop} (built : Built mine r r') (more : ∀ n, mine n → other n) :
    Built other r r' where
  placed := built.placed
  older n below apart := built.older n below fun isMine => apart (more n isMine)
  length_le := built.length_le
  complete := built.complete
  listed := built.listed

theorem built_put {change : List HostObject → List HostObject} {read : Read}
    (looks : ∀ place, (r.put change read).lookup place =
      if read.place = place then some read.item else r.lookup place)
    (length : (change r.objects).length = r.objects.length)
    (others : ∀ n, ¬mine n → (change r.objects)[n]? = r.objects[n]?) :
    Built mine r (r.put change read) where
  placed placed place := by
    rw [looks, Result.readAt_put, placed place]
    split
    · rfl
    · rfl
  older n _ apart := others n apart
  length_le := Nat.le_of_eq length.symm
  complete n below above := by
    have same : (r.put change read).objects.length = r.objects.length := length
    omega
  listed _ member := member

theorem built_announced (listing : Listing) : Built mine r (r.announced listing) where
  placed placed := placed
  older _ _ _ := rfl
  length_le := Nat.le_refl _
  complete _ below above := absurd (Nat.lt_of_lt_of_le below above) (Nat.lt_irrefl _)
  listed _ member := List.mem_cons_of_mem _ member

theorem lookup_make {object : HostObject} (nothing : object = .array [] ∨ object = .object [] ∨
    ∃ name message stack, object = .error name message stack) (place : Place) :
    (r.make object).lookup place = r.lookup place := by
  have cases_at : ∀ n, (r.make object).objects[n]? = r.objects[n]? ∨
      n = r.objects.length ∧ (r.make object).objects[n]? = some object ∧ r.objects[n]? = none := by
    intro n
    rcases Nat.lt_trichotomy n r.objects.length with below | rfl | above
    · exact .inl (List.getElem?_append_left below)
    · exact .inr ⟨rfl, by simp [Result.make], by simp⟩
    · left
      rw [List.getElem?_eq_none (by simp [Result.make]; omega), List.getElem?_eq_none (by omega)]
  cases place with
  | item array index =>
    rcases cases_at array with same | ⟨-, there, before⟩
    · simp only [Result.lookup, Result.items_congr same]
    · rcases nothing with rfl | rfl | ⟨_, _, _, rfl⟩ <;> simp [Result.lookup, Result.items,
        there, before]
  | member other key =>
    rcases cases_at other with same | ⟨-, there, before⟩
    · simp only [Result.lookup, Result.members_congr same]
    · rcases nothing with rfl | rfl | ⟨_, _, _, rfl⟩ <;> simp [Result.lookup, Result.members, there,
        before, member]

-- A new object that is complete when what fills it has ended.
theorem built_make {object : HostObject}
    (nothing : object = .array [] ∨ object = .object [] ∨
      ∃ name message stack, object = .error name message stack)
    (built : Built (· = r.objects.length) (r.make object) r')
    (complete : r'.Complete r.objects.length) : Built (fun _ => False) r r' where
  placed placed := built.placed fun place => (lookup_make nothing place).trans (placed place)
  older n below _ := by
    have longer : n < (r.make object).objects.length := by
      simp only [Result.make, List.length_append, List.length_singleton]
      omega
    exact (built.older n longer (Nat.ne_of_lt below)).trans (List.getElem?_append_left below)
  length_le := by
    have longer := built.length_le
    simp only [Result.make, List.length_append, List.length_singleton] at longer
    omega
  complete n below above := by
    rcases Nat.eq_or_lt_of_le above with rfl | later
    · exact complete
    · apply built.complete n below
      simp only [Result.make, List.length_append, List.length_singleton]
      omega
  listed := built.listed

end


/-! ### The walk -/

theorem keeps_onWorld (x : Run σ V α) : Keeps Walk.result (onWorld x) := fun _ => rfl

theorem keeps_keep (entry : JSValue) : Keeps Walk.result (keep entry : WalkRun σ V Unit) :=
  fun _ => rfl

theorem Keeps.result {x : WalkRun σ V α} (keeps : Keeps Walk.result x) (r : Result) :
    Triple (·.result = r) x (fun _ s => s.result = r) fun _ _ => True :=
  (keeps.triple (· = r)).weaken (fun _ same => same) (fun _ _ same => same) fun _ _ _ => trivial

-- The walk does this to the host objects when it returns.
def Builds (mine : Nat → Prop) (r : Result) (x : WalkRun σ V α) : Prop :=
  Triple (·.result = r) x (fun _ s => Built mine r s.result) fun _ _ => True

theorem Keeps.builds {x : WalkRun σ V α} (keeps : Keeps Walk.result x) (mine : Nat → Prop)
    (r : Result) : Builds mine r x :=
  (Keeps.result keeps r).weaken (fun _ same => same)
    (fun _ _ same => by rw [same]; exact Built.refl mine r) fun _ _ ends => ends

theorem builds_newHostObject {object : HostObject} {next : Nat → WalkRun σ V α}
    {post : α → Walk σ → Prop} {r : Result}
    (continues : Triple (·.result = r.make object) (next r.objects.length) post fun _ _ => True) :
    Triple (·.result = r) (newHostObject object >>= next) post fun _ _ => True := by
  rintro s rfl
  exact continues _ rfl

theorem builds_leaf (h : JSValue) {convert : WalkRun σ V Dumped} {r : Result}
    (converts : Builds (fun _ => False) r convert) :
    Builds (fun _ => False) r (visitLeaf h convert) := by
  have returns : ∀ d,
      Triple (fun s => Built (fun _ => False) r s.result) (Pure.pure d : WalkRun σ V Dumped)
      (fun _ s => Built (fun _ => False) r s.result) fun _ _ => True :=
    fun d => Triple.pure d fun _ ends => ends
  refine Triple.bind (Keeps.result (keeps_onWorld (ptr h)) r) fun value => ?_
  refine Triple.bind (Q := fun _ s => s.result = r) (Triple.get fun _ same => same) fun s => ?_
  dsimp only
  generalize (if value.tag < 0 then s.world.pointer value else 0) = pointer
  split
  · exact Keeps.builds (Keeps.pure _) _ r
  · apply Triple.bind converts
    intro converted
    split
    · refine Triple.bind (Q := fun _ s => Built (fun _ => False) r s.result)
        (Triple.modify fun _ ends => ends) fun _ => ?_
      exact returns converted
    · exact returns converted

theorem builds_container (h : JSValue) {empty : HostObject}
    (isEmpty : empty = .array [] ∨ empty = .object []) {fill : Nat → WalkRun σ V Unit} {r : Result}
    (fills : Triple (·.result = r.make empty) (fill r.objects.length)
      (fun _ s => Built (· = r.objects.length) (r.make empty) s.result ∧
        s.result.Complete r.objects.length) fun _ _ => True) :
    Builds (fun _ => False) r (visitContainer h empty fill) := by
  refine Triple.bind (Keeps.result (keeps_onWorld (ptr h)) r) fun value => ?_
  refine Triple.bind (Q := fun _ s => s.result = r) (Triple.get fun _ same => same) fun s => ?_
  dsimp only
  split
  · exact Keeps.builds (Keeps.pure _) _ r
  · apply builds_newHostObject
    refine Triple.bind (Q := fun _ s => s.result = r.make empty)
      (Triple.modify fun _ same => same) fun _ => ?_
    apply Triple.bind fills
    intro _
    refine Triple.pure _ fun s ends => ?_
    have nothing :=
      isEmpty.imp id (Or.inl (b := ∃ name message stack, empty = .error name message stack))
    exact built_make nothing ends.1 ends.2

theorem Result.below_of_items {r : Result} {array : Nat} {items : List Dumped}
    (here : r.items array = some items) : array < r.objects.length := by
  unfold Result.items at here
  split at here
  · next found => exact (List.getElem?_eq_some_iff.mp found).1
  · cases here

theorem Result.below_of_members {r : Result} {object : Nat} {members : List (Text × Dumped)}
    (here : r.members object = some members) : object < r.objects.length := by
  unfold Result.members at here
  split at here
  · next found => exact (List.getElem?_eq_some_iff.mp found).1
  · cases here

theorem built_push {r : Result} {array : Nat} {items : List Dumped}
    (here : r.items array = some items) (value : Value) (item : Dumped) :
    Built (· = array) r (r.put (push array item) ⟨.item array items.length, value, item⟩) :=
  built_put (Result.lookup_push item _ here) (by simp [push]) fun n apart => by
    simp [push, Ne.symm apart]

theorem built_define {r : Result} {object : Nat} {members : List (Text × Dumped)}
    (here : r.members object = some members) (key : Text) (value : Value) (item : Dumped) :
    Built (· = object) r (r.put (defineHost object key item) ⟨.member object key, value, item⟩) :=
  built_put (Result.lookup_define key item _ here) (by simp [defineHost]) fun n apart => by
    simp [defineHost, Ne.symm apart]

section
variable (engine : Engine σ) (host : Host V σ) {visit : JSValue → WalkRun σ V Dumped}
variable (visits : ∀ h r, Builds (fun _ => False) r (visit h))
include visits

-- One value is read, kept and visited before it is put into its place.
theorem builds_round (x : Run σ V JSValue) (change : Dumped → List HostObject → List HostObject)
    (place : Place) (r : Result) :
    Triple (·.result = r) (do
      let entry ← onWorld x
      keep entry
      let item ← visit entry
      put (change item) place entry item)
      (fun _ s => ∃ r' value item, Built (fun _ => False) r r' ∧
        s.result = r'.put (change item) ⟨place, value, item⟩)
      fun _ _ => True := by
  apply Triple.bind (Keeps.result (keeps_onWorld x) r)
  intro entry
  apply Triple.bind (Keeps.result (keeps_keep entry) r)
  intro _
  apply Triple.bind (visits entry r)
  intro item
  apply Triple.modify
  intro s built
  exact ⟨s.result, _, item, built, rfl⟩

theorem builds_items (h : JSValue) {array : Nat} (count : Nat) {r : Result} {items : List Dumped}
    (here : r.items array = some items) :
    Triple (·.result = r) (visitItems engine host visit h array count items.length) (fun _ s =>
      Built (· = array) r s.result ∧ ∃ later, s.result.items array = some later ∧
      later.length = items.length + count)
      fun _ _ => True := by
  induction count generalizing r items with
  | zero =>
    refine Triple.pure _ fun s same => ?_
    rw [same]
    exact ⟨Built.refl _ r, items, here, rfl⟩
  | succ count ih =>
    have below := Result.below_of_items here
    have round :=
      builds_round visits (getIndex engine (getException engine host) h items.length) (push array)
      (.item array items.length) r
    suffices rest : Triple (fun s => ∃ r' value item, Built (fun _ => False) r r' ∧
        s.result = r'.put (push array item) ⟨.item array items.length, value, item⟩)
        (visitItems engine host visit h array count (items.length + 1))
          (fun _ s => Built (· = array) r s.result ∧
        ∃ later, s.result.items array = some later ∧ later.length = items.length + (count + 1))
          fun _ _ => True by
      have both := Triple.bind round fun _ => rest
      simp only [bind_assoc] at both
      exact both
    apply Triple.each
    intro s ends
    obtain ⟨r', value, item, visited, done⟩ := ends
    -- the visit has left the array alone
    have still : r'.items array = some items :=
      (Result.items_congr (visited.older array below id)).trans here
    have first :=
      (visited.weaken fun _ never => never.elim).trans (built_push still value item) fun _ same =>
        same ▸ below
    have pushed : s.result.items array = some (items ++ [item]) := by
      rw [done]
      unfold Result.items at still ⊢
      split at still
      · next found => simp [Result.put, push, found, Option.some.inj still]
      · cases still
    have rest := ih pushed
    rw [List.length_append, List.length_singleton] at rest
    refine rest.weaken (fun _ same => by rw [same]) (fun _ s' ends => ?_) fun _ _ ends => ends
    obtain ⟨built, later, there, length⟩ := ends
    rw [done] at built
    exact ⟨first.trans built fun _ same => same ▸ below, later, there, by omega⟩

theorem builds_members (h : JSValue) {object : Nat} (keys : List Text) {r : Result}
    {members : List (Text × Dumped)} (here : r.members object = some members) :
    Triple (·.result = r) (visitMembers engine host visit h object keys) (fun _ s =>
      Built (· = object) r s.result ∧ ∃ later, s.result.members object = some later ∧
        ∀ key, (member key later).isSome ↔ (member key members).isSome ∨ key ∈ keys) fun _ _ =>
          True := by
  induction keys generalizing r members with
  | nil =>
    refine Triple.pure _ fun s same => ?_
    rw [same]
    exact ⟨Built.refl _ r, members, here, by simp⟩
  | cons key rest ih =>
    have below := Result.below_of_members here
    have round := builds_round visits (getProp engine (getException engine host) h key)
      (defineHost object key)
      (.member object key) r
    apply Triple.bind round
    intro _
    apply Triple.each
    intro s ends
    obtain ⟨r', value, item, visited, done⟩ := ends
    have still : r'.members object = some members :=
      (Result.members_congr (visited.older object below id)).trans here
    have first :=
      (visited.weaken fun _ never => never.elim).trans (built_define still key value item)
        fun _ same => same ▸ below
    have defined : s.result.members object = some (define arrayIndex key item members) := by
      rw [done]
      unfold Result.members at still ⊢
      split at still
      · next found => simp [Result.put, defineHost, found, Option.some.inj still]
      · cases still
    refine (ih defined).weaken (fun _ same => by rw [same]) (fun _ s' ends => ?_) fun _ _ ends =>
      ends
    obtain ⟨built, later, there, each⟩ := ends
    rw [done] at built
    refine ⟨first.trans built fun _ same => same ▸ below, later, there, fun other => ?_⟩
    rw [each, member_define, List.mem_cons]
    by_cases same : key = other
    · simp [same]
    · simp [same, Ne.symm same]

end

theorem Result.items_make (r : Result) : (r.make (.array [])).items r.objects.length = some [] := by
  simp [Result.make, Result.items]

theorem Result.members_make (r : Result) :
    (r.make (.object [])).members r.objects.length = some [] := by
  simp [Result.make, Result.members]

theorem Result.items_announced (r : Result) (listing : Listing) :
    ((r.make (.array [])).announced listing).items r.objects.length = some [] := r.items_make

theorem Result.members_announced (r : Result) (listing : Listing) :
    ((r.make (.object [])).announced listing).members r.objects.length = some [] := r.members_make

theorem Result.complete_items {r : Result} {n : Nat} {items : List Dumped}
    (here : r.items n = some items) (listed : .items n items.length ∈ r.listed) : r.Complete n := by
  constructor
  · intro other found
    rw [← Option.some.inj (here.symm.trans found)]
    exact listed
  · intro members found
    unfold Result.items at here
    unfold Result.members at found
    split at here
    · next isArray =>
      rw [isArray] at found
      cases found
    · cases here

theorem Result.complete_members {r : Result} {n : Nat} {members : List (Text × Dumped)}
    {keys : List Text} (here : r.members n = some members) (listed : .members n keys ∈ r.listed)
    (each : ∀ key, (member key members).isSome ↔ key ∈ keys) : r.Complete n := by
  constructor
  · intro items found
    unfold Result.members at here
    unfold Result.items at found
    split at here
    · next isObject =>
      rw [isObject] at found
      cases found
    · cases here
  · intro other found
    rw [← Option.some.inj (here.symm.trans found)]
    exact ⟨keys, listed, each⟩

theorem Result.complete_error (r : Result) (name message : Text) (stack : Option Text) :
    (r.make (.error name message stack)).Complete r.objects.length := by
  constructor
  · intro items found
    simp [Result.make, Result.items] at found
  · intro members found
    simp [Result.make, Result.members] at found

theorem returns_error (engine : Engine σ) (host : Host V σ) (h : JSValue) (r : Result) :
    Triple (·.result = r) (onWorld (toError engine host h))
      (fun error s => s.result = r ∧ ∃ name message stack, error = .error name message stack)
        fun _ _ => True := by
  have isError : Triple (fun _ => True) (toError engine host h)
      (fun error _ => ∃ name message stack, error = .error name message stack) fun _ _ => True := by
    refine Triple.bind (Triple.any _) fun found => ?_
    split
    · exact Triple.throw _ fun _ _ => trivial
    · refine Triple.bind (Triple.any _) fun message => Triple.bind (Triple.any _) fun name => ?_
      refine Triple.bind (Triple.any _) fun stack => Triple.pure _ fun _ _ => ?_
      exact ⟨_, _, stack, rfl⟩
  apply Triple.each
  rintro s rfl
  have ends :=
    onWorld_ends (s := s)
      (isError.weaken (fun _ _ => trivial) (fun _ _ ends => ends) fun _ _ ends => ends)
  refine ends.weaken (fun _ same => same) (fun error s' ends => ?_) fun _ _ _ => trivial
  obtain ⟨w', rfl, found⟩ := ends
  exact ⟨rfl, found⟩

theorem builds_announce {listing : Listing} {next : Unit → WalkRun σ V α} {post : α → Walk σ → Prop}
    {r : Result}
    (continues : Triple (·.result = r.announced listing) (next ()) post fun _ _ => True) :
    Triple (·.result = r) (announce listing >>= next) post fun _ _ => True := by
  rintro s rfl
  exact continues _ rfl

theorem builds_visit (engine : Engine σ) (host : Host V σ) (maxDepth maxNodes levels : Nat)
    (h : JSValue) (r : Result) :
    Builds (fun _ => False) r (visit engine host maxDepth maxNodes levels h) := by
  induction levels generalizing h r with
  | zero => exact Triple.throw _ fun _ _ => trivial
  | succ levels ih =>
    have reads : ∀ {β : Type} (x : Run σ V β) (result : β → Dumped), Builds (fun _ => False) r (do
        let a ← onWorld x
        Pure.pure (result a)) :=
      fun x result => Keeps.builds (Keeps.bind (keeps_onWorld x) fun _ => Keeps.pure _) _ r
    have counts : Keeps Walk.result (countNode maxNodes : WalkRun σ V Unit) :=
      Keeps.bind (Keeps.modify fun _ => rfl) fun _ => Keeps.bind Keeps.get fun _ => Keeps.check _ _
    rw [visit_succ]
    apply Triple.bind (Keeps.result counts r)
    intro _
    apply Triple.bind (Keeps.result (keeps_onWorld (type engine (getException engine host) h)) r)
    intro found
    cases found with
    | undefined | null => exact Keeps.builds (Keeps.pure _) _ r
    | boolean | number => exact reads _ _
    | bigint | string => exact builds_leaf h (reads _ _)
    | error =>
      apply builds_leaf h
      apply Triple.bind (returns_error engine host h r)
      intro error
      apply Triple.each
      intro s ends
      obtain ⟨rfl, name, message, stack, rfl⟩ := ends
      intro s' same
      subst same
      have complete := s'.result.complete_error name message stack
      exact built_make (.inr (.inr ⟨name, message, stack, rfl⟩)) (Built.refl _ _) complete
    | array =>
      apply builds_container h (.inl rfl)
      apply Triple.bind (Keeps.result (keeps_onWorld _) _)
      intro length
      apply builds_announce
      have filled :=
        builds_items engine host ih h length.indices
          (r.items_announced (.items r.objects.length length.indices))
      refine filled.weaken (fun _ same => same) (fun _ s ends => ?_) fun _ _ ends => ends
      obtain ⟨built, items, there, isLength⟩ := ends
      refine ⟨(built_announced _).trans built fun _ same => ?_, Result.complete_items there ?_⟩
      · rw [same]
        exact Result.below_of_items r.items_make
      · rw [isLength, List.length_nil, Nat.zero_add]
        exact built.listed List.mem_cons_self
    | object =>
      apply builds_container h (.inr rfl)
      apply Triple.bind (Keeps.result (keeps_onWorld _) _)
      intro keys
      apply builds_announce
      have filled :=
        builds_members engine host ih h keys (r.members_announced (.members r.objects.length keys))
      refine filled.weaken (fun _ same => same) (fun _ s ends => ?_) fun _ _ ends => ends
      obtain ⟨built, members, there, each⟩ := ends
      refine ⟨(built_announced _).trans built fun _ same =>
        ?_, Result.complete_members there (built.listed List.mem_cons_self)
        fun key => ?_⟩
      · rw [same]
        exact Result.below_of_members r.members_make
      · rw [each]
        simp [member]
    | symbol | function => exact Triple.throw _ fun _ _ => trivial

end QuickJSBun.Context
