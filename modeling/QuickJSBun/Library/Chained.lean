import Mathlib.Data.List.Nodup
import Mathlib.Data.List.Perm.Subperm
import Mathlib.Data.List.Range

/-! Hash tables with chains in one array. A used place keeps a value and the number of the place after it in
its bucket, a free place the number of the next free place, and 0 ends both; a value without a bucket leads to its
own place. Reading a place that is free or behind the end has no result, and neither has a walk that never ends.
-/

set_option autoImplicit false

namespace QuickJSBun.Library.Chained

variable {α : Type}

inductive Slot (α : Type) where
  | free (next : Nat)
  | used (value : α) (next : Nat)

/-- The first place of each bucket, the places, and the first one that is free. -/
structure Table (α : Type) where
  heads : List Nat
  slots : List (Slot α)
  freeHead : Nat

/-! ### Operations -/

namespace Table
variable (t : Table α)

def head (b : Nat) : Nat := (t.heads[b]?).getD 0

def read (i : Nat) : Option (α × Nat) :=
  match t.slots[i]? with
  | some (.used value next) => some (value, next)
  | _ => none

def value (i : Nat) : Option α := (t.read i).map Prod.fst

def next (i : Nat) : Option Nat := (t.read i).map Prod.snd

def freeNext (i : Nat) : Option Nat :=
  match t.slots[i]? with
  | some (.free next) => some next
  | _ => none

def put (i : Nat) (slot : Slot α) : Table α := { t with slots := t.slots.set i slot }

def setHead (b i : Nat) : Table α := { t with heads := t.heads.set b i }

/-- Along a chain up to the first place that is wanted; 0 if there is none. -/
def seek (wanted : Nat → α → Bool) : Nat → Nat → Option Nat
  | 0, _ => none
  | steps + 1, i =>
    if i = 0 then some 0
    else do
      let (value, next) ← t.read i
      if wanted i value then pure i else seek wanted steps next

-- A walk of more steps than there are places never ends.
def find (wanted : Nat → α → Bool) (b : Nat) : Option Nat :=
  t.seek wanted (t.slots.length + 1) (t.head b)

def modify (i : Nat) (f : α → α) : Option (Table α) := do
  let (value, next) ← t.read i
  pure (t.put i (.used (f value) next))

def grow (size : Nat) : Table α :=
  { t with
    slots := t.slots ++ (List.range' t.slots.length (size - t.slots.length)).map fun i =>
      .free (if i + 1 = size then 0 else i + 1)
    freeHead := t.slots.length }

-- The first free place is used; it leads to itself.
def take (value : α) : Option (Nat × Table α) := do
  let next ← t.freeNext t.freeHead
  pure (t.freeHead, { t.put t.freeHead (.used value t.freeHead) with freeHead := next })

def link (i b : Nat) : Option (Table α) := do
  let (value, _) ← t.read i
  pure ((t.put i (.used value (t.head b))).setHead b i)

def unlinkAfter (i : Nat) : Nat → Nat → Option (Table α)
  | 0, _ => none
  | steps + 1, before => do
    let (value, next) ← t.read before
    if next = 0 then none
    else if next = i then do
      let (_, after) ← t.read i
      pure (t.put before (.used value after))
    else unlinkAfter i steps next

def unlink (i b : Nat) : Option (Table α) :=
  if t.head b = i then do
    let (_, after) ← t.read i
    pure (t.setHead b after)
  else t.unlinkAfter i (t.slots.length + 1) (t.head b)

def give (i : Nat) : Table α := { t.put i (.free t.freeHead) with freeHead := i }

/-- The places of a chain go to the front of their buckets among other heads. -/
def moveChain (position : α → Nat) : Nat → Nat → List Nat → Table α → Option (List Nat × Table α)
  | 0, _, _, _ => none
  | steps + 1, i, heads, t =>
    if i = 0 then some (heads, t)
    else do
      let (value, next) ← t.read i
      let first := (heads[position value]?).getD 0
      moveChain position steps next (heads.set (position value) i) (t.put i (.used value first))

def moveAll (position : α → Nat) : List Nat → List Nat → Table α → Option (List Nat × Table α)
  | [], heads, t => some (heads, t)
  | i :: rest, heads, t => do
    let (heads, t) ← moveChain position (t.slots.length + 1) i heads t
    moveAll position rest heads t

def rehash (position : α → Nat) (size : Nat) : Option (Table α) := do
  let (heads, t) ← moveAll position t.heads (List.replicate size 0) t
  pure { t with heads }

end Table

/-! ### Chains -/

/-- From `i` on, `next` leads through the places and then to 0. -/
def Chain (next : Nat → Option Nat) : Nat → List Nat → Prop
  | i, [] => i = 0
  | i, j :: rest => i = j ∧ i ≠ 0 ∧ ∃ after, next i = some after ∧ Chain next after rest

section
variable {next next' : Nat → Option Nat} {i j : Nat} {places other front back : List Nat}

-- Nothing matters but the places of the chain.
theorem Chain.congr (chain : Chain next i places) (same : ∀ j ∈ places, next' j = next j) :
    Chain next' i places := by
  induction places generalizing i with
  | nil => exact chain
  | cons j rest ih =>
    obtain ⟨rfl, some, after, leads, later⟩ := chain
    refine ⟨rfl, some, after, ?_, ih later fun k member => same k (List.mem_cons_of_mem _ member)⟩
    rw [same i List.mem_cons_self, leads]

theorem Chain.reads (chain : Chain next i places) : ∀ j ∈ places, j ≠ 0 ∧ next j ≠ none := by
  induction places generalizing i with
  | nil => exact fun _ member => absurd member List.not_mem_nil
  | cons j rest ih =>
    obtain ⟨rfl, some, after, leads, later⟩ := chain
    intro k member
    rcases List.mem_cons.mp member with rfl | inside
    · exact ⟨some, by rw [leads]; exact Option.some_ne_none _⟩
    · exact ih later k inside

theorem Chain.unique (chain : Chain next i places) (too : Chain next i other) : places = other := by
  induction places generalizing i other with
  | nil =>
    cases other with
    | nil => rfl
    | cons j rest => exact absurd chain too.2.1
  | cons j rest ih =>
    obtain ⟨rfl, some, after, leads, later⟩ := chain
    cases other with
    | nil => exact absurd too some
    | cons k rest' =>
      obtain ⟨rfl, -, after', leads', later'⟩ := too
      obtain rfl : after = after' := Option.some.inj (leads.symm.trans leads')
      rw [ih later later']

theorem Chain.behind (chain : Chain next i (front ++ j :: back)) :
    ∃ after, next j = some after ∧ Chain next after back := by
  induction front generalizing i with
  | nil =>
    obtain ⟨rfl, -, after, leads, later⟩ := chain
    exact ⟨after, leads, later⟩
  | cons k rest ih =>
    obtain ⟨-, -, after, -, later⟩ := chain
    exact ih later

-- A place that came twice would lead to two chains.
theorem Chain.nodup (chain : Chain next i places) : places.Nodup := by
  induction places generalizing i with
  | nil => exact .nil
  | cons j rest ih =>
    obtain ⟨rfl, -, after, leads, later⟩ := chain
    refine List.nodup_cons.mpr ⟨fun member => ?_, ih later⟩
    obtain ⟨front, back, rfl⟩ := List.append_of_mem member
    obtain ⟨after', leads', behind⟩ := later.behind
    obtain rfl : after = after' := Option.some.inj (leads.symm.trans leads')
    have same := congrArg List.length (later.unique behind)
    simp only [List.length_append, List.length_cons] at same
    omega

theorem Chain.length_le (chain : Chain next i places) {size : Nat}
    (inside : ∀ j, next j ≠ none → j < size) : places.length ≤ size := by
  have covered : places ⊆ List.range size :=
    fun j member => List.mem_range.mpr (inside j (chain.reads j member).2)
  have fewer := (chain.nodup.subperm covered).length_le
  rwa [List.length_range] at fewer

end

/-! ### Reading what was written -/

namespace Table
variable {t : Table α} {i j b c next : Nat} {v : α}

theorem lt_of_read {entry : α × Nat} (reads : t.read i = some entry) : i < t.slots.length := by
  by_contra beyond
  rw [read, List.getElem?_eq_none (Nat.not_lt.mp beyond)] at reads
  cases reads

theorem lt_of_freeNext {after : Nat} (leads : t.freeNext i = some after) : i < t.slots.length := by
  by_contra beyond
  rw [freeNext, List.getElem?_eq_none (Nat.not_lt.mp beyond)] at leads
  cases leads

theorem lt_of_next (reads : t.next i ≠ none) : i < t.slots.length := by
  obtain ⟨after, leads⟩ := Option.ne_none_iff_exists'.mp reads
  obtain ⟨entry, reads, -⟩ := Option.map_eq_some_iff.mp leads
  exact lt_of_read reads

theorem value_of_read (reads : t.read i = some (v, next)) : t.value i = some v := by
  rw [value, reads, Option.map_some]

theorem next_of_read (reads : t.read i = some (v, next)) : t.next i = some next := by
  rw [Table.next, reads, Option.map_some]

theorem read_of_next (leads : t.next i = some next) : ∃ v, t.read i = some (v, next) := by
  obtain ⟨⟨v, after⟩, reads, rfl⟩ := Option.map_eq_some_iff.mp leads
  exact ⟨v, reads⟩

theorem read_of_value (stored : t.value i = some v) : ∃ next, t.read i = some (v, next) := by
  obtain ⟨⟨w, next⟩, reads, rfl⟩ := Option.map_eq_some_iff.mp stored
  exact ⟨next, reads⟩

theorem read_of_free {after : Nat} (leads : t.freeNext i = some after) : t.read i = none := by
  unfold freeNext at leads
  unfold read
  split at leads
  · next found => rw [found]
  · cases leads

theorem freeNext_of_read {entry : α × Nat} (reads : t.read i = some entry) :
    t.freeNext i = none := by
  cases leads : t.freeNext i with
  | none => rfl
  | some after => rw [read_of_free leads] at reads; cases reads

theorem read_put_used (inside : i < t.slots.length) (j : Nat) :
    (t.put i (.used v next)).read j = if j = i then some (v, next) else t.read j := by
  by_cases same : j = i
  · subst same
    simp only [read, put, List.getElem?_set_self inside, if_true]
  · simp only [read, put, List.getElem?_set_ne (Ne.symm same), if_neg same]

theorem read_put_free (inside : i < t.slots.length) (j : Nat) :
    (t.put i (.free next)).read j = if j = i then none else t.read j := by
  by_cases same : j = i
  · subst same
    simp only [read, put, List.getElem?_set_self inside, if_true]
  · simp only [read, put, List.getElem?_set_ne (Ne.symm same), if_neg same]

theorem freeNext_put_used (inside : i < t.slots.length) (j : Nat) :
    (t.put i (.used v next)).freeNext j = if j = i then none else t.freeNext j := by
  by_cases same : j = i
  · subst same
    simp only [freeNext, put, List.getElem?_set_self inside, if_true]
  · simp only [freeNext, put, List.getElem?_set_ne (Ne.symm same), if_neg same]

theorem freeNext_put_free (inside : i < t.slots.length) (j : Nat) :
    (t.put i (.free next)).freeNext j = if j = i then some next else t.freeNext j := by
  by_cases same : j = i
  · subst same
    simp only [freeNext, put, List.getElem?_set_self inside, if_true]
  · simp only [freeNext, put, List.getElem?_set_ne (Ne.symm same), if_neg same]

theorem length_put (slot : Slot α) : (t.put i slot).slots.length = t.slots.length := List.length_set

theorem head_setHead (inside : b < t.heads.length) (c : Nat) :
    (t.setHead b i).head c = if c = b then i else t.head c := by
  by_cases same : c = b
  · subst same
    simp only [head, setHead, List.getElem?_set_self inside, Option.getD_some, if_true]
  · simp only [head, setHead, List.getElem?_set_ne (Ne.symm same), if_neg same]

-- A place that is written again as what it holds already, but for its `next`, keeps all values.
theorem value_put (stored : t.value i = some v) (j : Nat) :
    (t.put i (.used v next)).value j = t.value j := by
  obtain ⟨after, reads⟩ := read_of_value stored
  rw [value, read_put_used (lt_of_read reads)]
  by_cases same : j = i
  · subst same
    rw [if_pos rfl, stored, Option.map_some]
  · rw [if_neg same, value]

theorem next_put (inside : i < t.slots.length) (j : Nat) :
    (t.put i (.used v next)).next j = if j = i then some next else t.next j := by
  rw [Table.next, read_put_used inside]
  by_cases same : j = i
  · rw [if_pos same, if_pos same, Option.map_some]
  · rw [if_neg same, if_neg same, Table.next]

theorem freeNext_put (stored : t.value i = some v) (j : Nat) :
    (t.put i (.used v next)).freeNext j = t.freeNext j := by
  obtain ⟨after, reads⟩ := read_of_value stored
  rw [freeNext_put_used (lt_of_read reads)]
  by_cases same : j = i
  · rw [if_pos same, same, freeNext_of_read reads]
  · rw [if_neg same]

/-! ### Tables -/

/-- Every chain has the places whose values are of its bucket, and the free places make a chain. -/
structure Holds (t : Table α) (bucket : α → Option Nat) : Prop where
  chains : ∀ b, ∃ places, Chain t.next (t.head b) places ∧ ∀ i, i ∈ places ↔
    (t.value i).bind bucket = some b
  alone : ∀ i v, t.value i = some v → bucket v = none → t.next i = some i
  free : ∃ places, Chain t.freeNext t.freeHead places

variable {bucket : α → Option Nat}

theorem holds_empty (bucket : α → Option Nat) : Holds ⟨[], [], 0⟩ bucket where
  chains _ := ⟨[], rfl, fun _ => ⟨fun member => absurd member List.not_mem_nil, nofun⟩⟩
  alone _ _ stored := nomatch stored
  free := ⟨[], rfl⟩

theorem Holds.inside (holds : t.Holds bucket) (stored : t.value i = some v)
    (known : bucket v = some b) : b < t.heads.length ∧ i ≠ 0 := by
  obtain ⟨places, chain, exactly⟩ := holds.chains b
  have member : i ∈ places := (exactly i).mpr (by rw [stored, Option.bind_some, known])
  refine ⟨?_, (chain.reads i member).1⟩
  by_contra beyond
  rw [head, List.getElem?_eq_none (Nat.not_lt.mp beyond), Option.getD_none] at chain
  cases places with
  | nil => cases member
  | cons j rest => exact chain.2.1 rfl

/-! ### The walk -/

theorem seek_spec {places : List Nat} {steps : Nat} (wanted : Nat → α → Bool)
    (chain : Chain t.next i places) (enough : places.length < steps) :
    (t.seek wanted steps i = some 0 ∧ ∀ j ∈ places, ∀ v, t.value j = some v → wanted j v = false) ∨
      ∃ j ∈ places, ∃ v, t.seek wanted steps i = some j ∧ t.value j = some v ∧
      wanted j v = true := by
  induction places generalizing i steps with
  | nil =>
    obtain ⟨steps, rfl⟩ := Nat.exists_eq_succ_of_ne_zero (Nat.ne_zero_of_lt enough)
    obtain rfl : i = 0 := chain
    left
    exact ⟨rfl, fun _ member => absurd member List.not_mem_nil⟩
  | cons j rest ih =>
    obtain ⟨steps, rfl⟩ := Nat.exists_eq_succ_of_ne_zero (Nat.ne_zero_of_lt enough)
    obtain ⟨rfl, some, after, leads, later⟩ := chain
    obtain ⟨v, reads⟩ := read_of_next leads
    have stored := value_of_read reads
    have unfolds : t.seek wanted (steps + 1) i =
        if wanted i v then Option.some i else t.seek wanted steps after := by
      rw [seek, if_neg some, reads]
      rfl
    by_cases found : wanted i v = true
    · right
      exact ⟨i, List.mem_cons_self, v, by rw [unfolds, if_pos found], stored, found⟩
    · rw [unfolds, if_neg found]
      rcases ih later
        (Nat.lt_of_succ_lt_succ enough) with ⟨ends, none⟩ | ⟨k, member, w, ends, holds, isWanted⟩
      · left
        refine ⟨ends, fun k member w holds => ?_⟩
        rcases List.mem_cons.mp member with rfl | inside
        · obtain rfl : v = w := Option.some.inj (stored.symm.trans holds)
          exact Bool.eq_false_iff.mpr found
        · exact none k inside w holds
      · right
        exact ⟨k, List.mem_cons_of_mem _ member, w, ends, holds, isWanted⟩

theorem length_lt {places : List Nat} (chain : Chain t.next i places) :
    places.length < t.slots.length + 1 :=
  Nat.lt_succ_of_le (chain.length_le fun _ reads => lt_of_next reads)

-- The walk through a bucket finds a place that is wanted, if one is there.
theorem Holds.find (holds : t.Holds bucket) (wanted : Nat → α → Bool) (b : Nat) :
    (t.find wanted b = some 0 ∧ ∀ i v, t.value i = some v → bucket v = some b →
      wanted i v = false) ∨
      ∃ i v, t.find wanted b = some i ∧ i ≠ 0 ∧ t.value i = some v ∧ bucket v = some b ∧
      wanted i v = true := by
  obtain ⟨places, chain, exactly⟩ := holds.chains b
  rcases seek_spec wanted chain
    (length_lt chain) with ⟨ends, none⟩ | ⟨i, member, v, ends, stored, isWanted⟩
  · left
    refine ⟨ends, fun i v stored known => none i ((exactly i).mpr ?_) v stored⟩
    rw [stored, Option.bind_some, known]
  · right
    have known := (exactly i).mp member
    rw [stored, Option.bind_some] at known
    exact ⟨i, v, ends, (chain.reads i member).1, stored, known, isWanted⟩

/-! ### Writing -/

/-- The values and the free places stay, with the number of buckets and of places. -/
structure Same (t t' : Table α) : Prop where
  value : ∀ i, t'.value i = t.value i
  freeNext : ∀ i, t'.freeNext i = t.freeNext i
  freeHead : t'.freeHead = t.freeHead
  slots : t'.slots.length = t.slots.length

theorem Same.trans {t' t'' : Table α} (first : Same t t') (second : Same t' t'') : Same t t'' where
  value i := (second.value i).trans (first.value i)
  freeNext i := (second.freeNext i).trans (first.freeNext i)
  freeHead := second.freeHead.trans first.freeHead
  slots := second.slots.trans first.slots

theorem same_put (stored : t.value i = some v) : Same t (t.put i (.used v next)) where
  value := value_put stored
  freeNext := freeNext_put stored
  freeHead := rfl
  slots := length_put _

theorem Same.free {t' : Table α} (same : Same t t') (holds : t.Holds bucket) :
    ∃ places, Chain t'.freeNext t'.freeHead places := by
  obtain ⟨places, chain⟩ := holds.free
  exact ⟨places, same.freeHead ▸ chain.congr fun i _ => same.freeNext i⟩

theorem Holds.modify (holds : t.Holds bucket) (stored : t.value i = some v) {f : α → α}
    (kept : bucket (f v) = bucket v) :
    ∃ t', t.modify i f = some t' ∧ t'.Holds bucket ∧
    (∀ j, t'.value j = if j = i then some (f v) else t.value j) ∧
      (∀ j, t'.freeNext j = t.freeNext j) ∧ t'.freeHead = t.freeHead ∧ t'.heads = t.heads ∧
      t'.slots.length = t.slots.length := by
  obtain ⟨next, reads⟩ := read_of_value stored
  have inside := lt_of_read reads
  have value : ∀ j, (t.put i (.used (f v) next)).value j =
      if j = i then some (f v) else t.value j := by
    intro j
    rw [Table.value, read_put_used inside]
    by_cases same : j = i
    · rw [if_pos same, if_pos same, Option.map_some]
    · rw [if_neg same, if_neg same, Table.value]
  have same : ∀ j, (t.put i (.used (f v) next)).next j = t.next j := by
    intro j
    rw [next_put inside]
    by_cases isIt : j = i
    · rw [if_pos isIt, isIt, next_of_read reads]
    · rw [if_neg isIt]
  have buckets : ∀ j, ((t.put i (.used (f v) next)).value j).bind bucket =
      (t.value j).bind bucket := by
    intro j
    rw [value]
    by_cases isIt : j = i
    · rw [if_pos isIt, isIt, stored, Option.bind_some, Option.bind_some, kept]
    · rw [if_neg isIt]
  have frees : ∀ j, (t.put i (.used (f v) next)).freeNext j = t.freeNext j := by
    intro j
    rw [freeNext_put_used inside]
    by_cases isIt : j = i
    · rw [if_pos isIt, isIt, freeNext_of_read reads]
    · rw [if_neg isIt]
  refine ⟨t.put i (.used (f v) next), ?_, ⟨fun b => ?_, fun j w found none => ?_, ?_⟩, value, frees,
    rfl, rfl, length_put _⟩
  · rw [Table.modify, reads]
    rfl
  · obtain ⟨places, chain, exactly⟩ := holds.chains b
    refine ⟨places, chain.congr fun j _ => same j, fun j => ?_⟩
    rw [exactly, buckets]
  · rw [same]
    rw [value] at found
    by_cases isIt : j = i
    · rw [if_pos isIt] at found
      obtain rfl := Option.some.inj found
      exact isIt ▸ holds.alone i v stored (kept ▸ none)
    · rw [if_neg isIt] at found
      exact holds.alone j w found none
  · obtain ⟨places, chain⟩ := holds.free
    exact ⟨places, chain.congr fun j _ => frees j⟩

/-! ### A new value -/

structure Taken (t : Table α) (v : α) (t' : Table α) : Prop where
  fresh : t.read t.freeHead = none
  read : ∀ i, t'.read i = if i = t.freeHead then some (v, t.freeHead) else t.read i
  leads : t.freeNext t.freeHead = some t'.freeHead
  freeNext : ∀ i, i ≠ t.freeHead → t'.freeNext i = t.freeNext i
  free : ∃ places, Chain t'.freeNext t'.freeHead places
  heads : t'.heads = t.heads
  slots : t'.slots.length = t.slots.length

theorem Holds.take (holds : t.Holds bucket) (room : t.freeHead ≠ 0) (v : α) :
    ∃ t', t.take v = some (t.freeHead, t') ∧ Taken t v t' := by
  obtain ⟨places, chain⟩ := holds.free
  cases places with
  | nil => exact absurd chain room
  | cons j rest =>
    obtain ⟨rfl, -, after, leads, later⟩ := id chain
    have inside := lt_of_freeNext leads
    have freeNext : ∀ i, i ≠ t.freeHead →
        (t.put t.freeHead (.used v t.freeHead)).freeNext i = t.freeNext i :=
      fun i apart => (freeNext_put_used inside i).trans (if_neg apart)
    refine ⟨{ t.put t.freeHead (.used v t.freeHead) with freeHead := after }, ?_,
      ⟨read_of_free leads, read_put_used inside, leads, freeNext, ⟨rest, ?_⟩, rfl, length_put _⟩⟩
    · rw [Table.take, leads]
      rfl
    · refine later.congr fun k member => freeNext k ?_
      exact fun same => (List.nodup_cons.mp chain.nodup).1 (same ▸ member)

theorem Taken.value {t' : Table α} (taken : Taken t v t') (i : Nat) :
    t'.value i = if i = t.freeHead then some v else t.value i := by
  rw [Table.value, taken.read]
  by_cases same : i = t.freeHead
  · rw [if_pos same, if_pos same, Option.map_some]
  · rw [if_neg same, if_neg same, Table.value]

theorem Taken.after {t' : Table α} (taken : Taken t v t') (i : Nat) :
    t'.next i = if i = t.freeHead then some t.freeHead else t.next i := by
  rw [Table.next, taken.read]
  by_cases same : i = t.freeHead
  · rw [if_pos same, if_pos same, Option.map_some]
  · rw [if_neg same, if_neg same, Table.next]

theorem Taken.unused {t' : Table α} (taken : Taken t v t') : t.value t.freeHead = none := by
  rw [Table.value, taken.fresh, Option.map_none]

/-- What a new value at the first free place leaves. -/
structure Added (t : Table α) (v : α) (t' : Table α) : Prop where
  fresh : t.value t.freeHead = none
  value : ∀ i, t'.value i = if i = t.freeHead then some v else t.value i
  leads : t.freeNext t.freeHead = some t'.freeHead
  freeNext : ∀ i, i ≠ t.freeHead → t'.freeNext i = t.freeNext i
  heads : t'.heads.length = t.heads.length
  slots : t'.slots.length = t.slots.length

-- A value without a bucket is in no chain.
theorem Holds.addAlone (holds : t.Holds bucket) (room : t.freeHead ≠ 0) (none : bucket v = none) :
    ∃ t', t.take v = some (t.freeHead, t') ∧ t'.Holds bucket ∧ Added t v t' := by
  obtain ⟨t', takes, taken⟩ := holds.take room v
  have start : ∀ b, t'.head b = t.head b := fun b => by rw [head, head, taken.heads]
  refine ⟨t', takes, ⟨fun b => ?_, fun i w stored alone => ?_, taken.free⟩,
    ⟨taken.unused, taken.value, taken.leads, taken.freeNext, congrArg List.length taken.heads,
      taken.slots⟩⟩
  · obtain ⟨places, chain, exactly⟩ := holds.chains b
    have outside : ∀ i ∈ places, i ≠ t.freeHead := by
      rintro i member rfl
      have known := (exactly _).mp member
      rw [taken.unused] at known
      cases known
    refine ⟨places, start b ▸ chain.congr fun i member =>
      (taken.after i).trans (if_neg (outside i member)), fun i => ?_⟩
    rw [exactly, taken.value]
    by_cases same : i = t.freeHead
    · rw [if_pos same, same, taken.unused, Option.bind_some, none]
      rfl
    · rw [if_neg same]
  · rw [taken.value] at stored
    rw [taken.after]
    by_cases same : i = t.freeHead
    · rw [if_pos same, same]
    · rw [if_neg same] at stored
      rw [if_neg same]
      exact holds.alone i w stored alone

theorem Holds.add (holds : t.Holds bucket) (room : t.freeHead ≠ 0) (known : bucket v = some b)
    (inside : b < t.heads.length) :
    ∃ t' t'', t.take v = some (t.freeHead, t') ∧ t'.link t.freeHead b = some t'' ∧
    t'.heads = t.heads ∧
      t''.Holds bucket ∧ Added t v t'' := by
  obtain ⟨t', takes, taken⟩ := holds.take room v
  have here : t'.read t.freeHead = some (v, t.freeHead) := by rw [taken.read, if_pos rfl]
  have stored := value_of_read here
  have same : ∀ b, t'.head b = t.head b := fun b => by rw [head, head, taken.heads]
  have links : t'.link t.freeHead b =
      some ((t'.put t.freeHead (.used v (t.head b))).setHead b t.freeHead) := by
    rw [Table.link, here, same]
    rfl
  have leads : ∀ i, ((t'.put t.freeHead (.used v (t.head b))).setHead b t.freeHead).next i =
      if i = t.freeHead then some (t.head b) else t.next i := by
    intro i
    refine (next_put (lt_of_read here) i).trans ?_
    by_cases isIt : i = t.freeHead
    · rw [if_pos isIt, if_pos isIt]
    · rw [if_neg isIt, if_neg isIt, taken.after, if_neg isIt]
  have values : ∀ i, ((t'.put t.freeHead (.used v (t.head b))).setHead b t.freeHead).value i =
      if i = t.freeHead then some v else t.value i :=
    fun i => (value_put stored i).trans (taken.value i)
  have frees : ∀ i, ((t'.put t.freeHead (.used v (t.head b))).setHead b t.freeHead).freeNext i =
      t'.freeNext i :=
    freeNext_put stored
  have starts : ∀ c, ((t'.put t.freeHead (.used v (t.head b))).setHead b t.freeHead).head c =
      if c = b then t.freeHead else t.head c := by
    intro c
    have before : b < (t'.put t.freeHead (.used v (t.head b))).heads.length := by
      show b < t'.heads.length
      rwa [taken.heads]
    rw [head_setHead before]
    by_cases isIt : c = b
    · rw [if_pos isIt, if_pos isIt]
    · rw [if_neg isIt, if_neg isIt]
      exact same c
  have added : Added t v ((t'.put t.freeHead (.used v (t.head b))).setHead b t.freeHead) := by
    refine ⟨taken.unused, values, taken.leads, fun i apart =>
      (frees i).trans (taken.freeNext i apart), ?_, (length_put _).trans taken.slots⟩
    rw [setHead, List.length_set]
    exact congrArg List.length taken.heads
  refine ⟨t', _, takes, links, taken.heads, ⟨fun c => ?_, fun i w found alone => ?_, ?_⟩, added⟩
  · obtain ⟨places, chain, exactly⟩ := holds.chains c
    have outside : ∀ i ∈ places, i ≠ t.freeHead := by
      rintro i member rfl
      have known := (exactly _).mp member
      rw [taken.unused] at known
      cases known
    have kept := chain.congr fun i member => (leads i).trans (if_neg (outside i member))
    rw [starts]
    by_cases isIt : c = b
    · subst isIt
      rw [if_pos rfl]
      refine ⟨t.freeHead :: places, ⟨rfl, room, t.head c, (leads _).trans (if_pos rfl), kept⟩,
        fun i => ?_⟩
      rw [values, List.mem_cons, exactly]
      by_cases isNew : i = t.freeHead
      · simp only [isNew, true_or, if_true, Option.bind_some, known]
      · simp only [isNew, false_or, if_false]
    · rw [if_neg isIt]
      refine ⟨places, kept, fun i => ?_⟩
      rw [values, exactly]
      by_cases isNew : i = t.freeHead
      · have other : some b ≠ some c := fun same => isIt (Option.some.inj same).symm
        simp only [isNew, if_true, Option.bind_some, known, taken.unused, Option.bind_none, other,
          reduceCtorEq]
      · rw [if_neg isNew]
  · rw [values] at found
    by_cases isNew : i = t.freeHead
    · rw [if_pos isNew] at found
      obtain rfl := Option.some.inj found
      rw [known] at alone
      cases alone
    · rw [if_neg isNew] at found
      rw [leads, if_neg isNew]
      exact holds.alone i w found alone
  · obtain ⟨places, chain⟩ := taken.free
    exact ⟨places, chain.congr fun i _ => frees i⟩

/-! ### A value less -/

theorem unlinkAfter_spec {places : List Nat} {steps : Nat} (chain : Chain t.next j (j :: places))
    (member : i ∈ places) (enough : places.length < steps) :
    ∃ k v after, k ∈ j :: places ∧ t.value k = some v ∧ t.next i = some after ∧
      t.unlinkAfter i steps j = some (t.put k (.used v after)) ∧
      Chain (t.put k (.used v after)).next j ((j :: places).erase i) := by
  induction places generalizing j steps with
  | nil => cases member
  | cons m rest ih =>
    obtain ⟨steps, rfl⟩ := Nat.exists_eq_succ_of_ne_zero (Nat.ne_zero_of_lt enough)
    have outside := (List.nodup_cons.mp chain.nodup).1
    have apart : j ≠ i := fun same => outside (same ▸ member)
    obtain ⟨_, start, after, leads, later⟩ := chain
    obtain ⟨rfl, some, beyond, leads', behind⟩ := id later
    obtain ⟨v, reads⟩ := read_of_next leads
    by_cases found : after = i
    · subst found
      obtain ⟨w, reads'⟩ := read_of_next leads'
      refine ⟨j, v, beyond, List.mem_cons_self, value_of_read reads, leads', ?_, ?_⟩
      · rw [unlinkAfter, reads]
        simp only [Option.bind_eq_bind, Option.bind_some, if_neg some, if_true, reads']
        rfl
      · rw [List.erase_cons_tail (by simpa using apart), List.erase_cons_head]
        refine ⟨rfl, start, beyond, ?_, behind.congr fun k inside => ?_⟩
        · rw [next_put (lt_of_read reads), if_pos rfl]
        · have other : k ≠ j := fun same => outside (same ▸ List.mem_cons_of_mem _ inside)
          rw [next_put (lt_of_read reads), if_neg other]
    · have inRest : i ∈ rest := (List.mem_cons.mp member).resolve_left (Ne.symm found)
      obtain ⟨k, w, last, inside, stored, leadsOut, unlinks, shorter⟩ :=
        ih later inRest (Nat.lt_of_succ_lt_succ enough)
      refine ⟨k, w, last, List.mem_cons_of_mem _ inside, stored, leadsOut, ?_, ?_⟩
      · rw [unlinkAfter, reads]
        simp only [Option.bind_eq_bind, Option.bind_some, if_neg some, if_neg found]
        exact unlinks
      · rw [List.erase_cons_tail (by simpa using apart)]
        refine ⟨rfl, start, after, ?_, shorter⟩
        obtain ⟨beyond', readsK⟩ := read_of_value stored
        have other : j ≠ k := fun same => outside (same ▸ inside)
        rw [next_put (lt_of_read readsK), if_neg other, leads]

theorem Holds.unlink (holds : t.Holds bucket) (stored : t.value i = some v)
    (known : bucket v = some b) :
    ∃ t', t.unlink i b = some t' ∧ Same t t' ∧ t'.heads.length = t.heads.length ∧
      (∀ j w, t.value j = some w → bucket w ≠ some b → t'.next j = t.next j) ∧
      ∀ c, ∃ places, Chain t'.next (t'.head c) places ∧ ∀ j, j ∈ places ↔ j ≠ i ∧
      (t.value j).bind bucket = some c := by
  obtain ⟨within, -⟩ := holds.inside stored known
  obtain ⟨places, chain, exactly⟩ := holds.chains b
  have member : i ∈ places := (exactly i).mpr (by rw [stored, Option.bind_some, known])
  have erased : ∀ j, j ∈ places.erase i ↔ j ≠ i ∧ (t.value j).bind bucket = some b := by
    intro j
    rw [chain.nodup.mem_erase_iff, exactly]
  -- what holds of the other buckets, whichever link was written
  have others : ∀ t' : Table α, (∀ c, c ≠ b → t'.head c = t.head c) →
      (∀ j w, t.value j = some w → bucket w ≠ some b → t'.next j = t.next j) → ∀ c, c ≠ b →
      ∃ places, Chain t'.next (t'.head c) places ∧ ∀ j, j ∈ places ↔ j ≠ i ∧
      (t.value j).bind bucket = some c := by
    intro t' starts leads c apart
    obtain ⟨far, chain', exactly'⟩ := holds.chains c
    refine ⟨far, starts c apart ▸ chain'.congr fun j inside => ?_, fun j => ?_⟩
    · obtain ⟨w, found, isIn⟩ := Option.bind_eq_some_iff.mp ((exactly' j).mp inside)
      exact leads j w found fun same => apart (Option.some.inj (isIn.symm.trans same))
    · rw [exactly']
      refine ⟨fun isIn => ⟨fun same => ?_, isIn⟩, And.right⟩
      rw [same, stored, Option.bind_some, known] at isIn
      exact apart (Option.some.inj isIn).symm
  cases places with
  | nil => cases member
  | cons j rest =>
    obtain ⟨rfl, start, after, leads, later⟩ := id chain
    by_cases first : t.head b = i
    · subst first
      obtain ⟨w, reads⟩ := read_of_next leads
      refine ⟨t.setHead b after, ?_, ⟨fun _ => rfl, fun _ => rfl, rfl, rfl⟩, List.length_set,
        fun _ _ _ _ => rfl, fun c => ?_⟩
      · rw [Table.unlink, if_pos rfl, reads]
        rfl
      · by_cases isIt : c = b
        · subst isIt
          refine ⟨rest, ?_, ?_⟩
          · rw [head_setHead within, if_pos rfl]
            exact later
          · rwa [List.erase_cons_head] at erased
        · exact others (t.setHead b after)
            (fun c apart => by rw [head_setHead within, if_neg apart]) (fun _ _ _ _ => rfl) c isIt
    · have inRest : i ∈ rest := (List.mem_cons.mp member).resolve_left (Ne.symm first)
      have enough := Nat.lt_of_succ_lt (length_lt chain)
      obtain ⟨k, w, last, inside, found, -, unlinks, shorter⟩ :=
        unlinkAfter_spec chain inRest enough
      have keeps : ∀ j w', t.value j = some w' → bucket w' ≠ some b →
          (t.put k (.used w last)).next j = t.next j := by
        intro j w' holdsOther apart
        obtain ⟨beyond, readsK⟩ := read_of_value found
        have other : j ≠ k := by
          rintro rfl
          have isIn := (exactly j).mp inside
          rw [holdsOther, Option.bind_some] at isIn
          exact apart isIn
        rw [next_put (lt_of_read readsK), if_neg other]
      refine ⟨t.put k (.used w last), ?_, same_put found, rfl, keeps, fun c => ?_⟩
      · rw [Table.unlink, if_neg first, unlinks]
      · by_cases isIt : c = b
        · subst isIt
          exact ⟨_, shorter, erased⟩
        · exact others (t.put k (.used w last)) (fun _ _ => rfl) keeps c isIt

structure Removed (t : Table α) (i : Nat) (t' : Table α) : Prop where
  value : ∀ j, t'.value j = if j = i then none else t.value j
  freeHead : t'.freeHead = i
  heads : t'.heads.length = t.heads.length
  slots : t'.slots.length = t.slots.length

theorem value_give (inside : i < t.slots.length) (j : Nat) :
    (t.give i).value j = if j = i then none else t.value j := by
  show ((t.put i (.free t.freeHead)).read j).map Prod.fst = _
  rw [read_put_free inside]
  by_cases same : j = i
  · rw [if_pos same, if_pos same, Option.map_none]
  · rw [if_neg same, if_neg same, value]

theorem next_give (inside : i < t.slots.length) (apart : j ≠ i) : (t.give i).next j = t.next j := by
  show ((t.put i (.free t.freeHead)).read j).map Prod.snd = _
  rw [read_put_free inside, if_neg apart, Table.next]

-- A place that no chain leads to any more becomes the first free one.
theorem give_holds {t' : Table α} (holds : t.Holds bucket) (stored : t.value i = some v)
    (some : i ≠ 0) (same : Same t t') (heads : t'.heads.length = t.heads.length)
    (leads : ∀ j w, t.value j = Option.some w → bucket w = none → t'.next j = t.next j)
    (chains : ∀ c, ∃ places, Chain t'.next (t'.head c) places ∧ ∀ j, j ∈ places ↔ j ≠ i ∧
      (t.value j).bind bucket = Option.some c) :
    (t'.give i).Holds bucket ∧ Removed t i (t'.give i) := by
  obtain ⟨next, reads⟩ := read_of_value ((same.value i).trans stored)
  have inside := lt_of_read reads
  have value : ∀ j, (t'.give i).value j = if j = i then none else t.value j := by
    intro j
    rw [value_give inside]
    by_cases isIt : j = i
    · rw [if_pos isIt, if_pos isIt]
    · rw [if_neg isIt, if_neg isIt, same.value]
  refine ⟨⟨fun c => ?_, fun j w found alone => ?_, ?_⟩, value, rfl, heads,
    (length_put _).trans same.slots⟩
  · obtain ⟨places, chain, exactly⟩ := chains c
    refine ⟨places, chain.congr fun j member => next_give inside ((exactly j).mp member).1,
      fun j => ?_⟩
    rw [exactly, value]
    by_cases isIt : j = i
    · simp only [isIt, ne_eq, not_true_eq_false, false_and, if_true, Option.bind_none, reduceCtorEq]
    · simp only [isIt, ne_eq, not_false_eq_true, true_and, if_false]
  · rw [value] at found
    by_cases isIt : j = i
    · rw [if_pos isIt] at found
      cases found
    · rw [if_neg isIt] at found
      rw [next_give inside isIt, leads j w found alone]
      exact holds.alone j w found alone
  · obtain ⟨places, chain⟩ := same.free holds
    refine ⟨i :: places, rfl, some, t'.freeHead, ?_, chain.congr fun j member => ?_⟩
    · exact (freeNext_put_free inside i).trans (if_pos rfl)
    · have isIt : j ≠ i := by
        rintro rfl
        exact (chain.reads j member).2 (freeNext_of_read reads)
      exact (freeNext_put_free inside j).trans (if_neg isIt)

theorem Holds.remove (holds : t.Holds bucket) (stored : t.value i = some v)
    (known : bucket v = some b) :
    ∃ t', t.unlink i b = some t' ∧ (t'.give i).Holds bucket ∧ Removed t i (t'.give i) := by
  obtain ⟨t', unlinks, same, heads, leads, chains⟩ := holds.unlink stored known
  have alone : ∀ j w, t.value j = some w → bucket w = none → t'.next j = t.next j := by
    intro j w found none
    exact leads j w found fun isIn => by
      rw [none] at isIn
      cases isIn
  exact ⟨t', unlinks, give_holds holds stored (holds.inside stored known).2 same heads alone chains⟩

theorem Holds.removeAlone (holds : t.Holds bucket) (stored : t.value i = some v) (some : i ≠ 0)
    (none : bucket v = none) :
    t.next i = Option.some i ∧ (t.give i).Holds bucket ∧ Removed t i (t.give i) := by
  refine ⟨holds.alone i v stored none, ?_⟩
  refine give_holds holds stored some ⟨fun _ => rfl, fun _ => rfl, rfl, rfl⟩ rfl
    (fun _ _ _ _ => rfl) fun c => ?_
  obtain ⟨places, chain, exactly⟩ := holds.chains c
  refine ⟨places, chain, fun j => ?_⟩
  rw [exactly]
  refine ⟨fun isIn => ⟨fun isIt => ?_, isIn⟩, And.right⟩
  rw [isIt, stored, Option.bind_some, none] at isIn
  cases isIn

/-! ### More places -/

theorem Holds.first (holds : t.Holds bucket) (empty : t.slots = []) (none : bucket v = none) :
    Holds { t with slots := [.used v 0] } bucket ∧
    ∀ i, Table.value { t with slots := [.used v 0] } i = if i = 0 then some v else t.value i := by
  have unused : ∀ i, t.value i = .none := fun i => by rw [value, read, empty]; rfl
  have value : ∀ i, Table.value { t with slots := [.used v 0] } i =
      if i = 0 then some v else t.value i := by
    intro i
    cases i with
    | zero => rfl
    | succ i => exact (unused (i + 1)).symm
  refine ⟨⟨fun b => ⟨[], ?_, fun i => ?_⟩, fun i w stored alone => ?_, ⟨[], ?_⟩⟩, value⟩
  · obtain ⟨places, chain, exactly⟩ := holds.chains b
    cases places with
    | nil => exact chain
    | cons j rest =>
      have isIn := (exactly j).mp List.mem_cons_self
      rw [unused] at isIn
      cases isIn
  · rw [value]
    by_cases isIt : i = 0
    · simp only [isIt, if_true, Option.bind_some, none, List.not_mem_nil, reduceCtorEq]
    · simp only [isIt, if_false, unused, Option.bind_none, List.not_mem_nil, reduceCtorEq]
  · rw [value] at stored
    by_cases isIt : i = 0
    · rw [isIt]
      rfl
    · rw [if_neg isIt, unused] at stored
      cases stored
  · obtain ⟨places, chain⟩ := holds.free
    cases places with
    | nil => exact chain
    | cons j rest =>
      obtain ⟨after, leads, -⟩ := chain.2.2
      have within := lt_of_freeNext leads
      rw [empty] at within
      exact absurd within (Nat.not_lt_zero _)

theorem freeNext_grow {size : Nat} (i : Nat) : (t.grow size).freeNext i =
    if i < t.slots.length then t.freeNext i
    else if i < size then some (if i + 1 = size then 0 else i + 1) else none := by
  unfold grow freeNext
  by_cases old : i < t.slots.length
  · rw [if_pos old, List.getElem?_append_left old]
  · rw [if_neg old, List.getElem?_append_right (Nat.not_lt.mp old), List.getElem?_map]
    by_cases new : i < size
    · rw [if_pos new, List.getElem?_range' (by omega), Nat.one_mul,
        Nat.add_sub_cancel' (Nat.not_lt.mp old)]
      rfl
    · rw [if_neg new, List.getElem?_eq_none (by rw [List.length_range']; omega)]
      rfl

theorem read_grow {size : Nat} (i : Nat) : (t.grow size).read i = t.read i := by
  by_cases old : i < t.slots.length
  · simp only [grow, read, List.getElem?_append_left old]
  · have beyond : t.read i = none := by rw [read, List.getElem?_eq_none (Nat.not_lt.mp old)]
    rw [beyond]
    simp only [grow, read, List.getElem?_append_right (Nat.not_lt.mp old), List.getElem?_map]
    cases (List.range' t.slots.length (size - t.slots.length))[i - t.slots.length]? <;> rfl

theorem grow_chain {size count : Nat} (some : t.slots.length ≠ 0)
    (new : t.slots.length + count ≤ size) :
    Chain (t.grow size).freeNext (if count = 0 then 0 else size - count)
      (List.range' (size - count) count) := by
  induction count with
  | zero => rfl
  | succ count ih =>
    rw [if_neg (Nat.succ_ne_zero count), List.range'_succ]
    have same : size - (count + 1) + 1 = size - count := by omega
    rw [same]
    refine ⟨rfl, by omega, if size - count = size then 0 else size - count, ?_, ?_⟩
    · rw [freeNext_grow, if_neg (by omega), if_pos (by omega), same]
    · have later := ih (by omega)
      by_cases last : count = 0
      · subst last
        rw [if_pos (by omega)]
        exact later
      · rw [if_neg (by omega)]
        rwa [if_neg last] at later

theorem length_grow {size : Nat} (more : t.slots.length ≤ size) :
    (t.grow size).slots.length = size := by
  simp only [grow, List.length_append, List.length_map, List.length_range']
  omega

theorem Holds.grow {size : Nat} (holds : t.Holds bucket) (some : t.slots.length ≠ 0)
    (more : t.slots.length < size) :
    (t.grow size).Holds bucket ∧ (∀ i, (t.grow size).value i = t.value i) ∧
    (t.grow size).freeHead ≠ 0 ∧
      (t.grow size).heads = t.heads ∧ (t.grow size).slots.length = size := by
  have value : ∀ i, (t.grow size).value i = t.value i :=
    fun i => by rw [Table.value, read_grow, Table.value]
  have next : ∀ i, (t.grow size).next i = t.next i :=
    fun i => by rw [Table.next, read_grow, Table.next]
  refine ⟨⟨fun b => ?_, fun i w stored alone => ?_, ?_⟩, value, some, rfl,
    length_grow (Nat.le_of_lt more)⟩
  · obtain ⟨places, chain, exactly⟩ := holds.chains b
    exact ⟨places, chain.congr fun i _ => next i, fun i => by rw [exactly, value]⟩
  · rw [next]
    exact holds.alone i w (value i ▸ stored) alone
  · have new : t.slots.length + (size - t.slots.length) ≤ size :=
      Nat.le_of_eq (Nat.add_sub_cancel' (Nat.le_of_lt more))
    have chain := grow_chain some new
    rw [if_neg (by omega), Nat.sub_sub_self (Nat.le_of_lt more)] at chain
    exact ⟨_, chain⟩

/-! ### More buckets -/

/-- Some places of a table have been moved to chains of other heads. -/
structure Moving (t : Table α) (position : α → Nat) (heads : List Nat) (t' : Table α)
    (moved : Nat → Prop) : Prop where
  same : Same t t'
  rest : ∀ j, ¬moved j → t'.next j = t.next j
  chains : ∀ c, ∃ places, Chain t'.next ((heads[c]?).getD 0) places ∧
    ∀ j, j ∈ places ↔ moved j ∧ (t.value j).map position = some c

theorem getD_set {heads : List Nat} {k : Nat} (inside : b < heads.length) (c : Nat) :
    ((heads.set b k)[c]?).getD 0 = if c = b then k else (heads[c]?).getD 0 := by
  by_cases same : c = b
  · subst same
    rw [List.getElem?_set_self inside, Option.getD_some, if_pos rfl]
  · rw [List.getElem?_set_ne (Ne.symm same), if_neg same]

variable {position : α → Nat}

theorem Moving.step {t' : Table α} {heads : List Nat} {moved : Nat → Prop}
    (moving : Moving t position heads t' moved) (stored : t.value i = some v) (some : i ≠ 0)
    (still : ¬moved i) (inside : position v < heads.length) :
    Moving t position (heads.set (position v) i) (t'.put i (.used v ((heads[position v]?).getD 0)))
      fun j => moved j ∨ j = i := by
  have stored' := (moving.same.value i).trans stored
  obtain ⟨next, reads⟩ := read_of_value stored'
  have leads : ∀ j, (t'.put i (.used v ((heads[position v]?).getD 0))).next j =
      if j = i then Option.some ((heads[position v]?).getD 0) else t'.next j :=
    next_put (lt_of_read reads)
  refine ⟨moving.same.trans (same_put stored'), fun j unmoved => ?_, fun c => ?_⟩
  · rw [leads, if_neg fun isIt => unmoved (.inr isIt)]
    exact moving.rest j fun isMoved => unmoved (.inl isMoved)
  · obtain ⟨places, chain, exactly⟩ := moving.chains c
    have apart : ∀ j ∈ places, j ≠ i :=
      fun j member isIt => still (isIt ▸ ((exactly j).mp member).1)
    have kept := chain.congr fun j member => (leads j).trans (if_neg (apart j member))
    rw [getD_set inside]
    by_cases isIt : c = position v
    · subst isIt
      rw [if_pos rfl]
      refine ⟨i :: places, ⟨rfl, some, _, (leads i).trans (if_pos rfl), kept⟩, fun j => ?_⟩
      rw [List.mem_cons, exactly]
      by_cases isNew : j = i
      · simp only [isNew, stored, Option.map_some, true_or, or_true, and_true]
      · simp only [isNew, false_or, or_false]
    · rw [if_neg isIt]
      refine ⟨places, kept, fun j => ?_⟩
      rw [exactly]
      by_cases isNew : j = i
      · simp only [isNew, stored, Option.map_some, Option.some.injEq, Ne.symm isIt, and_false]
      · simp only [isNew, or_false]

theorem moveChain_spec {t' : Table α} {heads places : List Nat} {moved : Nat → Prop} {steps : Nat}
    (moving : Moving t position heads t' moved) (chain : Chain t.next i places)
    (still : ∀ j ∈ places, ¬moved j)
    (inside : ∀ j w, t.value j = some w → j ∈ places → position w < heads.length)
    (enough : places.length < steps) :
    ∃ heads' t'', moveChain position steps i heads t' = some (heads', t'') ∧
    heads'.length = heads.length ∧
      Moving t position heads' t'' fun j => moved j ∨ j ∈ places := by
  induction places generalizing i steps heads t' moved with
  | nil =>
    obtain ⟨steps, rfl⟩ := Nat.exists_eq_succ_of_ne_zero (Nat.ne_zero_of_lt enough)
    obtain rfl : i = 0 := chain
    refine ⟨heads, t', rfl, rfl, ?_⟩
    simpa only [List.not_mem_nil, or_false] using moving
  | cons j rest ih =>
    obtain ⟨steps, rfl⟩ := Nat.exists_eq_succ_of_ne_zero (Nat.ne_zero_of_lt enough)
    have outside := (List.nodup_cons.mp chain.nodup).1
    obtain ⟨rfl, some, after, leads, later⟩ := chain
    have unmoved := still i List.mem_cons_self
    obtain ⟨v, readsOld⟩ := read_of_next leads
    have stored := value_of_read readsOld
    obtain ⟨w, reads⟩ := read_of_next ((moving.rest i unmoved).trans leads)
    obtain rfl : v = w :=
      Option.some.inj (stored.symm.trans ((moving.same.value i).symm.trans (value_of_read reads)))
    have within := inside i v stored List.mem_cons_self
    have moving' := moving.step stored some unmoved within
    have unfolds : moveChain position (steps + 1) i heads t' =
        moveChain position steps after (heads.set (position v) i)
          (t'.put i (.used v ((heads[position v]?).getD 0))) := by
      rw [moveChain, if_neg some, reads]
      rfl
    have still' : ∀ k ∈ rest, ¬(moved k ∨ k = i) := by
      rintro k member (isMoved | rfl)
      · exact still k (List.mem_cons_of_mem _ member) isMoved
      · exact outside member
    have inside' : ∀ k w, t.value k = Option.some w → k ∈ rest →
        position w < (heads.set (position v) i).length := by
      intro k w found member
      rw [List.length_set]
      exact inside k w found (List.mem_cons_of_mem _ member)
    obtain ⟨heads', t'', moves, length, ends⟩ :=
      ih moving' later still' inside' (Nat.lt_of_succ_lt_succ enough)
    refine ⟨heads', t'', unfolds.trans moves, length.trans List.length_set, ?_⟩
    simpa only [List.mem_cons, or_assoc] using ends

-- The heads are moved in turn; what has moved is what was in the buckets before.
theorem moveAll_spec {t' : Table α} {heads front back : List Nat} (holds : t.Holds bucket)
    (moving : Moving t position heads t' fun j => ∃ b < front.length,
      (t.value j).bind bucket = some b)
    (split : t.heads = front ++ back)
    (inside : ∀ j w, t.value j = some w → (bucket w).isSome → position w < heads.length) :
    ∃ heads' t'', moveAll position back heads t' = some (heads', t'') ∧
    heads'.length = heads.length ∧
      Moving t position heads' t'' fun j => ∃ b < t.heads.length,
      (t.value j).bind bucket = some b := by
  induction back generalizing front heads t' with
  | nil =>
    rw [List.append_nil] at split
    exact ⟨heads, t', rfl, rfl, by rwa [split]⟩
  | cons i rest ih =>
    have start : t.head front.length = i := by
      rw [head, split, List.getElem?_append_right (Nat.le_refl _), Nat.sub_self]
      rfl
    obtain ⟨places, chain, exactly⟩ := holds.chains front.length
    rw [start] at chain
    have still : ∀ j ∈ places, ¬∃ b < front.length, (t.value j).bind bucket = some b := by
      rintro j member ⟨b, before, isIn⟩
      have same := Option.some.inj (isIn.symm.trans ((exactly j).mp member))
      omega
    have within : ∀ j w, t.value j = some w → j ∈ places → position w < heads.length := by
      intro j w stored member
      have isIn := (exactly j).mp member
      rw [stored, Option.bind_some] at isIn
      exact inside j w stored (by rw [isIn]; rfl)
    have enough : places.length < t'.slots.length + 1 := by
      rw [moving.same.slots]
      exact length_lt chain
    obtain ⟨heads', t'', moves, length, moving'⟩ := moveChain_spec moving chain still within enough
    have moving'' : Moving t position heads' t''
        fun j => ∃ b < (front ++ [i]).length, (t.value j).bind bucket = some b := by
      have same : (fun j => ∃ b < (front ++ [i]).length, (t.value j).bind bucket = some b) =
          fun j => (∃ b < front.length, (t.value j).bind bucket = some b) ∨ j ∈ places := by
        funext j
        rw [exactly, List.length_append, List.length_singleton]
        refine propext ⟨?_, ?_⟩
        · rintro ⟨b, before, isIn⟩
          rcases Nat.lt_succ_iff_lt_or_eq.mp before with earlier | rfl
          · exact .inl ⟨b, earlier, isIn⟩
          · exact .inr isIn
        · rintro (⟨b, before, isIn⟩ | isIn)
          · exact ⟨b, Nat.lt_succ_of_lt before, isIn⟩
          · exact ⟨_, Nat.lt_succ_self _, isIn⟩
      rwa [same]
    have split' : t.heads = (front ++ [i]) ++ rest := by
      rw [split, List.append_assoc, List.singleton_append]
    obtain ⟨heads'', t₃, moves', length', ends⟩ :=
      ih moving'' split' fun j w stored isIn => length ▸ inside j w stored isIn
    refine ⟨heads'', t₃, ?_, length'.trans length, ends⟩
    rw [moveAll, moves]
    exact moves'

-- Every value with a bucket goes to the bucket of its new position, and nothing else changes.
theorem Holds.rehash {size : Nat} (holds : t.Holds bucket)
    (inside : ∀ j w, t.value j = some w → (bucket w).isSome → position w < size) :
    ∃ t', t.rehash position size = some t' ∧
    t'.Holds (fun v => (bucket v).map fun _ => position v) ∧ Same t t' ∧
      t'.heads.length = size := by
  have none : ∀ c : Nat, ((List.replicate size 0)[c]?).getD 0 = 0 := by
    intro c
    rw [List.getElem?_replicate]
    split <;> rfl
  have start : Moving t position (List.replicate size 0) t
      fun j => ∃ b < ([] : List Nat).length, (t.value j).bind bucket = some b := by
    refine ⟨⟨fun _ => rfl, fun _ => rfl, rfl, rfl⟩, fun _ _ => rfl, fun c =>
      ⟨[], none c, fun j => ?_⟩⟩
    refine ⟨fun member => absurd member List.not_mem_nil, ?_⟩
    rintro ⟨⟨b, before, -⟩, -⟩
    exact absurd before (Nat.not_lt_zero b)
  have within : ∀ j w, t.value j = some w → (bucket w).isSome →
      position w < (List.replicate size 0).length := by
    intro j w stored isIn
    rw [List.length_replicate]
    exact inside j w stored isIn
  obtain ⟨heads, t', moves, length, ends⟩ := moveAll_spec holds start rfl within
  have rehashes : t.rehash position size = some { t' with heads } := by
    rw [Table.rehash, moves]
    rfl
  refine ⟨_, rehashes, ⟨fun c => ?_, fun j w stored alone => ?_, ?_⟩, ?_,
    length.trans List.length_replicate⟩
  · obtain ⟨places, chain, exactly⟩ := ends.chains c
    refine ⟨places, chain, fun j => ?_⟩
    show _ ↔ (t'.value j).bind _ = _
    rw [exactly, ends.same.value]
    cases stored : t.value j with
    | none => simp only [Option.bind_none, reduceCtorEq, and_false, exists_false, false_and]
    | some w =>
      simp only [Option.bind_some, Option.map_some, Option.map_eq_some_iff, Option.some.injEq]
      constructor
      · rintro ⟨⟨b, -, isIn⟩, same⟩
        exact ⟨b, isIn, same⟩
      · rintro ⟨b, isIn, same⟩
        exact ⟨⟨b, (holds.inside stored isIn).1, isIn⟩, same⟩
  · have stored' : t.value j = some w := (ends.same.value j).symm.trans stored
    have bare : bucket w = .none := Option.map_eq_none_iff.mp alone
    refine (ends.rest j ?_).trans (holds.alone j w stored' bare)
    rintro ⟨b, -, isIn⟩
    rw [stored', Option.bind_some, bare] at isIn
    cases isIn
  · exact ends.same.free holds
  · exact ⟨ends.same.value, ends.same.freeNext, ends.same.freeHead, ends.same.slots⟩

end Table

end QuickJSBun.Library.Chained
