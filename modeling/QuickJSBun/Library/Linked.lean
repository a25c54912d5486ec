import Mathlib.Data.List.Basic
import Mathlib.Logic.Function.Basic

/-! Singly linked lists in memory. A link is a place that holds a pointer, the head of the list or
the `next` of a node, so that a node can be taken out through the link that leads to it. Reading,
writing or freeing a node that is not allocated has no result, and neither has a loop that never ends.
-/

set_option autoImplicit false

namespace QuickJSBun.Library.Linked

variable {α : Type}

structure Node (α : Type) where
  value : α
  next : Option Nat

/-- A head and the nodes; what is at an address that is not allocated is unknown. -/
structure Memory (α : Type) where
  head : Option Nat
  allocated : List Nat
  node : Nat → Node α

inductive Link where
  | head
  | next (address : Nat)
  deriving DecidableEq, Repr

namespace Memory
variable (s : Memory α)

def read (address : Nat) : Option (Node α) :=
  if address ∈ s.allocated then some (s.node address) else none

def load : Link → Option (Option Nat)
  | .head => some s.head
  | .next address => (s.read address).map Node.next

def store (link : Link) (pointer : Option Nat) : Option (Memory α) :=
  match link with
  | .head => some { s with head := pointer }
  | .next address =>
    (s.read address).map fun node =>
      { s with node := Function.update s.node address { node with next := pointer } }

def free (address : Nat) : Option (Memory α) :=
  if address ∈ s.allocated then some { s with allocated := s.allocated.erase address } else none

/-- `for (link = from; *link; link = &(*link)->next)` up to the first value that is looked for: its
link and its address. -/
def seek (wanted : α → Bool) : Nat → Link → Option (Option (Link × Nat))
  | 0, _ => none
  | steps + 1, link => do
    match ← s.load link with
    | none => pure none
    | some address =>
      let node ← s.read address
      if wanted node.value then pure (some (link, address)) else seek wanted steps (.next address)

/-- The loop from the head; one that takes more steps than there are nodes never ends. -/
def find (wanted : α → Bool) : Option (Option (Link × Nat)) :=
  s.seek wanted (s.allocated.length + 1) .head

def push (address : Nat) (value : α) : Memory α where
  head := some address
  allocated := address :: s.allocated
  node := Function.update s.node address ⟨value, s.head⟩

/-- `*link = node->next` -/
def unlink (link : Link) (address : Nat) : Option (Memory α) := do
  let node ← s.read address
  s.store link node.next

def toFront (link : Link) (address : Nat) : Option (Memory α) := do
  let s ← s.unlink link address
  let s ← s.store (.next address) s.head
  s.store .head (some address)

def remove (link : Link) (address : Nat) : Option (Memory α) := do
  let s ← s.unlink link address
  s.free address

/-- `while (head) { node = head; head = node->next; free(node); }`, and what it frees. -/
def freeFrom : Nat → Memory α → Option (List Nat × Memory α)
  | 0, _ => none
  | steps + 1, s =>
    match s.head with
    | none => pure ([], s)
    | some address => do
      let node ← s.read address
      let s ← Memory.free { s with head := node.next } address
      let (freed, s) ← freeFrom steps s
      pure (address :: freed, s)

def freeAll : Option (List Nat × Memory α) := freeFrom (s.allocated.length + 1) s

end Memory

/-! ### Segments -/

/-- Following `next` from `start` passes the addresses and comes to `stop`. -/
def Segment (node : Nat → Node α) (start : Option Nat) : List Nat → Option Nat → Prop
  | [], stop => start = stop
  | address :: rest, stop => start = some address ∧ Segment node (node address).next rest stop

section
variable {node : Nat → Node α} {start stop : Option Nat} {front back : List Nat}

theorem segment_append :
    Segment node start (front ++ back) stop ↔ ∃ middle, Segment node start front middle ∧
    Segment node middle back stop := by
  induction front generalizing start with
  | nil => simp [Segment]
  | cons address rest ih => simp [Segment, ih, and_assoc]

-- What a segment does not pass may change.
theorem Segment.update {addresses : List Nat} {address : Nat}
    (segment : Segment node start addresses stop) (outside : address ∉ addresses) (other : Node α) :
    Segment (Function.update node address other) start addresses stop := by
  induction addresses generalizing start with
  | nil => exact segment
  | cons first rest ih =>
    obtain ⟨here, later⟩ := segment
    have apart : first ≠ address := fun same => outside (same ▸ List.mem_cons_self)
    refine ⟨here, ?_⟩
    rw [Function.update_of_ne apart]
    exact ih later fun member => outside (List.mem_cons_of_mem _ member)

end

def lastLink (link : Link) : List Nat → Link
  | [] => link
  | address :: rest => lastLink (.next address) rest

theorem lastLink_concat (link : Link) (addresses : List Nat) (address : Nat) :
    lastLink link (addresses ++ [address]) = .next address := by
  induction addresses generalizing link with
  | nil => rfl
  | cons first rest ih => exact ih (.next first)

/-! ### Lists -/

namespace Memory
variable {s : Memory α} {address : Nat} {addresses front back : List Nat}

theorem read_of_mem (member : address ∈ s.allocated) : s.read address = some (s.node address) :=
  if_pos member

/-- The list has these nodes, each once, and there are no others. -/
structure Holds (s : Memory α) (addresses : List Nat) : Prop where
  segment : Segment s.node s.head addresses none
  distinct : addresses.Nodup
  all : s.allocated.Perm addresses

/-- The values that two memories have at the addresses of the second are the same. -/
def SameValues (s s' : Memory α) : Prop :=
  ∀ address, (s'.node address).value = (s.node address).value

theorem Holds.read (holds : s.Holds addresses) (member : address ∈ addresses) :
    s.read address = some (s.node address) :=
  read_of_mem (holds.all.mem_iff.mpr member)

theorem Holds.length (holds : s.Holds addresses) : s.allocated.length = addresses.length :=
  holds.all.length_eq

theorem holds_empty (node : Nat → Node α) : Holds ⟨none, [], node⟩ [] := ⟨rfl, .nil, .refl _⟩

theorem Holds.push (holds : s.Holds addresses) (fresh : address ∉ s.allocated) (value : α) :
    (s.push address value).Holds (address :: addresses) where
  segment := by
    have outside : address ∉ addresses := fun member => fresh (holds.all.mem_iff.mpr member)
    refine ⟨rfl, ?_⟩
    simp only [Memory.push, Function.update_self]
    exact holds.segment.update outside _
  distinct :=
    List.nodup_cons.mpr ⟨fun member => fresh (holds.all.mem_iff.mpr member), holds.distinct⟩
  all := holds.all.cons _

theorem push_value_self (address : Nat) (value : α) :
    ((s.push address value).node address).value = value := by
  simp only [Memory.push, Function.update_self]

theorem push_value_of_ne {other : Nat} (apart : other ≠ address) (value : α) :
    ((s.push address value).node other).value = (s.node other).value := by
  simp only [Memory.push, Function.update_of_ne apart]

-- The loop ends at the first node that is wanted, or behind the last.
theorem seek_spec (wanted : α → Bool) {pointer : Option Nat} {steps : Nat} {link : Link}
    (loads : s.load link = some pointer) (segment : Segment s.node pointer addresses none)
    (known : ∀ address ∈ addresses, address ∈ s.allocated) (enough : addresses.length < steps) :
    (s.seek wanted steps link = some none ∧
      ∀ address ∈ addresses, wanted (s.node address).value = false) ∨
      ∃ front address back, addresses = front ++ address :: back ∧
      wanted (s.node address).value = true ∧
        s.seek wanted steps link = some (some (lastLink link front, address)) := by
  induction addresses generalizing pointer steps link with
  | nil =>
    obtain ⟨steps, rfl⟩ := Nat.exists_eq_succ_of_ne_zero (Nat.ne_zero_of_lt enough)
    obtain rfl : pointer = none := segment
    left
    refine ⟨?_, nofun⟩
    rw [seek, loads]
    rfl
  | cons first rest ih =>
    obtain ⟨steps, rfl⟩ := Nat.exists_eq_succ_of_ne_zero (Nat.ne_zero_of_lt enough)
    obtain ⟨rfl, later⟩ := segment
    have reads := read_of_mem (known first List.mem_cons_self)
    have unfolds : s.seek wanted (steps + 1) link =
        if wanted (s.node first).value then some (some (link, first))
          else s.seek wanted steps (.next first) := by
      rw [seek, loads]
      simp only [Option.bind_eq_bind, Option.bind_some, reads]
      rfl
    by_cases found : wanted (s.node first).value = true
    · right
      refine ⟨[], first, rest, rfl, found, ?_⟩
      rw [unfolds, if_pos found]
      rfl
    · have loadsNext : s.load (.next first) = some (s.node first).next := by
        rw [load, reads]
        rfl
      have others : ∀ address ∈ rest, address ∈ s.allocated :=
        fun address member => known address (List.mem_cons_of_mem _ member)
      rw [unfolds, if_neg found]
      rcases ih loadsNext later others
        (Nat.lt_of_succ_lt_succ enough) with ⟨ends, none⟩ | ⟨front, address, back, split,
          isWanted, ends⟩
      · left
        refine ⟨ends, fun address member => ?_⟩
        rcases List.mem_cons.mp member with rfl | later
        · simpa using found
        · exact none address later
      · right
        refine ⟨first :: front, address, back, ?_, isWanted, ends⟩
        rw [split]
        rfl

theorem Holds.find (holds : s.Holds addresses) (wanted : α → Bool) :
    (s.find wanted = some none ∧ ∀ address ∈ addresses, wanted (s.node address).value = false) ∨
      ∃ front address back, addresses = front ++ address :: back ∧
      wanted (s.node address).value = true ∧
        s.find wanted = some (some (lastLink .head front, address)) := by
  apply seek_spec wanted rfl holds.segment fun address member => holds.all.mem_iff.mpr member
  rw [holds.length]
  exact Nat.lt_succ_self _

-- A node is taken out of the list; it stays allocated, and no value changes.
theorem Holds.unlink (holds : s.Holds (front ++ address :: back)) :
    ∃ s', s.unlink (lastLink .head front) address = some s' ∧ Segment s'.node s'.head (front ++ back) none ∧
      s'.allocated = s.allocated ∧ s.SameValues s' := by
  have reads := holds.read (List.mem_append_right front List.mem_cons_self)
  obtain ⟨middle, before, rfl, after⟩ := segment_append.mp holds.segment
  unfold Memory.unlink
  rw [reads]
  rcases List.eq_nil_or_concat front with rfl | ⟨init, last, rfl⟩
  · exact ⟨_, rfl, after, rfl, fun _ => rfl⟩
  · rw [List.concat_eq_append] at *
    have readsLast := holds.read
      (List.mem_append_left (address :: back) (List.mem_append_right init List.mem_cons_self))
    obtain ⟨_, first, rfl, -⟩ := segment_append.mp before
    have distinct := holds.distinct
    have notInit : last ∉ init := by
      intro member
      rw [List.append_assoc] at distinct
      exact (List.nodup_append.mp distinct).2.2 last member last (by simp) rfl
    have notBack : last ∉ back := by
      intro member
      exact (List.nodup_append.mp distinct).2.2 last (by simp) last (List.mem_cons_of_mem _ member) rfl
    have stores : s.store (lastLink .head (init ++ [last])) (s.node address).next =
        some { s with node := Function.update s.node last { s.node last with next := (s.node address).next } } := by
      rw [lastLink_concat, store, readsLast]
      rfl
    refine ⟨_, stores, ?_, rfl, fun other => ?_⟩
    · rw [List.append_assoc]
      refine segment_append.mpr ⟨_, first.update notInit _, rfl, ?_⟩
      dsimp only
      rw [Function.update_self]
      exact after.update notBack _
    · dsimp only
      by_cases same : other = last
      · subst same
        rw [Function.update_self]
      · rw [Function.update_of_ne same]

theorem Holds.perm_front (holds : s.Holds (front ++ address :: back)) :
    s.allocated.Perm (address :: (front ++ back)) :=
  holds.all.trans List.perm_middle

theorem Holds.rest (holds : s.Holds (front ++ address :: back)) :
    address ∉ front ++ back ∧ (front ++ back).Nodup := by
  have distinct := (List.perm_middle.nodup_iff).mp holds.distinct
  exact List.nodup_cons.mp distinct

theorem Holds.toFront (holds : s.Holds (front ++ address :: back)) :
    ∃ s', s.toFront (lastLink .head front) address = some s' ∧
    s'.Holds (address :: (front ++ back)) ∧ s.SameValues s' := by
  obtain ⟨s', unlinks, segment, allocated, same⟩ := holds.unlink
  have member : address ∈ s'.allocated := by
    rw [allocated]
    exact holds.all.mem_iff.mpr (List.mem_append_right front List.mem_cons_self)
  unfold Memory.toFront
  rw [unlinks]
  simp only [Option.bind_eq_bind, Option.bind_some, store, read_of_mem member, Option.map_some]
  refine ⟨_, rfl, ⟨⟨rfl, ?_⟩, List.nodup_cons.mpr holds.rest, ?_⟩, fun other => ?_⟩
  · dsimp only
    rw [Function.update_self]
    exact segment.update holds.rest.1 _
  · rw [allocated]
    exact holds.perm_front
  · dsimp only
    by_cases isIt : other = address
    · subst isIt
      rw [Function.update_self]
      exact same other
    · rw [Function.update_of_ne isIt]
      exact same other

theorem Holds.remove (holds : s.Holds (front ++ address :: back)) :
    ∃ s', s.remove (lastLink .head front) address = some s' ∧ s'.Holds (front ++ back) ∧
    s.SameValues s' := by
  obtain ⟨s', unlinks, segment, allocated, same⟩ := holds.unlink
  have member : address ∈ s'.allocated := by
    rw [allocated]
    exact holds.all.mem_iff.mpr (List.mem_append_right front List.mem_cons_self)
  unfold Memory.remove
  rw [unlinks]
  simp only [Option.bind_eq_bind, Option.bind_some, free, if_pos member]
  refine ⟨_, rfl, ⟨segment, holds.rest.2, ?_⟩, same⟩
  have erased := holds.perm_front.erase address
  rwa [List.erase_cons_head, ← allocated] at erased

theorem freeFrom_spec {steps : Nat} (holds : s.Holds addresses)
    (enough : addresses.length < steps) :
    ∃ s', freeFrom steps s = some (addresses, s') ∧ s'.allocated = [] ∧ s'.head = none := by
  induction addresses generalizing s steps with
  | nil =>
    obtain ⟨steps, rfl⟩ := Nat.exists_eq_succ_of_ne_zero (Nat.ne_zero_of_lt enough)
    have atEnd : s.head = none := holds.segment
    refine ⟨s, ?_, holds.all.eq_nil, atEnd⟩
    rw [freeFrom, atEnd]
    rfl
  | cons address rest ih =>
    obtain ⟨steps, rfl⟩ := Nat.exists_eq_succ_of_ne_zero (Nat.ne_zero_of_lt enough)
    have member : address ∈ s.allocated := holds.all.mem_iff.mpr List.mem_cons_self
    obtain ⟨here, later⟩ := holds.segment
    have left : Holds
        { s with head := (s.node address).next, allocated := s.allocated.erase address } rest := by
      refine ⟨later, (List.nodup_cons.mp holds.distinct).2, ?_⟩
      have erased := holds.all.erase address
      rwa [List.erase_cons_head] at erased
    obtain ⟨s', frees, none, atEnd⟩ := ih left (Nat.lt_of_succ_lt_succ enough)
    refine ⟨s', ?_, none, atEnd⟩
    rw [freeFrom, here]
    simp only [Option.bind_eq_bind, read_of_mem member, Option.bind_some, free,
      if_pos member, frees]
    rfl

theorem Holds.freeAll (holds : s.Holds addresses) :
    ∃ s', s.freeAll = some (addresses, s') ∧ s'.allocated = [] ∧ s'.head = none := by
  apply freeFrom_spec holds
  rw [holds.length]
  exact Nat.lt_succ_self _

end Memory

end QuickJSBun.Library.Linked
