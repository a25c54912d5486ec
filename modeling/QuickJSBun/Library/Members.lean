import Mathlib.Data.List.Basic

/-! Members of an object in the order of its keys: those that have a rank first, by
rank, then the others in the order in which they were defined.
-/

set_option autoImplicit false

namespace QuickJSBun.Library

variable {K V : Type} [DecidableEq K] (rank : K → Option Nat)

/-- `key` goes before the first member of a higher rank, or of none. -/
def place (key : K) (value : V) : List (K × V) → List (K × V)
  | [] => [(key, value)]
  | (other, item) :: rest =>
    match rank key, rank other with
    | some _, none => (key, value) :: (other, item) :: rest
    | some i, some j =>
      if i < j then (key, value) :: (other, item) :: rest else (other, item) :: place key value rest
    | none, _ => (other, item) :: place key value rest

-- A member that is there keeps its place.
def define (key : K) (value : V) (members : List (K × V)) : List (K × V) :=
  if members.any (fun member => decide (member.1 = key)) then
    members.map fun member => if member.1 = key then (key, value) else member
  else place rank key value members

def member (key : K) (members : List (K × V)) : Option V :=
  (members.find? fun entry => decide (entry.1 = key)).map (·.2)

variable {rank}

@[simp] theorem member_cons (key : K) (entry : K × V) (members : List (K × V)) :
    member key (entry :: members) = if entry.1 = key then some entry.2 else member key members := by
  unfold member
  rw [List.find?_cons]
  by_cases same : entry.1 = key
  · simp [same]
  · simp [same]

theorem member_place {key : K} (value : V) (other : K) {members : List (K × V)}
    (fresh : ∀ entry ∈ members, entry.1 ≠ key) :
    member other (place rank key value members) =
      if key = other then some value else member other members := by
  induction members with
  | nil => exact member_cons other (key, value) []
  | cons first rest ih =>
    obtain ⟨firstKey, item⟩ := first
    have apart : firstKey ≠ key := fresh _ List.mem_cons_self
    have later := ih fun entry inside => fresh entry (List.mem_cons_of_mem _ inside)
    have here : member other ((firstKey, item) :: place rank key value rest) =
        if key = other then some value else member other ((firstKey, item) :: rest) := by
      rw [member_cons, member_cons, later]
      by_cases same : firstKey = other
      · rw [if_pos same, if_pos same, if_neg fun isKey : key = other =>
          apart (same.trans isKey.symm)]
      · rw [if_neg same, if_neg same]
    unfold place
    split
    · exact member_cons other _ _
    · split
      · exact member_cons other _ _
      · exact here
    · exact here

-- Defining a member changes that member only.
theorem member_define (key : K) (value : V) (other : K) (members : List (K × V)) :
    member other (define rank key value members) =
      if key = other then some value else member other members := by
  unfold define
  split
  · next there =>
    have found : ∃ entry ∈ members, entry.1 = key := by simpa using there
    clear there
    induction members with
    | nil =>
      obtain ⟨entry, inside, -⟩ := found
      cases inside
    | cons first rest ih =>
      rw [List.map_cons, member_cons, member_cons]
      by_cases isKey : first.1 = key
      · rw [if_pos isKey]
        by_cases same : key = other
        · rw [if_pos same, if_pos same]
        · rw [if_neg same, if_neg same, if_neg fun isOther => same (isKey.symm.trans isOther)]
          by_cases again : ∃ entry ∈ rest, entry.1 = key
          · rw [ih again, if_neg same]
          · congr 1
            refine (List.map_congr_left fun entry inside => ?_).trans (List.map_id rest)
            exact if_neg fun isToo => again ⟨entry, inside, isToo⟩
      · obtain ⟨entry, inside, its⟩ := found
        have later : ∃ entry ∈ rest, entry.1 = key :=
          ⟨entry, (List.mem_cons.mp inside).resolve_left fun isFirst => isKey (isFirst ▸ its), its⟩
        rw [if_neg isKey, ih later]
        by_cases same : first.1 = other
        · rw [if_pos same, if_pos same, if_neg fun isOther : key = other =>
            isKey (same.trans isOther.symm)]
        · rw [if_neg same, if_neg same]
  · next absent =>
    apply member_place
    intro entry inside isKey
    exact absent (by simpa using ⟨entry.2, isKey ▸ inside⟩)

end QuickJSBun.Library
