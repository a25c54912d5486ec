import QuickJSBun.Handle.Slots

/-! Who may rely on a host slot, and that every id is released once, after its last user.

Every user of an id holds a claim on it. A firm claim needs the entry; a loose one
belongs to somebody who will release the id and knows that it may be empty already.
-/

set_option autoImplicit false

namespace QuickJSBun.Handle

open Library

structure Claim where
  id : Nat
  allocation : Nat
  firm : Bool
  deriving DecidableEq, Repr

def Carrier.claim (carrier : Carrier) : Option Claim :=
  match carrier.status with
  | .live => some ⟨carrier.id, carrier.allocation, true⟩
  | .doomed => some ⟨carrier.id, carrier.allocation, false⟩
  | .gone => none

def SlotFrame.claim : SlotFrame → Option Claim
  | .creating id allocation => some ⟨id, allocation, true⟩
  | .defining id allocation => some ⟨id, allocation, true⟩
  | .throwing id allocation => some ⟨id, allocation, false⟩
  | .finalizing => none

/-- A firm claim excludes every other one on the same allocation; two loose ones may stand
together. -/
def Claim.weight (allocation : Nat) (claim : Claim) : Nat :=
  if claim.allocation = allocation then (if claim.firm then 2 else 1) else 0

def weightOf (allocation : Nat) (claim : Option Claim) : Nat :=
  claim.elim 0 (Claim.weight allocation)

def Claim.Sound (s : Slots) (claim : Claim) : Prop :=
  (∃ a, s.allocations[claim.allocation]? = some a ∧ a.id = claim.id) ∧
  (s.hosts.lookup claim.id = some claim.allocation ∨ claim.firm = false ∧
    s.hosts.lookup claim.id = none)

theorem Claim.Sound.congr {s s' : Slots} {claim : Claim} (sound : claim.Sound s)
    (hosts : s'.hosts = s.hosts) (allocations : s'.allocations = s.allocations) :
    claim.Sound s' := by
  unfold Claim.Sound
  rw [hosts, allocations]
  exact sound

theorem Claim.Sound.loosen {s : Slots} {claim : Claim} (sound : claim.Sound s) :
    Claim.Sound s { claim with firm := false } :=
  ⟨sound.1, sound.2.imp_right fun empty => ⟨rfl, empty.2⟩⟩

namespace Slots

def weight (s : Slots) (allocation : Nat) : Nat :=
  tally (fun carrier => weightOf allocation carrier.claim) s.carriers +
    tally (fun frame => weightOf allocation frame.claim) s.frames

/-- The part of the invariant that does not say that entries have users. -/
structure Sane (s : Slots) : Prop where
  hosts : s.hosts.WellFormed
  entries : ∀ id allocation, s.hosts.lookup id = some allocation →
    ∃ a, s.allocations[allocation]? = some a ∧ a.id = id
  once : ∀ allocation a, s.allocations[allocation]? = some a →
    a.releases + (if s.hosts.lookup a.id = some allocation then 1 else 0) = 1
  carriers : ∀ carrier ∈ s.carriers, ∀ claim ∈ carrier.claim, claim.Sound s
  frames : ∀ frame ∈ s.frames, ∀ claim ∈ frame.claim, claim.Sound s
  weights : ∀ allocation, s.weight allocation ≤ if allocation < s.allocations.length then 2 else 0

structure Valid (s : Slots) : Prop extends s.Sane where
  owned : ∀ id allocation, s.hosts.lookup id = some allocation → 1 ≤ s.weight allocation
  finished : s.disposed = true → s.frames = [] ∧ ∀ carrier ∈ s.carriers, carrier.status = .gone

/-- The same entries and allocations under other users. -/
structure Regroups (s s' : Slots) : Prop where
  hosts : s'.hosts = s.hosts
  allocations : s'.allocations = s.allocations
  disposed : s'.disposed = s.disposed
  carriers : ∀ carrier ∈ s'.carriers, ∀ claim ∈ carrier.claim, claim.Sound s
  frames : ∀ frame ∈ s'.frames, ∀ claim ∈ frame.claim, claim.Sound s

section Weights
variable (s : Slots) (allocation : Nat)

theorem weight_push (frame : SlotFrame) :
    (s.push frame).weight allocation = s.weight allocation + weightOf allocation frame.claim := by
  simp only [weight, push, tally_cons]
  omega

theorem weight_add (carrier : Carrier) :
    (s.add carrier).weight allocation = s.weight allocation +
      weightOf allocation carrier.claim := by
  simp only [weight, add, tally_append, tally_cons, tally_nil]
  omega

theorem weight_frames {frame : SlotFrame} {rest : List SlotFrame} (top : s.frames = frame :: rest) :
    ({ s with frames := rest } : Slots).weight allocation + weightOf allocation frame.claim =
      s.weight allocation := by
  simp only [weight, top, tally_cons]
  omega

theorem weight_replace {frame : SlotFrame} {rest : List SlotFrame} (top : s.frames = frame :: rest)
    (new : SlotFrame) :
    ({ s with frames := new :: rest } : Slots).weight allocation + weightOf allocation frame.claim =
      s.weight allocation + weightOf allocation new.claim := by
  simp only [weight, top, tally_cons]
  omega

theorem weight_put {index : Nat} {old : Carrier} (found : s.carriers[index]? = some old)
    (new : Carrier) :
    (s.put index new).weight allocation + weightOf allocation old.claim =
      s.weight allocation + weightOf allocation new.claim := by
  have traded :=
    tally_set (f := fun carrier : Carrier => weightOf allocation carrier.claim) found new
  simp only [weight, put]
  omega

@[simp] theorem weight_release (id : Nat) :
    (s.release id).weight allocation = s.weight allocation := by
  unfold release
  split <;> rfl

end Weights

theorem le_weight_carrier {s : Slots} {carrier : Carrier} (member : carrier ∈ s.carriers)
    {claim : Claim} (claims : carrier.claim = some claim) :
    claim.weight claim.allocation ≤ s.weight claim.allocation := by
  have counted :=
    le_tally (f := fun carrier : Carrier => weightOf claim.allocation carrier.claim) member
  simp only [claims, weightOf, Option.elim_some] at counted
  exact counted.trans (Nat.le_add_right _ _)

theorem le_weight_frame {s : Slots} {frame : SlotFrame} (member : frame ∈ s.frames) {claim : Claim}
    (claims : frame.claim = some claim) :
    claim.weight claim.allocation ≤ s.weight claim.allocation := by
  have counted :=
    le_tally (f := fun frame : SlotFrame => weightOf claim.allocation frame.claim) member
  simp only [claims, weightOf, Option.elim_some] at counted
  exact counted.trans (Nat.le_add_left _ _)

theorem Valid.regroup {s s' : Slots} (valid : s.Valid) (running : s.disposed = false)
    (groups : s.Regroups s') (weights : ∀ allocation, s'.weight allocation ≤ s.weight allocation)
    (owned : ∀ id allocation, s.hosts.lookup id = some allocation → 1 ≤ s'.weight allocation) :
    s'.Valid where
  hosts := groups.hosts ▸ valid.hosts
  entries id allocation found := by
    rw [groups.allocations]
    exact valid.entries id allocation (groups.hosts ▸ found)
  once allocation a found := by
    rw [groups.hosts]
    exact valid.once allocation a (groups.allocations ▸ found)
  carriers carrier member claim claims :=
    Claim.Sound.congr (groups.carriers carrier member claim claims) groups.hosts groups.allocations
  frames frame member claim claims :=
    Claim.Sound.congr (groups.frames frame member claim claims) groups.hosts groups.allocations
  weights allocation := by
    rw [groups.allocations]
    exact (weights allocation).trans (valid.weights allocation)
  owned id allocation found := owned id allocation (groups.hosts ▸ found)
  finished disposed := by simp [groups.disposed, running] at disposed

-- Two users of one entry: an entry belongs to one allocation.
theorem Valid.same_allocation {s : Slots} (valid : s.Valid) {claim : Claim} (sound : claim.Sound s)
    {id : Nat} (entry : s.hosts.lookup id = some claim.allocation) : id = claim.id := by
  obtain ⟨a, at_, named⟩ := valid.entries _ _ entry
  obtain ⟨a', at_', named'⟩ := sound.1
  obtain rfl : a = a' := Option.some.inj (at_.symm.trans at_')
  exact named.symm.trans named'

section Surrender
variable {s s' : Slots} (valid : s.Valid) (running : s.disposed = false) (groups : s.Regroups s')
  {claim : Claim} (sound : claim.Sound s)
    (less : s'.weight claim.allocation + 1 ≤ s.weight claim.allocation)
  (others : ∀ allocation ≠ claim.allocation, s'.weight allocation = s.weight allocation)

include valid sound others in
theorem owned_elsewhere {id allocation : Nat} (entry : s.hosts.lookup id = some allocation)
    (other : id ≠ claim.id) : 1 ≤ s'.weight allocation := by
  by_cases shared : allocation = claim.allocation
  · exact absurd (valid.same_allocation sound (shared ▸ entry)) other
  · rw [others allocation shared]
    exact valid.owned id allocation entry

include valid less in
-- Once a claim is given up, whoever else claims the same entry has a loose claim.
theorem loose_of_shared {other : Claim} (otherSound : other.Sound s)
    (counted : other.weight other.allocation ≤ s'.weight other.allocation)
    (present : s.hosts.lookup claim.id = some claim.allocation) (same : other.id = claim.id) :
    other.firm = false := by
  rcases otherSound.2 with entry | ⟨loose, -⟩
  · have shared : other.allocation = claim.allocation := by
      rw [same, present] at entry
      exact (Option.some.inj entry).symm
    cases firm : other.firm with
    | false => rfl
    | true =>
      have bound := valid.weights claim.allocation
      simp only [Claim.weight, if_true, firm, shared] at counted
      split at bound <;> omega
  · exact loose

include valid groups less in
theorem sound_release {other : Claim} (otherSound : other.Sound s)
    (counted : other.weight other.allocation ≤ s'.weight other.allocation)
    (present : s.hosts.lookup claim.id = some claim.allocation) :
    other.Sound (s'.release claim.id) := by
  have loose := loose_of_shared valid less otherSound counted present
  obtain ⟨⟨a, at_, named⟩, entry⟩ := otherSound
  simp only [release, groups.hosts, present, groups.allocations]
  refine ⟨⟨if claim.allocation = other.allocation then { a with releases := a.releases + 1 } else a,
    ?_, ?_⟩, ?_⟩
  · simp [List.getElem?_modify, at_]
  · split <;> exact named
  · rw [Pool.lookup_give]
    by_cases same : other.id = claim.id
    · exact .inr ⟨loose same, if_pos same⟩
    · simpa [same] using entry

include valid running groups sound less others in
theorem Valid.surrender : (s'.release claim.id).Valid := by
  rcases sound.2 with present | ⟨-, absent⟩
  · have claims {other : Claim} (otherSound : other.Sound s)
        (counted : other.weight other.allocation ≤ _) :=
      sound_release valid groups less otherSound counted present
    have released : s'.release claim.id = { s' with
        hosts := s.hosts.give claim.id
        allocations := s.allocations.modify claim.allocation fun a =>
          { a with releases := a.releases + 1 } } := by
      simp [release, groups.hosts, groups.allocations, present]
    refine ⟨⟨?_, ?_, ?_, ?_, ?_, ?_⟩, ?_, ?_⟩
    · rw [released]
      exact valid.hosts.give claim.id
    · intro id allocation found
      rw [released] at found ⊢
      rw [Pool.lookup_give] at found
      split at found
      · cases found
      · obtain ⟨a, at_, named⟩ := valid.entries id allocation found
        refine ⟨if claim.allocation = allocation then { a with releases := a.releases + 1 }
          else a, ?_, ?_⟩
        · simp [List.getElem?_modify, at_]
        · split <;> exact named
    · intro allocation a found
      rw [released] at found ⊢
      simp only [List.getElem?_modify, Option.map_eq_map, Option.map_eq_some_iff] at found
      obtain ⟨before, at_, rfl⟩ := found
      have count := valid.once allocation before at_
      rw [Pool.lookup_give]
      by_cases shared : claim.allocation = allocation
      · subst shared
        obtain ⟨own, at_', named⟩ := sound.1
        obtain rfl : before = own := Option.some.inj (at_.symm.trans at_')
        simpa [named, present] using count
      · by_cases same : before.id = claim.id
        · have notEntry : s.hosts.lookup claim.id ≠ some allocation := by
            rw [present]
            simpa using shared
          simpa [shared, same, notEntry] using count
        · simpa [shared, same] using count
    · intro carrier member other claims'
      rw [released] at member
      exact claims (groups.carriers carrier member other claims') (le_weight_carrier member claims')
    · intro frame member other claims'
      rw [released] at member
      exact claims (groups.frames frame member other claims') (le_weight_frame member claims')
    · intro allocation
      rw [weight_release, released]
      simp only [List.length_modify]
      by_cases shared : allocation = claim.allocation
      · have bound := valid.weights allocation
        subst shared
        omega
      · exact others allocation shared ▸ valid.weights allocation
    · intro id allocation found
      rw [released] at found
      rw [Pool.lookup_give] at found
      rw [weight_release]
      split at found
      · cases found
      · next other => exact owned_elsewhere valid sound others found other
    · intro disposed
      rw [released] at disposed
      simp [groups.disposed, running] at disposed
  · have unchanged : s'.release claim.id = s' := by simp [release, groups.hosts, absent]
    rw [unchanged]
    refine valid.regroup running groups (fun allocation => ?_) fun id allocation entry => ?_
    · by_cases shared : allocation = claim.allocation
      · subst shared
        omega
      · exact (others allocation shared).le
    · refine owned_elsewhere valid sound others entry fun same => ?_
      simp [same, absent] at entry

end Surrender

/-- Whether somebody is still going to release an id: an object whose finalizer was put off, or the
catch clause of a creation that failed. -/
def awaited (s : Slots) (id : Nat) : Bool :=
  s.carriers.any (fun carrier => carrier.status == .doomed && carrier.id == id) ||
    s.frames.any fun
      | .throwing other _ => other == id
      | _ => false

theorem loose_awaited {s : Slots} {id : Nat} (free : s.awaited id = false) {claim : Claim}
    (loose : claim.firm = false) (held : (∃ carrier ∈ s.carriers, carrier.claim = some claim) ∨
      ∃ frame ∈ s.frames, frame.claim = some claim) :
    claim.id ≠ id := by
  rintro rfl
  simp only [awaited, Bool.or_eq_false_iff, List.any_eq_false] at free
  rcases held with ⟨carrier, member, claims⟩ | ⟨frame, member, claims⟩
  · have notDoomed := free.1 carrier member
    rcases carrier with ⟨id, allocation, status⟩
    cases status <;> simp [Carrier.claim] at claims
    · simp [← claims] at loose
    · simp [← claims] at notDoomed
  · have notThrowing := free.2 frame member
    cases frame <;> simp [SlotFrame.claim] at claims
    · simp [← claims] at loose
    · simp [← claims] at loose
    · simp [← claims] at notThrowing

-- Taking an id that nobody is going to release any more.
theorem Valid.create {s : Slots} (valid : s.Valid) (running : s.disposed = false)
    (free : s.awaited s.hosts.next = false) (kind : HostKind) :
    ((s.slot kind).2.push (.creating s.hosts.next s.allocations.length)).Valid := by
  let s' := (s.slot kind).2.push (.creating s.hosts.next s.allocations.length)
  have lookup (id : Nat) : s'.hosts.lookup id =
      if id = s.hosts.next then some s.allocations.length else s.hosts.lookup id :=
    Pool.lookup_take valid.hosts s.allocations.length id
  have allocations : s'.allocations = s.allocations ++ [⟨s.hosts.next, kind, 0⟩] := rfl
  have newest : s'.allocations[s.allocations.length]? = some ⟨s.hosts.next, kind, 0⟩ := by
    simp [allocations]
  have older {allocation : Nat} {a : Allocation} (at_ : s.allocations[allocation]? = some a) :
      s'.allocations[allocation]? = some a := by
    rw [allocations, List.getElem?_append_left (List.getElem?_eq_some_iff.mp at_).1, at_]
  have weight (allocation : Nat) :
      s'.weight allocation = s.weight allocation +
        if s.allocations.length = allocation then 2 else 0 :=
    weight_push (s.slot kind).2 allocation _
  have kept {claim : Claim} (sound : claim.Sound s)
      (held : (∃ carrier ∈ s.carriers, carrier.claim = some claim) ∨
        ∃ frame ∈ s.frames, frame.claim = some claim) :
      claim.Sound s' := by
    have other : claim.id ≠ s.hosts.next := by
      rcases sound.2 with entry | ⟨loose, -⟩
      · rintro same
        rw [same, Pool.lookup_next valid.hosts] at entry
        cases entry
      · exact loose_awaited free loose held
    obtain ⟨⟨a, at_, named⟩, entry⟩ := sound
    refine ⟨⟨a, older at_, named⟩, ?_⟩
    rw [lookup, if_neg other]
    exact entry
  refine ⟨⟨valid.hosts.take _, ?_, ?_, ?_, ?_, ?_⟩, ?_, ?_⟩
  · intro id allocation found
    rw [lookup] at found
    split at found
    · next same =>
        cases found
        exact ⟨_, newest, same.symm⟩
    · obtain ⟨a, at_, named⟩ := valid.entries id allocation found
      exact ⟨a, older at_, named⟩
  · intro allocation a found
    rw [lookup]
    rw [allocations, List.getElem?_append] at found
    split at found
    · next inside =>
        have count := valid.once allocation a found
        by_cases same : a.id = s.hosts.next
        · rw [same, Pool.lookup_next valid.hosts] at count
          have new : s.allocations.length ≠ allocation := by omega
          simpa [same, new] using count
        · simpa [same] using count
    · next outside =>
        rw [List.getElem?_singleton] at found
        split at found
        · next last =>
            cases found
            have here : s.allocations.length = allocation := by omega
            simp [here]
        · cases found
  · intro carrier member claim claims
    exact kept (valid.carriers carrier member claim claims) (.inl ⟨carrier, member, claims⟩)
  · intro frame member claim claims
    rcases List.mem_cons.mp member with rfl | earlier
    · cases claims
      exact ⟨⟨_, newest, rfl⟩, .inl ((lookup _).trans (if_pos rfl))⟩
    · exact kept (valid.frames frame earlier claim claims) (.inr ⟨frame, earlier, claims⟩)
  · intro allocation
    change s'.weight allocation ≤ if allocation < s'.allocations.length then 2 else 0
    have bound := valid.weights allocation
    rw [weight, allocations, List.length_append, List.length_singleton]
    split at bound <;> split <;> split <;> omega
  · intro id allocation found
    change 1 ≤ s'.weight allocation
    rw [weight]
    rw [lookup] at found
    split at found
    · cases found
      simp
    · exact (valid.owned id allocation found).trans (Nat.le_add_right _ _)
  · intro disposed
    simp [slot, push, running] at disposed

/-! ### Steps -/

section Steps
variable {s : Slots} (valid : s.Valid) (running : s.disposed = false)
include valid

theorem regroups_pop {frame : SlotFrame} {rest : List SlotFrame} (top : s.frames = frame :: rest) :
    s.Regroups { s with frames := rest } where
  hosts := rfl
  allocations := rfl
  disposed := rfl
  carriers := valid.carriers
  frames other member := valid.frames other (top ▸ List.mem_cons_of_mem _ member)

omit valid in
theorem regroups_push {s' : Slots} (groups : s.Regroups s') {frame : SlotFrame}
    (sound : ∀ claim ∈ frame.claim, claim.Sound s) : s.Regroups (s'.push frame) where
  hosts := groups.hosts
  allocations := groups.allocations
  disposed := groups.disposed
  carriers := groups.carriers
  frames other member := by
    rcases List.mem_cons.mp member with rfl | old
    · exact sound
    · exact groups.frames other old

omit valid in
theorem regroups_add {s' : Slots} (groups : s.Regroups s') {carrier : Carrier}
    (sound : ∀ claim ∈ carrier.claim, claim.Sound s) : s.Regroups (s'.add carrier) where
  hosts := groups.hosts
  allocations := groups.allocations
  disposed := groups.disposed
  carriers other member := by
    rcases List.mem_append.mp member with old | new
    · exact groups.carriers other old
    · exact List.mem_singleton.mp new ▸ sound
  frames := groups.frames

theorem regroups_put {index : Nat} {new : Carrier} (sound : ∀ claim ∈ new.claim, claim.Sound s) :
    s.Regroups (s.put index new) where
  hosts := rfl
  allocations := rfl
  disposed := rfl
  carriers other member := by
    rcases List.mem_or_eq_of_mem_set member with old | rfl
    · exact valid.carriers other old
    · exact sound
  frames := valid.frames

theorem sound_top {frame : SlotFrame} {rest : List SlotFrame} (top : s.frames = frame :: rest)
    {claim : Claim} (claims : frame.claim = some claim) : claim.Sound s :=
  valid.frames frame (top ▸ List.mem_cons_self) claim claims

include running in
theorem Valid.shift {s' : Slots} (groups : s.Regroups s')
    (same : ∀ allocation, s'.weight allocation = s.weight allocation) : s'.Valid :=
  valid.regroup running groups (fun allocation => (same allocation).le) fun id allocation entry =>
    same allocation ▸ valid.owned id allocation entry

include running in
-- A finalizer gives up the claim of its object and releases the id.
theorem Valid.finalize {index : Nat} {carrier : Carrier} (found : s.carriers[index]? = some carrier)
    (present : carrier.status ≠ .gone) : (s.finalize index carrier).Valid := by
  obtain ⟨firm, claims⟩ : ∃ firm, carrier.claim = some ⟨carrier.id, carrier.allocation, firm⟩ := by
    unfold Carrier.claim
    cases status : carrier.status with
    | live => exact ⟨true, rfl⟩
    | doomed => exact ⟨false, rfl⟩
    | gone => exact absurd status present
  have sound := valid.carriers carrier (List.mem_of_getElem? found) _ claims
  have gone : (Carrier.claim { carrier with status := .gone }) = none := rfl
  have groups : s.Regroups (s.put index { carrier with status := .gone }) :=
    regroups_put valid (by simp [gone])
  have weights (allocation : Nat) := weight_put s allocation found { carrier with status := .gone }
  simp only [gone, claims, weightOf, Option.elim_some, Option.elim_none, Nat.add_zero] at weights
  refine valid.surrender running groups sound ?_ fun allocation other => ?_
  · have less := weights carrier.allocation
    change (s.put index { carrier with status := .gone }).weight carrier.allocation + 1 ≤
      s.weight carrier.allocation
    simp only [Claim.weight, if_true] at less
    split at less <;> omega
  · have same := weights allocation
    simpa only [Claim.weight, Ne.symm other, if_false, Nat.add_zero] using same

include running in
theorem Valid.freeValue {index : Nat} {carrier : Carrier}
    (found : s.carriers[index]? = some carrier) (live : carrier.status = .live) (deferred : Bool) :
    (s.freeValue index carrier deferred).Valid := by
  cases deferred with
  | false => exact valid.finalize running found (by simp [live])
  | true =>
    have claims : carrier.claim = some ⟨carrier.id, carrier.allocation, true⟩ := by
      simp [Carrier.claim, live]
    have sound := valid.carriers carrier (List.mem_of_getElem? found) _ claims
    have doomed : Carrier.claim { carrier with status := .doomed } =
        some ⟨carrier.id, carrier.allocation, false⟩ := rfl
    have weights (allocation : Nat) :=
      weight_put s allocation found { carrier with status := .doomed }
    simp only [doomed, claims, weightOf, Option.elim_some, Claim.weight, if_true,
      Bool.false_eq_true, if_false]
      at weights
    change (s.put index { carrier with status := .doomed }).Valid
    refine valid.regroup running (regroups_put valid ?_) (fun allocation => ?_)
      fun id allocation entry => ?_
    · rintro claim ⟨⟩
      exact sound.loosen
    · have traded := weights allocation
      split at traded <;> omega
    · have traded := weights allocation
      have owned := valid.owned id allocation entry
      have counted := le_weight_carrier (List.mem_of_getElem? found) claims
      replace counted : 2 ≤ s.weight carrier.allocation := by simpa [Claim.weight] using counted
      split at traded
      · next same =>
          subst same
          omega
      · omega

section Creation
variable {id allocation : Nat} {rest : List SlotFrame}

include running in
-- A creation that fails before its object carries the slot keeps a loose claim for the catch
-- clause.
theorem Valid.allocationFails (top : s.frames = .creating id allocation :: rest) :
    ({ s with frames := .throwing id allocation :: rest } : Slots).Valid := by
  have sound := sound_top valid top rfl
  have held := @le_weight_frame s _ (top ▸ List.mem_cons_self) ⟨id, allocation, true⟩ rfl
  replace held : 2 ≤ s.weight allocation := by simpa [Claim.weight] using held
  have weights (other : Nat) := weight_replace s other top (.throwing id allocation)
  simp only [SlotFrame.claim, weightOf, Option.elim_some, Claim.weight, if_true,
    Bool.false_eq_true, if_false]
    at weights
  refine valid.regroup running (regroups_push (regroups_pop valid top) ?_) (fun other => ?_)
    fun otherId other entry => ?_
  · rintro claim ⟨⟩
    exact sound.loosen
  · have traded := weights other
    split at traded <;> omega
  · have traded := weights other
    have owned := valid.owned otherId other entry
    split at traded
    · next same =>
        subst same
        omega
    · omega

include running in
theorem Valid.startDefining (top : s.frames = .creating id allocation :: rest) :
    ({ s with frames := .defining id allocation :: rest } : Slots).Valid := by
  have sound := sound_top valid top rfl
  refine valid.shift running (regroups_push (regroups_pop valid top) ?_) fun other => ?_
  · rintro claim ⟨⟩
    exact sound
  · exact Nat.add_right_cancel (weight_replace s other top (.defining id allocation))

include running in
-- A finished creation hands its firm claim to the new object.
theorem Valid.finish {frame : SlotFrame} (top : s.frames = frame :: rest)
    (claims : frame.claim = some ⟨id, allocation, true⟩) :
    (({ s with frames := rest } : Slots).add ⟨id, allocation, .live⟩).Valid := by
  have sound := sound_top valid top claims
  refine valid.shift running (regroups_add (regroups_pop valid top) ?_) fun other => ?_
  · rintro claim ⟨⟩
    exact sound
  · have popped := weight_frames s other top
    rw [claims] at popped
    rw [weight_add]
    exact popped

include running in
-- A failed creation whose object is freed at once: the finalizer releases the id, the catch clause
-- follows.
theorem Valid.defineFails (top : s.frames = .defining id allocation :: rest) :
    ((({ s with frames := .throwing id allocation :: rest } : Slots).add
      ⟨id, allocation, .gone⟩).release id).Valid := by
  have sound := sound_top valid top rfl
  have weights (other : Nat) := weight_replace s other top (.throwing id allocation)
  simp only [SlotFrame.claim, weightOf, Option.elim_some, Claim.weight, if_true,
    Bool.false_eq_true, if_false]
    at weights
  refine valid.surrender running
    (regroups_add (regroups_push (regroups_pop valid top) ?_) ?_) sound ?_ fun other distinct => ?_
  · rintro claim ⟨⟩
    exact sound.loosen
  · rintro claim ⟨⟩
  · have traded := weights allocation
    rw [weight_add]
    change ({ s with frames := .throwing id allocation :: rest } : Slots).weight allocation + 0 +
      1 ≤ s.weight allocation
    simp only [if_true] at traded
    omega
  · have traded := weights other
    rw [weight_add]
    change ({ s with frames := .throwing id allocation :: rest } : Slots).weight other + 0 =
      s.weight other
    simpa only [Ne.symm distinct, if_false, Nat.add_zero] using traded

include running in
-- A failed creation whose object waits for its finalizer: both that and the catch clause will
-- release the id.
theorem Valid.defineFailsLater (top : s.frames = .defining id allocation :: rest) :
    (({ s with frames := .throwing id allocation :: rest } : Slots).add
      ⟨id, allocation, .doomed⟩).Valid := by
  have sound := sound_top valid top rfl
  refine valid.shift running (regroups_add (regroups_push (regroups_pop valid top) ?_) ?_)
    fun other => ?_
  · rintro claim ⟨⟩
    exact sound.loosen
  · rintro claim ⟨⟩
    exact sound.loosen
  · have traded := weight_replace s other top (.throwing id allocation)
    rw [weight_add]
    change ({ s with frames := .throwing id allocation :: rest } : Slots).weight other + _ =
      s.weight other
    simp only [SlotFrame.claim, Carrier.claim, weightOf, Option.elim_some, Claim.weight, if_true,
      Bool.false_eq_true, if_false] at traded ⊢
    split at traded <;> simp_all

include running in
theorem Valid.catchRelease (top : s.frames = .throwing id allocation :: rest) :
    (({ s with frames := rest } : Slots).release id).Valid := by
  have sound := sound_top valid top rfl
  have popped (other : Nat) := weight_frames s other top
  simp only [SlotFrame.claim, weightOf, Option.elim_some, Claim.weight, Bool.false_eq_true,
    if_false] at popped
  refine valid.surrender running (regroups_pop valid top) sound ?_
    fun other distinct => ?_
  · have less := popped allocation
    simp only [if_true] at less
    exact less.le
  · have same := popped other
    simpa only [Ne.symm distinct, if_false, Nat.add_zero] using same

end Creation

theorem Valid.dispose (idle : s.frames = []) (all : s.carriers.all (·.status == .gone) = true) :
    ({ s with hosts := Pool.empty, disposed := true } : Slots).Valid := by
  have gone : ∀ carrier ∈ s.carriers, carrier.status = .gone := by
    simpa [List.all_eq_true] using all
  have noClaim : ∀ carrier ∈ s.carriers, carrier.claim = none := fun carrier member => by
    simp [Carrier.claim, gone carrier member]
  have noWeight (allocation : Nat) : s.weight allocation = 0 := by
    have : tally (fun carrier : Carrier => weightOf allocation carrier.claim) s.carriers = 0 :=
      tally_eq_zero.mpr fun carrier member => by simp [noClaim carrier member, weightOf]
    simp [weight, this, idle]
  have noEntry (id : Nat) : s.hosts.lookup id = none := by
    cases entry : s.hosts.lookup id with
    | none => rfl
    | some allocation =>
      have := valid.owned id allocation entry
      rw [noWeight] at this
      omega
  refine ⟨⟨Pool.wellFormed_empty, ?_, ?_, ?_, ?_, ?_⟩, ?_, fun _ => ⟨idle, gone⟩⟩
  · intro id allocation found
    simp [Pool.empty, Pool.lookup] at found
  · intro allocation a found
    have count := valid.once allocation a found
    rw [noEntry] at count
    simpa [Pool.empty, Pool.lookup] using count
  · intro carrier member claim claims
    simp [noClaim carrier member] at claims
  · intro frame member
    simp [idle] at member
  · exact valid.weights
  · intro id allocation found
    simp [Pool.empty, Pool.lookup] at found

end Steps

/-- What keeps an id from being handed out too early: nobody is going to release it any more. -/
def Uncontested (s : Slots) : SlotEvent → Prop
  | .create _ => s.awaited s.hosts.next = false
  | _ => True

instance (s : Slots) : DecidablePred s.Uncontested
  | .create _ => inferInstanceAs (Decidable (_ = false))
  | .allocationFails | .attach | .defined | .defineFails _ | .catchRelease | .drop _ _ | .collect _
  | .enterFinalizer | .leaveFinalizer | .dispose => inferInstanceAs (Decidable True)

end Slots

open Slots in
theorem slotMachine_valid : slotMachine.Invariant Uncontested Valid where
  init := by
    refine ⟨⟨Pool.wellFormed_empty, ?_, ?_, ?_, ?_, ?_⟩, ?_, ?_⟩ <;>
      simp [slotMachine, Pool.empty, Pool.lookup, Slots.weight]
  step := by
    intro s s' event valid meets steps
    change s.step event = some s' at steps
    have running : s.disposed = false := by
      by_contra gone
      simp [Slots.step, gone] at steps
    unfold Slots.step at steps
    rw [if_neg (by simp [running])] at steps
    split at steps
    · next kind => exact Option.some.inj steps ▸ valid.create running meets kind
    · next id allocation rest top => exact Option.some.inj steps ▸ valid.allocationFails running top
    · next id allocation rest top =>
        obtain ⟨a, -, rfl⟩ := Option.map_eq_some_iff.mp steps
        cases a.kind with
        | function => exact valid.startDefining running top
        | bytes => exact valid.finish running top rfl
    · next id allocation rest top => exact Option.some.inj steps ▸ valid.finish running top rfl
    · next deferred id allocation rest top =>
        simp only at steps
        split at steps
        · cases steps
        split at steps
        · exact Option.some.inj steps ▸ valid.defineFailsLater running top
        · exact Option.some.inj steps ▸ valid.defineFails running top
    · next id allocation rest top => exact Option.some.inj steps ▸ valid.catchRelease running top
    · next index deferred =>
        split at steps
        · next carrier found =>
            split at steps
            · cases steps
            · next allowed =>
                have live : carrier.status = .live := by
                  by_contra other
                  simp [other] at allowed
                exact Option.some.inj steps ▸ valid.freeValue running found live deferred
        · cases steps
    · next index =>
        split at steps
        · next carrier found =>
            split at steps
            · cases steps
            · next present => exact Option.some.inj steps ▸ valid.finalize running found present
        · cases steps
    · refine Option.some.inj steps ▸ valid.shift running
        (regroups_push ⟨rfl, rfl, rfl, valid.carriers, valid.frames⟩ (by rintro claim ⟨⟩))
          fun allocation => ?_
      exact weight_push s allocation .finalizing
    · next rest top =>
        exact Option.some.inj steps ▸ valid.shift running (regroups_pop valid top) fun allocation =>
          weight_frames s allocation top
    · next idle =>
        split at steps
        · next all => exact Option.some.inj steps ▸ valid.dispose idle all
        · cases steps
    · cases steps

structure Slots.Exact (s : Slots) : Prop where
  /-- The free list has no duplicates. -/
  nodup : s.hosts.free.Nodup
  /-- It contains exactly the ids whose entry is empty. -/
  free : ∀ id, id ∈ s.hosts.free ↔ s.hosts.entries[id]? = some none
  /-- Two live host functions or shared buffers never have the same id. -/
  distinct : ∀ (i j : Nat) (c d : Carrier), s.carriers[i]? = some c → s.carriers[j]? = some d →
    c.status = .live → d.status = .live → c.id = d.id → i = j
  /-- A call of a live host function finds the closure the function was made with. -/
  found : ∀ carrier ∈ s.carriers, carrier.status = .live →
    ∃ a, s.allocations[carrier.allocation]? = some a ∧ a.id = carrier.id ∧
      (a.kind = .function → s.callHost carrier.id = some carrier.allocation)
  /-- The entry of an allocation is released once: not as long as an object lives for which it was
  made, and as soon as neither an object nor a creation under way is left. -/
  released : ∀ allocation a, s.allocations[allocation]? = some a →
    a.releases ≤ 1 ∧
    (a.releases = 1 → ∀ carrier ∈ s.carriers, carrier.allocation = allocation →
      carrier.status ≠ .live) ∧
    (a.releases = 0 →
      (∃ carrier ∈ s.carriers, carrier.allocation = allocation ∧ carrier.status ≠ .gone) ∨
      ∃ frame ∈ s.frames, ∃ claim ∈ frame.claim, claim.allocation = allocation)

namespace Slots

theorem Valid.entry_of_live {s : Slots} (valid : s.Valid) {carrier : Carrier}
    (member : carrier ∈ s.carriers) (live : carrier.status = .live) :
    (∃ a, s.allocations[carrier.allocation]? = some a ∧ a.id = carrier.id) ∧
      s.hosts.lookup carrier.id = some carrier.allocation := by
  have sound := valid.carriers carrier member ⟨carrier.id, carrier.allocation, true⟩
    (by simp [Carrier.claim, live])
  exact ⟨sound.1, sound.2.resolve_right fun loose => Bool.noConfusion loose.1⟩

-- An entry that is still there has a user: an object that is not gone, or a creation.
theorem user_of_weight {s : Slots} {allocation : Nat} (weight : 1 ≤ s.weight allocation) :
    (∃ carrier ∈ s.carriers, carrier.allocation = allocation ∧ carrier.status ≠ .gone) ∨
      ∃ frame ∈ s.frames, ∃ claim ∈ frame.claim, claim.allocation = allocation := by
  by_contra none
  simp only [not_or, not_exists, not_and, not_not] at none
  have carriers :
      tally (fun carrier : Carrier => weightOf allocation carrier.claim) s.carriers = 0 := by
    refine tally_eq_zero.mpr fun carrier member => ?_
    by_cases shared : carrier.allocation = allocation
    · simp [Carrier.claim, none.1 carrier member shared, weightOf]
    · cases status : carrier.status <;> simp [Carrier.claim, status, weightOf, Claim.weight, shared]
  have frames : tally (fun frame : SlotFrame => weightOf allocation frame.claim) s.frames = 0 := by
    refine tally_eq_zero.mpr fun frame member => ?_
    cases claims : frame.claim with
    | none => rfl
    | some claim => simp [weightOf, Claim.weight, none.2 frame member claim claims]
  simp only [Slots.weight] at weight
  omega

end Slots

open Slots in
theorem slots_exact {s : Slots} (reaches : slotMachine.Reaches Uncontested s) : s.Exact := by
  have valid := slotMachine_valid.reached reaches
  refine ⟨valid.hosts.nodup, valid.hosts.exact, ?_, ?_, ?_⟩
  · intro i j c d atI atJ liveC liveD sameId
    by_contra distinct
    have entryC := (valid.entry_of_live (List.mem_of_getElem? atI) liveC).2
    have entryD := (valid.entry_of_live (List.mem_of_getElem? atJ) liveD).2
    have sameAllocation : d.allocation = c.allocation := by
      rw [← sameId, entryC] at entryD
      exact (Option.some.inj entryD).symm
    have counted := add_le_tally (f := fun carrier : Carrier => weightOf c.allocation carrier.claim)
      distinct atI atJ
    have firmC : weightOf c.allocation c.claim = 2 := by
      simp [Carrier.claim, liveC, weightOf, Claim.weight]
    have firmD : weightOf c.allocation d.claim = 2 := by
      simp [Carrier.claim, liveD, weightOf, Claim.weight, sameAllocation]
    have bound := valid.weights c.allocation
    simp only [Slots.weight] at bound
    split at bound <;> omega
  · intro carrier member live
    obtain ⟨⟨a, at_, named⟩, entry⟩ := valid.entry_of_live member live
    refine ⟨a, at_, named, fun function => ?_⟩
    obtain ⟨id, kind, releases⟩ := a
    obtain rfl : kind = .function := function
    simp [callHost, entry, at_]
  · intro allocation a at_
    have count := valid.once allocation a at_
    refine ⟨by omega, fun once carrier member shared live => ?_, fun never => ?_⟩
    · obtain ⟨⟨a', at_', named⟩, entry⟩ := valid.entry_of_live member live
      subst shared
      obtain rfl : a = a' := Option.some.inj (at_.symm.trans at_')
      rw [named, entry] at count
      simp [once] at count
    · refine user_of_weight (valid.owned a.id allocation ?_)
      by_contra absent
      simp [never, absent] at count

open Slots in
/-- A host function that is made, called for and dropped, then a buffer that gets its id. -/
theorem slots_exact_after_reuse :
    (⟨⟨[some 1], []⟩, [⟨0, .function, 1⟩, ⟨0, .bytes, 0⟩], [⟨0, 0, .gone⟩, ⟨0, 1, .live⟩], [],
      false⟩ : Slots).Exact :=
  slots_exact (Machine.Reaches.run
    [.create .function, .attach, .defined, .drop 0 false, .create .bytes, .attach] .init
      (by decide))

open Slots in
/-- In a class finalizer the object of a failed `newFunction` waits for its own finalizer. The catch
clause has freed the id by then, the next `newFunction` has taken it, and loses its entry. -/
theorem contested_id :
    ∃ s, slotMachine.Reaches (fun _ _ => True) s ∧ ¬ s.Exact :=
  ⟨⟨⟨[none], [0]⟩, [⟨0, .function, 1⟩, ⟨0, .function, 1⟩], [⟨0, 0, .gone⟩, ⟨0, 1, .live⟩], [],
    false⟩, Machine.Reaches.run [.enterFinalizer, .create .function, .attach, .defineFails true,
    .catchRelease, .create .function, .attach, .defined, .leaveFinalizer, .collect 0] .init
      (by decide), fun exact' => by
      obtain ⟨a, at_, -, found⟩ := exact'.found ⟨0, 1, .live⟩ (by decide) rfl
      obtain rfl : _ = a := Option.some.inj at_
      exact absurd (found rfl) (by decide)⟩

end QuickJSBun.Handle
