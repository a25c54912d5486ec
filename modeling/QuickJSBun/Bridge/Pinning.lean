import QuickJSBun.Bridge.Pins

/-! What else happens to the slot table while host memory is pinned, and that under what the code relies on
each pin lasts exactly as long as a buffer points at its memory.
-/

set_option autoImplicit false

namespace QuickJSBun.Bridge

open Library Handle

/-! ### What else happens to the slot table -/

/-- A change of the slot table that leaves the pins of buffers and their slots as they were. -/
structure Apart (slots slots' : Slots) : Prop where
  kinds : ∀ pin kind, kindOf slots pin = some kind → kindOf slots' pin = some kind
  pins : ∀ (pin : Nat) (a : Allocation), slots'.allocations[pin]? = some a → a.kind = .bytes →
    slots.allocations[pin]? = some a
  carriers : ∀ (hostSlot : Nat) (carrier : Carrier), slots.carriers[hostSlot]? = some carrier →
    kindOf slots carrier.allocation = some .bytes → slots'.carriers[hostSlot]? = some carrier
  disposed : slots'.disposed = slots.disposed

theorem kindOf_eq_some {slots : Slots} {pin : Nat} {kind : HostKind} :
    kindOf slots pin = some kind ↔ ∃ a, slots.allocations[pin]? = some a ∧ a.kind = kind := by
  simp [kindOf, Option.map_eq_some_iff]

namespace Apart
variable {slots slots' : Slots}

theorem bytes_iff (apart : Apart slots slots') (pin : Nat) :
    kindOf slots' pin = some .bytes ↔ kindOf slots pin = some .bytes := by
  constructor
  · intro bytes
    obtain ⟨a, at_, kind⟩ := kindOf_eq_some.mp bytes
    exact kindOf_eq_some.mpr ⟨a, apart.pins pin a at_ kind, kind⟩
  · exact apart.kinds pin .bytes

theorem trans {slots'' : Slots} (first : Apart slots slots') (second : Apart slots' slots'') :
    Apart slots slots'' where
  kinds pin kind before := second.kinds pin kind (first.kinds pin kind before)
  pins pin a at_ bytes := first.pins pin a (second.pins pin a at_ bytes) bytes
  carriers hostSlot carrier at_ bytes :=
    second.carriers hostSlot carrier (first.carriers hostSlot carrier at_ bytes)
      (first.kinds _ _ bytes)
  disposed := second.disposed.trans first.disposed

theorem frames (frames : List SlotFrame) : Apart slots { slots with frames } :=
  ⟨fun _ _ same => same, fun _ _ same _ => same, fun _ _ same _ => same, rfl⟩

theorem add (carrier : Carrier) : Apart slots (slots.add carrier) where
  kinds _ _ same := same
  pins _ _ same _ := same
  carriers _ _ at_ _ := (List.getElem?_append_left (List.getElem?_eq_some_iff.mp at_).1).trans at_
  disposed := rfl

theorem put {hostSlot : Nat} {old : Carrier} (found : slots.carriers[hostSlot]? = some old)
    (function : kindOf slots old.allocation ≠ some .bytes) (new : Carrier) :
    Apart slots (slots.put hostSlot new) where
  kinds _ _ same := same
  pins _ _ same _ := same
  carriers other carrier at_ bytes := by
    by_cases same : hostSlot = other
    · subst same
      obtain rfl := Option.some.inj (found.symm.trans at_)
      exact absurd bytes function
    · exact (List.getElem?_set_ne same).trans at_
  disposed := rfl

-- The id that is released is not one of a pin.
theorem release {id : Nat}
    (function : ∀ pin, slots.hosts.lookup id = some pin → kindOf slots pin ≠ some .bytes) :
    Apart slots (slots.release id) := by
  refine ⟨fun pin kind same => (kindOf_release slots id pin).trans same, ?_, ?_,
    release_disposed slots id⟩
  · intro pin a at_ bytes
    unfold Slots.release at at_
    split at at_
    · exact at_
    · next allocation entry =>
        simp only [List.getElem?_modify, Option.map_eq_map, Option.map_eq_some_iff] at at_
        obtain ⟨before, known, rfl⟩ := at_
        by_cases same : allocation = pin
        · subst same
          rw [if_pos rfl] at bytes
          exact absurd (kindOf_eq_some.mpr ⟨before, known, bytes⟩) (function allocation entry)
        · rwa [if_neg same]
  · intro hostSlot carrier at_ _
    rwa [release_carriers]

-- The release of somebody who has a claim that is not on a pin.
theorem release_claim {claim : Claim} (sound : claim.Sound slots)
    (function : kindOf slots claim.allocation ≠ some .bytes) :
    Apart slots (slots.release claim.id) := by
  apply release
  intro pin entry
  rcases sound.2 with own | ⟨-, absent⟩
  · exact Option.some.inj (own.symm.trans entry) ▸ function
  · exact absurd (absent.symm.trans entry) nofun

theorem finalize (valid : slots.Valid) {hostSlot : Nat} {carrier : Carrier}
    (found : slots.carriers[hostSlot]? = some carrier) (present : carrier.status ≠ .gone)
    (function : kindOf slots carrier.allocation ≠ some .bytes) :
    Apart slots (slots.finalize hostSlot carrier) := by
  obtain ⟨firm, claims⟩ : ∃ firm, carrier.claim = some ⟨carrier.id, carrier.allocation, firm⟩ := by
    unfold Carrier.claim
    cases status : carrier.status with
    | live => exact ⟨true, rfl⟩
    | doomed => exact ⟨false, rfl⟩
    | gone => exact absurd status present
  have sound := valid.carriers carrier (List.mem_of_getElem? found) _ claims
  have emptied := put found function { carrier with status := .gone }
  have still : Claim.Sound (slots.put hostSlot { carrier with status := .gone }) _ :=
    sound.congr rfl rfl
  exact emptied.trans (release_claim still function)

theorem create (kind : HostKind) (pins : kind ≠ .bytes) (frame : SlotFrame) :
    Apart slots ((slots.slot kind).2.push frame) := by
  have older {pin : Nat} {a : Allocation} (at_ : slots.allocations[pin]? = some a) :
      (slots.allocations ++ [⟨slots.hosts.next, kind, 0⟩])[pin]? = some a :=
    (List.getElem?_append_left (List.getElem?_eq_some_iff.mp at_).1).trans at_
  refine ⟨?_, ?_, fun _ _ same _ => same, rfl⟩
  · intro pin sort before
    obtain ⟨a, at_, same⟩ := kindOf_eq_some.mp before
    exact kindOf_eq_some.mpr ⟨a, older at_, same⟩
  · intro pin a at_ bytes
    change (slots.allocations ++ [⟨slots.hosts.next, kind, 0⟩])[pin]? = some a at at_
    rcases Nat.lt_or_ge pin slots.allocations.length with below | above
    · exact (List.getElem?_append_left below).symm.trans at_
    · rw [List.getElem?_append_right above] at at_
      obtain rfl := List.mem_singleton.mp (List.mem_of_getElem? at_)
      exact absurd bytes pins

end Apart

theorem Buffers.Active.apart {s : Buffers} (active : s.Active) {slots : Slots} {frames : List Frame}
    (valid : slots.Valid) (apart : Apart s.slots slots) (paired : Paired slots frames slots.frames)
    (sound : ∀ frame ∈ frames, frame.Sound s.buffers)
    (pending : ∀ pin, tally (Frame.holds pin) frames = s.pending pin) :
    ({ s with slots, frames } : Buffers).Active where
  slots := valid
  paired := paired
  buffers abuf member := by
    apply (active.buffers abuf member).carry
    · intro pin
      exact (apart.bytes_iff pin).mpr
    · intro hostSlot carrier at_ bytes
      exact ⟨carrier, apart.carriers hostSlot carrier at_ bytes, rfl, fun live _ _ _ _ => live⟩
  frames := sound
  accounts pin := by
    have account := active.accounts pin
    change _ = if kindOf slots pin = some .bytes then 1 else 0
    rw [if_congr (apart.bytes_iff pin) rfl rfl]
    simp only [Buffers.tokens, Buffers.released, Buffers.pointing,
      Buffers.pending] at pending account ⊢
    rw [pending]
    exact account
  effective pin a at_ bytes := active.effective pin a (apart.pins pin a at_ bytes) bytes
  intact := active.intact
  undisposed := apart.disposed.trans active.undisposed

-- A claim of a frame that is hosted is not on a pin.
theorem OfFunctions.not_bytes {slots : Slots} {frame : SlotFrame} (hosted : OfFunctions slots frame)
    {claim : Claim} (claims : frame.claim = some claim) :
    kindOf slots claim.allocation ≠ some .bytes := by
  rw [hosted claim claims]
  exact nofun

-- The frames that stand for the innermost one of the slot table, and for what replaces it.
theorem framesAfter_hosting {event : SlotEvent} {frames frames' : List Frame}
    (inner : event = .allocationFails ∨ event = .attach ∨ ∃ deferred, event = .defineFails deferred)
    (after : Buffers.framesAfter event frames = some frames') :
    ∃ rest, frames = .hosting :: rest ∧ frames' = .hosting :: rest := by
  rcases inner with rfl | rfl | ⟨deferred, rfl⟩
  all_goals
    cases frames with
    | nil => cases after
    | cons frame rest =>
      cases frame <;> cases after
      exact ⟨rest, rfl, rfl⟩

theorem framesAfter_pops {event : SlotEvent} {frames frames' : List Frame}
    (ends : event = .defined ∨ event = .catchRelease ∨ event = .leaveFinalizer)
    (after : Buffers.framesAfter event frames = some frames') : frames = .hosting :: frames' := by
  rcases ends with rfl | rfl | rfl
  all_goals
    cases frames with
    | nil => cases after
    | cons frame rest =>
      cases frame <;> cases after
      rfl

section Host
variable {s : Buffers} (active : s.Active)
include active

theorem hosted_top {rest : List Frame} {frame : SlotFrame} {below : List SlotFrame}
    (frames : s.frames = .hosting :: rest) (top : s.slots.frames = frame :: below) :
    OfFunctions s.slots frame ∧ Paired s.slots rest below := by
  have paired := active.paired
  rw [frames, top] at paired
  obtain ⟨inner, under, same, hosted, paired⟩ := paired.pop_hosting
  obtain ⟨rfl, rfl⟩ := List.cons.inj same
  exact ⟨hosted, paired⟩

-- The innermost frame of the slot table is replaced by one with the same allocation.
theorem Buffers.Active.replaces {slots : Slots} {rest : List Frame} {frame frame' : SlotFrame}
    {below : List SlotFrame} (frames : s.frames = .hosting :: rest)
    (top : s.slots.frames = frame :: below) (valid : slots.Valid) (apart : Apart s.slots slots)
    (top' : slots.frames = frame' :: below)
    (same : ∀ claim' ∈ frame'.claim, ∃ claim ∈ frame.claim, claim'.allocation = claim.allocation) :
    ({ s with slots, frames := .hosting :: rest } : Buffers).Active := by
  obtain ⟨hosted, paired⟩ := hosted_top active frames top
  apply active.apart valid apart
  · rw [top']
    apply Paired.hosting
    · intro claim' claims'
      obtain ⟨claim, claims, allocation⟩ := same claim' claims'
      exact apart.kinds _ _ (allocation ▸ hosted claim claims)
    · exact paired.mono fun pin => apart.kinds pin .function
  · intro frame' member
    exact active.frames frame' (frames ▸ member)
  · intro pin
    rw [Buffers.pending, frames]

theorem Buffers.Active.returns {slots : Slots} {rest : List Frame} {frame : SlotFrame}
    {below : List SlotFrame} (frames : s.frames = .hosting :: rest)
    (top : s.slots.frames = frame :: below) (valid : slots.Valid) (apart : Apart s.slots slots)
    (top' : slots.frames = below) : ({ s with slots, frames := rest } : Buffers).Active := by
  obtain ⟨-, paired⟩ := hosted_top active frames top
  apply active.apart valid apart
  · rw [top']
    exact paired.mono fun pin => apart.kinds pin .function
  · intro frame' member
    exact active.frames frame' (frames ▸ List.mem_cons_of_mem _ member)
  · intro pin
    simp [Buffers.pending, frames, Frame.holds]

theorem Buffers.Active.aside {slots : Slots} (valid : slots.Valid) (apart : Apart s.slots slots)
    (same : slots.frames = s.slots.frames) : ({ s with slots } : Buffers).Active := by
  apply active.apart valid apart
  · rw [same]
    exact active.paired.mono fun pin => apart.kinds pin .function
  · exact active.frames
  · exact fun _ => rfl

theorem Buffers.Active.enters {slots : Slots} {frame : SlotFrame} (valid : slots.Valid)
    (apart : Apart s.slots slots) (top : slots.frames = frame :: s.slots.frames)
    (hosted : OfFunctions slots frame) :
    ({ s with slots, frames := .hosting :: s.frames } : Buffers).Active := by
  apply active.apart valid apart
  · rw [top]
    exact .hosting hosted (active.paired.mono fun pin => apart.kinds pin .function)
  · intro frame' member
    rcases List.mem_cons.mp member with rfl | earlier
    · trivial
    · exact active.frames frame' earlier
  · intro pin
    simp [Buffers.pending, Frame.holds]

omit active in
theorem Buffers.not_bytes {hostSlot : Nat} {carrier : Carrier}
    (found : s.slots.carriers[hostSlot]? = some carrier)
    (foreign : ¬((s.slots.carriers[hostSlot]?).any fun carrier =>
      kindOf s.slots carrier.allocation == some .bytes) = true) :
    kindOf s.slots carrier.allocation ≠ some .bytes := by
  intro bytes
  simp [found, bytes] at foreign

-- What becomes of host functions leaves pins alone.
theorem Buffers.Active.host {event : SlotEvent} {s' : Buffers}
    (uncontested : s.slots.Uncontested event) (steps : s.host event = some s') : s'.Active := by
  simp only [Buffers.host, Option.ite_none_left_eq_some, Option.bind_eq_some_iff,
    Option.map_eq_some_iff] at steps
  obtain ⟨foreign, frames, after, slots, steps, rfl⟩ := steps
  have valid : slots.Valid := slotMachine_valid.step active.slots uncontested steps
  have claimed {frame : SlotFrame} {below : List SlotFrame} {claim : Claim}
      (top : s.slots.frames = frame :: below)
      (claims : frame.claim = some claim) : claim.Sound s.slots :=
    Slots.sound_top active.slots top claims
  unfold Slots.step at steps
  rw [if_neg (by simp [active.undisposed])] at steps
  split at steps
  · next kind =>
      obtain rfl := Option.some.inj steps
      cases kind with
      | bytes => cases after
      | function =>
        obtain rfl := Option.some.inj after
        have apart : Apart s.slots _ :=
          .create .function (by decide) (.creating s.slots.hosts.next s.slots.allocations.length)
        apply active.enters valid apart rfl
        rintro claim ⟨⟩
        simp [kindOf, Slots.push]
  · next id allocation below top =>
      obtain rfl := Option.some.inj steps
      obtain ⟨rest, here, rfl⟩ := framesAfter_hosting (.inl rfl) after
      apply active.replaces here top valid (.frames _) rfl
      rintro claim ⟨⟩
      exact ⟨_, rfl, rfl⟩
  · next id allocation below top =>
      obtain ⟨a, known, rfl⟩ := Option.map_eq_some_iff.mp steps
      obtain ⟨rest, here, rfl⟩ := framesAfter_hosting (.inr (.inl rfl)) after
      obtain ⟨hosted, -⟩ := hosted_top active here top
      have function : kindOf s.slots allocation = some .function := hosted _ rfl
      obtain ⟨a', known', kind⟩ := kindOf_eq_some.mp function
      obtain rfl := Option.some.inj (known.symm.trans known')
      simp only [kind] at valid ⊢
      apply active.replaces here top valid (.frames _) rfl
      rintro claim ⟨⟩
      exact ⟨_, rfl, rfl⟩
  · next id allocation below top =>
      obtain rfl := Option.some.inj steps
      have here := framesAfter_pops (.inl rfl) after
      exact active.returns here top valid ((Apart.frames below).trans (.add _)) rfl
  · next deferred id allocation below top =>
      obtain ⟨rest, here, rfl⟩ := framesAfter_hosting (.inr (.inr ⟨deferred, rfl⟩)) after
      obtain ⟨hosted, -⟩ := hosted_top active here top
      have sound := claimed top rfl
      simp only at steps
      split at steps
      · cases steps
      split at steps
      · obtain rfl := Option.some.inj steps
        apply active.replaces here top valid ((Apart.frames _).trans (.add _)) rfl
        rintro claim ⟨⟩
        exact ⟨_, rfl, rfl⟩
      · obtain rfl := Option.some.inj steps
        let failed : Slots :=
          { s.slots with frames := .throwing id allocation :: below }.add ⟨id, allocation, .gone⟩
        have apart : Apart s.slots failed := (Apart.frames _).trans (.add _)
        have still : Claim.Sound failed ⟨id, allocation, true⟩ := sound.congr rfl rfl
        apply active.replaces here top valid
        · exact apart.trans (.release_claim still (hosted.not_bytes rfl))
        · exact release_frames _ _
        · rintro claim ⟨⟩
          exact ⟨_, rfl, rfl⟩
  · next id allocation below top =>
      obtain rfl := Option.some.inj steps
      have here := framesAfter_pops (.inr (.inl rfl)) after
      obtain ⟨hosted, -⟩ := hosted_top active here top
      have apart : Apart s.slots { s.slots with frames := below } := .frames below
      have still : Claim.Sound { s.slots with frames := below } ⟨id, allocation, false⟩ :=
        (claimed top rfl).congr rfl rfl
      apply active.returns here top valid
      · exact apart.trans (.release_claim still (hosted.not_bytes rfl))
      · exact release_frames _ _
  · next hostSlot deferred =>
      obtain rfl := Option.some.inj after
      split at steps
      · next carrier found =>
          have function := Buffers.not_bytes found foreign
          obtain ⟨refuses, same⟩ := Option.ite_none_left_eq_some.mp steps
          obtain rfl := Option.some.inj same
          cases deferred with
          | true => exact active.aside valid (.put found function _) rfl
          | false =>
            apply active.aside valid
            · apply Apart.finalize active.slots found _ function
              intro gone
              simp [gone] at refuses
            · exact release_frames _ _
      · cases steps
  · next hostSlot =>
      obtain rfl := Option.some.inj after
      split at steps
      · next carrier found =>
          have function := Buffers.not_bytes found foreign
          obtain ⟨present, same⟩ := Option.ite_none_left_eq_some.mp steps
          obtain rfl := Option.some.inj same
          exact active.aside valid (.finalize active.slots found present function)
            (release_frames _ _)
      · cases steps
  · obtain rfl := Option.some.inj steps
    obtain rfl := Option.some.inj after
    apply active.enters valid (.frames _) rfl
    rintro claim ⟨⟩
  · next below top =>
      obtain rfl := Option.some.inj steps
      have here := framesAfter_pops (.inr (.inr rfl)) after
      exact active.returns here top valid (.frames _) rfl
  · cases after
  · cases steps

end Host

/-! ### Creations -/

theorem kindOf_slot (slots : Slots) (kind : HostKind) (frame : SlotFrame) (pin : Nat) :
    kindOf ((slots.slot kind).2.push frame) pin =
      if pin = slots.allocations.length then some kind else kindOf slots pin := by
  simp only [kindOf, Slots.push, Slots.slot]
  rcases Nat.lt_trichotomy pin slots.allocations.length with below | rfl | above
  · rw [List.getElem?_append_left below, if_neg (Nat.ne_of_lt below)]
  · simp
  · rw [if_neg (Nat.ne_of_gt above), List.getElem?_eq_none (by simp; omega),
      List.getElem?_eq_none (by omega)]

section Creation
variable {s : Buffers} (active : s.Active)
include active

-- A pin that a frame has in hand is a buffer's, and its release has not been asked for.
theorem in_hand {frame : Frame} {rest : List Frame} (top : s.frames = frame :: rest) {pin : Nat}
    (held : frame.holds pin = 1) : kindOf s.slots pin = some .bytes ∧ s.released pin = 0 := by
  have account := active.accounts pin
  have pending : s.pending pin = 1 + tally (Frame.holds pin) rest := by
    rw [Buffers.pending, top, tally_cons, held]
  simp only [Buffers.tokens, pending] at account
  split at account
  · next bytes => exact ⟨bytes, by omega⟩
  · omega

theorem Buffers.Active.pinned (uncontested : s.slots.Uncontested (.create .bytes)) {slots : Slots}
    (steps : s.slots.step (.create .bytes) = some slots) (byteLength : Nat) :
    ({ s with slots, frames := .creating s.slots.allocations.length byteLength :: s.frames } :
      Buffers).Active := by
  have valid : slots.Valid := slotMachine_valid.step active.slots uncontested steps
  unfold Slots.step at steps
  rw [if_neg (by simp [active.undisposed])] at steps
  obtain rfl : (s.slots.slot .bytes).2.push
      (.creating s.slots.hosts.next s.slots.allocations.length) = slots :=
    Option.some.inj steps
  have fresh : kindOf s.slots s.slots.allocations.length = none := by simp [kindOf]
  have older {pin : Nat} {kind : HostKind} (before : kindOf s.slots pin = some kind) :
      kindOf ((s.slots.slot .bytes).2.push
        (.creating s.slots.hosts.next s.slots.allocations.length)) pin = some kind := by
    rw [kindOf_slot, if_neg]
    · exact before
    · rintro rfl
      cases fresh.symm.trans before
  have unused : s.tokens s.slots.allocations.length = 0 := by
    rw [active.accounts, fresh, if_neg (by decide)]
  constructor
  · constructor
    · exact valid
    · exact .creating (active.paired.mono fun _ => older)
    · intro abuf member
      apply (active.buffers abuf member).carry
      · intro pin
        exact older
      · intro hostSlot carrier at_ _
        exact ⟨carrier, at_, rfl, fun live _ _ _ _ => live⟩
    · intro frame member
      rcases List.mem_cons.mp member with rfl | earlier
      · trivial
      · exact active.frames frame earlier
    · intro pin
      have account := active.accounts pin
      change (s.push (.creating s.slots.allocations.length byteLength)).tokens pin =
        if kindOf ((s.slots.slot .bytes).2.push _) pin = _ then 1 else 0
      rw [Buffers.tokens_push, kindOf_slot]
      by_cases same : pin = s.slots.allocations.length
      · subst same
        simp [unused, Frame.holds]
      · rw [if_neg same, account, Frame.holds, if_neg (Ne.symm same), Nat.add_zero]
    · intro pin a at_ bytes
      change (s.slots.allocations ++ [⟨s.slots.hosts.next, .bytes, 0⟩])[pin]? = some a at at_
      rcases Nat.lt_or_ge pin s.slots.allocations.length with below | above
      · rw [List.getElem?_append_left below] at at_
        exact active.effective pin a at_ bytes
      · rw [List.getElem?_append_right above] at at_
        obtain rfl := List.mem_singleton.mp (List.mem_of_getElem? at_)
        obtain ⟨inside, -⟩ := List.getElem?_eq_some_iff.mp at_
        obtain rfl : pin = s.slots.allocations.length := by
          simp only [List.length_singleton] at inside
          omega
        have none_ := unused
        simp only [Buffers.tokens] at none_
        exact (Nat.eq_zero_of_add_eq_zero_right (Nat.eq_zero_of_add_eq_zero_right none_)).symm
    · exact active.intact
  · exact active.undisposed

-- There is no memory for the buffer or its slot: the catch clause comes next.
theorem Buffers.Active.fails {pin byteLength : Nat} {rest : List Frame}
    (top : s.frames = .creating pin byteLength :: rest) {slots : Slots}
    (steps : s.slots.step .allocationFails = some slots) :
    ({ s with slots, frames := .failed pin :: rest } : Buffers).Active := by
  have valid : slots.Valid :=
    slotMachine_valid.step (e := .allocationFails) active.slots trivial steps
  obtain ⟨id, below, inner, paired⟩ := (top ▸ active.paired).pop_creating
  unfold Slots.step at steps
  rw [if_neg (by simp [active.undisposed]), inner] at steps
  obtain rfl := Option.some.inj steps
  apply active.apart valid (.frames _)
  · exact .failed (paired.mono fun _ same => same)
  · intro frame member
    rcases List.mem_cons.mp member with rfl | earlier
    · trivial
    · exact active.frames frame (top ▸ List.mem_cons_of_mem _ earlier)
  · intro other
    simp [Buffers.pending, top, Frame.holds]

theorem Buffers.Active.attached {pin byteLength : Nat} {rest : List Frame} {allocated : Bool}
    (top : s.frames = .creating pin byteLength :: rest) {slots : Slots}
    (steps : s.slots.step .attach = some slots) {abuf : ArrayBuffer}
    (made : jsNewArrayBuffer byteLength pin s.slots.carriers.length allocated = some abuf) :
    ({ s with slots, frames := rest }.add abuf).Active := by
  have valid : slots.Valid := slotMachine_valid.step (e := .attach) active.slots trivial steps
  obtain ⟨bytes, -⟩ := in_hand active top (if_pos rfl)
  obtain ⟨id, below, inner, paired⟩ := (top ▸ active.paired).pop_creating
  obtain ⟨fields, -⟩ := jsArrayBufferConstructor3_spec made
  unfold Slots.step at steps
  rw [if_neg (by simp [active.undisposed]), inner] at steps
  obtain ⟨a, known, rfl⟩ := Option.map_eq_some_iff.mp steps
  obtain ⟨a', known', kind⟩ := kindOf_eq_some.mp bytes
  obtain rfl := Option.some.inj (known.symm.trans known')
  simp only [kind] at valid ⊢
  have apart : Apart s.slots ({ s.slots with frames := below }.add ⟨id, pin, .live⟩) :=
    (Apart.frames below).trans (.add _)
  have holds (other : Nat) : abuf.holds other = (Frame.creating pin byteLength).holds other := by
    simp [fields, ArrayBuffer.holds, Frame.holds]
  constructor
  · constructor
    · exact valid
    · exact paired.mono fun _ same => same
    · intro other member
      rcases List.mem_append.mp member with earlier | same
      · apply (active.buffers other earlier).carry
        · intro old
          exact (apart.bytes_iff old).mpr
        · intro hostSlot carrier at_ kept
          exact ⟨carrier, apart.carriers hostSlot carrier at_ kept, rfl, fun live _ _ _ _ => live⟩
      · obtain rfl := List.mem_singleton.mp same
        subst fields
        refine ⟨fun _ =>
          ⟨s.slots.carriers.length, ⟨id, pin, .live⟩, ?_, bytes, rfl, rfl, rfl, fun _ _ => rfl⟩, ?_⟩
        · exact List.getElem?_concat_length
        · rintro ⟨⟩
    · intro frame member
      exact sound_add (active.frames frame (top ▸ List.mem_cons_of_mem _ member)) abuf
    · intro other
      have popped := s.tokens_frames other top
      have account := active.accounts other
      change (({ s with frames := rest } : Buffers).add abuf).tokens other =
        if kindOf s.slots other = _ then 1 else 0
      rw [Buffers.tokens_add, holds]
      exact popped.trans account
    · exact active.effective
    · exact active.intact
  · exact active.undisposed

-- The catch clause finds the entry of its own pin.
theorem Buffers.Active.releaseFailed {pin : Nat} {rest : List Frame}
    (top : s.frames = .failed pin :: rest) {slots : Slots}
    (steps : s.slots.step .catchRelease = some slots) :
    ({ s with slots, frames := rest, releases := pin :: s.releases } : Buffers).Active := by
  have valid : slots.Valid := slotMachine_valid.step (e := .catchRelease) active.slots trivial steps
  obtain ⟨bytes, unreleased⟩ := in_hand active top (if_pos rfl)
  obtain ⟨id, below, inner, paired⟩ := (top ▸ active.paired).pop_failed
  unfold Slots.step at steps
  rw [if_neg (by simp [active.undisposed]), inner] at steps
  obtain rfl := Option.some.inj steps
  have entry : s.slots.hosts.lookup id = some pin := by
    obtain ⟨⟨a, at_, named⟩, -⟩ := Slots.sound_top active.slots inner rfl
    obtain ⟨a', at_', kind⟩ := kindOf_eq_some.mp bytes
    obtain rfl := Option.some.inj (at_.symm.trans at_')
    have once := active.slots.once pin a at_
    rw [active.effective pin a at_ kind, unreleased, named] at once
    by_contra absent
    simp [absent] at once
  have allocations : (({ s.slots with frames := below } : Slots).release id).allocations =
      s.slots.allocations.modify pin fun a => { a with releases := a.releases + 1 } := by
    simp [Slots.release, entry]
  have kinds (other : Nat) : kindOf (({ s.slots with frames := below } : Slots).release id) other =
      kindOf s.slots other :=
    kindOf_release { s.slots with frames := below } id other
  constructor
  · constructor
    · exact valid
    · change Paired _ rest (Slots.release _ id).frames
      rw [release_frames]
      exact paired.mono fun other same => (kinds other).trans same
    · intro abuf member
      apply (active.buffers abuf member).carry
      · intro other same
        exact (kinds other).trans same
      · intro hostSlot carrier at_ _
        refine ⟨carrier, ?_, rfl, fun live _ _ _ _ => live⟩
        rwa [release_carriers]
    · intro frame member
      exact active.frames frame (top ▸ List.mem_cons_of_mem _ member)
    · intro other
      have popped := s.tokens_frames other top
      have account := active.accounts other
      change _ = if kindOf (Slots.release _ id) other = _ then 1 else 0
      rw [kinds, ← account, ← popped]
      simp only [Buffers.tokens, Buffers.released, Buffers.pointing, Buffers.pending,
        List.count_cons, Frame.holds, beq_iff_eq]
      omega
    · intro other a found bytes'
      change (Slots.release _ id).allocations[other]? = some a at found
      simp only [allocations, List.getElem?_modify, Option.map_eq_map,
        Option.map_eq_some_iff] at found
      obtain ⟨before, known, rfl⟩ := found
      change _ = (pin :: s.releases).count other
      have effective := active.effective other before known (by split at bytes' <;> exact bytes')
      by_cases same : pin = other
      · simp [same, effective, Buffers.released]
      · simp [same, effective, Buffers.released]
    · exact active.intact
  · change (Slots.release _ id).disposed = false
    rw [release_disposed]
    exact active.undisposed

end Creation

/-! ### Teardown -/

theorem Buffers.Active.finalizeOne {s : Buffers} (active : s.Active) (idle : s.frames = [])
    (buffer : Nat) :
    (Bridge.finalizeOne s buffer).Active ∧ (Bridge.finalizeOne s buffer).frames = [] ∧
      (Bridge.finalizeOne s buffer).buffers.length = s.buffers.length ∧
      (∀ i, i ≠ buffer → (Bridge.finalizeOne s buffer).buffers[i]? = s.buffers[i]?) ∧
      ∀ abuf, (Bridge.finalizeOne s buffer).buffers[buffer]? = some abuf → abuf.live = false := by
  unfold Bridge.finalizeOne
  split
  · next missing =>
      exact ⟨active, idle, rfl, fun _ _ => rfl, fun abuf found => by simp [missing] at found⟩
  · next abuf found =>
      by_cases live : abuf.live = true
      · rw [if_pos live]
        refine ⟨active.finalize found live (by simp [idle]),
          by simp [jsArrayBufferFinalizer, Buffers.put, idle],
          by simp [jsArrayBufferFinalizer, Buffers.put], fun i other => ?_, fun last at_ => ?_⟩
        · simp [jsArrayBufferFinalizer, Buffers.put, other.symm]
        · simp only [jsArrayBufferFinalizer, Buffers.put, freeData_buffers,
            List.getElem?_set_self (List.getElem?_eq_some_iff.mp found).1, Option.some.injEq] at at_
          exact at_ ▸ rfl
      · rw [if_neg live]
        refine ⟨active, idle, rfl, fun _ _ => rfl, fun last at_ => ?_⟩
        exact Option.some.inj (found.symm.trans at_) ▸ Bool.eq_false_iff.mpr live

-- Finalizing one buffer after the other keeps the accounts and leaves none alive.
theorem Buffers.Active.finalizeFrom {s : Buffers} (active : s.Active) (idle : s.frames = [])
    (buffer count : Nat)
    (below : ∀ i < buffer, ∀ abuf, s.buffers[i]? = some abuf → abuf.live = false) :
    (Bridge.finalizeFrom s buffer count).Active ∧ (Bridge.finalizeFrom s buffer count).frames = [] ∧
      (Bridge.finalizeFrom s buffer count).buffers.length = s.buffers.length ∧
      ∀ i < buffer + count, ∀ abuf, (Bridge.finalizeFrom s buffer count).buffers[i]? = some abuf →
        abuf.live = false := by
  induction count generalizing s buffer with
  | zero => exact ⟨active, idle, rfl, below⟩
  | succ count ih =>
    obtain ⟨next, nextIdle, sameLength, others, dead⟩ := active.finalizeOne idle buffer
    have nextBelow : ∀ i < buffer + 1, ∀ abuf,
        (Bridge.finalizeOne s buffer).buffers[i]? = some abuf → abuf.live = false := by
      intro i inside abuf found
      by_cases here : i = buffer
      · exact dead abuf (here ▸ found)
      · exact below i (by omega) abuf (others i here ▸ found)
    obtain ⟨later, laterIdle, laterLength, allDead⟩ := ih next nextIdle (buffer + 1) nextBelow
    refine ⟨later, laterIdle, laterLength.trans sameLength, ?_⟩
    intro i inside
    exact allDead i (by omega)

theorem Buffers.Active.dispose {s : Buffers} (active : s.Active) (idle : s.frames = [])
    {slots : Slots}
    (steps : (Bridge.finalizeFrom s 0 s.buffers.length).slots.step .dispose = some slots) :
    ({ Bridge.finalizeFrom s 0 s.buffers.length with slots } : Buffers).Valid := by
  obtain ⟨ended, stillIdle, sameLength, dead⟩ :=
    active.finalizeFrom idle 0 s.buffers.length (by simp)
  have valid : slots.Valid := slotMachine_valid.step (e := .dispose) ended.slots trivial steps
  have inner : (Bridge.finalizeFrom s 0 s.buffers.length).slots.frames = [] := by
    have paired := ended.paired
    rw [stillIdle] at paired
    generalize (Bridge.finalizeFrom s 0 s.buffers.length).slots.frames = others at paired ⊢
    cases paired with
    | nil => rfl
  unfold Slots.step at steps
  rw [if_neg (by simp [ended.undisposed]), inner] at steps
  obtain ⟨-, same⟩ := Option.ite_none_right_eq_some.mp steps
  obtain rfl := Option.some.inj same
  have kept := ended.toSane
  constructor
  · refine ⟨valid, ?_, ?_, kept.frames, kept.accounts, kept.effective, kept.intact⟩
    · rw [stillIdle]
      exact .nil
    · intro abuf member
      exact (kept.buffers abuf member).carry (fun _ same => same) fun _ carrier at_ _ =>
        ⟨carrier, at_, rfl, fun live _ _ _ _ => live⟩
  · intro _
    refine ⟨stillIdle, fun pin => tally_eq_zero.mpr fun abuf member => ?_⟩
    obtain ⟨i, inside, rfl⟩ := List.getElem_of_mem member
    have gone := dead i (by simpa [sameLength] using inside) _ (List.getElem?_eq_getElem inside)
    simp [ArrayBuffer.holds, gone]

/-! ### Runs -/

/-- What the code relies on: the engine frees no buffer an operation in flight works on; when the
constructor call of a transfer returns, the host memory it copies or moves is still the buffer's,
although the collection that call may trigger runs finalizers of the host, which may detach; and no
id is handed out that somebody still has to release. -/
def Undisturbed (s : Buffers) : BufferEvent → Prop
  | .newArrayBuffer byteLength _ => byteLength ≠ 0 → s.slots.Uncontested (.create .bytes)
  | .host event => s.slots.Uncontested event
  | .collect buffer => ∀ frame ∈ s.frames, ¬ frame.uses buffer
  | .constructed true _ =>
    match s.frames with
    | .transferring buffer (.copying _ _ _) :: _ =>
      ∀ abuf ∈ s.buffers[buffer]?, abuf.detached = false
    | .transferring buffer (.moving _ _ _ .qjsBunArrayBufferFree _) :: _ =>
      ∀ abuf ∈ s.buffers[buffer]?, abuf.detached = false
    | _ => True
  | _ => True

instance (s : Buffers) : DecidablePred (Undisturbed s) := fun event => by
  unfold Undisturbed
  split
  · infer_instance
  · infer_instance
  · infer_instance
  · split <;> infer_instance
  · infer_instance

theorem find_spec {s : Buffers} {buffer : Nat} {abuf : ArrayBuffer}
    (found : s.find buffer = some abuf) : s.buffers[buffer]? = some abuf ∧ abuf.live = true := by
  simpa [Buffers.find, Option.filter_eq_some_iff] using found

theorem live_of_top {s : Buffers} (active : s.Active) {frame : Frame} {rest : List Frame}
    (top : s.frames = frame :: rest) {buffer : Nat} {abuf : ArrayBuffer} (uses : frame.uses buffer)
    (found : s.buffers[buffer]? = some abuf) : abuf.live = true := by
  obtain ⟨other, at_, live⟩ :=
    Frame.Sound.alive (active.frames frame (top ▸ List.mem_cons_self)) uses
  exact Option.some.inj (found.symm.trans at_) ▸ live

theorem Buffers.Active.step {s s' : Buffers} (active : s.Active) {event : BufferEvent}
    (meets : Undisturbed s event) (steps : s.step event = some s') : s'.Valid := by
  unfold Buffers.step at steps
  rw [if_neg (by simp [active.undisposed, active.intact])] at steps
  cases event with
  | newArrayBuffer byteLength slotAllocated =>
    simp only at steps
    split at steps
    · exact Option.some.inj steps ▸ (active.construct 0 none false slotAllocated).valid
    · next some_ =>
        obtain ⟨slots, pins, same⟩ := Option.bind_eq_some_iff.mp steps
        have pinned := active.pinned (meets some_) pins byteLength
        split at same
        · exact Option.some.inj same ▸ pinned.valid
        · obtain ⟨slots', failing, rfl⟩ := Option.map_eq_some_iff.mp same
          exact (pinned.fails rfl failing).valid
  | created allocated =>
    simp only at steps
    split at steps
    · next pin byteLength rest top =>
        unfold Buffers.created at steps
        split at steps
        · obtain ⟨slots, failing, rfl⟩ := Option.map_eq_some_iff.mp steps
          exact (active.fails top failing).valid
        · next abuf made =>
            obtain ⟨slots, attaches, rfl⟩ := Option.map_eq_some_iff.mp steps
            exact (active.attached top attaches made).valid
    · cases steps
  | releaseFailed =>
    simp only at steps
    split at steps
    · next pin rest top =>
        obtain ⟨slots, releases, rfl⟩ := Option.map_eq_some_iff.mp steps
        exact (active.releaseFailed top releases).valid
    · cases steps
  | construct byteLength maxByteLength shared allocated =>
    exact Option.some.inj steps ▸ (active.construct byteLength maxByteLength shared allocated).valid
  | transfer buffer toFixedLength hasLength =>
    obtain ⟨abuf, found, rfl⟩ := Option.map_eq_some_iff.mp steps
    obtain ⟨at_, live⟩ := find_spec found
    apply Buffers.Active.valid
    split
    · exact active
    split
    · exact active.transfer at_ live toFixedLength abuf.byteLength
    · exact active.push ⟨abuf, at_, live⟩ rfl
  | resize buffer =>
    obtain ⟨abuf, found, rfl⟩ := Option.map_eq_some_iff.mp steps
    obtain ⟨at_, live⟩ := find_spec found
    have sound : (Frame.resizing buffer).Sound s.buffers := ⟨abuf, at_, live⟩
    exact (active.push sound rfl).valid
  | toIndex index grown =>
    simp only at steps
    split at steps
    · next rest top => exact Option.some.inj steps ▸ (active.pop top rfl).valid
    · next buffer toFixedLength rest newLen top =>
        obtain ⟨abuf, at_, rfl⟩ := Option.map_eq_some_iff.mp steps
        have live := live_of_top active top rfl at_
        exact ((active.pop top rfl).transfer at_ live toFixedLength newLen).valid
    · next rest top => exact Option.some.inj steps ▸ (active.pop top rfl).valid
    · next buffer rest len top =>
        obtain ⟨abuf, at_, rfl⟩ := Option.map_eq_some_iff.mp steps
        have live := live_of_top active top rfl at_
        exact ((active.pop top rfl).resize at_ live len grown).valid
    · cases steps
  | constructed made grown =>
    simp only at steps
    split at steps
    · next buffer plan rest top =>
        obtain ⟨abuf, at_, rfl⟩ := Option.map_eq_some_iff.mp steps
        have live := live_of_top active top rfl at_
        have sound := active.frames _ (top ▸ List.mem_cons_self)
        apply Buffers.Active.valid
        apply (active.pop top rfl).transferEnd at_ live sound made grown
        rintro rfl
        constructor
        · rintro oldLen newLen maxLen rfl
          simp only [Undisturbed, top] at meets
          exact meets abuf at_
        · rintro newLen maxLen data hostSlot rfl
          simp only [Undisturbed, top] at meets
          exact meets abuf at_
    · cases steps
  | detachArrayBuffer buffer =>
    obtain ⟨abuf, found, rfl⟩ := Option.map_eq_some_iff.mp steps
    obtain ⟨at_, live⟩ := find_spec found
    exact (active.detach at_ live).valid
  | collect buffer =>
    obtain ⟨abuf, found, rfl⟩ := Option.map_eq_some_iff.mp steps
    obtain ⟨at_, live⟩ := find_spec found
    exact (active.finalize at_ live meets).valid
  | host event => exact (active.host meets steps).valid
  | dispose =>
    simp only at steps
    split at steps
    · cases steps
    · next idle =>
        obtain ⟨slots, disposes, rfl⟩ := Option.map_eq_some_iff.mp steps
        exact active.dispose (not_not.mp idle) disposes

theorem bufferMachine_valid : bufferMachine.Invariant Undisturbed Buffers.Valid where
  init := by
    refine ⟨⟨slotMachine_valid.init, .nil, nofun, nofun, fun pin => ?_, nofun, rfl⟩, nofun⟩
    simp [bufferMachine, slotMachine, kindOf, Buffers.tokens, Buffers.released, Buffers.pointing,
      Buffers.pending]
  step := by
    intro s s' event valid meets steps
    have undisposed : s.slots.disposed = false := by
      cases disposed : s.slots.disposed with
      | false => rfl
      | true => simp [bufferMachine, Buffers.step, disposed] at steps
    have active : s.Active := ⟨valid.toSane, undisposed⟩
    exact active.step meets steps

/-- Host memory is pinned exactly as long as needed: at most one buffer points at it, its release is
asked for at most once, finds its own entry, and comes never while a buffer points at it; and once
no buffer points at it and its creation is over it has been released, at the latest when the runtime
is disposed. -/
def Buffers.PinnedExactly (s : Buffers) : Prop :=
  s.crashed = false ∧ ∀ pin a, s.slots.allocations[pin]? = some a → a.kind = .bytes →
    s.pointing pin ≤ 1 ∧ s.released pin ≤ 1 ∧ a.releases = s.released pin ∧
    (s.pointing pin ≠ 0 → s.released pin = 0 ∧ s.slots.hosts.lookup a.id = some pin) ∧
    (s.pointing pin = 0 → s.pending pin = 0 → s.released pin = 1) ∧
    (s.slots.disposed = true → s.released pin = 1)

theorem pinned_exactly {s : Buffers} (reaches : bufferMachine.Reaches Undisturbed s) :
    s.PinnedExactly := by
  have valid := bufferMachine_valid.reached reaches
  refine ⟨valid.intact, ?_⟩
  intro pin a at_ bytes
  have account : s.released pin + s.pointing pin + s.pending pin = 1 :=
    (valid.accounts pin).trans (if_pos (kindOf_eq_some.mpr ⟨a, at_, bytes⟩))
  have effective := valid.effective pin a at_ bytes
  refine ⟨by omega, by omega, effective, ?_, by omega, ?_⟩
  · intro points
    have unreleased : s.released pin = 0 := by omega
    refine ⟨unreleased, ?_⟩
    have once := valid.slots.once pin a at_
    by_contra absent
    simp [effective, unreleased, absent] at once
  · intro disposed
    obtain ⟨idle, gone⟩ := valid.finished disposed
    have none_ : s.pending pin = 0 := by simp [Buffers.pending, idle]
    have := gone pin
    omega

/-- A host function is dropped, a buffer gets its id and is moved by a transfer, and another fails
to be made. -/
theorem pinned_exactly_after_transfer :
    (⟨⟨⟨[some 1, none], [1]⟩, [⟨0, .function, 1⟩, ⟨0, .bytes, 0⟩, ⟨1, .bytes, 1⟩],
      [⟨0, 0, .gone⟩, ⟨0, 1, .live⟩], [], false⟩,
      [⟨.null, 0, none, true, false, .qjsBunArrayBufferFree, some 1, false⟩,
       ⟨.host 1, 4, none, false, false, .qjsBunArrayBufferFree, some 1, true⟩], [], [2], false⟩ :
      Buffers).PinnedExactly :=
  pinned_exactly (Machine.Reaches.run
    [.host (.create .function), .host .attach, .host .defined, .host (.drop 0 false),
      .newArrayBuffer 4 true, .created true, .transfer 0 false false, .constructed true true,
      .collect 0, .newArrayBuffer 8 true, .created false, .releaseFailed] .init (by decide))

/-- A finalizer run by the collection inside an equal-length transfer detaches the buffer: the pin
is released, and the new buffer points at the memory all the same. -/
theorem detached_inside_transfer :
    ∃ s, bufferMachine.Reaches (fun _ _ => True) s ∧ ¬ s.PinnedExactly :=
  ⟨⟨⟨⟨[none], [0]⟩, [⟨0, .bytes, 1⟩], [⟨0, 0, .gone⟩], [], false⟩,
     [⟨.null, 0, none, true, false, .qjsBunArrayBufferFree, some 0, true⟩,
      ⟨.host 0, 4, none, false, false, .qjsBunArrayBufferFree, some 0, true⟩], [], [0], false⟩,
    Machine.Reaches.run
      [.newArrayBuffer 4 true, .created true, .transfer 0 false false, .host .enterFinalizer,
        .detachArrayBuffer 0, .host .leaveFinalizer, .constructed true true] .init (by decide),
    fun exact' => by
      have held := (exact'.2 0 _ rfl rfl).2.2.2.1 (by decide)
      revert held
      decide⟩

-- The same where the length changes: what is to be copied is behind a null pointer.
theorem detached_inside_copy :
    ∃ s, bufferMachine.Reaches (fun _ _ => True) s ∧ ¬ s.PinnedExactly :=
  ⟨⟨⟨⟨[none], [0]⟩, [⟨0, .bytes, 1⟩], [⟨0, 0, .gone⟩], [], false⟩,
     [⟨.null, 0, none, true, false, .qjsBunArrayBufferFree, some 0, true⟩], [], [0], true⟩,
    Machine.Reaches.run
      [.newArrayBuffer 4 true, .created true, .transfer 0 false true, .toIndex (some 2) true,
        .host .enterFinalizer, .detachArrayBuffer 0, .host .leaveFinalizer, .constructed true true]
          .init (by decide),
    fun exact' => Bool.noConfusion exact'.1⟩

-- In a class finalizer the function object of a failed creation waits for its own finalizer. The
-- catch clause has freed the id by then, a buffer has taken it, and loses its pin.
theorem contested_pin :
    ∃ s, bufferMachine.Reaches (fun _ _ => True) s ∧ ¬ s.PinnedExactly :=
  ⟨⟨⟨⟨[none], [0]⟩, [⟨0, .function, 1⟩, ⟨0, .bytes, 1⟩], [⟨0, 0, .gone⟩, ⟨0, 1, .live⟩], [],
      false⟩,
     [⟨.host 1, 4, none, false, false, .qjsBunArrayBufferFree, some 1, true⟩], [], [], false⟩,
    Machine.Reaches.run
      [.host .enterFinalizer, .host (.create .function), .host .attach, .host (.defineFails true),
       .host .catchRelease, .newArrayBuffer 4 true, .created true, .host .leaveFinalizer,
       .host (.collect 0)]
      .init (by decide),
    fun exact' => by
      have held := (exact'.2 1 _ rfl rfl).2.2.2.1 (by decide)
      revert held
      decide⟩

end QuickJSBun.Bridge
