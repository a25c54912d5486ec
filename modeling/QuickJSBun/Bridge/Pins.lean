import QuickJSBun.Bridge.ArrayBuffer

/-! How long host memory stays pinned: each pin is accounted for exactly once, by
a buffer pointing at the memory, by a creation under way, or by its release; and
every release finds the entry of its own pin in the slot table.
-/

set_option autoImplicit false

namespace QuickJSBun.Bridge

open Library Handle

def ArrayBuffer.holds (pin : Nat) (abuf : ArrayBuffer) : Nat :=
  if abuf.live && abuf.data == .host pin then 1 else 0

def Frame.holds (pin : Nat) : Frame → Nat
  | .creating held _ => if held = pin then 1 else 0
  | .failed held => if held = pin then 1 else 0
  | _ => 0

def Frame.uses (buffer : Nat) : Frame → Prop
  | .creating _ _ | .failed _ | .hosting => False
  | .converting used _ => used = buffer
  | .resizing used => used = buffer
  | .transferring used _ => used = buffer

instance (buffer : Nat) : DecidablePred (Frame.uses buffer)
  | .creating _ _ | .failed _ | .hosting => inferInstanceAs (Decidable False)
  | .converting used _ => inferInstanceAs (Decidable (used = buffer))
  | .resizing used => inferInstanceAs (Decidable (used = buffer))
  | .transferring used _ => inferInstanceAs (Decidable (used = buffer))

namespace Buffers

def released (s : Buffers) (pin : Nat) : Nat := s.releases.count pin

def pointing (s : Buffers) (pin : Nat) : Nat := tally (ArrayBuffer.holds pin) s.buffers

/-- How many creations have the pin in hand: `JS_NewArrayBuffer`, or the catch clause after it. -/
def pending (s : Buffers) (pin : Nat) : Nat := tally (Frame.holds pin) s.frames

def tokens (s : Buffers) (pin : Nat) : Nat := s.released pin + s.pointing pin + s.pending pin

section Tokens
variable (s : Buffers) (pin : Nat)

@[simp] theorem tokens_add (abuf : ArrayBuffer) :
    (s.add abuf).tokens pin = s.tokens pin + abuf.holds pin := by
  simp only [tokens, released, pointing, pending, add, tally_append, tally_cons, tally_nil]
  omega

theorem tokens_put {buffer : Nat} {old : ArrayBuffer} (found : s.buffers[buffer]? = some old)
    (new : ArrayBuffer) :
    (s.put buffer new).tokens pin + old.holds pin = s.tokens pin + new.holds pin := by
  have traded := tally_set (f := ArrayBuffer.holds pin) found new
  simp only [tokens, released, pointing, pending, put]
  omega

@[simp] theorem tokens_push (frame : Frame) :
    (s.push frame).tokens pin = s.tokens pin + frame.holds pin := by
  simp only [tokens, released, pointing, pending, push, tally_cons]
  omega

theorem tokens_frames {frame : Frame} {rest : List Frame} (top : s.frames = frame :: rest) :
    ({ s with frames := rest } : Buffers).tokens pin + frame.holds pin = s.tokens pin := by
  simp only [tokens, released, pointing, pending, top, tally_cons]
  omega

end Tokens

end Buffers

/-- A buffer over host memory knows its slot until it is detached; one over engine memory never has
one. -/
structure ArrayBuffer.Sound (slots : Slots) (abuf : ArrayBuffer) : Prop where
  host : abuf.freeFunc = .qjsBunArrayBufferFree →
    ∃ hostSlot carrier, slots.carriers[hostSlot]? = some carrier ∧
    kindOf slots carrier.allocation = some .bytes ∧ abuf.hostSlot = some hostSlot ∧
    abuf.shared = false ∧ (abuf.data = if abuf.detached then .null else .host carrier.allocation) ∧
    (abuf.live = true → abuf.detached = false → carrier.status = .live)
  engine : abuf.freeFunc = .jsArrayBufferFree → ∀ pin, abuf.data ≠ .host pin

/-- What a frame relies on. A transfer that moves host memory has read the fields of its buffer, and
they are still those of the buffer unless it has been detached meanwhile. -/
def Frame.Sound (buffers : List ArrayBuffer) : Frame → Prop
  | .creating _ _ | .failed _ | .hosting => True
  | .converting buffer _ => ∃ abuf, buffers[buffer]? = some abuf ∧ abuf.live = true
  | .resizing buffer => ∃ abuf, buffers[buffer]? = some abuf ∧ abuf.live = true
  | .transferring buffer (.reallocating _ _) =>
    ∃ abuf, buffers[buffer]? = some abuf ∧ abuf.live = true ∧ abuf.freeFunc = .jsArrayBufferFree
  | .transferring buffer (.moving _ _ data freeFunc hostSlot) =>
    ∃ abuf, buffers[buffer]? = some abuf ∧ abuf.live = true ∧
      freeFunc = abuf.freeFunc ∧ hostSlot = abuf.hostSlot ∧
      (freeFunc = .jsArrayBufferFree → ∀ pin, data ≠ .host pin) ∧
      (freeFunc = .qjsBunArrayBufferFree → abuf.detached = false → data = abuf.data)
  | .transferring buffer (.copying _ _ _) =>
    ∃ abuf, buffers[buffer]? = some abuf ∧ abuf.live = true ∧ abuf.freeFunc = .qjsBunArrayBufferFree
  | .transferring buffer (.emptying _) => ∃ abuf, buffers[buffer]? = some abuf ∧ abuf.live = true

theorem Frame.Sound.alive {buffers : List ArrayBuffer} {frame : Frame} (sound : frame.Sound buffers)
    {buffer : Nat} (uses : frame.uses buffer) :
    ∃ abuf, buffers[buffer]? = some abuf ∧ abuf.live = true := by
  cases frame with
  | creating | failed | hosting => cases uses
  | converting | resizing => exact uses ▸ sound
  | transferring used plan =>
    obtain rfl : used = buffer := uses
    cases plan with
    | emptying => exact sound
    | copying | reallocating | moving =>
      obtain ⟨abuf, found, live, -⟩ := sound
      exact ⟨abuf, found, live⟩

-- A frame of the slot table that is not about a buffer.
def OfFunctions (slots : Slots) (frame : SlotFrame) : Prop :=
  ∀ claim ∈ frame.claim, kindOf slots claim.allocation = some .function

/-- How the frames stand for those of the slot table. -/
inductive Paired (slots : Slots) : List Frame → List SlotFrame → Prop where
  | nil : Paired slots [] []
  | creating {id pin byteLength : Nat} {frames : List Frame} {others : List SlotFrame} :
      Paired slots frames others →
      Paired slots (.creating pin byteLength :: frames) (.creating id pin :: others)
  | failed {id pin : Nat} {frames : List Frame} {others : List SlotFrame} :
      Paired slots frames others → Paired slots (.failed pin :: frames) (.throwing id pin :: others)
  | hosting {frame : SlotFrame} {frames : List Frame} {others : List SlotFrame} :
      OfFunctions slots frame → Paired slots frames others →
      Paired slots (.hosting :: frames) (frame :: others)
  | operation {frame : Frame} {buffer : Nat} {frames : List Frame} {others : List SlotFrame} :
      frame.uses buffer → Paired slots frames others → Paired slots (frame :: frames) others

theorem Paired.mono {slots slots' : Slots} {frames : List Frame} {others : List SlotFrame}
    (paired : Paired slots frames others)
    (functions : ∀ pin, kindOf slots pin = some .function → kindOf slots' pin = some .function) :
    Paired slots' frames others := by
  induction paired with
  | nil => exact .nil
  | creating _ ih => exact .creating ih
  | failed _ ih => exact .failed ih
  | hosting hosted _ ih =>
    apply Paired.hosting _ ih
    intro claim claims
    exact functions _ (hosted claim claims)
  | operation uses _ ih => exact .operation uses ih

theorem Paired.pop {slots : Slots} {frame : Frame} {rest : List Frame} {others : List SlotFrame}
    (paired : Paired slots (frame :: rest) others) {buffer : Nat} (uses : frame.uses buffer) :
    Paired slots rest others := by
  cases paired with
  | operation _ below => exact below
  | _ => cases uses

theorem Paired.pop_creating {slots : Slots} {pin byteLength : Nat} {rest : List Frame}
    {others : List SlotFrame} (paired : Paired slots (.creating pin byteLength :: rest) others) :
    ∃ id below, others = .creating id pin :: below ∧ Paired slots rest below := by
  cases paired with
  | creating below => exact ⟨_, _, rfl, below⟩
  | operation uses _ => cases uses

theorem Paired.pop_failed {slots : Slots} {pin : Nat} {rest : List Frame} {others : List SlotFrame}
    (paired : Paired slots (.failed pin :: rest) others) :
    ∃ id below, others = .throwing id pin :: below ∧ Paired slots rest below := by
  cases paired with
  | failed below => exact ⟨_, _, rfl, below⟩
  | operation uses _ => cases uses

theorem Paired.pop_hosting {slots : Slots} {rest : List Frame} {others : List SlotFrame}
    (paired : Paired slots (.hosting :: rest) others) :
    ∃ frame below, others = frame :: below ∧ OfFunctions slots frame ∧ Paired slots rest below := by
  cases paired with
  | hosting hosted below => exact ⟨_, _, rfl, hosted, below⟩
  | operation uses _ => cases uses

/-- The part of the invariant that does not speak of the end. -/
structure Buffers.Sane (s : Buffers) : Prop where
  slots : s.slots.Valid
  paired : Paired s.slots s.frames s.slots.frames
  buffers : ∀ abuf ∈ s.buffers, abuf.Sound s.slots
  frames : ∀ frame ∈ s.frames, frame.Sound s.buffers
  accounts : ∀ pin, s.tokens pin = if kindOf s.slots pin = some .bytes then 1 else 0
  /-- Every request has found the entry it was for. -/
  effective : ∀ pin a, s.slots.allocations[pin]? = some a → a.kind = .bytes →
    a.releases = s.released pin
  intact : s.crashed = false

structure Buffers.Valid (s : Buffers) : Prop extends s.Sane where
  finished : s.slots.disposed = true → s.frames = [] ∧ ∀ pin, s.pointing pin = 0

structure Buffers.Active (s : Buffers) : Prop extends s.Sane where
  undisposed : s.slots.disposed = false

theorem Buffers.Active.valid {s : Buffers} (active : s.Active) : s.Valid where
  toSane := active.toSane
  finished disposed := by simp [active.undisposed] at disposed

/-- What may happen to a buffer while a frame relies on it. -/
structure ArrayBuffer.Succeeds (old new : ArrayBuffer) : Prop where
  freeFunc : new.freeFunc = old.freeFunc
  hostSlot : new.hostSlot = old.hostSlot
  attached : new.freeFunc = .qjsBunArrayBufferFree → new.detached = false →
    old.detached = false ∧ new.data = old.data

theorem ArrayBuffer.Succeeds.refl (abuf : ArrayBuffer) : abuf.Succeeds abuf :=
  ⟨rfl, rfl, fun _ attached => ⟨attached, rfl⟩⟩

theorem ArrayBuffer.Succeeds.neutered (abuf : ArrayBuffer) : abuf.Succeeds abuf.neutered :=
  ⟨rfl, rfl, fun _ attached => by simp [ArrayBuffer.neutered] at attached⟩

-- A frame survives a change that keeps its buffer.
theorem Frame.Sound.carry {buffers buffers' : List ArrayBuffer} {frame : Frame}
    (sound : frame.Sound buffers)
    (kept : ∀ buffer abuf, frame.uses buffer → buffers[buffer]? = some abuf → abuf.live = true →
      ∃ abuf', buffers'[buffer]? = some abuf' ∧ abuf'.live = true ∧ abuf.Succeeds abuf') :
    frame.Sound buffers' := by
  cases frame with
  | creating | failed | hosting => trivial
  | converting buffer toFixedLength =>
    obtain ⟨abuf, found, live⟩ := sound
    obtain ⟨abuf', found', live', -⟩ := kept buffer abuf rfl found live
    exact ⟨abuf', found', live'⟩
  | resizing buffer =>
    obtain ⟨abuf, found, live⟩ := sound
    obtain ⟨abuf', found', live', -⟩ := kept buffer abuf rfl found live
    exact ⟨abuf', found', live'⟩
  | transferring buffer plan =>
    cases plan with
    | moving newLen maxLen data freeFunc hostSlot =>
      obtain ⟨abuf, found, live, sameFunc, sameSlot, engine, host⟩ := sound
      obtain ⟨abuf', found', live', succeeds⟩ := kept buffer abuf rfl found live
      refine ⟨abuf', found', live', sameFunc.trans succeeds.freeFunc.symm,
        sameSlot.trans succeeds.hostSlot.symm, engine, fun bridge attached => ?_⟩
      have before :=
        succeeds.attached ((succeeds.freeFunc.trans sameFunc.symm).trans bridge) attached
      exact (host bridge before.1).trans before.2.symm
    | reallocating | copying =>
      obtain ⟨abuf, found, live, func⟩ := sound
      obtain ⟨abuf', found', live', succeeds⟩ := kept buffer abuf rfl found live
      exact ⟨abuf', found', live', succeeds.freeFunc.trans func⟩
    | emptying =>
      obtain ⟨abuf, found, live⟩ := sound
      obtain ⟨abuf', found', live', -⟩ := kept buffer abuf rfl found live
      exact ⟨abuf', found', live'⟩

theorem sound_add {buffers : List ArrayBuffer} {frame : Frame} (sound : frame.Sound buffers)
    (abuf : ArrayBuffer) : frame.Sound (buffers ++ [abuf]) := by
  apply sound.carry
  intro buffer old _ at_ live
  have still : (buffers ++ [abuf])[buffer]? = some old :=
    (List.getElem?_append_left (List.getElem?_eq_some_iff.mp at_).1).trans at_
  exact ⟨old, still, live, .refl _⟩

theorem sound_set {buffers : List ArrayBuffer} {frame : Frame} (sound : frame.Sound buffers)
    {buffer : Nat} {old new : ArrayBuffer} (found : buffers[buffer]? = some old)
    (succeeds : old.Succeeds new) (kept : new.live = true ∨ ¬ frame.uses buffer) :
    frame.Sound (buffers.set buffer new) := by
  apply sound.carry
  intro used abuf uses at_ alive
  by_cases same : buffer = used
  · subst same
    obtain rfl : old = abuf := Option.some.inj (found.symm.trans at_)
    have inside := (List.getElem?_eq_some_iff.mp at_).1
    rcases kept with live | unused
    · exact ⟨new, List.getElem?_set_self inside, live, succeeds⟩
    · exact absurd uses unused
  · exact ⟨abuf, (List.getElem?_set_ne same).trans at_, alive, .refl _⟩

/-! ### Steps that leave the slot table alone -/

namespace Buffers.Active
variable {s : Buffers} (active : s.Active)
include active

theorem push {frame : Frame} (sound : frame.Sound s.buffers) {buffer : Nat}
    (uses : frame.uses buffer) : (s.push frame).Active where
  slots := active.slots
  paired := .operation uses active.paired
  buffers := active.buffers
  frames other member := by
    rcases List.mem_cons.mp member with rfl | earlier
    · exact sound
    · exact active.frames other earlier
  accounts pin := by
    have free : frame.holds pin = 0 := by cases frame <;> first | rfl | cases uses
    rw [tokens_push, free]
    exact active.accounts pin
  effective := active.effective
  intact := active.intact
  undisposed := active.undisposed

theorem pop {frame : Frame} {rest : List Frame} (top : s.frames = frame :: rest) {buffer : Nat}
    (uses : frame.uses buffer) : ({ s with frames := rest } : Buffers).Active where
  slots := active.slots
  paired := (top ▸ active.paired).pop uses
  buffers := active.buffers
  frames other member := active.frames other (top ▸ List.mem_cons_of_mem _ member)
  accounts pin := by
    have popped := tokens_frames s pin top
    have free : frame.holds pin = 0 := by cases frame <;> first | rfl | cases uses
    rw [free] at popped
    exact popped.trans (active.accounts pin)
  effective := active.effective
  intact := active.intact
  undisposed := active.undisposed

theorem addBlock {abuf : ArrayBuffer} (engine : abuf.freeFunc = .jsArrayBufferFree)
    (elsewhere : ∀ pin, abuf.data ≠ .host pin) : (s.add abuf).Active where
  slots := active.slots
  paired := active.paired
  buffers other member := by
    rcases List.mem_append.mp member with earlier | same
    · exact active.buffers other earlier
    · obtain rfl := List.mem_singleton.mp same
      exact ⟨fun bridge => by simp [engine] at bridge, fun _ => elsewhere⟩
  frames frame member := sound_add (active.frames frame member) abuf
  accounts pin := by
    have free : abuf.holds pin = 0 := by simp [ArrayBuffer.holds, elsewhere pin]
    rw [tokens_add, free]
    exact active.accounts pin
  effective := active.effective
  intact := active.intact
  undisposed := active.undisposed

-- A buffer is changed that holds no pin before and after.
theorem put {buffer : Nat} {old new : ArrayBuffer} (found : s.buffers[buffer]? = some old)
    (succeeds : old.Succeeds new) (sound : new.Sound s.slots)
    (kept : new.live = true ∨ ∀ frame ∈ s.frames, ¬ frame.uses buffer)
    (before : ∀ pin, old.holds pin = 0) (after : ∀ pin, new.holds pin = 0) :
    (s.put buffer new).Active where
  slots := active.slots
  paired := active.paired
  buffers other member := by
    rcases List.mem_or_eq_of_mem_set member with earlier | rfl
    · exact active.buffers other earlier
    · exact sound
  frames frame member :=
    sound_set (active.frames frame member) found succeeds (kept.imp_right (· frame member))
  accounts pin := by
    have traded := tokens_put s pin found new
    rw [before, after] at traded
    exact traded.trans (active.accounts pin)
  effective := active.effective
  intact := active.intact
  undisposed := active.undisposed

end Buffers.Active

/-! ### Giving up host memory -/

@[simp] theorem kindOf_release (slots : Slots) (id pin : Nat) :
    kindOf (slots.release id) pin = kindOf slots pin := by
  unfold Slots.release
  split
  · rfl
  · next allocation _ =>
      cases found : slots.allocations[pin]? with
      | none => simp [kindOf, List.getElem?_modify, found]
      | some a =>
        simp only [kindOf, List.getElem?_modify, found]
        by_cases same : allocation = pin <;> simp [same]

@[simp] theorem kindOf_finalize (slots : Slots) (hostSlot : Nat) (carrier : Carrier) (pin : Nat) :
    kindOf (slots.finalize hostSlot carrier) pin = kindOf slots pin :=
  kindOf_release (slots.put hostSlot { carrier with status := .gone }) carrier.id pin

@[simp] theorem release_carriers (slots : Slots) (id : Nat) :
    (slots.release id).carriers = slots.carriers := by
  unfold Slots.release
  split <;> rfl

@[simp] theorem release_frames (slots : Slots) (id : Nat) :
    (slots.release id).frames = slots.frames := by
  unfold Slots.release
  split <;> rfl

@[simp] theorem release_disposed (slots : Slots) (id : Nat) :
    (slots.release id).disposed = slots.disposed := by
  unfold Slots.release
  split <;> rfl

@[simp] theorem freeData_buffers (s : Buffers) (freeFunc : FreeFunc) (hostSlot : Option Nat)
    (data : Backing) : (s.freeData freeFunc hostSlot data).buffers = s.buffers := by
  unfold Buffers.freeData Buffers.release
  split <;> first | rfl | (split <;> rfl)

@[simp] theorem freeData_frames (s : Buffers) (freeFunc : FreeFunc) (hostSlot : Option Nat)
    (data : Backing) : (s.freeData freeFunc hostSlot data).frames = s.frames := by
  unfold Buffers.freeData Buffers.release
  split <;> first | rfl | (split <;> rfl)

-- A buffer survives a change of the slot table that keeps its slot.
theorem ArrayBuffer.Sound.carry {slots slots' : Slots} {abuf : ArrayBuffer}
    (sound : abuf.Sound slots)
    (kinds : ∀ pin, kindOf slots pin = some .bytes → kindOf slots' pin = some .bytes)
    (kept : ∀ hostSlot carrier, slots.carriers[hostSlot]? = some carrier →
      kindOf slots carrier.allocation = some .bytes →
      ∃ carrier', slots'.carriers[hostSlot]? = some carrier' ∧
      carrier'.allocation = carrier.allocation ∧
      (carrier.status = .live → abuf.freeFunc = .qjsBunArrayBufferFree →
        abuf.hostSlot = some hostSlot → abuf.live = true → abuf.data = .host carrier.allocation →
        carrier'.status = .live)) :
    abuf.Sound slots' where
  host bridge := by
    obtain ⟨hostSlot, carrier, at_, bytes, named, unshared, data, live⟩ := sound.host bridge
    obtain ⟨carrier', at_', same, status⟩ := kept hostSlot carrier at_ bytes
    refine ⟨hostSlot, carrier', at_', same ▸ kinds _ bytes, named, unshared, same ▸ data, ?_⟩
    intro alive attached
    rw [attached] at data
    exact status (live alive attached) bridge named alive data
  engine := sound.engine

/-- A buffer that lets go of its memory: it is detached, or its finalizer has run. -/
inductive ArrayBuffer.Ends (abuf : ArrayBuffer) : ArrayBuffer → Prop where
  | neutered : abuf.Ends abuf.neutered
  | finalized : abuf.Ends { abuf with live := false }

namespace ArrayBuffer.Ends
variable {abuf new : ArrayBuffer} (ends : abuf.Ends new)
include ends

theorem succeeds : abuf.Succeeds new := by
  cases ends with
  | neutered => exact .neutered abuf
  | finalized => exact ⟨rfl, rfl, fun _ attached => ⟨attached, rfl⟩⟩

theorem holds (pin : Nat) : new.holds pin = 0 := by
  cases ends with
  | neutered => simp [ArrayBuffer.holds, ArrayBuffer.neutered]
  | finalized => simp [ArrayBuffer.holds]

theorem sound {slots : Slots} (sound : abuf.Sound slots) : new.Sound slots := by
  constructor
  · intro bridge
    obtain ⟨hostSlot, carrier, at_, bytes, named, unshared, data, -⟩ :=
      sound.host (ends.succeeds.freeFunc ▸ bridge)
    cases ends with
    | neutered => exact ⟨hostSlot, carrier, at_, bytes, named, unshared, rfl, nofun⟩
    | finalized => exact ⟨hostSlot, carrier, at_, bytes, named, unshared, data, nofun⟩
  · intro engine pin
    cases ends with
    | neutered => exact nofun
    | finalized => exact sound.engine engine pin

end ArrayBuffer.Ends

section Buffer
variable {s : Buffers} (active : s.Active) {buffer : Nat} {abuf : ArrayBuffer}
  (found : s.buffers[buffer]? = some abuf) (live : abuf.live = true)
include active found live

-- The memory of a buffer is in its hands alone, and its release has not been asked for.
theorem alone {pin : Nat} (data : abuf.data = .host pin) : s.released pin = 0 ∧
    ∀ (i : Nat) (other : ArrayBuffer), s.buffers[i]? = some other → other.live = true →
    other.data = .host pin →
      i = buffer := by
  have account := active.accounts pin
  have held : abuf.holds pin = 1 := by simp [ArrayBuffer.holds, live, data]
  have counted : abuf.holds pin ≤ s.pointing pin := le_tally (List.mem_of_getElem? found)
  have bound : s.tokens pin ≤ 1 := by rw [account]; split <;> omega
  simp only [Buffers.tokens] at bound
  refine ⟨by omega, ?_⟩
  intro i other at_ alive same
  by_contra distinct
  have both := add_le_tally (f := ArrayBuffer.holds pin) distinct at_ found
  have held' : other.holds pin = 1 := by simp [ArrayBuffer.holds, alive, same]
  simp only [Buffers.pointing] at bound
  omega

-- The free callback is called for memory that a buffer points at, and the buffer lets go of it.
theorem Buffers.Active.free_host {new : ArrayBuffer} (ends : abuf.Ends new)
    (kept : new.live = true ∨ ∀ frame ∈ s.frames, ¬ frame.uses buffer) {hostSlot : Nat}
    {carrier : Carrier} (at_ : s.slots.carriers[hostSlot]? = some carrier)
    (status : carrier.status = .live) (data : abuf.data = .host carrier.allocation) :
    ((s.release hostSlot).put buffer new).Active := by
  obtain ⟨unreleased, only⟩ := alone active found live data
  have entry := (active.slots.entry_of_live (List.mem_of_getElem? at_) status).2
  have finalized : (s.slots.finalize hostSlot carrier).Valid :=
    active.slots.finalize active.undisposed at_ (by simp [status])
  have allocations : (s.slots.finalize hostSlot carrier).allocations =
      s.slots.allocations.modify carrier.allocation fun a =>
        { a with releases := a.releases + 1 } := by
    simp [Slots.finalize, Slots.put, Slots.release, entry]
  have released : s.release hostSlot = { s with
      slots := s.slots.finalize hostSlot carrier, releases :=
        carrier.allocation :: s.releases } := by
    simp [Buffers.release, at_]
  -- another buffer with this slot does not point at the memory any more
  have sound (other : ArrayBuffer) (before : other.Sound s.slots)
      (idle : other.live = true → other.data ≠ .host carrier.allocation) :
      other.Sound (s.slots.finalize hostSlot carrier) := by
    apply before.carry
    · intro pin bytes
      rwa [kindOf_finalize]
    · intro slot holder here _
      by_cases same : hostSlot = slot
      · subst same
        obtain rfl : carrier = holder := Option.some.inj (at_.symm.trans here)
        have inside := (List.getElem?_eq_some_iff.mp at_).1
        refine ⟨{ carrier with status := .gone }, ?_, rfl, ?_⟩
        · simp [Slots.finalize, Slots.put, List.getElem?_set_self inside]
        · intro _ _ _ alive points
          exact absurd points (idle alive)
      · refine ⟨holder, ?_, rfl, fun still _ _ _ _ => still⟩
        simpa [Slots.finalize, Slots.put, List.getElem?_set_ne same] using here
  rw [released]
  constructor
  · constructor
    · exact finalized
    · have paired : Paired (s.slots.finalize hostSlot carrier) s.frames s.slots.frames :=
        active.paired.mono fun pin function => (kindOf_finalize ..).trans function
      simpa [Buffers.put, Slots.finalize, Slots.put] using paired
    · intro other member
      obtain ⟨i, here⟩ := List.getElem?_of_mem member
      by_cases same : buffer = i
      · subst same
        obtain rfl : new = other := by
          simpa [Buffers.put,
            List.getElem?_set_self (List.getElem?_eq_some_iff.mp found).1] using here
        apply sound new (ends.sound (active.buffers abuf (List.mem_of_getElem? found)))
        intro alive points
        have := ends.holds carrier.allocation
        simp [ArrayBuffer.holds, alive, points] at this
      · have earlier : s.buffers[i]? = some other := by
          simpa [Buffers.put, List.getElem?_set_ne same] using here
        apply sound other (active.buffers other (List.mem_of_getElem? earlier))
        intro alive points
        exact same (only i other earlier alive points).symm
    · intro frame member
      exact sound_set (active.frames frame member) found ends.succeeds
        (kept.imp_right (· frame member))
    · intro pin
      have traded := Buffers.tokens_put s pin found new
      have account := active.accounts pin
      have held : abuf.holds pin = if carrier.allocation = pin then 1 else 0 := by
        simp [ArrayBuffer.holds, live, data]
      have more : (carrier.allocation :: s.releases).count pin =
          s.released pin + if carrier.allocation = pin then 1 else 0 := by
        simp [List.count_cons, Buffers.released]
      rw [ends.holds, held] at traded
      simp only [Buffers.tokens, Buffers.released, Buffers.pointing, Buffers.pending, Buffers.put,
        kindOf_finalize] at more traded account ⊢
      omega
    · intro pin a found' bytes
      change (s.slots.finalize hostSlot carrier).allocations[pin]? = some a at found'
      simp only [allocations, List.getElem?_modify, Option.map_eq_map,
        Option.map_eq_some_iff] at found'
      obtain ⟨before, known, rfl⟩ := found'
      change _ = (carrier.allocation :: s.releases).count pin
      have effective := active.effective pin before known (by split at bytes <;> exact bytes)
      by_cases same : carrier.allocation = pin
      · simp [same, effective, Buffers.released]
      · simp [same, effective, Buffers.released]
    · exact active.intact
  · simpa [Buffers.put, Slots.finalize, Slots.put] using active.undisposed

-- The NULL test of the free callback: a buffer that has been detached asks for nothing.
theorem Buffers.Active.free {new : ArrayBuffer} (ends : abuf.Ends new)
    (kept : new.live = true ∨ ∀ frame ∈ s.frames, ¬ frame.uses buffer) :
    ((s.freeData abuf.freeFunc abuf.hostSlot abuf.data).put buffer new).Active := by
  have sound := active.buffers abuf (List.mem_of_getElem? found)
  have unmoved (elsewhere : ∀ pin, abuf.data ≠ .host pin) : (s.put buffer new).Active :=
    active.put found ends.succeeds (ends.sound sound) kept
      (fun pin => by simp [ArrayBuffer.holds, elsewhere pin]) ends.holds
  cases func : abuf.freeFunc with
  | jsArrayBufferFree => exact unmoved (sound.engine func)
  | qjsBunArrayBufferFree =>
    obtain ⟨hostSlot, carrier, at_, -, named, -, data, status⟩ := sound.host func
    cases detached : abuf.detached with
    | true =>
      rw [if_pos detached] at data
      rw [data]
      exact unmoved (by simp [data])
    | false =>
      rw [detached] at data
      rw [data, named]
      exact active.free_host found live ends kept at_ (status live detached) data

theorem Buffers.Active.neuter :
    ((s.freeData abuf.freeFunc abuf.hostSlot abuf.data).put buffer abuf.neutered).Active :=
  active.free found live .neutered (.inl live)

theorem Buffers.Active.detach : (jsDetachArrayBuffer s buffer abuf).Active := by
  unfold jsDetachArrayBuffer
  split
  · exact active
  · exact active.neuter found live

theorem Buffers.Active.finalize (unused : ∀ frame ∈ s.frames, ¬ frame.uses buffer) :
    (jsArrayBufferFinalizer s buffer abuf).Active :=
  active.free found live .finalized (.inr unused)

omit live in
-- A change of a buffer over engine memory that leaves it over engine memory.
theorem Buffers.Active.block {new : ArrayBuffer} (engine : abuf.freeFunc = .jsArrayBufferFree)
    (same : new.freeFunc = .jsArrayBufferFree) (sameSlot : new.hostSlot = abuf.hostSlot)
    (alive : new.live = true) (elsewhere : ∀ pin, new.data ≠ .host pin) :
    (s.put buffer new).Active := by
  have before := (active.buffers abuf (List.mem_of_getElem? found)).engine engine
  have bridge : new.freeFunc ≠ .qjsBunArrayBufferFree := by simp [same]
  apply active.put found ⟨same.trans engine.symm, sameSlot, fun h => absurd h bridge⟩
  · exact ⟨fun h => absurd h bridge, fun _ => elsewhere⟩
  · exact .inl alive
  · intro pin
    simp [ArrayBuffer.holds, before pin]
  · intro pin
    simp [ArrayBuffer.holds, elsewhere pin]

theorem Buffers.Active.resize (len : Nat) (grown : Bool) :
    (jsArrayBufferResize s buffer abuf len grown).Active := by
  unfold jsArrayBufferResize
  split
  · exact active
  split
  · exact active
  by_cases engine : abuf.freeFunc = .jsArrayBufferFree
  · have before := (active.buffers abuf (List.mem_of_getElem? found)).engine engine
    simp only [engine, ne_eq, not_true_eq_false, if_false]
    split
    · exact active
    split
    · split
      · exact active
      · exact active.block found engine rfl rfl live before
    · split
      · exact active
      · exact active.block found engine rfl rfl live (by simp)
  · simp only [ne_eq, engine, not_false_eq_true, if_true]
    exact active

end Buffer

/-! ### Transfers -/

theorem jsArrayBufferConstructor3_spec {len : Nat} {maxLen : Option Nat} {shared : Bool}
    {buf : Backing} {freeFunc : FreeFunc} {hostSlot : Option Nat} {allocFlag allocated : Bool}
    {abuf : ArrayBuffer}
    (made : jsArrayBufferConstructor3 len maxLen shared buf freeFunc hostSlot allocFlag
      allocated = some abuf) :
    abuf = ⟨if allocFlag then .block else buf, len, maxLen, false, shared, freeFunc,
      hostSlot, true⟩ ∧ allocated = true := by
  unfold jsArrayBufferConstructor3 at made
  iterate 3
    split at made
    · cases made
  split at made
  · cases made
  · next there => exact ⟨(Option.some.inj made).symm, by simpa using there⟩

theorem jsArrayBufferConstructor2_spec {len : Nat} {maxLen : Option Nat} {shared allocated : Bool}
    {abuf : ArrayBuffer}
    (made : jsArrayBufferConstructor2 len maxLen shared allocated = some abuf) :
    abuf.freeFunc = .jsArrayBufferFree ∧ (∀ pin, abuf.data ≠ .host pin) ∧ allocated = true := by
  obtain ⟨rfl, there⟩ := jsArrayBufferConstructor3_spec made
  exact ⟨rfl, by simp, there⟩

theorem Buffers.Active.construct {s : Buffers} (active : s.Active) (byteLength : Nat)
    (maxByteLength : Option Nat) (shared allocated : Bool) :
    (s.construct byteLength maxByteLength shared allocated).Active := by
  unfold Buffers.construct
  split
  · exact active
  · next abuf made =>
      obtain ⟨engine, elsewhere, -⟩ := jsArrayBufferConstructor2_spec made
      exact active.addBlock engine elsewhere

section Transfer
variable {s : Buffers} (active : s.Active) {buffer : Nat} {abuf : ArrayBuffer}
  (found : s.buffers[buffer]? = some abuf) (live : abuf.live = true)
include active found live

theorem Buffers.Active.transfer (toFixedLength : Bool) (newLen : Nat) :
    (jsArrayBufferTransfer s buffer abuf toFixedLength newLen).Active := by
  have waits {plan : Plan} (sound : (Frame.transferring buffer plan).Sound s.buffers) :
      (s.push (.transferring buffer plan)).Active := active.push sound rfl
  unfold jsArrayBufferTransfer
  split
  · exact active
  split
  · exact active
  split
  · exact waits ⟨abuf, found, live⟩
  split
  · split
    · exact active
    split
    · next foreign =>
        apply waits
        refine ⟨abuf, found, live, ?_⟩
        cases func : abuf.freeFunc with
        | jsArrayBufferFree => exact absurd func foreign
        | qjsBunArrayBufferFree => rfl
    · next engine => exact waits ⟨abuf, found, live, not_not.mp engine⟩
  · have engine := (active.buffers abuf (List.mem_of_getElem? found)).engine
    exact waits ⟨abuf, found, live, rfl, rfl, engine, fun _ _ => rfl⟩

-- Handing the memory of an attached buffer to a new one and neutering the old one.
theorem Buffers.Active.move {res : ArrayBuffer} {newLen : Nat} {maxLen : Option Nat}
    (bridge : abuf.freeFunc = .qjsBunArrayBufferFree) (attached : abuf.detached = false)
    (fields : res = ⟨abuf.data, newLen, maxLen, false, false, abuf.freeFunc, abuf.hostSlot, true⟩) :
    ((s.add res).put buffer abuf.neutered).Active := by
  have sound := active.buffers abuf (List.mem_of_getElem? found)
  have resSound : res.Sound s.slots := by
    obtain ⟨hostSlot, carrier, at_, bytes, named, -, data, status⟩ := sound.host bridge
    rw [attached] at data
    subst fields
    exact ⟨fun _ =>
      ⟨hostSlot, carrier, at_, bytes, named, rfl, data, fun _ _ => status live attached⟩,
      fun engine => by simp [bridge] at engine⟩
  have still : (s.add res).buffers[buffer]? = some abuf :=
    (List.getElem?_append_left (List.getElem?_eq_some_iff.mp found).1).trans found
  constructor
  · constructor
    · exact active.slots
    · exact active.paired
    · intro other member
      rcases List.mem_or_eq_of_mem_set member with earlier | rfl
      · rcases List.mem_append.mp earlier with old | same
        · exact active.buffers other old
        · exact List.mem_singleton.mp same ▸ resSound
      · exact ArrayBuffer.Ends.neutered.sound sound
    · intro frame member
      have added := sound_add (active.frames frame member) res
      exact sound_set added still (.neutered abuf) (.inl live)
    · intro pin
      have traded := (s.add res).tokens_put pin still abuf.neutered
      have handed : res.holds pin = abuf.holds pin := by simp [fields, ArrayBuffer.holds, live]
      have gone : abuf.neutered.holds pin = 0 := ArrayBuffer.Ends.neutered.holds pin
      rw [Buffers.tokens_add, gone] at traded
      have account := active.accounts pin
      change _ = if kindOf s.slots pin = some .bytes then 1 else 0
      omega
    · exact active.effective
    · exact active.intact
  · exact active.undisposed

-- The end of a transfer. What it copies or moves is still there only if the buffer is still
-- attached.
theorem Buffers.Active.transferEnd {plan : Plan}
    (sound : (Frame.transferring buffer plan).Sound s.buffers) (made grown : Bool)
    (attached : made = true →
      (∀ oldLen newLen maxLen, plan = .copying oldLen newLen maxLen → abuf.detached = false) ∧
      ∀ newLen maxLen data hostSlot,
      plan = .moving newLen maxLen data .qjsBunArrayBufferFree hostSlot → abuf.detached = false) :
    (jsArrayBufferTransferEnd s buffer abuf plan made grown).Active := by
  have added {res : ArrayBuffer} (engine : res.freeFunc = .jsArrayBufferFree)
      (elsewhere : ∀ pin, res.data ≠ .host pin) : (s.add res).Active ∧
      (s.add res).buffers[buffer]? = some abuf :=
    ⟨active.addBlock engine elsewhere,
      (List.getElem?_append_left (List.getElem?_eq_some_iff.mp found).1).trans found⟩
  cases plan with
  | emptying maxLen =>
    simp only [jsArrayBufferTransferEnd]
    split
    · exact active
    · next res ok =>
        obtain ⟨engine, elsewhere, -⟩ := jsArrayBufferConstructor2_spec ok
        obtain ⟨grew, still⟩ := added engine elsewhere
        exact grew.detach still live
  | copying oldLen newLen maxLen =>
    simp only [jsArrayBufferTransferEnd]
    split
    · exact active
    · next res ok =>
        obtain ⟨engine, elsewhere, there⟩ := jsArrayBufferConstructor2_spec ok
        obtain ⟨grew, still⟩ := added engine elsewhere
        have here := (attached there).1 _ _ _ rfl
        have points : abuf.data ≠ .null := by
          obtain ⟨other, at_, -, bridge⟩ := sound
          obtain rfl := Option.some.inj (found.symm.trans at_)
          obtain ⟨_, _, -, -, -, -, data, -⟩ :=
            (active.buffers abuf (List.mem_of_getElem? found)).host bridge
          rw [data, here]
          simp
        rw [if_neg fun null => points null.1]
        exact grew.neuter still live
  | reallocating newLen maxLen =>
    have ours : abuf.freeFunc = .jsArrayBufferFree := by
      obtain ⟨other, at_, -, engine⟩ := sound
      exact Option.some.inj (found.symm.trans at_) ▸ engine
    simp only [jsArrayBufferTransferEnd]
    split
    · exact active
    · next res ok =>
        obtain ⟨engine, elsewhere, -⟩ := jsArrayBufferConstructor2_spec ok
        have sized : ({ res with byteLength := newLen } : ArrayBuffer).freeFunc =
            .jsArrayBufferFree := engine
        obtain ⟨grew, still⟩ := added sized elsewhere
        split
        · exact active
        · exact grew.block still ours ours rfl live (by simp [ArrayBuffer.neutered])
  | moving newLen maxLen data freeFunc hostSlot =>
    obtain ⟨other, at_, -, rfl, rfl, engine, host⟩ := sound
    obtain rfl : abuf = other := Option.some.inj (found.symm.trans at_)
    simp only [jsArrayBufferTransferEnd]
    split
    · exact active
    · next res ok =>
        obtain ⟨fields, there⟩ := jsArrayBufferConstructor3_spec ok
        cases func : abuf.freeFunc with
        | jsArrayBufferFree =>
          have handed : res.freeFunc = .jsArrayBufferFree := by simp [fields, func]
          obtain ⟨grew, still⟩ := added handed (by simpa [fields] using engine func)
          exact grew.block still func func rfl live (by simp [ArrayBuffer.neutered])
        | qjsBunArrayBufferFree =>
          have here := (attached there).2 _ _ _ _ (by rw [func])
          exact active.move found live func here (by simpa [host func here] using fields)

end Transfer

end QuickJSBun.Bridge
