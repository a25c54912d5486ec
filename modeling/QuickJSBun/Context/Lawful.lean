import QuickJSBun.Context.Dump

/-! What an engine and a host may do behind a call. The engine counts references and
gives a cell's address away only once it is free; guest code makes, shares and drops
cells in any order, and the host callbacks it reaches make and dispose handles of
their own. Nobody touches a handle that only the library has.
-/

set_option autoImplicit false

namespace QuickJSBun.Context

open Library

variable {σ V : Type}

def Handle.holds (cell : Nat) (handle : Handle) : Nat :=
  if handle.owned && !handle.disposed then handle.value.cells.count cell else 0

def World.held (w : World σ) (cell : Nat) : Nat := tally (Handle.holds cell) w.handles

/-- One thing that happens behind a call, with the cells whose references are on the way into or out
of it. -/
inductive Move : List Nat → World σ → List Nat → World σ → Prop where
  | allocate {flight : List Nat} {w : World σ} (address : Nat) :
      address ≠ 0 → (∀ cell, counter w.references cell ≠ 0 → w.address cell ≠ address) →
      Move flight w flight
        { w with cells := w.cells ++ [address], references := w.references ++ [1], engine := w.engine ++ [1] }
  | take {flight : List Nat} {w : World σ} (cell : Nat) :
      counter w.references cell ≠ 0 →
      Move flight w flight { w with references := raise w.references [cell], engine := raise w.engine [cell] }
  | drop {flight : List Nat} {w : World σ} (cell : Nat) :
      counter w.engine cell ≠ 0 →
      Move flight w flight { w with references := lower w.references [cell], engine := lower w.engine [cell] }
  | give {flight : List Nat} {w : World σ} (cell : Nat) :
      counter w.engine cell ≠ 0 →
      Move flight w (cell :: flight) { w with engine := lower w.engine [cell] }
  | receive {flight : List Nat} {w : World σ} (cell : Nat) :
      Move (cell :: flight) w flight { w with engine := raise w.engine [cell] }
  | expose {flight : List Nat} {w : World σ} (foreign : Bool) (value : Value) :
      (∀ cell ∈ value.cells, counter w.engine cell ≠ 0) →
      Move flight w flight
        { w with
          engine := lower w.engine value.cells
          handles := w.handles ++ [⟨foreign, value, true, true, false⟩] }
  | dispose {flight : List Nat} {w : World σ} (h : JSValue) (handle : Handle) :
      w.handles[h]? = some handle → handle.exposed = true → handle.owned = true →
      handle.disposed = false → Move flight w flight
        { w with
          handles := w.handles.set h { handle with disposed := true }
          references := lower w.references handle.value.cells }
  | other {flight : List Nat} {w : World σ} (atoms : List (Text × Nat)) (pending : Value)
    (scratch : Nat) (guest : σ) :
      Move flight w flight { w with atoms, pending, scratch, guest }

inductive Acts : List Nat → World σ → List Nat → World σ → Prop where
  | nothing {flight : List Nat} {w : World σ} : Acts flight w flight w
  | move {flight flight' flight'' : List Nat} {w w' w'' : World σ} :
      Move flight w flight' w' → Acts flight' w' flight'' w'' → Acts flight w flight'' w''

/-- The references a native takes over from its caller, and those it gives. -/
def Native.consumed : Native → List Nat
  | .freeValue value => value.cells
  | _ => []

def Native.given : (native : Native) → native.Reply → List Nat
  | .newStringLen _, value | .newBigInt64 _, value | .newBigInt128 _ _, value
  | .newBigIntString _, value | .newObject, value | .newArray, value | .newError, value
  | .parseJson _, value | .getProperty _ _, value | .getPropertyUint32 _ _, value
  | .getDataProperty _ _, value | .getException, value | .dupValue _, value
  | .timeoutError, value => Value.cells value
  | _, _ => []

/-- Every reference of a cell is the engine's, a handle's, or on its way. -/
structure Sound (flight : List Nat) (w : World σ) : Prop where
  references_length : w.references.length = w.cells.length
  engine_length : w.engine.length = w.cells.length
  accounts : ∀ cell, counter w.references cell = counter w.engine cell + w.held cell +
    flight.count cell
  distinct : ∀ cell other, counter w.references cell ≠ 0 → counter w.references other ≠ 0 →
    w.address cell = w.address other → cell = other
  nonzero : ∀ cell, counter w.references cell ≠ 0 → w.address cell ≠ 0
  owned : ∀ (h : JSValue) (handle : Handle), w.handles[h]? = some handle → handle.value.cells ≠ [] →
    handle.owned = true
  constants : ∀ (h : JSValue) (handle : Handle), constants[h]? = some handle →
    w.handles[h]? = some handle
  lost : ∀ h ∈ w.undescribed, ∃ value, w.handles[h]? = some ⟨false, value, true, false, false⟩

-- An engine that acts by moves alone.
structure LawfulEngine (σ : Type) extends Engine σ where
  acts : ∀ native flight w, Sound (native.consumed ++ flight) w →
    Acts native.consumed w (native.given (call native w).1) (call native w).2
  /-- `qjs_bun_type` answers 7 and more for objects only. -/
  typed : ∀ value w, (7 : Int) ≤ (call (.type value) w).1 → ∃ cell, value = .heap .object cell

-- The handles that a host value gives to who has it.
def HostValue.handles : HostValue V → List JSValue
  | .handle h => [h]
  | .exception h _ _ => [h]
  | _ => []

/-- Host code outside the library has no other handles than exposed and unowned ones. -/
def Known (w : World σ) (value : HostValue V) : Prop :=
  ∀ h ∈ value.handles, ∃ handle, w.handles[h]? = some handle ∧
    (handle.exposed = true ∨ handle.owned = false)

structure LawfulHost (V σ : Type) extends Host V σ where
  acts : ∀ op flight w, Sound flight w → Acts [] w [] ((ask op).run w).2
  known : ∀ op w e w', (ask op).run w = (.error e, w') → Known w' e

/-- Whether `vm.handles` has the handle. -/
def Handle.listed (handle : Handle) : Bool :=
  handle.owned && !handle.disposed && decide (handle.value.tag < 0)

/-- What became of the handles: `freed` may have been disposed, `left` are new and not yet
disposed. -/
structure Step (w w' : World σ) (freed left : JSValue → Prop) : Prop where
  cells : w.cells <+: w'.cells
  handles : ∀ (h : JSValue) (handle : Handle), w.handles[h]? = some handle →
    w'.handles[h]? = some handle ∨
      (handle.exposed = true ∨ freed h) ∧ w'.handles[h]? = some { handle with disposed := true }
  created : ∀ (h : JSValue) (handle : Handle), w.handles.length ≤ h → w'.handles[h]? = some handle →
    handle.listed = true → handle.exposed = true ∨ left h ∨ h ∈ w'.undescribed
  undescribed : w.undescribed <:+ w'.undescribed
  lost : ∀ h ∈ w'.undescribed, h ∈ w.undescribed ∨ w.handles.length ≤ h
  hostDepth : w'.hostDepth = w.hostDepth
  inOutOfMemory : w'.inOutOfMemory = w.inOutOfMemory

def nobody : JSValue → Prop := fun _ => False

theorem Value.cells_le_one (value : Value) : value.cells = [] ∨ ∃ cell, value.cells = [cell] := by
  cases value <;> simp [Value.cells]

theorem Sound.lt {flight : List Nat} {w : World σ} (sound : Sound flight w) {cell : Nat}
    (counted : counter w.references cell ≠ 0) : cell < w.cells.length :=
  sound.references_length ▸ lt_length_of_counter counted

theorem address_prefix {w w' : World σ} (cells : w.cells <+: w'.cells) {cell : Nat}
    (known : cell < w.cells.length) : w'.address cell = w.address cell := by
  obtain ⟨more, same⟩ := cells
  simp only [World.address, ← same, List.getElem?_append_left known]

theorem Step.refl (w : World σ) : Step w w nobody nobody where
  cells := List.prefix_rfl
  handles _ _ found := .inl found
  created _ _ above found _ := absurd (List.getElem?_eq_some_iff.mp found).1 (Nat.not_lt.mpr above)
  undescribed := List.suffix_rfl
  lost _ member := .inl member
  hostDepth := rfl
  inOutOfMemory := rfl

theorem Step.length_le {w w' : World σ} {freed left : JSValue → Prop}
    (step : Step w w' freed left) : w.handles.length ≤ w'.handles.length := by
  by_contra shorter
  have bound : w'.handles.length < w.handles.length := Nat.lt_of_not_le shorter
  obtain found | ⟨-, found⟩ := step.handles w'.handles.length _ (List.getElem?_eq_getElem bound)
  · exact absurd (List.getElem?_eq_some_iff.mp found).1 (Nat.lt_irrefl _)
  · exact absurd (List.getElem?_eq_some_iff.mp found).1 (Nat.lt_irrefl _)

theorem Step.disposed {w w' : World σ} {freed left : JSValue → Prop} (step : Step w w' freed left)
    {h : JSValue} {handle : Handle} (found : w.handles[h]? = some handle)
    (gone : handle.disposed = true) : w'.handles[h]? = some handle := by
  obtain same | ⟨-, same⟩ := step.handles h handle found
  · exact same
  · rw [same]
    cases handle
    simp_all

theorem Step.trans {w w' w'' : World σ} {freed freed' left left' : JSValue → Prop}
    (first : Step w w' freed left) (second : Step w' w'' freed' left') :
    Step w w'' (fun h => freed h ∨ freed' h) (fun h => left h ∨ left' h) where
  cells := first.cells.trans second.cells
  handles h handle found := by
    obtain same | ⟨may, same⟩ := first.handles h handle found
    · obtain same | ⟨may, same⟩ := second.handles h handle same
      · exact .inl same
      · exact .inr ⟨may.imp id .inr, same⟩
    · exact .inr ⟨may.imp id .inl, second.disposed same rfl⟩
  created h handle above found listed := by
    rcases Nat.lt_or_ge h w'.handles.length with inside | outside
    · obtain same | ⟨-, same⟩ := second.handles h _ (List.getElem?_eq_getElem inside)
      · have same : handle = w'.handles[h] := by
          rw [same] at found
          exact (Option.some.inj found).symm
        rcases first.created h handle above (same ▸ List.getElem?_eq_getElem inside) listed with
          exposed | leftOver | undescribed
        · exact .inl exposed
        · exact .inr (.inl (.inl leftOver))
        · exact .inr (.inr (second.undescribed.subset undescribed))
      · rw [same] at found
        simp [← Option.some.inj found, Handle.listed] at listed
    · exact (second.created h handle outside found listed).imp id (.imp .inr id)
  undescribed := first.undescribed.trans second.undescribed
  lost h member := by
    rcases second.lost h member with earlier | above
    · exact first.lost h earlier
    · exact .inr (Nat.le_trans first.length_le above)
  hostDepth := second.hostDepth.trans first.hostDepth
  inOutOfMemory := second.inOutOfMemory.trans first.inOutOfMemory

-- What was freed matters for handles there were before, what was left for those still listed.
theorem Step.weaken {w w' : World σ} {freed freed' left l : JSValue → Prop}
    (step : Step w w' freed left) (frees : ∀ h, h < w.handles.length → freed h → freed' h)
    (leaves : ∀ (h : JSValue) (handle : Handle), w'.handles[h]? = some handle →
      handle.listed = true → left h → l h) :
    Step w w' freed' l where
  cells := step.cells
  handles h handle found := by
    obtain same | ⟨may, same⟩ := step.handles h handle found
    · exact .inl same
    · exact .inr ⟨may.imp id (frees h (List.getElem?_eq_some_iff.mp found).1), same⟩
  created h handle above found listed :=
    (step.created h handle above found listed).imp id (.imp (leaves h handle found listed) id)
  undescribed := step.undescribed
  lost := step.lost
  hostDepth := step.hostDepth
  inOutOfMemory := step.inOutOfMemory

-- Handles keep their values.
def Valued (w w' : World σ) : Prop :=
  ∀ (h : JSValue) (handle : Handle), w.handles[h]? = some handle →
    ∃ later, w'.handles[h]? = some later ∧ later.value = handle.value

theorem Step.valued {w w' : World σ} {freed left : JSValue → Prop} (step : Step w w' freed left) :
    Valued w w' := by
  intro h handle found
  obtain same | ⟨-, same⟩ := step.handles h handle found
  · exact ⟨_, same, rfl⟩
  · exact ⟨_, same, rfl⟩

theorem Valued.trans {w w' w'' : World σ} (first : Valued w w') (second : Valued w' w'') :
    Valued w w'' := by
  intro h handle found
  obtain ⟨later, at_h, same⟩ := first h handle found
  obtain ⟨last, still, sameLast⟩ := second h later at_h
  exact ⟨last, still, sameLast.trans same⟩

theorem Sound.withGuest {τ : Type} {flight : List Nat} {w : World σ} (sound : Sound flight w)
    (guest : τ) : Sound flight (w.withGuest guest) :=
  ⟨sound.references_length, sound.engine_length, sound.accounts, sound.distinct, sound.nonzero,
    sound.owned, sound.constants, sound.lost⟩

/-! ### What moves keep -/

theorem held_dispose {w : World σ} {h : JSValue} {handle : Handle}
    (found : w.handles[h]? = some handle) (owned : handle.owned = true)
    (alive : handle.disposed = false) (cell : Nat) :
    tally (Handle.holds cell) (w.handles.set h { handle with disposed := true }) +
      handle.value.cells.count cell = w.held cell := by
  have traded := tally_set (f := Handle.holds cell) found { handle with disposed := true }
  have before : handle.holds cell = handle.value.cells.count cell := by
    simp [Handle.holds, owned, alive]
  have after : Handle.holds cell { handle with disposed := true } = 0 := by simp [Handle.holds]
  simp only [World.held]
  omega

theorem constants_unowned {h : JSValue} {handle : Handle}
    (isConstant : constants[h]? = some handle) : handle.owned = false := by
  have member := List.mem_of_getElem? isConstant
  simp only [constants, List.map_cons, List.map_nil, List.mem_cons, List.not_mem_nil,
    or_false] at member
  rcases member with rfl | rfl | rfl | rfl <;> rfl

theorem Sound.counted {flight : List Nat} {w : World σ} (sound : Sound flight w) {cell : Nat}
    (shared : counter w.engine cell ≠ 0 ∨ w.held cell ≠ 0 ∨ flight.count cell ≠ 0) :
    counter w.references cell ≠ 0 := by
  have accounts := sound.accounts cell
  omega

theorem Move.sound {flight flight' : List Nat} {w w' : World σ} (move : Move flight w flight' w')
    (sound : Sound flight w) : Sound flight' w' := by
  cases move with
  | allocate address positive free =>
    have fresh : ∀ cell, counter (w.references ++ [1]) cell ≠ 0 →
        (counter w.references cell ≠ 0 ∧ cell < w.cells.length ∨ cell = w.cells.length) := by
      intro cell counted
      rw [counter_append, sound.references_length] at counted
      split at counted
      · next last => exact .inr last
      · exact .inl ⟨counted, sound.lt counted⟩
    have old : ∀ cell, cell < w.cells.length →
        World.address { w with cells := w.cells ++ [address] } cell = w.address cell := by
      intro cell known
      simp [World.address, List.getElem?_append_left known]
    have last : World.address { w with cells := w.cells ++ [address] }
        w.cells.length = address := by
      simp [World.address]
    refine ⟨by simp [sound.references_length], by simp [sound.engine_length], fun cell =>
      ?_, ?_, ?_, sound.owned, sound.constants, sound.lost⟩
    · have accounts := sound.accounts cell
      simp only [counter_append, sound.references_length, sound.engine_length, World.held] at accounts ⊢
      by_cases isLast : cell = w.cells.length
      · have zero : counter w.references cell = 0 := by
          rw [isLast, ← sound.references_length]
          exact counter_length _
        simp only [if_pos isLast]
        omega
      · simpa only [if_neg isLast] using accounts
    · intro cell other counted otherCounted same
      rcases fresh cell counted with ⟨live, known⟩ | rfl
      · rcases fresh other otherCounted with ⟨otherLive, otherKnown⟩ | rfl
        · exact sound.distinct cell other live otherLive (by rwa [← old cell known, ← old other otherKnown])
        · exact absurd ((old cell known).symm.trans (same.trans last)) (free cell live)
      · rcases fresh other otherCounted with ⟨otherLive, otherKnown⟩ | rfl
        · exact absurd ((old other otherKnown).symm.trans (same.symm.trans last)) (free other otherLive)
        · rfl
    · intro cell counted
      rcases fresh cell counted with ⟨live, known⟩ | rfl
      · exact fun zero => sound.nonzero cell live ((old cell known).symm.trans zero)
      · exact fun zero => positive (last.symm.trans zero)
  | take cell counted =>
    have known := sound.lt counted
    have live : ∀ c, counter (raise w.references [cell]) c ≠ 0 → counter w.references c ≠ 0 := by
      intro c
      rw [counter_raise (by simpa [sound.references_length] using known), List.count_singleton]
      split
      · next same =>
          rw [← beq_iff_eq.mp same]
          exact fun _ => counted
      · exact id
    refine ⟨by simp [sound.references_length], by simp [sound.engine_length], fun c => ?_,
      fun c d first second => sound.distinct c d (live c first) (live d second),
      fun c first => sound.nonzero c (live c first), sound.owned, sound.constants, sound.lost⟩
    have accounts := sound.accounts c
    simp only [World.held] at accounts ⊢
    rw [counter_raise (by simpa [sound.references_length] using known),
      counter_raise (by simpa [sound.engine_length] using known)]
    omega
  | drop cell counted =>
    have live : ∀ c, counter (lower w.references [cell]) c ≠ 0 → counter w.references c ≠ 0 := by
      intro c
      rw [counter_lower]
      omega
    refine ⟨by simp [sound.references_length], by simp [sound.engine_length], fun c => ?_,
      fun c d first second => sound.distinct c d (live c first) (live d second),
      fun c first => sound.nonzero c (live c first), sound.owned, sound.constants, sound.lost⟩
    have accounts := sound.accounts c
    simp only [World.held, counter_lower] at accounts ⊢
    by_cases same : cell = c
    · subst same
      simp only [List.count_singleton_self]
      omega
    · simp only [List.count_singleton, beq_iff_eq, if_neg same]
      omega
  | give cell counted =>
    refine ⟨sound.references_length, by simp [sound.engine_length], fun c => ?_, sound.distinct,
      sound.nonzero, sound.owned, sound.constants, sound.lost⟩
    have accounts := sound.accounts c
    simp only [World.held, counter_lower, List.count_cons, List.count_nil] at accounts ⊢
    by_cases same : cell = c
    · subst same
      simp only [beq_self_eq_true, if_true]
      omega
    · simp only [beq_iff_eq, if_neg same]
      omega
  | receive cell =>
    have known := sound.lt (@Sound.counted _ _ _ sound cell (.inr (.inr (by simp))))
    refine ⟨sound.references_length, by simp [sound.engine_length], fun c => ?_, sound.distinct,
      sound.nonzero, sound.owned, sound.constants, sound.lost⟩
    have accounts := sound.accounts c
    simp only [World.held, List.count_cons] at accounts ⊢
    rw [counter_raise (by simpa [sound.engine_length] using known), List.count_singleton]
    omega
  | expose foreign value counted =>
    refine ⟨sound.references_length, by simp [sound.engine_length], fun c => ?_, sound.distinct,
      sound.nonzero, ?_, fun h handle isConstant => ?_, fun h member => ?_⟩
    · have accounts := sound.accounts c
      simp only [World.held, counter_lower, tally_append, tally_cons, tally_nil,
        Handle.holds] at accounts ⊢
      rcases value.cells_le_one with none | ⟨cell, one⟩
      · simp only [none, List.count_nil]
        simpa using accounts
      · have positive := counted cell (by simp [one])
        simp only [one]
        by_cases same : cell = c
        · subst same
          simp only [List.count_singleton_self, Bool.not_false, Bool.and_self, if_true]
          omega
        · simp only [List.count_singleton, beq_iff_eq, if_neg same]
          simpa using accounts
    · intro h handle found shared
      rcases Nat.lt_or_ge h w.handles.length with inside | outside
      · rw [List.getElem?_append_left inside] at found
        exact sound.owned h handle found shared
      · rw [List.getElem?_append_right outside, List.getElem?_singleton] at found
        split at found
        · exact Option.some.inj found ▸ rfl
        · cases found
    · have found := sound.constants h handle isConstant
      exact (List.getElem?_append_left (List.getElem?_eq_some_iff.mp found).1).trans found
    · obtain ⟨value, found⟩ := sound.lost h member
      exact ⟨value, (List.getElem?_append_left (List.getElem?_eq_some_iff.mp found).1).trans found⟩
  | dispose h handle found exposed owned alive =>
    have live : ∀ c, counter (lower w.references handle.value.cells) c ≠ 0 →
        counter w.references c ≠ 0 := by
      intro c
      rw [counter_lower]
      omega
    refine ⟨by simp [sound.references_length], sound.engine_length, fun c => ?_,
      fun c d first second => sound.distinct c d (live c first) (live d second), fun c first =>
        sound.nonzero c (live c first),
      ?_, fun k other isConstant => ?_, fun k member => ?_⟩
    · have accounts := sound.accounts c
      have traded := held_dispose found owned alive c
      simp only [World.held, counter_lower] at accounts traded ⊢
      omega
    · intro k other same shared
      by_cases isThis : k = h
      · subst isThis
        rw [List.getElem?_set_self (List.getElem?_eq_some_iff.mp found).1] at same
        exact Option.some.inj same ▸ owned
      · rw [List.getElem?_set_ne (Ne.symm isThis)] at same
        exact sound.owned k other same shared
    · have at_k := sound.constants k other isConstant
      rw [List.getElem?_set_ne fun same => ?_]
      · exact at_k
      · subst same
        obtain rfl := Option.some.inj (found.symm.trans at_k)
        rw [constants_unowned isConstant] at owned
        cases owned
    · obtain ⟨value, at_k⟩ := sound.lost k member
      refine ⟨value, (List.getElem?_set_ne fun same => ?_).trans at_k⟩
      subst same
      obtain rfl := Option.some.inj (found.symm.trans at_k)
      cases exposed
  | other atoms pending scratch guest =>
    exact ⟨sound.references_length, sound.engine_length, sound.accounts, sound.distinct,
      sound.nonzero, sound.owned, sound.constants, sound.lost⟩

theorem step_expose (w : World σ) {handle : Handle} (exposed : handle.exposed = true) :
    Step w { w with handles := w.handles ++ [handle] } nobody nobody where
  cells := List.prefix_rfl
  handles h other found :=
    .inl ((List.getElem?_append_left (List.getElem?_eq_some_iff.mp found).1).trans found)
  created h other above found _ := by
    rw [List.getElem?_append_right above, List.getElem?_singleton] at found
    split at found
    · exact .inl (Option.some.inj found ▸ exposed)
    · cases found
  undescribed := List.suffix_rfl
  lost _ member := .inl member
  hostDepth := rfl
  inOutOfMemory := rfl

theorem Move.step {flight flight' : List Nat} {w w' : World σ} (move : Move flight w flight' w') :
    Step w w' nobody nobody := by
  have same : Step w w nobody nobody := Step.refl w
  cases move with
  | allocate address positive free =>
    exact ⟨List.prefix_append _ _, same.handles, same.created, same.undescribed,
      same.lost, rfl, rfl⟩
  | take cell counted =>
    exact ⟨List.prefix_rfl, same.handles, same.created, same.undescribed, same.lost, rfl, rfl⟩
  | drop cell counted =>
    exact ⟨List.prefix_rfl, same.handles, same.created, same.undescribed, same.lost, rfl, rfl⟩
  | give cell counted =>
    exact ⟨List.prefix_rfl, same.handles, same.created, same.undescribed, same.lost, rfl, rfl⟩
  | receive cell =>
    exact ⟨List.prefix_rfl, same.handles, same.created, same.undescribed, same.lost, rfl, rfl⟩
  | expose foreign value counted =>
    have exposes :=
      step_expose w (rfl : (⟨foreign, value, true, true, false⟩ : Handle).exposed = true)
    exact ⟨List.prefix_rfl, exposes.handles, exposes.created, exposes.undescribed,
      exposes.lost, rfl, rfl⟩
  | dispose h handle found exposed owned alive =>
    refine ⟨List.prefix_rfl, fun k other known => ?_, fun k other above known _ =>
      ?_, List.suffix_rfl, same.lost, rfl, rfl⟩
    · by_cases isThis : k = h
      · subst isThis
        obtain rfl := Option.some.inj (found.symm.trans known)
        exact .inr ⟨.inl exposed, List.getElem?_set_self (List.getElem?_eq_some_iff.mp found).1⟩
      · exact .inl ((List.getElem?_set_ne (Ne.symm isThis)).trans known)
    · have bound := (List.getElem?_eq_some_iff.mp known).1
      rw [List.length_set] at bound
      exact absurd bound (Nat.not_lt.mpr above)
  | other atoms pending scratch guest =>
    exact ⟨List.prefix_rfl, same.handles, same.created, same.undescribed, same.lost, rfl, rfl⟩

theorem Step.trans_quiet {w w' w'' : World σ} {freed left : JSValue → Prop}
    (first : Step w w' nobody nobody) (second : Step w' w'' freed left) : Step w w'' freed left :=
  (first.trans second).weaken (fun _ _ freed => freed.resolve_left id)
    (fun _ _ _ _ leftOver => leftOver.resolve_left id)

-- Nothing that happens depends on what else is on the way.
theorem Move.frame {flight flight' : List Nat} {w w' : World σ} (move : Move flight w flight' w')
    (others : List Nat) : Move (flight ++ others) w (flight' ++ others) w' := by
  cases move with
  | allocate address positive free => exact .allocate address positive free
  | take cell counted => exact .take cell counted
  | drop cell counted => exact .drop cell counted
  | give cell counted => exact .give cell counted
  | receive cell => exact .receive cell
  | expose foreign value counted => exact .expose foreign value counted
  | dispose h handle found exposed owned alive => exact .dispose h handle found exposed owned alive
  | other atoms pending scratch guest => exact .other atoms pending scratch guest

theorem Acts.frame {flight flight' : List Nat} {w w' : World σ} (acts : Acts flight w flight' w')
    (others : List Nat) : Acts (flight ++ others) w (flight' ++ others) w' := by
  induction acts with
  | nothing => exact .nothing
  | move move _ ih => exact .move (move.frame others) ih

theorem Acts.kept {flight flight' : List Nat} {w w' : World σ} (acts : Acts flight w flight' w')
    (sound : Sound flight w) : Sound flight' w' ∧ Step w w' nobody nobody := by
  induction acts with
  | nothing => exact ⟨sound, Step.refl _⟩
  | move move _ ih =>
    obtain ⟨later, steps⟩ := ih (move.sound sound)
    exact ⟨later, move.step.trans_quiet steps⟩

end QuickJSBun.Context
