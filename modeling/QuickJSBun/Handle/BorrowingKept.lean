import QuickJSBun.Handle.Borrowing

/-! Operands stay alive as long as whoever the native call took them from keeps them:
the cache is not evicted in callbacks and contexts are not disposed there, so only
the handles themselves are in the hands of the host, and the references that the
call took are in those of the engine.
-/

set_option autoImplicit false

namespace QuickJSBun.Handle

open Library

def OwnedHandle.holds (cell : Nat) (handle : OwnedHandle) : Nat :=
  if !handle.disposed && handle.cell == cell then 1 else 0

def CachedAtom.holds (cell : Nat) (entry : CachedAtom) : Nat := if entry.atom = cell then 1 else 0

def Activation.operands : Activation → List Operand
  | .native operands => operands
  | .host => []

def Activation.depth : Activation → Nat
  | .native _ => 0
  | .host => 1

namespace World

def held (s : World) (cell : Nat) : Nat := tally (OwnedHandle.holds cell) s.handles

def cached (s : World) (cell : Nat) : Nat := tally (CachedAtom.holds cell) s.atoms

def owned (s : World) (cell : Nat) : Nat :=
  tally (fun frame : Activation => frame.owned.count cell) s.frames

-- The holder of an operand still has it.
def Keeps (s : World) (operand : Operand) : Prop :=
  match operand.holder with
  | .handle h => s.live h = some operand.cell
  | .cache => ∃ entry ∈ s.atoms, entry.atom = operand.cell
  | .native => True
  | .engine => False

instance (s : World) (operand : Operand) : Decidable (s.Keeps operand) := by
  unfold Keeps
  split <;> infer_instance

-- Some operand of the frame keeps the cell.
def Secure (s : World) (frame : Activation) (cell : Nat) : Prop :=
  ∃ holding ∈ frame.operands, holding.cell = cell ∧ s.Keeps holding

/-- The engine counts at least the references that are held. -/
structure Backed (s : World) : Prop where
  cells : s.engine.length = s.references.length
  covered : ∀ cell, counter s.engine cell + s.held cell + s.cached cell + s.owned cell ≤
    counter s.references cell

structure Valid (s : World) : Prop extends s.Backed where
  depth : s.hostDepth = tally Activation.depth s.frames
  kept : ∀ frame ∈ s.frames, ∀ operand ∈ frame.operands, s.Secure frame operand.cell

end World

/-- No handle is disposed, and no reference of a call consumed, that alone keeps an operand of a
call in flight. -/
def Unborrowed (s : World) : BorrowEvent → Prop
  | .dispose h =>
    (s.live h).isSome → ∀ frame ∈ s.frames, ∀ operand ∈ frame.operands, operand.holder = .handle h →
      ∃ other ∈ frame.operands, other.cell = operand.cell ∧ other.holder ≠ .handle h ∧ s.Keeps other
  | .consume index =>
    ∀ frame ∈ s.frames.head?, ∀ operand ∈ frame.operands[index]?, operand.holder = .native →
      ∃ other ∈ frame.operands.eraseIdx index, other.cell = operand.cell ∧ s.Keeps other
  | _ => True

instance (s : World) (e : BorrowEvent) : Decidable (Unborrowed s e) := by
  cases e <;> unfold Unborrowed <;> infer_instance

namespace World

theorem Keeps.mono {s s' : World} {operand : Operand} (keeps : s.Keeps operand)
    (handles : ∀ h cell, operand.holder = .handle h → s.live h = some cell → s'.live h = some cell)
    (atoms : ∀ entry ∈ s.atoms, entry ∈ s'.atoms) : s'.Keeps operand := by
  unfold Keeps at keeps ⊢
  cases holder : operand.holder with
  | handle h =>
    simp only [holder] at keeps ⊢
    exact handles h _ holder keeps
  | cache =>
    simp only [holder] at keeps ⊢
    obtain ⟨entry, member, same⟩ := keeps
    exact ⟨entry, atoms entry member, same⟩
  | native => simp
  | engine =>
    rw [holder] at keeps
    exact keeps.elim

theorem Secure.mono {s s' : World} {frame : Activation} {cell : Nat} (secure : s.Secure frame cell)
    (handles : ∀ h cell, s.live h = some cell → s'.live h = some cell)
    (atoms : ∀ entry ∈ s.atoms, entry ∈ s'.atoms) : s'.Secure frame cell := by
  obtain ⟨holding, member, same, keeps⟩ := secure
  exact ⟨holding, member, same, keeps.mono (fun h cell _ => handles h cell) atoms⟩

theorem Valid.idle {s : World} (valid : s.Valid) (running : s.hostRunning = true)
    (outermost : s.hostDepth = 0) : s.frames = [] := by
  have depth := valid.depth
  cases top : s.frames with
  | nil => rfl
  | cons frame rest =>
    cases frame with
    | native operands => simp [hostRunning, top] at running
    | host =>
      simp only [top, tally_cons, Activation.depth] at depth
      omega

theorem live_eq_some {s : World} {h cell : Nat} (live : s.live h = some cell) :
    ∃ handle, s.handles[h]? = some handle ∧ handle.disposed = false ∧ handle.cell = cell := by
  simp only [World.live, Option.bind_eq_some_iff] at live
  obtain ⟨handle, found, same⟩ := live
  split at same
  · cases same
  · next alive => exact ⟨handle, found, by simpa using alive, Option.some.inj same⟩

theorem Backed.known_live {s : World} (backed : s.Backed) {h cell : Nat}
    (live : s.live h = some cell) : counter s.references cell ≠ 0 := by
  obtain ⟨handle, found, alive, rfl⟩ := live_eq_some live
  have counted := le_tally (f := OwnedHandle.holds handle.cell) (List.mem_of_getElem? found)
  have one : handle.holds handle.cell = 1 := by simp [OwnedHandle.holds, alive]
  have covered := backed.covered handle.cell
  simp only [held] at covered
  omega

-- An operand of a frame in flight is alive if one of that frame keeps its cell.
theorem Backed.alive {s : World} (backed : s.Backed) {frame : Activation}
    (member : frame ∈ s.frames) {cell : Nat} (secure : s.Secure frame cell) :
    0 < counter s.references cell := by
  obtain ⟨holding, inside, rfl, keeps⟩ := secure
  have covered := backed.covered holding.cell
  unfold Keeps at keeps
  split at keeps
  · exact Nat.pos_of_ne_zero (backed.known_live keeps)
  · obtain ⟨entry, cachedEntry, same⟩ := keeps
    have counted := le_tally (f := CachedAtom.holds holding.cell) cachedEntry
    simp only [CachedAtom.holds, same, if_true] at counted
    simp only [cached] at covered
    omega
  · next isNative =>
      have counted :=
        le_tally (f := fun frame : Activation => frame.owned.count holding.cell) member
      have one : 0 < frame.owned.count holding.cell := by
        refine List.count_pos_iff.mpr ?_
        cases frame with
        | native operands =>
          exact List.mem_map_of_mem (List.mem_filter.mpr ⟨inside, by simp [isNative]⟩)
        | host => cases inside
      simp only [World.owned] at covered
      omega
  · exact keeps.elim

/-! ### The engine's and the handles' own steps -/

theorem live_append {s : World} {more : List OwnedHandle} {h cell : Nat}
    (live : s.live h = some cell) :
    ((s.handles ++ more)[h]?).bind
      (fun handle => if handle.disposed then none else some handle.cell) = some cell := by
  obtain ⟨handle, found, alive, rfl⟩ := live_eq_some live
  rw [List.getElem?_append_left (List.getElem?_eq_some_iff.mp found).1, found]
  simp [alive]

theorem Valid.allocate {s : World} (valid : s.Valid) :
    ({ s with references := s.references ++ [1], engine := s.engine ++ [1] } : World).Valid where
  cells := by simp [valid.cells]
  covered cell := by
    have covered := valid.covered cell
    simp only [held, cached, owned, counter_append, valid.cells] at covered ⊢
    by_cases fresh : cell = s.references.length
    · -- nobody holds a cell that is not there yet
      subst fresh
      rw [counter_length] at covered
      simp only [if_true]
      omega
    · simpa only [if_neg fresh] using covered
  depth := valid.depth
  kept frame member operand inside :=
    (valid.kept frame member operand inside).mono (fun _ _ live => live) (fun _ entry => entry)

theorem Valid.take {s : World} (valid : s.Valid) {cell : Nat}
    (counted : counter s.references cell ≠ 0) :
    ({ s with references := raise s.references [cell], engine := raise s.engine [cell] } :
      World).Valid where
  cells := by simp [valid.cells]
  covered c := by
    have covered := valid.covered c
    have known := lt_length_of_counter counted
    simp only [held, cached, owned] at covered ⊢
    rw [counter_raise (by simpa [valid.cells] using known), counter_raise (by simpa using known)]
    omega
  depth := valid.depth
  kept frame member operand inside :=
    (valid.kept frame member operand inside).mono (fun _ _ live => live) (fun _ entry => entry)

theorem Valid.drop {s : World} (valid : s.Valid) {cell : Nat}
    (counted : counter s.engine cell ≠ 0) :
    ({ s with references := lower s.references [cell], engine := lower s.engine [cell] } :
      World).Valid where
  cells := by simp [valid.cells]
  covered c := by
    have covered := valid.covered c
    simp only [held, cached, owned, counter_lower] at covered ⊢
    by_cases same : cell = c
    · subst same
      simp only [List.count_singleton_self]
      omega
    · simp only [List.count_singleton, beq_iff_eq, if_neg same]
      omega
  depth := valid.depth
  kept frame member operand inside :=
    (valid.kept frame member operand inside).mono (fun _ _ live => live) (fun _ entry => entry)

theorem Valid.wrap {s : World} (valid : s.Valid) {vm cell : Nat} {isAtom : Bool}
    (counted : counter s.engine cell ≠ 0) :
    ({ s with
      engine := lower s.engine [cell]
      handles := s.handles ++ [⟨vm, cell, isAtom, false⟩] } : World).Valid where
  cells := by simp [valid.cells]
  covered c := by
    have covered := valid.covered c
    simp only [held, cached, owned, counter_lower, tally_append, tally_cons, tally_nil,
      OwnedHandle.holds] at covered ⊢
    by_cases same : cell = c
    · -- the reference passes from the engine to the handle
      subst same
      simp only [List.count_singleton_self, beq_self_eq_true]
      simp only [Bool.not_false, Bool.and_self, if_true]
      omega
    · simp only [List.count_singleton, beq_iff_eq, if_neg same, Bool.not_false, Bool.true_and]
      omega
  depth := valid.depth
  kept frame member operand inside :=
    (valid.kept frame member operand inside).mono (fun _ _ live => live_append live)
      (fun _ entry => entry)

theorem Valid.dup {s : World} (valid : s.Valid) {h : Nat} {handle : OwnedHandle}
    (found : s.handles[h]? = some handle) (alive : handle.disposed = false) :
    ({ s with
      references := raise s.references [handle.cell]
      handles := s.handles ++ [⟨handle.vm, handle.cell, handle.isAtom, false⟩] } :
        World).Valid where
  cells := by simp [valid.cells]
  covered c := by
    have covered := valid.covered c
    have counted :=
      valid.toBacked.known_live (show s.live h = some handle.cell by simp [live, found, alive])
    have known := lt_length_of_counter counted
    simp only [held, cached, owned, tally_append, tally_cons, tally_nil,
      OwnedHandle.holds] at covered ⊢
    rw [counter_raise (by simpa using known)]
    by_cases same : handle.cell = c
    · subst same
      simp only [List.count_singleton_self, Bool.not_false, Bool.true_and,
        beq_self_eq_true, if_true]
      omega
    · simp only [List.count_singleton, beq_iff_eq, if_neg same, Bool.not_false, Bool.true_and]
      omega
  depth := valid.depth
  kept frame member operand inside :=
    (valid.kept frame member operand inside).mono (fun _ _ live => live_append live)
      (fun _ entry => entry)

/-! ### Dispose -/

theorem live_set_disposed {s : World} {h other cell : Nat} {handle : OwnedHandle}
    (different : other ≠ h) (live : s.live other = some cell) :
    ((s.handles.set h { handle with disposed := true })[other]?).bind
      (fun handle => if handle.disposed then none else some handle.cell) = some cell := by
  rw [List.getElem?_set_ne (Ne.symm different)]
  exact live

theorem held_set_disposed {s : World} {h : Nat} {handle : OwnedHandle}
    (found : s.handles[h]? = some handle) (alive : handle.disposed = false) (cell : Nat) :
    tally (OwnedHandle.holds cell) (s.handles.set h { handle with disposed := true }) +
      [handle.cell].count cell = s.held cell := by
  have traded := tally_set (f := OwnedHandle.holds cell) found { handle with disposed := true }
  have before : handle.holds cell = [handle.cell].count cell := by
    simp [OwnedHandle.holds, alive, List.count_singleton]
  have after : OwnedHandle.holds cell { handle with disposed := true } = 0 := by
    simp [OwnedHandle.holds]
  simp only [held]
  omega

-- A disposed handle was not the last to keep an operand, so every frame stays secure.
theorem Valid.dispose {s : World} (valid : s.Valid) {h : Nat} {handle : OwnedHandle}
    (found : s.handles[h]? = some handle) (unborrowed : Unborrowed s (.dispose h)) :
    (s.dispose h handle).Valid := by
  unfold World.dispose
  by_cases alive : handle.disposed = true
  · rw [if_pos alive]
    exact valid
  rw [if_neg alive]
  have alive : handle.disposed = false := by simpa using alive
  have isLive : (s.live h).isSome := by simp [live, found, alive]
  have kept : ∀ references : List Nat, ∀ frame ∈ s.frames, ∀ operand ∈ frame.operands,
      ({ s with handles := s.handles.set h { handle with disposed := true }, references } :
        World).Secure frame operand.cell := by
    intro references frame member operand inside
    obtain ⟨holding, within, same, keeps⟩ := valid.kept frame member operand inside
    by_cases borrowed : holding.holder = .handle h
    · obtain ⟨other, within, sameCell, different, keeps⟩ :=
        unborrowed isLive frame member holding within borrowed
      refine ⟨other, within, sameCell.trans same,
        keeps.mono (fun k cell holder => ?_) (fun _ entry => entry)⟩
      exact live_set_disposed (by rintro rfl; exact different holder)
    · refine ⟨holding, within, same, keeps.mono (fun k cell holder => ?_) (fun _ entry => entry)⟩
      exact live_set_disposed (by rintro rfl; exact borrowed holder)
  dsimp only
  split
  · exact {
      cells := valid.cells
      covered := fun cell => by
        have covered := valid.covered cell
        have traded := held_set_disposed found alive cell
        simp only [held, cached, owned] at covered traded ⊢
        omega
      depth := valid.depth
      kept := kept _ }
  · exact {
      cells := by simp [valid.cells]
      covered := fun cell => by
        have covered := valid.covered cell
        have traded := held_set_disposed found alive cell
        simp only [held, cached, owned, counter_lower] at covered traded ⊢
        omega
      depth := valid.depth
      kept := kept _ }

/-! ### Eviction -/

theorem cached_partition (atoms : List CachedAtom) (vm cell : Nat) :
    tally (CachedAtom.holds cell) (atoms.filter (·.vm != vm)) +
      ((atoms.filter (·.vm == vm)).map (·.atom)).count cell =
        tally (CachedAtom.holds cell) atoms := by
  induction atoms with
  | nil => rfl
  | cons entry rest ih =>
    rw [tally_cons, ← ih]
    by_cases own : entry.vm = vm
    · simp only [List.filter_cons, own, bne_self_eq_false, beq_self_eq_true, if_true, List.map_cons,
        List.count_cons, CachedAtom.holds, beq_iff_eq, Bool.false_eq_true, if_false]
      omega
    · have other : (entry.vm != vm) = true := by simpa using own
      have notOwn : (entry.vm == vm) = false := by simpa using own
      simp only [List.filter_cons, other, notOwn, if_true, tally_cons, Bool.false_eq_true, if_false]
      omega

-- With no call in flight nothing depends on the cache.
theorem Valid.evict {s : World} (valid : s.Valid) (idle : s.frames = []) (vm : Nat) :
    (s.evict vm).Valid where
  cells := by simp [World.evict, valid.cells]
  covered cell := by
    have covered := valid.covered cell
    have parts := cached_partition s.atoms vm cell
    simp only [held, cached, owned, World.evict, cachedOf, counter_lower] at covered ⊢
    omega
  depth := valid.depth
  kept := by simp [World.evict, idle]

theorem held_partition (handles : List OwnedHandle) (vm cell : Nat) :
    tally (OwnedHandle.holds cell) (handles.map fun handle =>
        if handle.vm == vm && !handle.isAtom && !handle.disposed then
          { handle with disposed := true }
        else handle) +
      ((handles.filter fun handle => handle.vm == vm && !handle.isAtom && !handle.disposed).map
        (·.cell)).count cell =
      tally (OwnedHandle.holds cell) handles := by
  induction handles with
  | nil => rfl
  | cons handle rest ih =>
    rw [List.map_cons, tally_cons, tally_cons, ← ih, List.filter_cons]
    split
    · next own =>
        have alive : handle.disposed = false := by
          simp only [Bool.and_eq_true, Bool.not_eq_true'] at own
          exact own.2
        simp only [List.map_cons, List.count_cons, OwnedHandle.holds, alive, Bool.not_true,
          Bool.false_and, Bool.false_eq_true, if_false, Bool.not_false, Bool.true_and]
        omega
    · omega

theorem Valid.disposeContext {s : World} (valid : s.Valid) (running : s.hostRunning = true)
    (vm : Nat) : (s.disposeContext vm).Valid := by
  unfold World.disposeContext
  split
  · exact valid
  split
  · exact valid
  · next outermost =>
      have idle := valid.idle running (by simpa using outermost)
      -- the values first, then the cache
      have released : ({ s with
          handles := s.handles.map fun handle =>
            if handle.vm == vm && !handle.isAtom && !handle.disposed then
              { handle with disposed := true }
            else handle
          references := lower s.references ((s.ownValues vm).map (·.cell)) } : World).Valid := {
        cells := by simp [valid.cells]
        covered := fun cell => by
          have covered := valid.covered cell
          have parts := held_partition s.handles vm cell
          simp only [held, cached, owned, ownValues, counter_lower] at covered ⊢
          omega
        depth := valid.depth
        kept := by simp [idle] }
      have evicted := released.evict idle vm
      exact ⟨⟨evicted.cells, evicted.covered⟩, evicted.depth, evicted.kept⟩

/-! ### Calls -/

theorem borrow_live {s : World} {vm : Nat} {values : List (Option Nat)} {operands : List Operand}
    (borrowed : s.borrow vm values = some operands) :
    ∀ operand ∈ operands, ∃ h, operand.holder = .handle h ∧ s.live h = some operand.cell := by
  induction values generalizing operands with
  | nil =>
    obtain rfl : [] = operands := by simpa [World.borrow] using borrowed
    simp
  | cons value rest ih =>
    cases value with
    | none => exact ih borrowed
    | some h =>
      simp only [World.borrow] at borrowed
      split at borrowed
      · next cell more live others =>
          split at borrowed
          · obtain rfl := Option.some.inj borrowed
            intro operand member
            rcases List.mem_cons.mp member with rfl | later
            · exact ⟨h, rfl, live⟩
            · exact ih others operand later
          · cases borrowed
      · cases borrowed

/-- What `atom` leaves alone, and that its answer is kept. -/
structure Keyed (s s' : World) (operand : Option Operand) : Prop where
  valid : s'.Valid
  handles : s'.handles = s.handles
  frames : s'.frames = s.frames
  keeps : ∀ o ∈ operand, s'.Keeps o ∧ o.holder ≠ .native

theorem Valid.cache {s : World} (valid : s.Valid) {vm atom : Nat}
    (known : atom < s.references.length) (name : String) :
    ({ s with atoms := ⟨vm, name, atom⟩ :: s.atoms, references := raise s.references [atom] } :
      World).Valid where
  cells := by simp [valid.cells]
  covered c := by
    have covered := valid.covered c
    simp only [held, cached, owned, tally_cons, CachedAtom.holds] at covered ⊢
    rw [counter_raise (by simpa using known)]
    simp only [List.count_singleton, beq_iff_eq]
    omega
  depth := valid.depth
  kept frame member operand inside :=
    (valid.kept frame member operand inside).mono (fun _ _ live => live)
      (fun _ entry => List.mem_cons_of_mem _ entry)

theorem Valid.atom {s : World} (valid : s.Valid) (running : s.hostRunning = true) (vm : Nat)
    (key : Key) : Keyed s (s.atom vm key).1 ((s.atom vm key).2.getD none) := by
  cases key with
  | index => exact ⟨valid, rfl, rfl, by simp [World.atom]⟩
  | atom h =>
    refine ⟨valid, rfl, rfl, fun operand given => ?_⟩
    simp only [World.atom, Option.mem_def] at given
    cases live : s.live h with
    | none => simp [live] at given
    | some cell =>
      obtain rfl : (⟨cell, .handle h⟩ : Operand) = operand := by simpa [live] using given
      exact ⟨by simpa [Keeps, World.atom] using live, by simp⟩
  | text name atom =>
    simp only [World.atom]
    split
    · next entry found =>
        refine ⟨valid, rfl, rfl, fun operand given => ?_⟩
        obtain rfl : (⟨entry.atom, .cache⟩ : Operand) = operand := by simpa using given
        exact ⟨⟨entry, List.mem_of_find?_eq_some found, rfl⟩, by simp⟩
    · have room : ∃ next : World, next.Valid ∧ next.handles = s.handles ∧ next.frames = s.frames ∧
          next = if decide (4096 ≤ (s.cachedOf vm).length) && s.hostDepth == 0 then s.evict vm
            else s := by
        by_cases full : (decide (4096 ≤ (s.cachedOf vm).length) && s.hostDepth == 0) = true
        · have outermost : s.hostDepth = 0 := by simpa using (Bool.and_eq_true_iff.mp full).2
          rw [if_pos full]
          exact ⟨_, valid.evict (valid.idle running outermost) vm, rfl, rfl, rfl⟩
        · rw [if_neg full]
          exact ⟨s, valid, rfl, rfl, rfl⟩
      obtain ⟨next, nextValid, handles, frames, same⟩ := room
      rw [← same]
      split
      · next known =>
          refine ⟨nextValid.cache known name, handles, frames, fun operand given => ?_⟩
          obtain rfl : (⟨atom, .cache⟩ : Operand) = operand := by simpa using given
          exact ⟨⟨_, List.mem_cons_self, rfl⟩, by simp⟩
      · exact ⟨nextValid, handles, frames, by simp⟩

theorem Valid.atomOf {s : World} (valid : s.Valid) (running : s.hostRunning = true) (vm : Nat)
    (key : Option Key) : Keyed s (s.atomOf vm key).1 ((s.atomOf vm key).2.getD none) := by
  cases key with
  | none => exact ⟨valid, rfl, rfl, by simp [World.atomOf]⟩
  | some key => exact valid.atom running vm key

theorem native_owned (front back : List Operand) (cells : List Nat)
    (front_borrowed : ∀ o ∈ front, o.holder ≠ .native)
    (back_borrowed : ∀ o ∈ back, o.holder ≠ .native) :
    (Activation.native (front ++ cells.map (fun cell => ⟨cell, .native⟩) ++ back)).owned =
      cells := by
  have none : ∀ operands : List Operand, (∀ o ∈ operands, o.holder ≠ .native) →
      operands.filter (·.holder == .native) = [] := fun operands borrowed =>
    List.filter_eq_nil_iff.mpr fun o member => by simpa using borrowed o member
  have all : (cells.map (fun cell => (⟨cell, .native⟩ : Operand))).filter (·.holder == .native) =
      cells.map (fun cell => ⟨cell, .native⟩) := by
    refine List.filter_eq_self.mpr fun o member => ?_
    obtain ⟨cell, -, rfl⟩ := List.mem_map.mp member
    rfl
  simp only [Activation.owned, List.filter_append, none front front_borrowed,
    none back back_borrowed, all, List.nil_append, List.append_nil, List.map_map]
  exact List.map_id'' (fun _ => rfl) cells

-- A call enters with every operand kept by its handle, the cache or a reference of its own.
theorem Valid.call {s : World} (valid : s.Valid) (running : s.hostRunning = true) (vm : Nat)
    (native : NativeCall) : (s.call vm native).Valid := by
  unfold World.call
  split
  · exact valid
  split
  · next borrowed duplicated borrows duplicates =>
      have keyed := valid.atomOf running vm native.key
      generalize s.atomOf vm native.key = result at keyed ⊢
      obtain ⟨next, key⟩ := result
      cases key with
      | none => exact keyed.valid
      | some operand =>
        simp only [Option.getD_some] at keyed
        have still : ∀ h cell, s.live h = some cell → next.live h = some cell := by
          intro h cell live
          rw [World.live, keyed.handles]
          exact live
        have lent : ∀ o ∈ borrowed ++ duplicated, ∃ h, o.holder = .handle h ∧
            s.live h = some o.cell := by
          intro o member
          rcases List.mem_append.mp member with member | member
          · exact borrow_live borrows o member
          · exact borrow_live duplicates o member
        have owned := native_owned (borrowed ++ duplicated) operand.toList (duplicated.map (·.cell))
          (fun o member => by
            obtain ⟨h, holder, -⟩ := lent o member
            simp [holder])
          (fun o member => (keyed.keeps o (by simpa using member)).2)
        have known : ∀ cell ∈ duplicated.map (·.cell), cell < next.references.length := by
          intro cell member
          obtain ⟨o, within, rfl⟩ := List.mem_map.mp member
          obtain ⟨h, -, live⟩ := borrow_live duplicates o within
          exact lt_length_of_counter (keyed.valid.known_live (still h _ live))
        refine ⟨⟨by simp [keyed.valid.cells], fun cell => ?_⟩, ?_, fun frame member => ?_⟩
        · have covered := keyed.valid.covered cell
          simp only [held, cached, World.owned, tally_cons] at covered ⊢
          rw [counter_raise known, owned]
          omega
        · simpa [Activation.depth] using keyed.valid.depth
        · rcases List.mem_cons.mp member with rfl | outer
          · intro operand inside
            refine ⟨operand, inside, rfl, ?_⟩
            rcases List.mem_append.mp inside with inside | key
            · rcases List.mem_append.mp inside with inside | inside
              · obtain ⟨h, holder, live⟩ := lent operand inside
                simp only [Keeps, holder]
                exact still h _ live
              · obtain ⟨cell, -, rfl⟩ := List.mem_map.mp inside
                trivial
            · exact ((keyed.keeps operand (by simpa using key)).1).mono (fun _ _ _ live => live)
                (fun _ entry => entry)
          · exact fun operand inside =>
              (keyed.valid.kept frame outer operand inside).mono (fun _ _ live => live)
                (fun _ entry => entry)
  · exact valid

theorem mem_set_iff {operands : List Operand} {index : Nat} (inside : index < operands.length)
    (new o : Operand) : o ∈ operands.set index new ↔ o = new ∨ o ∈ operands.eraseIdx index := by
  rw [List.mem_eraseIdx_iff_getElem?, List.mem_iff_getElem?]
  constructor
  · rintro ⟨i, found⟩
    by_cases here : index = i
    · subst here
      rw [List.getElem?_set_self inside] at found
      exact .inl (Option.some.inj found).symm
    · rw [List.getElem?_set_ne here] at found
      exact .inr ⟨i, Ne.symm here, found⟩
  · rintro (rfl | ⟨i, elsewhere, found⟩)
    · exact ⟨index, List.getElem?_set_self inside⟩
    · exact ⟨i, (List.getElem?_set_ne (Ne.symm elsewhere)).trans found⟩

theorem count_owned (operands : List Operand) (cell : Nat) :
    (Activation.native operands).owned.count cell =
      tally (fun o : Operand => if o.holder = .native ∧ o.cell = cell then 1 else 0) operands := by
  induction operands with
  | nil => rfl
  | cons o rest ih =>
    rw [tally_cons, ← ih]
    by_cases native : o.holder = .native
    · simp only [Activation.owned, List.filter_cons, native, beq_self_eq_true, if_true,
        List.map_cons, List.count_cons, beq_iff_eq, true_and]
      omega
    · simp [Activation.owned, native]

-- The engine has the reference that the call had.
theorem count_owned_set {operands : List Operand} {index cell : Nat}
    (found : operands[index]? = some ⟨cell, .native⟩) (c : Nat) :
    (Activation.native (operands.set index ⟨cell, .engine⟩)).owned.count c +
      (if cell = c then 1 else 0) = (Activation.native operands).owned.count c := by
  have traded :=
    tally_set (f := fun o : Operand => if o.holder = .native ∧ o.cell = c then 1 else 0) found
      ⟨cell, .engine⟩
  rw [count_owned, count_owned]
  simp only [true_and, reduceCtorEq, false_and, if_false] at traded
  omega

theorem consume_eq_some {s s' : World} {index : Nat} (steps : s.consume index = some s') :
    ∃ operands rest cell, s.frames = .native operands :: rest ∧
    operands[index]? = some ⟨cell, .native⟩ ∧
      s' = { s with
        engine := raise s.engine [cell]
        frames := .native (operands.set index ⟨cell, .engine⟩) :: rest } := by
  simp only [World.consume] at steps
  split at steps
  · next operands rest top =>
    split at steps
    · next cell found => exact ⟨operands, rest, cell, top, found, (Option.some.inj steps).symm⟩
    · cases steps
  · cases steps

-- What keeps an operand is no part of the frame, but for the reference that is consumed.
theorem Valid.consume {s s' : World} (valid : s.Valid) {index : Nat}
    (unborrowed : Unborrowed s (.consume index)) (steps : s.consume index = some s') :
    s'.Valid := by
  obtain ⟨operands, rest, cell, top, found, rfl⟩ := consume_eq_some steps
  have inside := (List.getElem?_eq_some_iff.mp found).1
  have top_mem : Activation.native operands ∈ s.frames := top ▸ List.mem_cons_self
  have counted : 0 < counter s.references cell :=
    valid.alive top_mem ⟨_, List.mem_of_getElem? found, rfl, trivial⟩
  obtain ⟨heir, remains, sameCell, heirKeeps⟩ :=
    unborrowed (.native operands) (by simp [top]) ⟨cell, .native⟩
      (by simpa [Activation.operands] using found) rfl
  -- the reference may have been what kept an operand of its cell, and then the heir keeps it
  have secures {c : Nat} (secure : s.Secure (.native operands) c) :
      ∃ holding ∈ operands.set index ⟨cell, .engine⟩, holding.cell = c ∧ s.Keeps holding := by
    obtain ⟨holding, member, same, keeps⟩ := secure
    obtain ⟨i, at_i⟩ := List.mem_iff_getElem?.mp member
    by_cases here : i = index
    · subst here
      have isOne : some holding = some ⟨cell, .native⟩ := at_i.symm.trans found
      cases isOne
      exact ⟨heir, (mem_set_iff inside _ _).mpr (.inr remains), sameCell.trans same, heirKeeps⟩
    · exact ⟨holding,
        (mem_set_iff inside _ _).mpr (.inr (List.mem_eraseIdx_iff_getElem?.mpr ⟨i, here, at_i⟩)),
        same, keeps⟩
  refine ⟨⟨?_, fun c => ?_⟩, ?_, fun frame member operand within => ?_⟩
  · simp [valid.cells]
  · have covered := valid.covered c
    have traded := count_owned_set found c
    have known := lt_length_of_counter (Nat.pos_iff_ne_zero.mp counted)
    simp only [held, cached, World.owned, top, tally_cons] at covered ⊢
    rw [counter_raise_one (by simpa [valid.cells] using known)]
    omega
  · simpa [top, Activation.depth] using valid.depth
  · rcases List.mem_cons.mp member with rfl | outer
    · have old : s.Secure (.native operands) operand.cell := by
        rcases (mem_set_iff inside _ _).mp within with rfl | other
        · exact ⟨_, List.mem_of_getElem? found, rfl, trivial⟩
        · exact valid.kept _ top_mem operand (List.mem_of_mem_eraseIdx other)
      obtain ⟨holding, there, same, keeps⟩ := secures old
      exact ⟨holding, there, same, keeps.mono (fun _ _ _ live => live) (fun _ entry => entry)⟩
    · exact (valid.kept frame (top ▸ List.mem_cons_of_mem _ outer) operand within).mono (fun _ _ live => live)
        (fun _ entry => entry)

theorem Valid.return {s : World} (valid : s.Valid) {operands : List Operand} {rest : List Activation}
    (top : s.frames = .native operands :: rest) :
    ({ s with references := lower s.references (Activation.native operands).owned, frames := rest } : World).Valid where
  cells := by simp [valid.cells]
  covered cell := by
    have covered := valid.covered cell
    simp only [held, cached, World.owned, top, tally_cons, counter_lower] at covered ⊢
    omega
  depth := by simpa [top, Activation.depth] using valid.depth
  kept frame member operand inside :=
    (valid.kept frame (top ▸ List.mem_cons_of_mem _ member) operand inside).mono
      (fun _ _ live => live) (fun _ entry => entry)

theorem Valid.enterHost {s : World} (valid : s.Valid) :
    ({ s with hostDepth := s.hostDepth + 1, frames := .host :: s.frames } : World).Valid where
  cells := valid.cells
  covered cell := by simpa [held, cached, World.owned, Activation.owned] using valid.covered cell
  depth := by
    simp only [tally_cons, Activation.depth, valid.depth]
    omega
  kept frame member operand inside := by
    rcases List.mem_cons.mp member with rfl | outer
    · cases inside
    · exact (valid.kept frame outer operand inside).mono (fun _ _ live => live)
        (fun _ entry => entry)

theorem Valid.leaveHost {s : World} (valid : s.Valid) {rest : List Activation}
    (top : s.frames = .host :: rest) :
    ({ s with hostDepth := s.hostDepth - 1, frames := rest } : World).Valid where
  cells := valid.cells
  covered cell := by
    simpa [held, cached, World.owned, top, Activation.owned] using valid.covered cell
  depth := by
    have depth := valid.depth
    simp only [top, tally_cons, Activation.depth] at depth ⊢
    omega
  kept frame member operand inside :=
    (valid.kept frame (top ▸ List.mem_cons_of_mem _ member) operand inside).mono
      (fun _ _ live => live) (fun _ entry => entry)

-- Every event keeps the invariant, as long as no handle in use alone is disposed.
theorem Valid.step {s s' : World} {e : BorrowEvent} (valid : s.Valid) (unborrowed : Unborrowed s e)
    (steps : s.step e = some s') : s'.Valid := by
  cases e with
  | allocate =>
    obtain rfl := Option.some.inj steps
    exact valid.allocate
  | take cell =>
    simp only [World.step] at steps
    split at steps
    · cases steps
    · next counted =>
        obtain rfl := Option.some.inj steps
        exact valid.take counted
  | drop cell =>
    simp only [World.step] at steps
    split at steps
    · cases steps
    · next counted =>
        obtain rfl := Option.some.inj steps
        exact valid.drop counted
  | wrap vm cell isAtom =>
    simp only [World.step] at steps
    split at steps
    · cases steps
    · next free =>
        obtain rfl := Option.some.inj steps
        refine valid.wrap fun uncounted => free ?_
        simp [uncounted]
  | dup h =>
    simp only [World.step] at steps
    split at steps
    · next handle found _ =>
        split at steps
        · exact Option.some.inj steps ▸ valid
        · next alive =>
            obtain rfl := Option.some.inj steps
            refine valid.dup found ?_
            simpa using (fun disposed => alive (by simp [disposed]) : ¬handle.disposed = true)
    · cases steps
  | dispose h =>
    simp only [World.step] at steps
    split at steps
    · obtain ⟨handle, found, rfl⟩ := Option.map_eq_some_iff.mp steps
      exact valid.dispose found unborrowed
    · cases steps
  | disposeContext vm =>
    simp only [World.step] at steps
    split at steps
    · next running => exact Option.some.inj steps ▸ valid.disposeContext running vm
    · cases steps
  | call vm api =>
    simp only [World.step] at steps
    split at steps
    · next running => exact Option.some.inj steps ▸ valid.call running vm api.nativeCall
    · cases steps
  | consume index => exact valid.consume unborrowed steps
  | «return» =>
    simp only [World.step] at steps
    split at steps
    · next operands rest top => exact Option.some.inj steps ▸ valid.return top
    · cases steps
  | enterHost => exact Option.some.inj steps ▸ valid.enterHost
  | leaveHost =>
    simp only [World.step] at steps
    split at steps
    · next rest top => exact Option.some.inj steps ▸ valid.leaveHost top
    · cases steps

theorem valid_invariant : borrowMachine.Invariant Unborrowed World.Valid where
  init :=
    ⟨⟨rfl, fun cell => by simp [borrowMachine, held, cached, World.owned]⟩, rfl,
      by simp [borrowMachine]⟩
  step valid := valid.step

end World

/-! ### The condition is exact -/

-- Without the condition the dispose leaves no operand that keeps the cell.
theorem dispose_exposes {s : World} {h : Nat} {handle : OwnedHandle}
    (found : s.handles[h]? = some handle) (borrowed : ¬Unborrowed s (.dispose h)) :
    ∃ frame ∈ (s.dispose h handle).frames, ∃ operand ∈ frame.operands,
      ¬(s.dispose h handle).Secure frame operand.cell := by
  simp only [Unborrowed, not_forall] at borrowed
  obtain ⟨isLive, frame, member, operand, inside, holder, alone⟩ := borrowed
  have alive : handle.disposed = false := by
    cases disposed : handle.disposed with
    | false => rfl
    | true => simp [World.live, found, disposed] at isLive
  have frames : (s.dispose h handle).frames = s.frames := by
    unfold World.dispose
    simp only [alive, Bool.false_eq_true, if_false]
    split <;> rfl
  have handles :
      (s.dispose h handle).handles = s.handles.set h { handle with disposed := true } := by
    unfold World.dispose
    simp only [alive, Bool.false_eq_true, if_false]
    split <;> rfl
  have atoms : (s.dispose h handle).atoms = s.atoms := by
    unfold World.dispose
    simp only [alive, Bool.false_eq_true, if_false]
    split <;> rfl
  have gone : (s.dispose h handle).live h = none := by
    rw [World.live, handles, List.getElem?_set_self (List.getElem?_eq_some_iff.mp found).1]
    rfl
  refine ⟨frame, frames ▸ member, operand, inside, ?_⟩
  rintro ⟨other, within, same, keeps⟩
  have different : other.holder ≠ .handle h := by
    intro holder
    simp [World.Keeps, holder, gone] at keeps
  apply alone
  refine ⟨other, within, same, different,
    keeps.mono (fun k cell isHandle live => ?_) (fun _ entry => atoms ▸ entry)⟩
  have elsewhere : k ≠ h := fun same => different (same ▸ isHandle)
  rwa [World.live, handles, List.getElem?_set_ne (Ne.symm elsewhere)] at live

-- And so does the engine that consumes the last reference.
theorem consume_exposes {s s' : World} {index : Nat} (steps : s.consume index = some s')
    (borrowed : ¬Unborrowed s (.consume index)) :
    ∃ frame ∈ s'.frames, ∃ operand ∈ frame.operands, ¬s'.Secure frame operand.cell := by
  obtain ⟨operands, rest, cell, top, found, rfl⟩ := World.consume_eq_some steps
  have inside := (List.getElem?_eq_some_iff.mp found).1
  refine ⟨.native (operands.set index ⟨cell, .engine⟩), List.mem_cons_self, ⟨cell, .engine⟩,
    (World.mem_set_iff inside _ _).mpr (.inl rfl), ?_⟩
  rintro ⟨other, within, same, keeps⟩
  apply borrowed
  intro frame isTop operand isOne _
  rw [top, List.head?_cons, Option.mem_some_iff] at isTop
  subst isTop
  obtain rfl : operand = ⟨cell, .native⟩ := Option.some.inj (isOne.symm.trans found)
  rcases (World.mem_set_iff inside _ _).mp within with rfl | remains
  · exact keeps.elim
  · exact ⟨other, remains, same, keeps.mono (fun _ _ _ live => live) (fun _ entry => entry)⟩

end QuickJSBun.Handle
