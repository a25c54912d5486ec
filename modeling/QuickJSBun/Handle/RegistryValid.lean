import QuickJSBun.Handle.Registry

/-! The handle list and the reference counts agree with the handles: every live heap
handle is listed once, at its slot, and owns one reference of its cell.
-/

set_option autoImplicit false

namespace QuickJSBun.Handle

open Library

-- Whether a handle is one the context keeps track of.
def JSValue.tracked (value : JSValue) : Bool := value.owned && decide (value.tag < 0)

-- How many references of a cell a handle owns.
def JSValue.holds (pointer : Nat) (value : JSValue) : Nat :=
  if value.tracked && !value.disposed && value.pointer == pointer then 1 else 0

/-- What holds of each handle on its own; the handles without ownership are the constants. -/
structure JSValue.Sound (value : JSValue) : Prop where
  heap : value.tag < 0 → value.owned = true
  slotted : value.slot.isSome = value.tracked
  released : value.releases = if value.tracked && value.disposed then 1 else 0

/-- What is left of a handle whose reference has been given back. -/
def JSValue.spent (value : JSValue) : JSValue :=
  { value with disposed := true, releases := value.releases + 1 }

@[simp] theorem JSValue.holds_spent (value : JSValue) (pointer : Nat) :
    value.spent.holds pointer = 0 := by
  simp [JSValue.spent, JSValue.holds]

theorem JSValue.Sound.spent {value : JSValue} (sound : value.Sound) (tracked : value.tracked = true)
    (live : value.disposed = false) : value.spent.Sound where
  heap := sound.heap
  slotted := sound.slotted
  released := by
    have none : value.releases = 0 := by simpa [live] using sound.released
    have still : value.spent.tracked = true := tracked
    simp [still]
    simp [JSValue.spent, none]

namespace Context

def slotOf (s : Context) (v : Nat) : Option Nat :=
  (s.values[v]?).bind fun value => if value.disposed then none else value.slot

def held (s : Context) (pointer : Nat) : Nat := tally (JSValue.holds pointer) s.values

structure Listed (s : Context) : Prop where
  handles : Slotted s.handles s.slotOf
  values : ∀ value ∈ s.values, value.Sound
  emptied : s.disposed = true → s.handles = []

structure Valid (s : Context) : Prop extends s.Listed where
  cells : s.engine.length = s.references.length
  conserved : ∀ pointer, counter s.references pointer = counter s.engine pointer + s.held pointer
  faultless : s.faults = 0

/-! ### New handles -/

theorem slotOf_append {s : Context} {values : List JSValue} {value : JSValue}
    (same : values = s.values ++ [value]) {s' : Context} (appended : s'.values = values) (v : Nat) :
    s'.slotOf v = if v = s.values.length then (if value.disposed then none else value.slot)
      else s.slotOf v := by
  simp only [slotOf, appended, same, List.getElem?_append]
  rcases Nat.lt_trichotomy v s.values.length with below | rfl | above
  · rw [if_pos below, if_neg (Nat.ne_of_lt below)]
  · simp
  · rw [if_neg (Nat.not_lt_of_gt above), if_neg (Nat.ne_of_gt above), List.getElem?_singleton,
      if_neg (Nat.sub_ne_zero_of_lt above), List.getElem?_eq_none (Nat.le_of_lt above)]

theorem slotOf_new (s : Context) : s.slotOf s.values.length = none := by simp [slotOf]

-- The constructor keeps the list in order; in a disposed context only untracked values are made.
theorem Listed.newJSValue {s : Context} (listed : s.Listed) (tag : Int) (pointer : Nat)
    (owned : Bool) (heap : tag < 0 → owned = true)
    (running : s.disposed = true → ¬ (owned = true ∧ tag < 0)) :
    (s.newJSValue tag pointer owned).Listed := by
  unfold Context.newJSValue
  split
  · next tracked =>
      have tracked' : owned = true ∧ tag < 0 := by simpa using tracked
      refine ⟨?_, ?_, fun disposed => absurd tracked' (running disposed)⟩
      · refine (listed.handles.push (slotOf_new s)).congr fun v => ?_
        rw [slotOf_append rfl rfl]
        by_cases last : v = s.values.length
        · simp [last]
        · simp [last]
      · intro value member
        rcases List.mem_append.mp member with old | new
        · exact listed.values value old
        · obtain rfl := List.mem_singleton.mp new
          exact ⟨heap, by simp [JSValue.tracked, tracked'], by simp⟩
  · next untracked =>
      refine ⟨listed.handles.congr fun v => ?_, ?_, listed.emptied⟩
      · rw [slotOf_append rfl rfl]
        split
        · next last => simp [last, slotOf_new]
        · rfl
      · intro value member
        rcases List.mem_append.mp member with old | new
        · exact listed.values value old
        · obtain rfl := List.mem_singleton.mp new
          exact ⟨heap, by simpa [JSValue.tracked] using untracked, by simp⟩

theorem held_newJSValue (s : Context) (tag : Int) (pointer : Nat) (owned : Bool) (other : Nat) :
    (s.newJSValue tag pointer owned).held other =
      s.held other + if owned = true ∧ tag < 0 ∧ pointer = other then 1 else 0 := by
  unfold Context.newJSValue
  split <;> simp_all [held, JSValue.holds, JSValue.tracked, and_assoc]

/-! ### Disposal -/

theorem slotOf_eq_some {s : Context} {v i : Nat} (at_ : s.slotOf v = some i) :
    ∃ value, s.values[v]? = some value ∧ value.disposed = false ∧ value.slot = some i := by
  simp only [slotOf, Option.bind_eq_some_iff] at at_
  obtain ⟨value, found, slot⟩ := at_
  split at slot
  · cases slot
  · next live => exact ⟨value, found, by simpa using live, slot⟩

theorem slotOf_put {s : Context} {v : Nat} {old : JSValue} (found : s.values[v]? = some old)
    (new : JSValue) (u : Nat) :
    (s.put v new).slotOf u = if u = v then (if new.disposed then none else new.slot)
      else s.slotOf u := by
  have inside := (List.getElem?_eq_some_iff.mp found).1
  simp only [slotOf, put]
  by_cases same : u = v
  · simp [same, List.getElem?_set_self inside]
  · simp [same, List.getElem?_set_ne (Ne.symm same)]

theorem held_put {s : Context} {v : Nat} {old : JSValue} (found : s.values[v]? = some old)
    (new : JSValue) (pointer : Nat) :
    (s.put v new).held pointer + old.holds pointer = s.held pointer + new.holds pointer :=
  tally_set (f := JSValue.holds pointer) found new

theorem mem_put {s : Context} {v : Nat} {new value : JSValue}
    (member : value ∈ (s.put v new).values) : value ∈ s.values ∨ value = new :=
  List.mem_or_eq_of_mem_set member

/-- The state in which `JSValue.dispose` gives the reference back: the handle has left the list. -/
structure Retired (s s' : Context) (value : JSValue) : Prop where
  listed : s'.Listed
  shorter : s'.handles.length + 1 = s.handles.length
  held : ∀ pointer, s'.held pointer + value.holds pointer = s.held pointer
  references : s'.references = s.references
  engine : s'.engine = s.engine
  faults : s'.faults = s.faults
  running : s'.disposed = false
  draining : s'.draining = s.draining
  hostDepth : s'.hostDepth = s.hostDepth

theorem dispose_tracked {s : Context} (listed : s.Listed) {v slot : Nat} {value : JSValue}
    (found : s.values[v]? = some value) (owned : value.owned = true) (live : value.disposed = false)
    (slotted : value.slot = some slot) :
    ∃ s' : Context, s.dispose v value = s'.freeValue value.pointer ∧ s.Retired s' value := by
  have here : s.slotOf v = some slot := by simp [slotOf, found, live, slotted]
  have atSlot := (listed.handles slot v).mpr here
  have running : s.disposed = false := by
    by_contra gone
    have noHandles := listed.emptied (by simpa using gone)
    simp [noHandles] at atSlot
  obtain ⟨last, atEnd⟩ : ∃ last, s.handles.getLast? = some last := by
    cases ending : s.handles.getLast? with
    | some last => exact ⟨last, rfl⟩
    | none => simp [List.getLast?_eq_none_iff.mp ending] at atSlot
  have sound := listed.values value (List.mem_of_getElem? found)
  have tracked : value.tracked = true := by rw [← sound.slotted, slotted]; rfl
  have bound := (List.getElem?_eq_some_iff.mp atSlot).1
  by_cases self : last = v
  · subst self
    let mid : Context := { s with handles := s.handles.dropLast }
    refine ⟨mid.put last value.spent, ?_,
      ⟨⟨?_, ?_, ?_⟩, ?_, fun pointer => ?_, rfl, rfl, rfl, running, rfl, rfl⟩⟩
    · simp [mid, Context.dispose, owned, live, slotted, put, atEnd, unlink, running, JSValue.spent]
    · refine (listed.handles.pop atEnd).congr fun u => ?_
      rw [slotOf_put (s := mid) found]
      by_cases same : u = last
      · simp [same, JSValue.spent]
      · simp only [same, if_false, Function.update_of_ne same]
        rfl
    · intro other member
      rcases mem_put member with old | rfl
      · exact listed.values other old
      · exact sound.spent tracked live
    · intro disposed
      simp [mid, put, running] at disposed
    · simp only [mid, put, List.length_dropLast]
      omega
    · have traded := held_put (s := mid) found value.spent pointer
      rw [JSValue.holds_spent] at traded
      exact traded
  · obtain ⟨i, atI⟩ := Option.isSome_iff_exists.mp
      ((listed.handles.mem_iff last).mp (List.mem_of_getLast? atEnd))
    obtain ⟨other, foundOther, liveOther, slotOther⟩ := slotOf_eq_some atI
    let mid : Context := { s with handles := s.handles.dropLast.set slot last }
    let moved : JSValue := { other with slot := some slot }
    have foundMoved : (mid.put last moved).values[v]? = some value := by
      simpa [mid, put, List.getElem?_set_ne self] using found
    refine ⟨(mid.put last moved).put v value.spent, ?_,
      ⟨⟨?_, ?_, ?_⟩, ?_, fun pointer => ?_, rfl, rfl, rfl, running, rfl, rfl⟩⟩
    · simp [mid, Context.dispose, owned, live, slotted, put, atEnd, unlink, running, JSValue.spent,
        self, List.getElem?_set_ne (Ne.symm self), foundOther, moved, List.set_comm _ _ self]
    · refine (listed.handles.swapRemove here atEnd self).congr fun u => ?_
      rw [slotOf_put foundMoved, slotOf_put (s := mid) foundOther]
      by_cases same : u = v
      · subst same
        simp [JSValue.spent, Function.update_of_ne (Ne.symm self)]
      · by_cases isLast : u = last
        · simp [isLast, self, moved, liveOther]
        · simp only [same, isLast, if_false, Function.update_of_ne isLast,
            Function.update_of_ne same]
          rfl
    · intro another member
      rcases mem_put member with old | rfl
      · rcases mem_put old with older | rfl
        · exact listed.values another older
        · have otherSound := listed.values other (List.mem_of_getElem? foundOther)
          have otherTracked : other.tracked = true := by rw [← otherSound.slotted, slotOther]; rfl
          exact ⟨otherSound.heap, otherTracked.symm, otherSound.released⟩
      · exact sound.spent tracked live
    · intro disposed
      simp [mid, put, running] at disposed
    · simp only [mid, put, List.length_set, List.length_dropLast]
      omega
    · have first := held_put (s := mid) foundOther moved pointer
      have second := held_put foundMoved value.spent pointer
      have kept : moved.holds pointer = other.holds pointer := rfl
      have unchanged : mid.held pointer = s.held pointer := rfl
      rw [JSValue.holds_spent] at second
      omega

-- Handles without a slot only get marked.
theorem dispose_untracked {s : Context} (listed : s.Listed) {v : Nat} {value : JSValue}
    (found : s.values[v]? = some value) (unslotted : value.slot = none) :
    (s.put v { value with disposed := true }).Listed ∧
      ∀ pointer, (s.put v { value with disposed := true }).held pointer = s.held pointer := by
  have sound := listed.values value (List.mem_of_getElem? found)
  have untracked : value.tracked = false := by rw [← sound.slotted, unslotted]; rfl
  have marked : JSValue.tracked { value with disposed := true } = false := untracked
  refine ⟨⟨listed.handles.congr fun u => ?_, fun other member => ?_, listed.emptied⟩,
    fun pointer => ?_⟩
  · rw [slotOf_put found]
    by_cases same : u = v
    · simp [same, slotOf, found, unslotted]
    · simp [same]
  · rcases mem_put member with old | rfl
    · exact listed.values other old
    · refine ⟨sound.heap, sound.slotted, ?_⟩
      have none : value.releases = 0 := by simpa [untracked] using sound.released
      simp only [marked, Bool.false_and, Bool.false_eq_true, if_false]
      exact none
  · have traded := held_put found { value with disposed := true } pointer
    simp only [JSValue.holds, untracked, marked, Bool.false_and, Bool.false_eq_true, if_false,
      Nat.add_zero] at traded
    exact traded

/-! ### Steps -/

theorem Valid.freeValue {s s' : Context} (valid : s.Valid) {value : JSValue}
    (retired : s.Retired s' value)
    (owns : ∀ pointer, value.holds pointer = if value.pointer = pointer then 1 else 0) :
    (s'.freeValue value.pointer).Valid := by
  have counted : counter s'.references value.pointer ≠ 0 := by
    have account := valid.conserved value.pointer
    have held := retired.held value.pointer
    rw [retired.references]
    simp only [owns, if_true] at held
    omega
  have freed : s'.freeValue value.pointer =
      { s' with references := s'.references.modify value.pointer (· - 1) } := by
    simp [Context.freeValue, retired.running, counted]
  rw [freed]
  refine ⟨⟨retired.listed.handles, retired.listed.values, retired.listed.emptied⟩, ?_,
    fun pointer => ?_, retired.faults.trans valid.faultless⟩
  · simpa [retired.references, retired.engine] using valid.cells
  · change counter (s'.references.modify value.pointer (· - 1)) pointer =
      counter s'.engine pointer + s'.held pointer
    have account := valid.conserved pointer
    have held := retired.held pointer
    rw [counter_modify (lt_length_of_counter counted), retired.engine, retired.references]
    rw [owns] at held
    split at held
    · next same =>
        subst same
        rw [if_pos rfl]
        omega
    · next other =>
        rw [if_neg other]
        omega

-- `JSValue.dispose` in any order and any number of times.
theorem Valid.dispose {s : Context} (valid : s.Valid) {v : Nat} {value : JSValue}
    (found : s.values[v]? = some value) : (s.dispose v value).Valid := by
  by_cases active : value.owned = true ∧ value.disposed = false
  · cases slotted : value.slot with
    | none =>
      obtain ⟨listed, held⟩ := dispose_untracked valid.toListed found slotted
      have marks : s.dispose v value = s.put v { value with disposed := true } := by
        simp [Context.dispose, active, slotted]
      rw [marks]
      exact ⟨listed, valid.cells, fun pointer => (held pointer).symm ▸ valid.conserved pointer,
        valid.faultless⟩
    | some slot =>
      obtain ⟨s', disposes, retired⟩ :=
        dispose_tracked valid.toListed found active.1 active.2 slotted
      rw [disposes]
      have sound := valid.values value (List.mem_of_getElem? found)
      have tracked : value.tracked = true := by rw [← sound.slotted, slotted]; rfl
      exact valid.freeValue retired fun pointer => by simp [JSValue.holds, tracked, active.2]
  · have nothing : s.dispose v value = s := by
      simp only [Context.dispose]
      rw [if_pos]
      by_contra other
      simp at other
      exact active other
    rw [nothing]
    exact valid

-- The engine and its part of the references may move as long as both counts move alike.
theorem Valid.balance {s s' : Context} (valid : s.Valid) (values : s'.values = s.values)
    (handles : s'.handles = s.handles) (disposed : s'.disposed = s.disposed)
    (faults : s'.faults = s.faults) (cells : s'.engine.length = s'.references.length)
    (moved : ∀ pointer, counter s'.references pointer + counter s.engine pointer =
      counter s.references pointer + counter s'.engine pointer) :
    s'.Valid := by
  refine ⟨⟨?_, values ▸ valid.values, fun gone => ?_⟩, cells, fun pointer =>
    ?_, faults.trans valid.faultless⟩
  · rw [handles]
    exact valid.handles.congr fun v => by simp [slotOf, values]
  · rw [handles]
    exact valid.emptied (disposed ▸ gone)
  · have account := valid.conserved pointer
    have both := moved pointer
    have same : s'.held pointer = s.held pointer := by simp [held, values]
    omega

-- A tracked handle is made for a reference taken from `s`: from the engine, or by
-- `qjs_bun_dup_value`.
theorem Valid.wrap {s s' : Context} (valid : s.Valid) (running : s.disposed = false) {tag : Int}
    (heap : tag < 0) {pointer : Nat} (values : s'.values = s.values)
    (handles : s'.handles = s.handles) (disposed : s'.disposed = s.disposed)
    (faults : s'.faults = s.faults) (cells : s'.engine.length = s'.references.length)
    (credit : ∀ other, counter s'.references other + counter s.engine other =
      counter s.references other + counter s'.engine other + if pointer = other then 1 else 0) :
    (s'.newJSValue tag pointer true).Valid := by
  have listed : s'.Listed := by
    refine ⟨?_, values ▸ valid.values, fun gone => ?_⟩
    · rw [handles]
      exact valid.handles.congr fun v => by simp [slotOf, values]
    · rw [handles]
      exact valid.emptied (disposed ▸ gone)
  have notRunning : s'.disposed = true → ¬ (true = true ∧ tag < 0) :=
    fun gone => by simp [disposed, running] at gone
  refine ⟨listed.newJSValue tag pointer true (fun _ => rfl) notRunning, ?_, fun other => ?_, ?_⟩
  · simpa [Context.newJSValue, heap] using cells
  · have account := valid.conserved other
    have owed := credit other
    have same : s'.held other = s.held other := by simp [held, values]
    rw [held_newJSValue, same]
    simp only [Context.newJSValue, heap, decide_true, Bool.and_true, if_true, true_and]
    omega
  · simp [Context.newJSValue, heap, faults, valid.faultless]

theorem Valid.untracked {s : Context} (valid : s.Valid) {tag : Int} (simple : ¬ tag < 0)
    (pointer : Nat) (owned : Bool) : (s.newJSValue tag pointer owned).Valid := by
  refine ⟨valid.toListed.newJSValue tag pointer owned (fun heap => absurd heap simple)
    (fun _ both => simple both.2), ?_, fun other => ?_, ?_⟩
  · simpa [Context.newJSValue, simple] using valid.cells
  · rw [held_newJSValue]
    simpa [Context.newJSValue, simple] using valid.conserved other
  · simpa [Context.newJSValue, simple] using valid.faultless

theorem newJSValue_dupValue (s : Context) (tag : Int) (pointer : Nat) (owned : Bool) :
    (s.newJSValue tag pointer owned).dupValue pointer =
      (s.dupValue pointer).newJSValue tag pointer owned := by
  unfold Context.newJSValue
  split <;> rfl

-- A second handle on a cell that has a reference already.
theorem Valid.dup {s : Context} (valid : s.Valid) (running : s.disposed = false) {tag : Int}
    (heap : tag < 0) {pointer : Nat} (known : pointer < s.references.length) :
    ((s.dupValue pointer).newJSValue tag pointer true).Valid := by
  refine valid.wrap running heap rfl rfl rfl rfl (by simpa [dupValue] using valid.cells)
    fun other => ?_
  simp only [dupValue, counter_modify known]
  split <;> omega

-- The cell of a live heap handle has references.
theorem Valid.known {s : Context} (valid : s.Valid) {v : Nat} {value : JSValue}
    (found : s.values[v]? = some value) (tracked : value.tracked = true)
    (live : value.disposed = false) : value.pointer < s.references.length := by
  have owned : value.holds value.pointer = 1 := by simp [JSValue.holds, tracked, live]
  have counted := le_tally (f := JSValue.holds value.pointer) (List.mem_of_getElem? found)
  have account := valid.conserved value.pointer
  refine lt_length_of_counter ?_
  simp only [held] at account
  omega

end Context

open Context in
theorem handleMachine_valid : handleMachine.Invariant (fun _ _ => True) Valid where
  init := by
    refine ⟨⟨fun i v => ?_, ?_, ?_⟩, rfl, fun pointer => ?_, rfl⟩ <;>
      simp [handleMachine, slotOf, held]
  step := by
    intro s s' event valid _ steps
    change s.step event = some s' at steps
    cases event with
    | allocate =>
      refine Option.some.inj steps ▸ valid.balance rfl rfl rfl rfl (by simp [valid.cells])
        fun pointer => ?_
      simp only [counter_append, ← valid.cells]
      split
      · next same => simp [same, valid.cells ▸ counter_length s.references]
      · rfl
    | take pointer =>
      simp only [Context.step] at steps
      split at steps
      · cases steps
      · next counted =>
          have known := lt_length_of_counter counted
          refine Option.some.inj steps ▸ valid.balance rfl rfl rfl rfl
            (by simp [dupValue, valid.cells]) fun other => ?_
          simp only [dupValue, counter_modify known, counter_modify (valid.cells ▸ known)]
          split <;> omega
    | drop pointer =>
      simp only [Context.step] at steps
      split at steps
      · cases steps
      · next counted =>
          have known := lt_length_of_counter counted
          refine Option.some.inj steps ▸ valid.balance rfl rfl rfl rfl (by simp [valid.cells])
            fun other => ?_
          simp only [counter_modify known, counter_modify (valid.cells ▸ known)]
          have account := valid.conserved other
          split
          · next same =>
              subst same
              omega
          · rfl
    | resultHeap tag pointer =>
      simp only [Context.step] at steps
      split at steps
      · cases steps
      · next allowed =>
          obtain ⟨⟨running, heap⟩, counted⟩ : (s.disposed = false ∧ tag < 0) ∧
              counter s.engine pointer ≠ 0 := by
            simpa using allowed
          have known := lt_length_of_counter counted
          refine Option.some.inj steps ▸ valid.wrap running heap rfl rfl rfl rfl
            (by simp [valid.cells]) fun other => ?_
          simp only [counter_modify known]
          split
          · next same =>
              subst same
              omega
          · rfl
    | primitive tag owned =>
      simp only [Context.step] at steps
      split at steps
      · cases steps
      · next simple => exact Option.some.inj steps ▸ valid.untracked simple 0 owned
    | dup v =>
      simp only [Context.step] at steps
      split at steps
      · cases steps
      · next value found =>
          split at steps
          · exact Option.some.inj steps ▸ valid
          · next active =>
              split at steps
              · next heap =>
                  obtain ⟨live, running⟩ : value.disposed = false ∧ s.disposed = false := by
                    simpa [heap] using active
                  have owned := (valid.values value (List.mem_of_getElem? found)).heap heap
                  have tracked : value.tracked = true := by simp [JSValue.tracked, owned, heap]
                  exact Option.some.inj steps ▸ valid.dup running heap
                    (valid.known found tracked live)
              · next simple =>
                  exact Option.some.inj steps ▸ valid.untracked simple value.pointer true
    | borrow tag pointer =>
      simp only [Context.step] at steps
      split at steps
      · cases steps
      · next allowed =>
          obtain ⟨⟨running, heap⟩, counted⟩ : (s.disposed = false ∧ tag < 0) ∧
              counter s.engine pointer ≠ 0 := by
            simpa using allowed
          have known := lt_length_of_counter counted
          rw [newJSValue_dupValue] at steps
          exact Option.some.inj steps ▸ valid.dup running heap (valid.cells ▸ known)
    | dispose v =>
      obtain ⟨value, found, rfl⟩ := Option.map_eq_some_iff.mp steps
      exact valid.dispose found
    | enterHost =>
      exact Option.some.inj steps ▸ valid.balance rfl rfl rfl rfl valid.cells fun _ => rfl
    | leaveHost =>
      simp only [Context.step] at steps
      split at steps
      · cases steps
      · exact Option.some.inj steps ▸ valid.balance rfl rfl rfl rfl valid.cells fun _ => rfl
    | disposeContext =>
      simp only [Context.step] at steps
      split at steps
      · exact Option.some.inj steps ▸ valid
      split at steps
      · cases steps
      · exact Option.some.inj steps ▸ valid.balance rfl rfl rfl rfl valid.cells fun _ => rfl
    | drain =>
      simp only [Context.step] at steps
      split at steps
      · cases steps
      split at steps
      · next empty =>
          refine Option.some.inj steps ▸
            ⟨⟨?_, valid.values, fun _ => List.getLast?_eq_none_iff.mp empty⟩, valid.cells,
            valid.conserved, valid.faultless⟩
          exact valid.handles
      · next last atEnd =>
          obtain ⟨value, found, rfl⟩ := Option.map_eq_some_iff.mp steps
          exact valid.dispose found

/-- What the handle list of a context promises. -/
structure Context.Registered (s : Context) : Prop where
  /-- `handles[i]` is a live owned heap handle whose slot is `i`. -/
  listed : ∀ i v, s.handles[i]? = some v → ∃ value : JSValue, s.values[v]? = some value ∧
    value.disposed = false ∧ value.owned = true ∧ value.tag < 0 ∧ value.slot = some i
  /-- Each such handle occurs exactly once. -/
  occurs : ∀ (v : Nat) (value : JSValue), s.values[v]? = some value → value.disposed = false →
    value.owned = true → value.tag < 0 → s.handles.count v = 1
  /-- Each reference a handle owns is given back once, when the handle is disposed. -/
  released : ∀ (v : Nat) (value : JSValue), s.values[v]? = some value →
    value.releases = if value.owned && decide (value.tag < 0) && value.disposed then 1 else 0
  /-- The engine's counts are what the handles and the engine hold. -/
  conserved : ∀ pointer, counter s.references pointer = counter s.engine pointer + s.held pointer
  /-- No cell was freed without a reference, and none after the context. -/
  faultless : s.faults = 0
  /-- After `JSContext.dispose` the list is empty and every tracked handle disposed. -/
  emptied : s.disposed = true → s.handles = [] ∧
    ∀ value ∈ s.values, value.owned = true → value.tag < 0 → value.disposed = true

namespace Context

theorem Valid.registered {s : Context} (valid : s.Valid) : s.Registered := by
  have occurs : ∀ v value, s.values[v]? = some value → value.disposed = false → value.owned = true →
      value.tag < 0 → v ∈ s.handles := by
    intro v value found live owned heap
    have sound := valid.values value (List.mem_of_getElem? found)
    refine (valid.handles.mem_iff v).mpr ?_
    simp [slotOf, found, live, sound.slotted, JSValue.tracked, owned, heap]
  refine ⟨fun i v at_ => ?_, fun v value found live owned heap => ?_, fun v value found =>
    ?_, valid.conserved,
    valid.faultless, fun gone => ⟨valid.emptied gone, fun value member owned heap => ?_⟩⟩
  · obtain ⟨value, found, live, slot⟩ := slotOf_eq_some ((valid.handles i v).mp at_)
    have sound := valid.values value (List.mem_of_getElem? found)
    have tracked : value.tracked = true := by rw [← sound.slotted, slot]; rfl
    simp only [JSValue.tracked, Bool.and_eq_true, decide_eq_true_eq] at tracked
    exact ⟨value, found, live, tracked.1, tracked.2, slot⟩
  · exact List.count_eq_one_of_mem valid.handles.nodup (occurs v value found live owned heap)
  · exact (valid.values value (List.mem_of_getElem? found)).released
  · obtain ⟨v, found⟩ := List.mem_iff_getElem?.mp member
    by_contra live
    have listed := occurs v value found (by simpa using live) owned heap
    rw [valid.emptied gone] at listed
    cases listed

-- Each round of the loop of `JSContext.dispose` that no finalizer interferes with shortens the
-- list.
theorem Valid.drain {s : Context} (valid : s.Valid) (draining : s.draining = true)
    (idle : s.hostDepth = 0) (rounds : Nat) (length : s.handles.length = rounds) :
    ∃ s', handleMachine.run (fun _ _ => True) s (List.replicate (rounds + 1) .drain) = some s' ∧
      s'.disposed = true := by
  induction rounds generalizing s with
  | zero =>
    have empty := List.eq_nil_of_length_eq_zero length
    refine ⟨{ s with disposed := true, draining := false }, ?_, rfl⟩
    simp [Machine.run, handleMachine, Context.step, draining, idle, empty]
  | succ rounds ih =>
    obtain ⟨last, atEnd⟩ : ∃ last, s.handles.getLast? = some last := by
      cases ending : s.handles.getLast? with
      | some last => exact ⟨last, rfl⟩
      | none => simp [List.getLast?_eq_none_iff.mp ending] at length
    obtain ⟨i, atI⟩ := Option.isSome_iff_exists.mp
      ((valid.handles.mem_iff last).mp (List.mem_of_getLast? atEnd))
    obtain ⟨value, found, live, slot⟩ := slotOf_eq_some atI
    have sound := valid.values value (List.mem_of_getElem? found)
    have tracked : value.tracked = true := by rw [← sound.slotted, slot]; rfl
    simp only [JSValue.tracked, Bool.and_eq_true, decide_eq_true_eq] at tracked
    obtain ⟨s', disposes, retired⟩ := dispose_tracked valid.toListed found tracked.1 live slot
    have next := valid.dispose found
    have steps : handleMachine.step s .drain = some (s.dispose last value) := by
      simp [handleMachine, Context.step, draining, idle, atEnd, found]
    have same : (s.dispose last value).handles = s'.handles ∧
        (s.dispose last value).draining = true ∧ (s.dispose last value).hostDepth = 0 := by
      rw [disposes]
      unfold Context.freeValue
      split <;> exact ⟨rfl, retired.draining.trans draining, retired.hostDepth.trans idle⟩
    have shorter := retired.shorter
    obtain ⟨s'', runs, gone⟩ := ih next same.2.1 same.2.2 (by rw [same.1]; omega)
    refine ⟨s'', ?_, gone⟩
    rw [List.replicate_succ, Machine.run, if_pos trivial, steps]
    exact runs

end Context

/-- In every state of every run the registry is in order, and a `JSContext.dispose` under way comes
to its end once no finalizer makes new handles. -/
theorem handles_registered {s : Context} (reaches : handleMachine.Reaches (fun _ _ => True) s) :
    s.Registered ∧ (s.draining = true → s.hostDepth = 0 →
      ∃ s', handleMachine.run (fun _ _ => True) s
        (List.replicate (s.handles.length + 1) .drain) = some s' ∧ s'.disposed = true) := by
  have valid := handleMachine_valid.reached reaches
  exact ⟨valid.registered, fun draining idle => valid.drain draining idle _ rfl⟩

theorem handles_registered_after_dispose :
    (⟨[⟨-1, 0, true, some 0, true, 1⟩, ⟨-1, 0, true, some 0, true, 1⟩], [], true, false, 0,
      [0], [0], 0⟩ : Context).Registered :=
  (handles_registered (Machine.Reaches.run
    [.allocate, .resultHeap (-1) 0, .dup 0, .dispose 0, .enterHost, .disposeContext, .leaveHost,
      .disposeContext, .drain, .drain] .init rfl)).1

end QuickJSBun.Handle
