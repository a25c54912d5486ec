import QuickJSBun.Library.Machine
import QuickJSBun.Library.Tally
import QuickJSBun.Library.Utf8

/-! The atom caches of the contexts of a runtime: `JSContext.atom`, the flush at 4096
entries and `JSContext.dispose`, with property operations that nest through host
callbacks in any context.

The engine's atoms are places of a table. A place whose count is zero is free and may
be given to another text, so a stale atom number would stand for another key. Atoms
that the engine never frees are held by `others` for good.
-/

set_option autoImplicit false

namespace QuickJSBun.Handle.Atoms

open Library

/-- A context and its `#atoms`, in the order of insertion. -/
structure Context where
  disposed : Bool
  atoms : List (Text × Nat)
  deriving DecidableEq

/-- An atom number on its way through a native call. -/
structure Passed where
  context : Nat
  key : Text
  atom : Nat
  deriving DecidableEq

inductive Frame where
  /-- A native call and the cached atom it was given. -/
  | native (passed : Option Passed)
  /-- Host code called by the engine. -/
  | callback
  /-- The loop of `JSContext.dispose` over the handles. -/
  | disposing (context : Nat)
  deriving DecidableEq

/-- `keys` and `references` are the engine's table; `others` counts the references that are not of a
cache. `taken` and `released` count what the caches did with theirs. -/
structure Runtime where
  hostDepth : Nat
  keys : List Text
  references : List Nat
  others : List Nat
  contexts : List Context
  stack : List Frame
  taken : Nat
  released : Nat
  deriving DecidableEq

/-! ### The engine's table -/

def Runtime.find (rt : Runtime) (key : Text) : Option Nat :=
  (List.range rt.keys.length).find? fun i => rt.keys[i]? == some key && 0 < counter rt.references i

/-- `JS_NewAtomLen`: a reference of the atom of a text; a new one gets a free place or one at the
end. -/
def Runtime.newAtomLen (rt : Runtime) (key : Text) (place : Nat) : Option (Nat × Runtime) :=
  match rt.find key with
  | some atom => some (atom, { rt with references := raise rt.references [atom] })
  | none =>
    if place < rt.keys.length then
      if counter rt.references place = 0 then
        some (place, { rt with keys := rt.keys.set place key, references := raise rt.references [place] })
      else none
    else some (rt.keys.length,
      { rt with keys := rt.keys ++ [key], references := rt.references ++ [1], others := rt.others ++ [0] })

/-! ### The cache -/

/-- Host code of the user is running: at the bottom or in a callback. -/
def Runtime.hostRuns (rt : Runtime) : Bool :=
  match rt.stack with
  | [] => true
  | .callback :: _ => true
  | _ => false

/-- Host code that may enter the engine: also the loop of a dispose. -/
def Runtime.mayCall (rt : Runtime) : Bool :=
  match rt.stack with
  | .native _ :: _ => false
  | _ => true

/-- `JS_FreeAtom` for every entry, and `clear`. -/
def Runtime.clear (rt : Runtime) (c : Nat) (context : Context) : Runtime :=
  { rt with
    references := lower rt.references (context.atoms.map Prod.snd)
    released := rt.released + context.atoms.length
    contexts := rt.contexts.set c { context with atoms := [] } }

-- The flush of a miss.
def Runtime.flush (rt : Runtime) (c : Nat) (context : Context) : Runtime :=
  if 4096 ≤ context.atoms.length && rt.hostDepth == 0 then rt.clear c context else rt

/-- `#atoms.set` -/
def Runtime.cache (rt : Runtime) (c : Nat) (key : Text) (atom : Nat) : Runtime :=
  { rt with
    taken := rt.taken + 1
    contexts := rt.contexts.modify c fun context =>
      { context with atoms := context.atoms ++ [(key, atom)] } }

/-- `JSContext.atom` for a text, when the engine has memory for it. -/
def Runtime.atom (rt : Runtime) (c : Nat) (context : Context) (key : Text) (place : Nat) :
    Option (Nat × Runtime) :=
  match context.atoms.find? (·.1 == key) with
  | some (_, atom) => some (atom, rt)
  | none => ((rt.flush c context).newAtomLen key place).map fun (atom, rt) =>
    (atom, rt.cache c key atom)

/-! ### Runs -/

inductive Event where
  /-- A property operation: `atom(key)`, then the native call it is passed to. -/
  | property (c : Nat) (key : Text) (place : Nat)
  /-- `atom(key)` throws because the engine has no memory. -/
  | atomFails (c : Nat) (key : Text)
  /-- Any other native call. -/
  | native
  | callback
  /-- The innermost native call or callback is over. -/
  | returns
  | newContext
  /-- `JSContext.dispose` starts to dispose the handles. -/
  | dispose (c : Nat)
  /-- It has disposed the handles, and frees the atoms and then the context. -/
  | disposed
  /-- The engine, a guest or a `JSAtom` takes a reference of an atom that is there. -/
  | take (atom : Nat)
  | drop (atom : Nat)
  /-- Somebody else makes an atom. -/
  | make (key : Text) (place : Nat)
  deriving DecidableEq

/-- A context as long as `ctx` does not throw. -/
def Runtime.live (rt : Runtime) (c : Nat) : Option Context :=
  (rt.contexts[c]?).filter fun context => !context.disposed

def Runtime.push (rt : Runtime) (frame : Frame) : Runtime := { rt with stack := frame :: rt.stack }

def step (rt : Runtime) : Event → Option Runtime
  | .property c key place =>
    if rt.hostRuns then
      match rt.live c with
      | none => none
      | some context => (rt.atom c context key place).map fun (atom, rt) =>
        rt.push (.native (some ⟨c, key, atom⟩))
    else none
  | .atomFails c key =>
    if rt.hostRuns then
      match rt.live c with
      | none => none
      | some context =>
        match context.atoms.find? (·.1 == key) with
        | some _ => none
        | none => some ((rt.flush c context).push (.native none))
    else none
  | .native => if rt.mayCall then some (rt.push (.native none)) else none
  | .callback =>
    match rt.stack with
    | .native _ :: _ =>
      some { rt with hostDepth := rt.hostDepth + 1, stack := .callback :: rt.stack }
    | _ => none
  | .returns =>
    match rt.stack with
    | .native _ :: rest => some { rt with stack := rest }
    | .callback :: rest => some { rt with hostDepth := rt.hostDepth - 1, stack := rest }
    | _ => none
  | .newContext =>
    if rt.hostRuns then some { rt with contexts := rt.contexts ++ [⟨false, []⟩] } else none
  | .dispose c =>
    if rt.hostRuns then
      match rt.live c with
      | none => none
      | some _ => if rt.hostDepth = 0 then some (rt.push (.disposing c)) else none
    else none
  | .disposed =>
    match rt.stack with
    | .disposing c :: rest =>
      (rt.contexts[c]?).map fun context =>
        { rt.clear c { context with disposed := true } with stack := .native none :: rest }
    | _ => none
  | .take atom =>
    if 0 < counter rt.references atom then
      some { rt with references := raise rt.references [atom], others := raise rt.others [atom] }
    else none
  | .drop atom =>
    if 0 < counter rt.others atom then
      some { rt with references := lower rt.references [atom], others := lower rt.others [atom] }
    else none
  | .make key place =>
    (rt.newAtomLen key place).map fun (atom, rt) => { rt with others := raise rt.others [atom] }

def machine : Machine Runtime Event := ⟨⟨0, [], [], [], [], [], 0, 0⟩, step⟩

/-! ### What every state satisfies -/

-- How many entries of a cache hold an atom.
def Context.holds (i : Nat) (context : Context) : Nat := (context.atoms.map Prod.snd).count i

structure Valid (rt : Runtime) : Prop where
  keysLength : rt.keys.length = rt.references.length
  othersLength : rt.others.length = rt.references.length
  accounted : ∀ i,
    counter rt.references i = counter rt.others i + tally (Context.holds i) rt.contexts
  mapped : ∀ context ∈ rt.contexts, ∀ entry ∈ context.atoms, rt.keys[entry.2]? = some entry.1
  distinct : ∀ context ∈ rt.contexts, (context.atoms.map Prod.fst).Nodup
  passed : ∀ passed, .native (some passed) ∈ rt.stack →
    ∃ context, rt.contexts[passed.context]? = some context ∧
    (passed.key, passed.atom) ∈ context.atoms
  depth : rt.hostDepth = rt.stack.count .callback
  bottom : ∀ c, .disposing c ∉ rt.stack.dropLast
  dead : ∀ context ∈ rt.contexts, context.disposed = true → context.atoms = []
  ledger : rt.taken = rt.released + tally (fun context => context.atoms.length) rt.contexts

theorem Valid.init : Valid machine.init := by
  constructor <;> simp [machine, counter]

theorem holds_pos {context : Context} {key : Text} {atom : Nat} (member : (key, atom) ∈ context.atoms) :
    0 < context.holds atom :=
  List.count_pos_iff.mpr (List.mem_map_of_mem member)

-- A cached atom has a reference.
theorem Valid.referenced {rt : Runtime} (valid : Valid rt) {context : Context} (known : context ∈ rt.contexts)
    {key : Text} {atom : Nat} (member : (key, atom) ∈ context.atoms) : 0 < counter rt.references atom := by
  have held : context.holds atom ≤ tally (Context.holds atom) rt.contexts := le_tally known
  have := holds_pos member
  have := valid.accounted atom
  omega

-- User code runs at depth zero only when no call is in flight.
theorem Valid.idle {rt : Runtime} (valid : Valid rt) (runs : rt.hostRuns = true) (depth : rt.hostDepth = 0) :
    rt.stack = [] := by
  have none := valid.depth.symm.trans depth
  unfold Runtime.hostRuns at runs
  split at runs
  · next empty => exact empty
  · next rest top =>
      rw [top, List.count_cons_self] at none
      cases none
  · cases runs

/-! ### One step -/

structure Interned (rt rt' : Runtime) (key : Text) (atom : Nat) : Prop where
  same : rt'.hostDepth = rt.hostDepth ∧ rt'.contexts = rt.contexts ∧ rt'.stack = rt.stack ∧
    rt'.taken = rt.taken ∧ rt'.released = rt.released
  keysLength : rt'.keys.length = rt'.references.length
  othersLength : rt'.others.length = rt'.references.length
  references : ∀ i, counter rt'.references i = counter rt.references i + if atom = i then 1 else 0
  others : ∀ i, counter rt'.others i = counter rt.others i
  kept : ∀ i, 0 < counter rt.references i → rt'.keys[i]? = rt.keys[i]?
  key : rt'.keys[atom]? = some key

theorem find_spec {rt : Runtime} {key : Text} {atom : Nat} (found : rt.find key = some atom) :
    atom < rt.keys.length ∧ rt.keys[atom]? = some key ∧ 0 < counter rt.references atom := by
  have meets := List.find?_some found
  simp only [Bool.and_eq_true, beq_iff_eq, decide_eq_true_eq] at meets
  exact ⟨List.mem_range.mp (List.mem_of_find?_eq_some found), meets⟩

theorem newAtomLen_spec {rt rt' : Runtime} (valid : Valid rt) {key : Text} {place atom : Nat}
    (made : rt.newAtomLen key place = some (atom, rt')) : Interned rt rt' key atom := by
  unfold Runtime.newAtomLen at made
  split at made
  · next there found =>
      obtain ⟨rfl, rfl⟩ : there = atom ∧ _ = rt' := by simpa using made
      obtain ⟨below, named, -⟩ := find_spec found
      constructor
      · exact ⟨rfl, rfl, rfl, rfl, rfl⟩
      · simpa using valid.keysLength
      · simpa using valid.othersLength
      · exact counter_raise_one (valid.keysLength ▸ below)
      · exact fun _ => rfl
      · exact fun _ _ => rfl
      · exact named
  · split at made
    · next below =>
        split at made
        · next free =>
            obtain ⟨rfl, rfl⟩ : place = atom ∧ _ = rt' := by simpa using made
            constructor
            · exact ⟨rfl, rfl, rfl, rfl, rfl⟩
            · simpa using valid.keysLength
            · simpa using valid.othersLength
            · exact counter_raise_one (valid.keysLength ▸ below)
            · exact fun _ => rfl
            · intro i referenced
              have other : place ≠ i := by
                rintro rfl
                omega
              exact List.getElem?_set_ne other
            · exact List.getElem?_set_self below
        · cases made
    · next =>
        obtain ⟨rfl, rfl⟩ : rt.keys.length = atom ∧ _ = rt' := by simpa using made
        constructor
        · exact ⟨rfl, rfl, rfl, rfl, rfl⟩
        · simpa using valid.keysLength
        · simpa using valid.othersLength
        · intro i
          rw [counter_append, valid.keysLength]
          by_cases last : rt.references.length = i
          · subst last
            simp
          · rw [if_neg (Ne.symm last), if_neg last]
            rfl
        · intro i
          rw [counter_append]
          split
          · next last =>
              subst last
              rw [counter_length]
          · rfl
        · intro i referenced
          have below := lt_length_of_counter (Nat.ne_of_gt referenced)
          exact List.getElem?_append_left (valid.keysLength ▸ below)
        · simp

-- Dropping a cache releases each of its references once; nothing that is in flight may rest on it.
theorem Valid.clear {rt : Runtime} (valid : Valid rt) {c : Nat} {context cleared : Context}
    (known : rt.contexts[c]? = some context) (atoms : cleared.atoms = context.atoms)
    (unused : ∀ passed, .native (some passed) ∈ rt.stack → passed.context ≠ c) :
    Valid (rt.clear c cleared) := by
  have traded (f : Context → Nat) := tally_set (f := f) known { cleared with atoms := [] }
  have entries {entry : Context} (member : entry ∈ (rt.clear c cleared).contexts) :
      entry ∈ rt.contexts ∨ entry.atoms = [] := by
    rcases List.mem_or_eq_of_mem_set member with old | rfl
    · exact .inl old
    · exact .inr rfl
  constructor
  · exact valid.keysLength.trans (length_lower _ _).symm
  · exact valid.othersLength.trans (length_lower _ _).symm
  · intro i
    have before := valid.accounted i
    have moved := traded (Context.holds i)
    have zero : ({ cleared with atoms := [] } : Context).holds i = 0 := rfl
    simp only [Runtime.clear, counter_lower, atoms]
    simp only [zero] at moved
    have held : context.holds i = (context.atoms.map Prod.snd).count i := rfl
    omega
  · intro entry member
    rcases entries member with old | empty
    · exact valid.mapped entry old
    · simp [empty]
  · intro entry member
    rcases entries member with old | empty
    · exact valid.distinct entry old
    · simp [empty]
  · intro passed member
    obtain ⟨owner, there, cached⟩ := valid.passed passed member
    refine ⟨owner, ?_, cached⟩
    exact (List.getElem?_set_ne (unused passed member).symm).trans there
  · exact valid.depth
  · exact valid.bottom
  · intro entry member gone
    rcases entries member with old | empty
    · exact valid.dead entry old gone
    · exact empty
  · have moved := traded fun context => context.atoms.length
    have before := valid.ledger
    simp only [Runtime.clear, atoms] at moved ⊢
    simp only [List.length_nil] at moved
    omega

theorem Valid.flush {rt : Runtime} (valid : Valid rt) {c : Nat} {context : Context}
    (known : rt.contexts[c]? = some context) (runs : rt.hostRuns = true) :
    Valid (rt.flush c context) := by
  unfold Runtime.flush
  split
  · next full =>
      simp only [Bool.and_eq_true, beq_iff_eq] at full
      have idle := valid.idle runs full.2
      exact valid.clear known rfl (by simp [idle])
  · exact valid

theorem absent_of_missed {context : Context} {key : Text}
    (missed : context.atoms.find? (·.1 == key) = none) : key ∉ context.atoms.map Prod.fst := by
  intro member
  obtain ⟨entry, inCache, same⟩ := List.mem_map.mp member
  have other := List.find?_eq_none.mp missed entry inCache
  simp [same] at other

-- The context after a flush still has no entry for the key.
theorem flush_context {rt : Runtime} {c : Nat} {context : Context}
    (known : rt.contexts[c]? = some context) {key : Text}
    (absent : key ∉ context.atoms.map Prod.fst) :
    ∃ flushed, (rt.flush c context).contexts[c]? = some flushed ∧
    flushed.disposed = context.disposed ∧
      key ∉ flushed.atoms.map Prod.fst := by
  unfold Runtime.flush
  split
  · have below : c < rt.contexts.length := (List.getElem?_eq_some_iff.mp known).1
    exact ⟨_, List.getElem?_set_self below, rfl, by simp⟩
  · exact ⟨context, known, rfl, absent⟩

-- A new entry takes over the reference that was made for it.
theorem Valid.cache {rt rt' : Runtime} (valid : Valid rt) {c : Nat} {context : Context} {key : Text}
    {atom : Nat} (interned : Interned rt rt' key atom) (known : rt.contexts[c]? = some context)
    (live : context.disposed = false) (absent : key ∉ context.atoms.map Prod.fst) :
    Valid (rt'.cache c key atom) := by
  obtain ⟨hostDepth, contexts, stack, taken, released⟩ := interned.same
  let grown : Context := { context with atoms := context.atoms ++ [(key, atom)] }
  have grew : (rt'.cache c key atom).contexts = rt.contexts.set c grown := by
    simp [Runtime.cache, contexts, List.modify_eq_set_getElem?, known, grown]
  have traded (f : Context → Nat) := tally_set (f := f) known grown
  have named {entry : Text × Nat} (member : entry ∈ context.atoms) :
      rt'.keys[entry.2]? = some entry.1 := by
    have inCache := List.mem_of_getElem? known
    rw [interned.kept entry.2 (valid.referenced inCache member)]
    exact valid.mapped context inCache entry member
  constructor
  · exact interned.keysLength
  · exact interned.othersLength
  · intro i
    have before := valid.accounted i
    have moved := traded (Context.holds i)
    have held : grown.holds i = context.holds i + if atom = i then 1 else 0 := by
      simp only [grown, Context.holds, List.map_append, List.map_cons, List.map_nil,
        List.count_append, List.count_cons, List.count_nil, beq_iff_eq, Nat.zero_add]
    rw [grew]
    simp only [Runtime.cache, interned.references, interned.others]
    omega
  · rw [grew]
    intro entry member pair inEntry
    rcases List.mem_or_eq_of_mem_set member with old | rfl
    · have there := interned.kept pair.2 (valid.referenced old inEntry)
      exact there.trans (valid.mapped entry old pair inEntry)
    · rcases List.mem_append.mp inEntry with earlier | last
      · exact named earlier
      · obtain rfl := List.mem_singleton.mp last
        exact interned.key
  · rw [grew]
    intro entry member
    rcases List.mem_or_eq_of_mem_set member with old | rfl
    · exact valid.distinct entry old
    · have earlier := valid.distinct context (List.mem_of_getElem? known)
      simp only [grown, List.map_append, List.map_cons, List.map_nil]
      exact earlier.append (List.nodup_singleton key) (by simpa using absent)
  · rw [grew]
    intro passed member
    obtain ⟨owner, there, cached⟩ := valid.passed passed (stack ▸ member)
    by_cases same : c = passed.context
    · subst same
      obtain rfl : context = owner := Option.some.inj (known.symm.trans there)
      have below : passed.context < rt.contexts.length := (List.getElem?_eq_some_iff.mp known).1
      exact ⟨grown, List.getElem?_set_self below, List.mem_append_left _ cached⟩
    · exact ⟨owner, (List.getElem?_set_ne same).trans there, cached⟩
  · simp only [Runtime.cache, hostDepth, stack]
    exact valid.depth
  · simp only [Runtime.cache, stack]
    exact valid.bottom
  · rw [grew]
    intro entry member gone
    rcases List.mem_or_eq_of_mem_set member with old | rfl
    · exact valid.dead entry old gone
    · exact absurd gone (by simp [grown, live])
  · have moved := traded fun context => context.atoms.length
    have before := valid.ledger
    have longer : grown.atoms.length = context.atoms.length + 1 := List.length_append
    rw [grew]
    simp only [Runtime.cache, taken, released]
    omega

-- `atom` gives the entry that the cache has for the key afterwards, and moves nothing else.
theorem Valid.atom {rt rt' : Runtime} (valid : Valid rt) {c : Nat} {context : Context}
    (known : rt.contexts[c]? = some context) (live : context.disposed = false)
    (runs : rt.hostRuns = true) {key : Text} {place atom : Nat}
    (made : rt.atom c context key place = some (atom, rt')) :
    Valid rt' ∧ (∃ context, rt'.contexts[c]? = some context ∧ (key, atom) ∈ context.atoms) ∧
    rt'.stack = rt.stack ∧
      rt'.hostDepth = rt.hostDepth := by
  unfold Runtime.atom at made
  split at made
  · next found_ number found =>
      obtain ⟨rfl, rfl⟩ : number = atom ∧ rt = rt' := by simpa using made
      have named : found_ = key := by simpa using List.find?_some found
      subst named
      exact ⟨valid, ⟨context, known, List.mem_of_find?_eq_some found⟩, rfl, rfl⟩
  · next missed =>
      obtain ⟨⟨number, table⟩, interning, is⟩ := Option.map_eq_some_iff.mp made
      obtain ⟨rfl, rfl⟩ : number = atom ∧ table.cache c key number = rt' := by simpa using is
      have absent := absent_of_missed missed
      have flushed := valid.flush known runs
      obtain ⟨left, there, alive, gone⟩ := flush_context known absent
      have interned := newAtomLen_spec flushed interning
      have cached := flushed.cache interned there (alive.trans live) gone
      obtain ⟨hostDepth, contexts, stack, -, -⟩ := interned.same
      have unmoved : (rt.flush c context).stack = rt.stack ∧
          (rt.flush c context).hostDepth = rt.hostDepth := by
        unfold Runtime.flush
        split <;> exact ⟨rfl, rfl⟩
      refine ⟨cached, ⟨{ left with atoms := left.atoms ++ [(key, number)] }, ?_, by simp⟩, ?_, ?_⟩
      · simp [Runtime.cache, contexts, there]
      · exact stack.trans unmoved.1
      · exact hostDepth.trans unmoved.2

theorem live_spec {rt : Runtime} {c : Nat} {context : Context} (live : rt.live c = some context) :
    rt.contexts[c]? = some context ∧ context.disposed = false := by
  obtain ⟨known, alive⟩ := Option.filter_eq_some_iff.mp live
  exact ⟨known, by simpa using alive⟩

theorem Valid.push {rt : Runtime} (valid : Valid rt) {passed : Option Passed}
    (cached : ∀ p, passed = some p → ∃ context, rt.contexts[p.context]? = some context ∧
      (p.key, p.atom) ∈ context.atoms) :
    Valid (rt.push (.native passed)) where
  keysLength := valid.keysLength
  othersLength := valid.othersLength
  accounted := valid.accounted
  mapped := valid.mapped
  distinct := valid.distinct
  passed p member := by
    rcases List.mem_cons.mp member with top | below
    · exact cached p (by simpa using top.symm)
    · exact valid.passed p below
  depth := by
    rw [Runtime.push, List.count_cons_of_ne (by simp)]
    exact valid.depth
  bottom c member := by
    cases shape : rt.stack with
    | nil => simp [Runtime.push, shape] at member
    | cons frame rest =>
      have below := valid.bottom c
      rw [shape] at below
      simp only [Runtime.push, shape, List.dropLast_cons_cons, List.mem_cons, reduceCtorEq,
        false_or] at member
      exact below member
  dead := valid.dead
  ledger := valid.ledger

theorem Valid.pop {rt : Runtime} (valid : Valid rt) {frame : Frame} {rest : List Frame}
    (shape : rt.stack = frame :: rest) {hostDepth : Nat}
    (depth : hostDepth = rest.count .callback) : Valid { rt with hostDepth, stack := rest } where
  keysLength := valid.keysLength
  othersLength := valid.othersLength
  accounted := valid.accounted
  mapped := valid.mapped
  distinct := valid.distinct
  passed p member := valid.passed p (by rw [shape]; exact List.mem_cons_of_mem _ member)
  depth := depth
  bottom c member := by
    have bottom := valid.bottom c
    rw [shape] at bottom
    cases rest with
    | nil => cases member
    | cons next rest => exact bottom (List.mem_cons_of_mem _ member)
  dead := valid.dead
  ledger := valid.ledger

-- Others take or release references of their own.
theorem Valid.table {rt : Runtime} (valid : Valid rt) {references others : List Nat}
    (lengths : references.length = rt.references.length ∧ others.length = rt.references.length)
    (moved : ∀ i, counter references i + counter rt.others i = counter rt.references i +
      counter others i)
    (within : ∀ i, counter rt.others i ≤ counter rt.references i) :
    Valid { rt with references, others } where
  keysLength := valid.keysLength.trans lengths.1.symm
  othersLength := lengths.2.trans lengths.1.symm
  accounted i := by
    have before := valid.accounted i
    have := moved i
    have := within i
    simp only
    omega
  mapped := valid.mapped
  distinct := valid.distinct
  passed := valid.passed
  depth := valid.depth
  bottom := valid.bottom
  dead := valid.dead
  ledger := valid.ledger

theorem Valid.make {rt rt' : Runtime} (valid : Valid rt) {key : Text} {atom : Nat}
    (interned : Interned rt rt' key atom) :
    Valid { rt' with others := raise rt'.others [atom] } := by
  obtain ⟨hostDepth, contexts, stack, taken, released⟩ := interned.same
  have below : atom < rt'.others.length := by
    rw [interned.othersLength, ← interned.keysLength]
    exact (List.getElem?_eq_some_iff.mp interned.key).1
  constructor
  · exact interned.keysLength
  · exact (length_raise _ _).trans interned.othersLength
  · intro i
    have before := valid.accounted i
    simp only [counter_raise_one below, interned.references, interned.others, contexts]
    omega
  · simp only [contexts]
    intro entry member pair inEntry
    exact (interned.kept pair.2 (valid.referenced member inEntry)).trans
      (valid.mapped entry member pair inEntry)
  · simpa only [contexts] using valid.distinct
  · simpa only [contexts, stack] using valid.passed
  · simpa only [hostDepth, stack] using valid.depth
  · simpa only [stack] using valid.bottom
  · simpa only [contexts] using valid.dead
  · simpa only [contexts, taken, released] using valid.ledger

theorem Valid.newContext {rt : Runtime} (valid : Valid rt) :
    Valid { rt with contexts := rt.contexts ++ [⟨false, []⟩] } := by
  have added (f : Context → Nat) (empty : f ⟨false, []⟩ = 0) :
      tally f (rt.contexts ++ [⟨false, []⟩]) = tally f rt.contexts := by
    simp [empty]
  have entries {entry : Context} (member : entry ∈ rt.contexts ++ [⟨false, []⟩]) :
      entry ∈ rt.contexts ∨ entry.atoms = [] := by
    rcases List.mem_append.mp member with old | new
    · exact .inl old
    · obtain rfl := List.mem_singleton.mp new
      exact .inr rfl
  constructor
  · exact valid.keysLength
  · exact valid.othersLength
  · intro i
    rw [added _ rfl]
    exact valid.accounted i
  · intro entry member
    rcases entries member with old | empty
    · exact valid.mapped entry old
    · simp [empty]
  · intro entry member
    rcases entries member with old | empty
    · exact valid.distinct entry old
    · simp [empty]
  · intro passed member
    obtain ⟨owner, there, cached⟩ := valid.passed passed member
    have below : passed.context < rt.contexts.length := (List.getElem?_eq_some_iff.mp there).1
    exact ⟨owner, (List.getElem?_append_left below).trans there, cached⟩
  · exact valid.depth
  · exact valid.bottom
  · intro entry member gone
    rcases entries member with old | empty
    · exact valid.dead entry old gone
    · exact empty
  · rw [added _ rfl]
    exact valid.ledger

-- A dispose starts when nothing is in flight, so it stays at the bottom of the stack.
theorem Valid.dispose {rt : Runtime} (valid : Valid rt) (runs : rt.hostRuns = true)
    (depth : rt.hostDepth = 0) (c : Nat) : Valid (rt.push (.disposing c)) := by
  have idle := valid.idle runs depth
  constructor
  · exact valid.keysLength
  · exact valid.othersLength
  · exact valid.accounted
  · exact valid.mapped
  · exact valid.distinct
  · simp [Runtime.push, idle]
  · simp [Runtime.push, idle, depth]
  · simp [Runtime.push, idle]
  · exact valid.dead
  · exact valid.ledger

-- When the loop of a dispose is over nothing is in flight.
theorem Valid.disposing {rt : Runtime} (valid : Valid rt) {c : Nat} {rest : List Frame}
    (shape : rt.stack = .disposing c :: rest) : rest = [] := by
  cases rest with
  | nil => rfl
  | cons frame rest =>
    have bottom := valid.bottom c
    rw [shape] at bottom
    exact absurd List.mem_cons_self bottom

theorem Valid.step {rt rt' : Runtime} {event : Event} (valid : Valid rt) (steps : step rt event = some rt') :
    Valid rt' := by
  have within (i : Nat) : counter rt.others i ≤ counter rt.references i := by
    have := valid.accounted i
    omega
  cases event with
  | property c key place =>
    simp only [Atoms.step] at steps
    split at steps
    · next runs =>
        split at steps
        · cases steps
        · next context live =>
            obtain ⟨known, alive⟩ := live_spec live
            obtain ⟨⟨atom, next⟩, made, rfl⟩ := Option.map_eq_some_iff.mp steps
            obtain ⟨kept, ⟨owner, there, cached⟩, -, -⟩ := valid.atom known alive runs made
            apply kept.push
            rintro _ ⟨⟩
            exact ⟨owner, there, cached⟩
    · cases steps
  | atomFails c key =>
    simp only [Atoms.step] at steps
    split at steps
    · next runs =>
        split at steps
        · cases steps
        · next context live =>
            obtain ⟨known, -⟩ := live_spec live
            split at steps
            · cases steps
            · obtain rfl := Option.some.inj steps
              exact (valid.flush known runs).push nofun
    · cases steps
  | native =>
    simp only [Atoms.step] at steps
    split at steps
    · obtain rfl := Option.some.inj steps
      exact valid.push nofun
    · cases steps
  | callback =>
    simp only [Atoms.step] at steps
    split at steps
    · next passed rest shape =>
        obtain rfl := Option.some.inj steps
        constructor
        · exact valid.keysLength
        · exact valid.othersLength
        · exact valid.accounted
        · exact valid.mapped
        · exact valid.distinct
        · simpa using valid.passed
        · simpa using valid.depth
        · intro c member
          rw [shape, List.dropLast_cons_cons, List.mem_cons] at member
          rcases member with absurd_ | below
          · cases absurd_
          · exact valid.bottom c (shape ▸ below)
        · exact valid.dead
        · exact valid.ledger
    · cases steps
  | returns =>
    simp only [Atoms.step] at steps
    have depth := valid.depth
    split at steps
    · next passed rest shape =>
        obtain rfl := Option.some.inj steps
        rw [shape, List.count_cons_of_ne (by simp)] at depth
        exact valid.pop shape depth
    · next rest shape =>
        obtain rfl := Option.some.inj steps
        rw [shape, List.count_cons_self] at depth
        exact valid.pop shape (by omega)
    · cases steps
  | newContext =>
    simp only [Atoms.step] at steps
    split at steps
    · obtain rfl := Option.some.inj steps
      exact valid.newContext
    · cases steps
  | dispose c =>
    simp only [Atoms.step] at steps
    split at steps
    · next runs =>
        split at steps
        · cases steps
        · split at steps
          · next depth =>
              obtain rfl := Option.some.inj steps
              exact valid.dispose runs depth c
          · cases steps
    · cases steps
  | disposed =>
    simp only [Atoms.step] at steps
    split at steps
    · next c rest shape =>
        obtain ⟨context, known, rfl⟩ := Option.map_eq_some_iff.mp steps
        obtain rfl := valid.disposing shape
        have cleared : Valid (rt.clear c { context with disposed := true }) := valid.clear known rfl (by simp [shape])
        have popped : Valid { rt.clear c { context with disposed := true } with hostDepth := 0, stack := [] } :=
          cleared.pop shape rfl
        have depth : rt.hostDepth = 0 := by
          rw [valid.depth, shape]
          rfl
        have pushed : Valid (Runtime.push _ (.native none)) := popped.push nofun
        simpa [Runtime.push, Runtime.clear, depth] using pushed
    · cases steps
  | take atom =>
    simp only [Atoms.step] at steps
    split at steps
    · next referenced =>
        obtain rfl := Option.some.inj steps
        have below := lt_length_of_counter (Nat.ne_of_gt referenced)
        apply valid.table
        · exact ⟨length_raise _ _, (length_raise _ _).trans valid.othersLength⟩
        · intro i
          rw [counter_raise_one below, counter_raise_one (valid.othersLength ▸ below)]
          omega
        · exact within
    · cases steps
  | drop atom =>
    simp only [Atoms.step] at steps
    split at steps
    · next held =>
        obtain rfl := Option.some.inj steps
        apply valid.table
        · exact ⟨length_lower _ _, (length_lower _ _).trans valid.othersLength⟩
        · intro i
          have := within i
          rw [counter_lower_one, counter_lower_one]
          by_cases same : atom = i
          · subst same
            rw [if_pos rfl]
            omega
          · rw [if_neg same]
            omega
        · exact within
    · cases steps
  | make key place =>
    obtain ⟨⟨atom, next⟩, made, rfl⟩ := Option.map_eq_some_iff.mp steps
    exact valid.make (newAtomLen_spec valid made)

/-! ### What becomes of a cache -/

/-- The event begins with a loop that frees the atoms of a cache. -/
def Runtime.Drops (rt : Runtime) (c : Nat) (context : Context) : Event → Prop
  | .property c' key _ | .atomFails c' key =>
    c' = c ∧ key ∉ context.atoms.map Prod.fst ∧ 4096 ≤ context.atoms.length ∧ rt.hostDepth = 0
  | .disposed => rt.stack.head? = some (.disposing c)
  | _ => False

/-- The keys that have an entry in a cache that was just flushed. -/
def Event.makes : Event → List Text
  | .property _ key _ => [key]
  | _ => []

/-- A cache keeps its entries, or gives each of their references back and is empty but for the entry
being made. -/
structure Settled (rt : Runtime) (event : Event) (rt' : Runtime) : Prop where
  kept : ∀ c context, rt.contexts[c]? = some context → ¬rt.Drops c context event →
    ∃ later, rt'.contexts[c]? = some later ∧ context.atoms <+: later.atoms
  dropped : ∀ c context, rt.contexts[c]? = some context → rt.Drops c context event →
    ∃ later, rt'.contexts[c]? = some later ∧ later.atoms.map Prod.fst = event.makes ∧
      (event = .disposed → later.disposed = true) ∧
      rt'.released = rt.released + context.atoms.length ∧
      ∀ i, counter rt'.references i + context.holds i = counter rt.references i + later.holds i
  released : rt'.released ≠ rt.released → ∃ c context, rt.contexts[c]? = some context ∧
    rt.Drops c context event

-- Nothing is dropped by an event that leaves the contexts where they are.
theorem Settled.idle {rt rt' : Runtime} {event : Event} (released : rt'.released = rt.released)
    (contexts : rt.contexts <+: rt'.contexts) (drops : ∀ c context, ¬rt.Drops c context event) :
    Settled rt event rt' where
  kept c context known _ := by
    obtain ⟨more, same⟩ := contexts
    rw [← same, List.getElem?_append_left (List.getElem?_eq_some_iff.mp known).1]
    exact ⟨context, known, List.prefix_rfl⟩
  dropped c context _ dropped := absurd dropped (drops c context)
  released moved := absurd released moved

theorem Valid.holds_le {rt : Runtime} (valid : Valid rt) {c : Nat} {context : Context}
    (known : rt.contexts[c]? = some context) (i : Nat) :
    context.holds i ≤ counter rt.references i := by
  have held : context.holds i ≤ tally (Context.holds i) rt.contexts :=
    le_tally (List.mem_of_getElem? known)
  have := valid.accounted i
  omega

-- What a cleared cache gives back, before and after which nothing else may move.
theorem Valid.clears {rt : Runtime} (valid : Valid rt) {c : Nat} {context : Context}
    (cleared : Context) (known : rt.contexts[c]? = some context)
    (atoms : cleared.atoms = context.atoms) :
    (rt.clear c cleared).contexts[c]? = some { cleared with atoms := [] } ∧
      (∀ c', c ≠ c' → (rt.clear c cleared).contexts[c']? = rt.contexts[c']?) ∧
      (rt.clear c cleared).released = rt.released + context.atoms.length ∧
      ∀ i, counter (rt.clear c cleared).references i + context.holds i =
        counter rt.references i := by
  refine ⟨List.getElem?_set_self (List.getElem?_eq_some_iff.mp known).1, ?_, ?_, ?_⟩
  · intro c' other
    exact List.getElem?_set_ne other
  · rw [Runtime.clear, atoms]
  · intro i
    have within := valid.holds_le known i
    have held : context.holds i = (context.atoms.map Prod.snd).count i := rfl
    simp only [Runtime.clear, counter_lower, atoms]
    omega

theorem full_iff {rt : Runtime} {context : Context} :
    (decide (4096 ≤ context.atoms.length) && rt.hostDepth == 0) = true ↔
      4096 ≤ context.atoms.length ∧ rt.hostDepth = 0 := by
  rw [Bool.and_eq_true, decide_eq_true_eq, beq_iff_eq]

theorem Valid.settled_flush {rt : Runtime} (valid : Valid rt) {c : Nat} {context : Context}
    {key : Text} (known : rt.contexts[c]? = some context)
    (absent : key ∉ context.atoms.map Prod.fst) :
    Settled rt (.atomFails c key) (rt.flush c context) := by
  unfold Runtime.flush
  split
  · next full =>
    obtain ⟨many, outermost⟩ := full_iff.mp full
    obtain ⟨there, others, released, references⟩ := valid.clears _ known rfl
    constructor
    · intro c' context' known' keeps
      have other : c ≠ c' := by
        rintro rfl
        cases known.symm.trans known'
        exact keeps ⟨rfl, absent, many, outermost⟩
      exact ⟨context', (others c' other).trans known', List.prefix_rfl⟩
    · rintro _ context' known' ⟨rfl, -⟩
      obtain rfl := Option.some.inj (known.symm.trans known')
      exact ⟨_, there, rfl, nofun, released, references⟩
    · exact fun _ => ⟨c, context, known, rfl, absent, many, outermost⟩
  · next room =>
    have drops : ∀ c' context', rt.contexts[c']? = some context' →
        ¬rt.Drops c' context' (.atomFails c key) := by
      rintro _ context' known' ⟨rfl, -, full⟩
      obtain rfl := Option.some.inj (known.symm.trans known')
      exact room (full_iff.mpr full)
    constructor
    · exact fun c' context' known' _ => ⟨context', known', List.prefix_rfl⟩
    · exact fun c' context' known' dropped => absurd dropped (drops c' context' known')
    · exact fun moved => absurd rfl moved

-- A property operation: after a miss the flushed or unflushed cache has one entry more.
theorem Valid.settled_atom {rt rt' : Runtime} (valid : Valid rt) {c : Nat} {context : Context}
    (known : rt.contexts[c]? = some context) (runs : rt.hostRuns = true) {key : Text}
    {place atom : Nat} (made : rt.atom c context key place = some (atom, rt')) :
    Settled rt (.property c key place) rt' := by
  unfold Runtime.atom at made
  split at made
  · next named number found =>
    obtain ⟨rfl, rfl⟩ : number = atom ∧ rt = rt' := by simpa using made
    have isKey : named = key := by simpa using List.find?_some found
    have there : key ∈ context.atoms.map Prod.fst :=
      List.mem_map.mpr ⟨_, List.mem_of_find?_eq_some found, isKey⟩
    constructor
    · exact fun c' context' known' _ => ⟨context', known', List.prefix_rfl⟩
    · rintro _ context' known' ⟨rfl, absent, -⟩
      obtain rfl := Option.some.inj (known.symm.trans known')
      exact absurd there absent
    · exact fun moved => absurd rfl moved
  · next missed =>
    obtain ⟨⟨number, table⟩, interning, is⟩ := Option.map_eq_some_iff.mp made
    obtain ⟨rfl, rfl⟩ : number = atom ∧ table.cache c key number = rt' := by simpa using is
    have absent := absent_of_missed missed
    have interned := newAtomLen_spec (valid.flush known runs) interning
    have settled := valid.settled_flush known absent
    have releases : (table.cache c key number).released = (rt.flush c context).released :=
      interned.same.2.2.2.2
    have entries (c' : Nat) : (table.cache c key number).contexts[c']? =
        if c = c' then (rt.flush c context).contexts[c']?.map fun context =>
          { context with atoms := context.atoms ++ [(key, number)] }
        else (rt.flush c context).contexts[c']? := by
      simp only [Runtime.cache, interned.same.2.1, List.getElem?_modify]
      split
      · rfl
      · exact Option.map_id'
    constructor
    · intro c' context' known' keeps
      obtain ⟨later, there, longer⟩ := settled.kept c' context' known' keeps
      rw [entries, there]
      split
      · exact ⟨_, rfl, longer.trans (List.prefix_append _ _)⟩
      · exact ⟨later, rfl, longer⟩
    · rintro c' context' known' ⟨rfl, full⟩
      obtain ⟨later, there, empty, -, released, references⟩ :=
        settled.dropped c context' known' ⟨rfl, full⟩
      refine ⟨{ later with atoms := later.atoms ++ [(key, number)] }, ?_, ?_, nofun,
        releases.trans released, ?_⟩
      · rw [entries, there, if_pos rfl, Option.map_some]
      · rw [List.map_append, empty]
        rfl
      · intro i
        have before := references i
        have grown := interned.references i
        simp only [Runtime.cache, Context.holds, List.map_append, List.map_cons, List.map_nil,
          List.count_append, List.count_singleton, beq_iff_eq] at before grown ⊢
        omega
    · rw [releases]
      exact settled.released

theorem Valid.settled_disposed {rt : Runtime} (valid : Valid rt) {c : Nat} {context : Context}
    {rest : List Frame} (shape : rt.stack = .disposing c :: rest)
    (known : rt.contexts[c]? = some context) :
    Settled rt .disposed
      { rt.clear c { context with disposed := true } with stack := .native none :: rest } := by
  obtain ⟨there, others, released, references⟩ :=
    valid.clears { context with disposed := true } known rfl
  have drops (c' : Nat) (context' : Context) : rt.Drops c' context' .disposed ↔ c = c' := by
    simp [Runtime.Drops, shape]
  constructor
  · intro c' context' known' keeps
    rw [drops] at keeps
    exact ⟨context', (others c' keeps).trans known', List.prefix_rfl⟩
  · intro c' context' known' dropped
    obtain rfl := (drops c' context').mp dropped
    obtain rfl := Option.some.inj (known.symm.trans known')
    exact ⟨_, there, rfl, fun _ => rfl, released, references⟩
  · exact fun _ => ⟨c, context, known, (drops c context).mpr rfl⟩

-- Each step settles what the caches hold.
theorem Valid.settled {rt rt' : Runtime} {event : Event} (valid : Valid rt)
    (steps : Atoms.step rt event = some rt') : Settled rt event rt' := by
  cases event with
  | property c key place =>
    simp only [Atoms.step] at steps
    split at steps
    · next runs =>
      split at steps
      · cases steps
      · next context live =>
        obtain ⟨⟨atom, next⟩, made, rfl⟩ := Option.map_eq_some_iff.mp steps
        have settled := valid.settled_atom (live_spec live).1 runs made
        exact ⟨settled.kept, settled.dropped, settled.released⟩
    · cases steps
  | atomFails c key =>
    simp only [Atoms.step] at steps
    split at steps
    · next runs =>
      split at steps
      · cases steps
      · next context live =>
        split at steps
        · cases steps
        · next missed =>
          obtain rfl := Option.some.inj steps
          have absent := absent_of_missed missed
          have settled := valid.settled_flush (live_spec live).1 absent
          exact ⟨settled.kept, settled.dropped, settled.released⟩
    · cases steps
  | disposed =>
    simp only [Atoms.step] at steps
    split at steps
    · next c rest shape =>
      obtain ⟨context, known, rfl⟩ := Option.map_eq_some_iff.mp steps
      exact valid.settled_disposed shape known
    · cases steps
  | newContext =>
    simp only [Atoms.step] at steps
    split at steps
    · obtain rfl := Option.some.inj steps
      exact .idle rfl (List.prefix_append _ _) fun _ _ => id
    · cases steps
  | make key place =>
    obtain ⟨⟨atom, next⟩, made, rfl⟩ := Option.map_eq_some_iff.mp steps
    obtain ⟨-, contexts, -, -, released⟩ := (newAtomLen_spec valid made).same
    exact .idle released (contexts ▸ List.prefix_rfl) fun _ _ => id
  | dispose c =>
    simp only [Atoms.step] at steps
    split at steps
    · split at steps
      · cases steps
      · split at steps
        · obtain rfl := Option.some.inj steps
          exact .idle rfl List.prefix_rfl fun _ _ => id
        · cases steps
    · cases steps
  | native | callback | returns | take atom | drop atom =>
    simp only [Atoms.step] at steps
    split at steps <;> first
      | cases steps; done
      | obtain rfl := Option.some.inj steps
        exact .idle rfl List.prefix_rfl fun _ _ => id

/-- Every entry of every cache is the engine's atom of its key and has one reference of its own; an
atom that was passed to a native call stays that key's atom, with a reference, until the call is
over; the references that the caches took are those they released and those they still hold, of
which a disposed context has none; and a flush and a dispose, and they alone, release what the cache
held. -/
theorem atoms_cached {rt : Runtime} (reaches : machine.Reaches (fun _ _ => True) rt) :
    (∀ context ∈ rt.contexts, (context.atoms.map Prod.fst).Nodup ∧
      ∀ entry ∈ context.atoms, rt.keys[entry.2]? = some entry.1 ∧
        0 < counter rt.references entry.2) ∧
    (∀ atom, counter rt.references atom = counter rt.others atom +
      tally (Context.holds atom) rt.contexts) ∧
    (∀ passed, .native (some passed) ∈ rt.stack →
      rt.keys[passed.atom]? = some passed.key ∧ 0 < counter rt.references passed.atom) ∧
    rt.taken = rt.released + tally (fun context => context.atoms.length) rt.contexts ∧
    (∀ context ∈ rt.contexts, context.disposed = true → context.atoms = []) ∧
    ∀ event rt', step rt event = some rt' → Settled rt event rt' := by
  have kept : machine.Invariant (fun _ _ => True) Valid :=
    ⟨.init, fun valid _ steps => valid.step steps⟩
  have valid := kept.reached reaches
  refine ⟨?_, valid.accounted, ?_, valid.ledger, valid.dead, fun _ _ steps => valid.settled steps⟩
  · intro context known
    exact ⟨valid.distinct context known, fun entry member =>
      ⟨valid.mapped context known entry member, valid.referenced known member⟩⟩
  · intro passed member
    obtain ⟨context, there, cached⟩ := valid.passed passed member
    have known := List.mem_of_getElem? there
    exact ⟨valid.mapped context known (passed.key, passed.atom) cached,
      valid.referenced known cached⟩

/-- A getter that reads another property through the same context. -/
def nested : Runtime where
  hostDepth := 1
  keys := [[97], [98]]
  references := [1, 1]
  others := [0, 0]
  contexts := [⟨false, [([97], 0), ([98], 1)]⟩]
  stack := [.native (some ⟨0, [98], 1⟩), .callback, .native (some ⟨0, [97], 0⟩)]
  taken := 2
  released := 0

theorem atoms_cached_nested : nested.keys[0]? = some [97] ∧ 0 < counter nested.references 0 := by
  have reaches : machine.Reaches (fun _ _ => True) nested :=
    .run [.newContext, .property 0 [97] 0, .callback, .property 0 [98] 1] .init rfl
  obtain ⟨-, -, passed, -⟩ := atoms_cached reaches
  exact passed ⟨0, [97], 0⟩ (by simp [nested])

end QuickJSBun.Handle.Atoms
