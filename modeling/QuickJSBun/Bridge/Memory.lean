import QuickJSBun.Library.Machine
import QuickJSBun.Library.Tally

/-! The memory limit: the arenas and large blocks of `__js_malloc`, the accounting of
`js_def_malloc` under them, and `JS_ThrowOutOfMemory`, which lifts the limit while it
makes its error.

Sizes do not wrap: they stay far below the range of `size_t`, in which `(size_t)-1` is
no limit at all.
-/

set_option autoImplicit false

namespace QuickJSBun.Bridge.Memory

open Library

/-- What a block of the system's allocator is used for. -/
inductive Contents where
  | large
  | arena (blockSizeIdx : Nat) (nBlocks : Nat) (nUsedBlocks : Nat)
  deriving DecidableEq

/-- `window` is not in the source: the number of the error in whose making, with the limit lifted,
the block was made or resized last. -/
structure Block where
  size : Nat
  contents : Contents
  window : Option Nat
  deriving DecidableEq

/-- `JSMallocState` and the blocks it counts; a pointer is a place of the list. -/
structure JSMallocState where
  mallocCount : Nat
  mallocSize : Nat
  mallocLimit : Option Nat
  blocks : List (Option Block)
  deriving DecidableEq

/-- Not in the source are `limited`, the limit and the size when it was set, and `windows`, how
often the limit was lifted. -/
structure JSRuntime where
  mallocState : JSMallocState
  inOutOfMemory : Bool
  /-- The limit that `JS_ThrowOutOfMemory` keeps in a local variable. -/
  saved : Option Nat
  limited : Option (Nat × Nat)
  windows : Nat
  deriving DecidableEq

/-! ### The default allocator -/

section Allocator
variable (overhead : Nat)

def JSMallocState.exceeds (s : JSMallocState) (size : Nat) : Bool :=
  s.mallocLimit.elim false (· < size)

/-- `js_def_malloc`; `granted` tells whether the system has the memory. -/
def jsDefMalloc (s : JSMallocState) (block : Block) (granted : Bool) : Option JSMallocState :=
  if s.exceeds (s.mallocSize + block.size) then none
  else if granted then
    some { s with
      mallocCount := s.mallocCount + 1
      mallocSize := s.mallocSize + (block.size + overhead)
      blocks := s.blocks ++ [some block] }
  else none

def jsDefFree (s : JSMallocState) (p : Nat) (block : Block) : JSMallocState :=
  { s with
    mallocCount := s.mallocCount - 1
    mallocSize := s.mallocSize - (block.size + overhead)
    blocks := s.blocks.set p none }

/-- `js_def_realloc` for a block and a size that are not zero. -/
def jsDefRealloc (s : JSMallocState) (p : Nat) (old : Block) (new : Block) (granted : Bool) :
    Option JSMallocState :=
  if s.exceeds (s.mallocSize + new.size - old.size) then none
  else if granted then
    some { s with
      mallocSize := s.mallocSize + new.size - old.size
      blocks := s.blocks.set p (some new) }
  else none

/-! ### Arenas -/

def blockSizes : List Nat :=
  [16, 24, 32, 40, 48, 56, 64, 72, 80, 88, 96, 104, 112, 120, 128, 144, 160, 176, 192, 208, 224,
    240, 256, 288, 320, 352, 384, 416, 448, 480, 512]

def getBlockSizeIndex (size : Nat) : Nat :=
  if size ≤ 16 then 0
  else if size ≤ 128 then (size + 7) / 8 - 2
  else if size ≤ 256 then (size + 15) / 16 + 6
  else if size ≤ 512 then (size + 31) / 32 + 14
  else 31

def blockSize (idx : Nat) : Nat := blockSizes[idx]?.getD 512

-- The size of a small block with its header.
def totalSize (size : Nat) : Nat := (size + 7) / 8 * 8 + 8

/-- The number of blocks of a new arena, whose own fields take 40 bytes. -/
def arenaBlocks (idx : Nat) : Nat := (4096 - 40) / blockSize idx

def Block.hasRoom (idx : Nat) (block : Block) : Bool :=
  match block.contents with
  | .arena i n used => i == idx && decide (used < n)
  | .large => false

-- Whether there was memory, and the state that is left.
def answer (s : JSMallocState) (made : Option JSMallocState) : Bool × JSMallocState :=
  match made with
  | some s => (true, s)
  | none => (false, s)

/-- A block from an arena: from the one at the head of the list of those with room, or from a new
one. -/
def jsMallocSmall (s : JSMallocState) (window : Option Nat) (idx : Nat) (place : Option Nat)
    (granted : Bool) : Option (Bool × JSMallocState) :=
  match place with
  | some p =>
    match s.blocks[p]? with
    | some (some ⟨bytes, .arena i n used, its⟩) =>
      if i = idx ∧ used < n then
        some (true, { s with blocks := s.blocks.set p (some ⟨bytes, .arena i n (used + 1), its⟩) })
      else none
    | _ => none
  | none =>
    if s.blocks.any (·.elim false (Block.hasRoom idx)) then none
    else
      let arena : Block :=
        ⟨40 + arenaBlocks idx * blockSize idx, .arena idx (arenaBlocks idx) 1, window⟩
      some (answer s (jsDefMalloc overhead s arena granted))

def jsMalloc (s : JSMallocState) (window : Option Nat) (size : Nat) (place : Option Nat)
    (granted : Bool) : Option (Bool × JSMallocState) :=
  if size = 0 then some (true, s)
  else if totalSize size ≤ 512 then
    jsMallocSmall overhead s window (getBlockSizeIndex (totalSize size)) place granted
  else some (answer s (jsDefMalloc overhead s ⟨8 + size, .large, window⟩ granted))

def jsFree (s : JSMallocState) (p : Nat) : Option JSMallocState :=
  match s.blocks[p]? with
  | some (some ⟨bytes, .large, its⟩) => some (jsDefFree overhead s p ⟨bytes, .large, its⟩)
  | some (some ⟨bytes, .arena i n used, its⟩) =>
    if used = 0 then none
    else if used = 1 then some (jsDefFree overhead s p ⟨bytes, .arena i n used, its⟩)
    else some { s with blocks := s.blocks.set p (some ⟨bytes, .arena i n (used - 1), its⟩) }
  | _ => none

def jsRealloc (s : JSMallocState) (window : Option Nat) (p : Nat) (size : Nat) (place : Option Nat)
    (granted : Bool) : Option (Bool × JSMallocState) :=
  if size = 0 then (jsFree overhead s p).map fun s => (false, s)
  else
    match s.blocks[p]? with
    | some (some ⟨bytes, .large, its⟩) =>
      some (answer s (jsDefRealloc s p ⟨bytes, .large, its⟩ ⟨8 + size, .large, window⟩ granted))
    | some (some ⟨_, .arena i _ _, _⟩) =>
      if totalSize size ≤ blockSize i then some (true, s)
      else
        match jsMalloc overhead s window size place granted with
        | some (true, s) => (jsFree overhead s p).map fun s => (true, s)
        | failed => failed
    | _ => none

/-! ### Runs -/

inductive Event where
  | malloc (size : Nat) (place : Option Nat) (granted : Bool)
  | free (p : Nat)
  | realloc (p : Nat) (size : Nat) (place : Option Nat) (granted : Bool)
  /-- `JS_SetMemoryLimit`, once. -/
  | setMemoryLimit (limit : Nat)
  /-- `JS_ThrowOutOfMemory` starts to make its error. -/
  | throwOutOfMemory
  | thrown
  deriving DecidableEq

def JSRuntime.window (rt : JSRuntime) : Option Nat :=
  if rt.inOutOfMemory then some rt.windows else none

def step (rt : JSRuntime) : Event → Option JSRuntime
  | .malloc size place granted =>
    (jsMalloc overhead rt.mallocState rt.window size place granted).map fun answer =>
      { rt with mallocState := answer.2 }
  | .free p => (jsFree overhead rt.mallocState p).map fun s => { rt with mallocState := s }
  | .realloc p size place granted =>
    (jsRealloc overhead rt.mallocState rt.window p size place granted).map fun answer =>
      { rt with mallocState := answer.2 }
  | .setMemoryLimit limit =>
    if rt.inOutOfMemory = false ∧ rt.limited = none then
      some { rt with
        mallocState := { rt.mallocState with mallocLimit := some limit }
        limited := some (limit, rt.mallocState.mallocSize) }
    else none
  | .throwOutOfMemory =>
    if rt.inOutOfMemory then some rt
    else some { rt with
      mallocState := { rt.mallocState with mallocLimit := none }
      inOutOfMemory := true
      saved := rt.mallocState.mallocLimit
      windows := rt.windows + 1 }
  | .thrown =>
    if rt.inOutOfMemory then
      some { rt with
        mallocState := { rt.mallocState with mallocLimit := rt.saved }
        inOutOfMemory := false
        saved := none }
    else none

/-- A runtime starts with the block of `JS_NewRuntime2`, of a size that the engine fixes. -/
def machine (runtimeSize : Nat) : Machine JSRuntime Event where
  init :=
    ⟨⟨1, runtimeSize + overhead, none, [some ⟨runtimeSize, .large, none⟩]⟩, false, none, none, 0⟩
  step := step overhead

/-! ### Accounts -/

/-- What a block adds to `malloc_size`. -/
def weight (entry : Option Block) : Nat := entry.elim 0 fun block => block.size + overhead

/-- What it adds to the bytes that were made while the limit was lifted. -/
def liftedWeight (entry : Option Block) : Nat :=
  entry.elim 0 fun block => if block.window.isSome then block.size + overhead else 0

def usedWeight (entry : Option Block) : Nat :=
  entry.elim 0 fun block =>
    match block.contents with
    | .large => block.size
    | .arena i _ used => used * blockSize i

-- An arena has no more used blocks than it has room for.
def Block.Roomy (block : Block) : Prop :=
  match block.contents with
  | .large => True
  | .arena i n used => used ≤ n ∧ n * blockSize i ≤ block.size

/-- The accounts of the allocator; from the time a limit is set the size is under a bound, but for
what was made while the limit was lifted. -/
structure Accounted (bound : Option Nat) (s : JSMallocState) : Prop where
  counted : s.mallocSize = tally (weight overhead) s.blocks
  roomy : ∀ block, some block ∈ s.blocks → block.Roomy
  bounded : ∀ most, bound = some most → s.mallocSize ≤ most + tally (liftedWeight overhead) s.blocks

/-- A block may be made: the limit keeps the bound, or it is lifted. -/
def Limited (bound : Option Nat) (s : JSMallocState) (window : Option Nat) : Prop :=
  ∀ most, bound = some most → window.isSome = true ∨ ∃ limit, s.mallocLimit = some limit ∧
    limit + overhead ≤ most

theorem roomy_large (size : Nat) (window : Option Nat) : (⟨size, .large, window⟩ : Block).Roomy :=
  trivial

theorem roomy_arena {size i n used : Nat} (window : Option Nat) (fits : used ≤ n)
    (holds : n * blockSize i ≤ size) :
    (⟨size, .arena i n used, window⟩ : Block).Roomy := ⟨fits, holds⟩

variable {overhead} {bound window : Option Nat} {s s' : JSMallocState} {granted : Bool}

theorem within_limit {limit size : Nat} (is : s.mallocLimit = some limit)
    (fits : ¬s.exceeds size = true) : size ≤ limit := by
  simp only [JSMallocState.exceeds, is, Option.elim_some, decide_eq_true_eq] at fits
  omega

theorem accounted_jsDefMalloc {block : Block} (accounts : Accounted overhead bound s)
    (roomy : block.Roomy) (limited : Limited overhead bound s block.window)
    (made : jsDefMalloc overhead s block granted = some s') :
    Accounted overhead bound s' ∧ s'.mallocLimit = s.mallocLimit := by
  unfold jsDefMalloc at made
  split at made
  · cases made
  · next fits =>
      split at made
      · obtain rfl := Option.some.inj made
        refine ⟨⟨?_, ?_, ?_⟩, rfl⟩
        · simp only [tally_append, tally_cons, tally_nil, weight, Option.elim_some]
          have := accounts.counted
          omega
        · intro other member
          rcases List.mem_append.mp member with old | new
          · exact accounts.roomy other old
          · obtain rfl : other = block := by simpa using new
            exact roomy
        · intro most is
          have before := accounts.bounded most is
          simp only [tally_append, tally_cons, tally_nil, liftedWeight, Option.elim_some]
          rcases limited most is with window | ⟨limit, set, below⟩
          · rw [if_pos window]
            omega
          · have := within_limit set fits
            omega
      · cases made

theorem Accounted.roomy_set {p : Nat} {entry : Option Block} (accounts : Accounted overhead bound s)
    (roomy : ∀ block, entry = some block → block.Roomy) :
    ∀ block, some block ∈ s.blocks.set p entry → block.Roomy := by
  intro block member
  rcases List.mem_or_eq_of_mem_set member with old | new
  · exact accounts.roomy block old
  · exact roomy block new.symm

theorem accounted_jsDefFree {p : Nat} {block : Block} (accounts : Accounted overhead bound s)
    (found : s.blocks[p]? = some (some block)) :
    Accounted overhead bound (jsDefFree overhead s p block) := by
  have weights := tally_set (f := weight overhead) found none
  have lifts := tally_set (f := liftedWeight overhead) found none
  simp only [weight, liftedWeight, Option.elim_some, Option.elim_none, Nat.add_zero] at weights lifts
  refine ⟨?_, ?_, ?_⟩
  · have := accounts.counted
    simp only [jsDefFree]
    omega
  · exact accounts.roomy_set nofun
  · intro most is
    have before := accounts.bounded most is
    simp only [jsDefFree]
    split at lifts <;> omega

theorem accounted_jsDefRealloc {p : Nat} {old new : Block}
    (accounts : Accounted overhead bound s) (roomy : new.Roomy)
    (limited : Limited overhead bound s new.window) (found : s.blocks[p]? = some (some old))
    (made : jsDefRealloc s p old new granted = some s') :
    Accounted overhead bound s' ∧ s'.mallocLimit = s.mallocLimit := by
  have weights := tally_set (f := weight overhead) found (some new)
  have lifts := tally_set (f := liftedWeight overhead) found (some new)
  simp only [weight, liftedWeight, Option.elim_some] at weights lifts
  unfold jsDefRealloc at made
  split at made
  · cases made
  · next fits =>
      split at made
      · obtain rfl := Option.some.inj made
        refine ⟨⟨?_, ?_, ?_⟩, rfl⟩
        · have := accounts.counted
          simp only
          omega
        · exact accounts.roomy_set fun block is => Option.some.inj is ▸ roomy
        · intro most is
          have before := accounts.bounded most is
          simp only
          rcases limited most is with window | ⟨limit, set, below⟩
          · rw [if_pos window] at lifts
            split at lifts <;> omega
          · have := within_limit set fits
            omega
      · cases made

theorem accounted_setUsed {p bytes i n used used' : Nat} {its : Option Nat}
    (accounts : Accounted overhead bound s)
    (found : s.blocks[p]? = some (some ⟨bytes, .arena i n used, its⟩)) (fits : used' ≤ n) :
    Accounted overhead bound
      { s with blocks := s.blocks.set p (some ⟨bytes, .arena i n used', its⟩) } := by
  have weights := tally_set (f := weight overhead) found (some ⟨bytes, .arena i n used', its⟩)
  have lifts := tally_set (f := liftedWeight overhead) found (some ⟨bytes, .arena i n used', its⟩)
  have weighs : weight overhead (some ⟨bytes, .arena i n used', its⟩) =
      weight overhead (some ⟨bytes, .arena i n used, its⟩) := rfl
  have lifting : liftedWeight overhead (some ⟨bytes, .arena i n used', its⟩) =
      liftedWeight overhead (some ⟨bytes, .arena i n used, its⟩) := rfl
  refine ⟨?_, ?_, ?_⟩
  · have := accounts.counted
    simp only
    omega
  · refine accounts.roomy_set fun block is => ?_
    obtain rfl := Option.some.inj is
    exact ⟨fits, (accounts.roomy _ (List.mem_of_getElem? found)).2⟩
  · intro most is
    have before := accounts.bounded most is
    simp only
    omega

theorem arenaBlocks_pos (idx : Nat) : 1 ≤ arenaBlocks idx := by
  have least : blockSize idx ≤ 512 ∧ 0 < blockSize idx := by
    unfold blockSize
    cases found : blockSizes[idx]? with
    | none => decide
    | some size =>
      have member := List.mem_of_getElem? found
      have each : ∀ size ∈ blockSizes, size ≤ 512 ∧ 0 < size := by decide
      exact each size member
  exact (Nat.le_div_iff_mul_le least.2).mpr (by omega)

theorem answer_spec {made : Option JSMallocState} {result : Bool}
    (is : answer s made = (result, s')) : made = some s' ∨ s' = s := by
  cases made with
  | none =>
    obtain ⟨-, rfl⟩ : false = result ∧ s = s' := by simpa [answer] using is
    exact .inr rfl
  | some made =>
    obtain ⟨-, rfl⟩ : true = result ∧ made = s' := by simpa [answer] using is
    exact .inl rfl

theorem accounted_jsMallocSmall {idx : Nat} {place : Option Nat} {result : Bool}
    (accounts : Accounted overhead bound s) (limited : Limited overhead bound s window)
    (made : jsMallocSmall overhead s window idx place granted = some (result, s')) :
    Accounted overhead bound s' ∧ s'.mallocLimit = s.mallocLimit := by
  unfold jsMallocSmall at made
  split at made
  · split at made
    · next found =>
        split at made
        · next room =>
            obtain ⟨rfl, rfl⟩ : true = result ∧ _ = s' := by simpa using made
            exact ⟨accounted_setUsed accounts found room.2, rfl⟩
        · cases made
    · cases made
  · split at made
    · cases made
    · rcases answer_spec (Option.some.inj made) with allocates | rfl
      · exact accounted_jsDefMalloc accounts
          (roomy_arena window (arenaBlocks_pos idx) (Nat.le_add_left _ _)) limited allocates
      · exact ⟨accounts, rfl⟩

theorem accounted_jsMalloc {size : Nat} {place : Option Nat} {result : Bool}
    (accounts : Accounted overhead bound s) (limited : Limited overhead bound s window)
    (made : jsMalloc overhead s window size place granted = some (result, s')) :
    Accounted overhead bound s' ∧ s'.mallocLimit = s.mallocLimit := by
  unfold jsMalloc at made
  split at made
  · obtain ⟨rfl, rfl⟩ : true = result ∧ s = s' := by simpa using made
    exact ⟨accounts, rfl⟩
  · split at made
    · exact accounted_jsMallocSmall accounts limited made
    · rcases answer_spec (Option.some.inj made) with allocates | rfl
      · exact accounted_jsDefMalloc accounts (roomy_large _ window) limited allocates
      · exact ⟨accounts, rfl⟩

theorem accounted_jsFree {p : Nat} (accounts : Accounted overhead bound s)
    (frees : jsFree overhead s p = some s') :
    Accounted overhead bound s' ∧ s'.mallocLimit = s.mallocLimit := by
  unfold jsFree at frees
  split at frees
  · next found =>
      obtain rfl := Option.some.inj frees
      exact ⟨accounted_jsDefFree accounts found, rfl⟩
  · next used _ found =>
      split at frees
      · cases frees
      · split at frees
        · obtain rfl := Option.some.inj frees
          exact ⟨accounted_jsDefFree accounts found, rfl⟩
        · obtain rfl := Option.some.inj frees
          have room : used ≤ _ := (accounts.roomy _ (List.mem_of_getElem? found)).1
          exact ⟨accounted_setUsed accounts found (by omega), rfl⟩
  · cases frees

theorem accounted_jsRealloc {p size : Nat} {place : Option Nat} {result : Bool}
    (accounts : Accounted overhead bound s) (limited : Limited overhead bound s window)
    (made : jsRealloc overhead s window p size place granted = some (result, s')) :
    Accounted overhead bound s' ∧ s'.mallocLimit = s.mallocLimit := by
  unfold jsRealloc at made
  split at made
  · obtain ⟨freed, frees, is⟩ := Option.map_eq_some_iff.mp made
    obtain ⟨rfl, rfl⟩ : false = result ∧ freed = s' := by simpa using is
    exact accounted_jsFree accounts frees
  · split at made
    · next found =>
        rcases answer_spec (Option.some.inj made) with resizes | rfl
        · exact accounted_jsDefRealloc accounts (roomy_large _ window) limited found resizes
        · exact ⟨accounts, rfl⟩
    · split at made
      · obtain ⟨rfl, rfl⟩ : true = result ∧ s = s' := by simpa using made
        exact ⟨accounts, rfl⟩
      · split at made
        · next allocates =>
            obtain ⟨freed, frees, is⟩ := Option.map_eq_some_iff.mp made
            obtain ⟨rfl, rfl⟩ : true = result ∧ freed = s' := by simpa using is
            obtain ⟨allocated, same⟩ := accounted_jsMalloc accounts limited allocates
            obtain ⟨left, still⟩ := accounted_jsFree allocated frees
            exact ⟨left, still.trans same⟩
        · exact accounted_jsMalloc accounts limited made
    · cases made

/-! ### The runtime -/

/-- The most that the limit allows, with what was there when it was set. -/
def JSRuntime.most (overhead : Nat) (rt : JSRuntime) : Option Nat :=
  rt.limited.map fun (limit, start) => max limit start + overhead

variable (overhead) in
structure JSRuntime.Valid (rt : JSRuntime) : Prop where
  accounts : Accounted overhead (rt.most overhead) rt.mallocState
  outside : rt.inOutOfMemory = false → rt.mallocState.mallocLimit = rt.limited.map Prod.fst
  inside : rt.inOutOfMemory = true → rt.mallocState.mallocLimit = none ∧
    rt.saved = rt.limited.map Prod.fst

theorem JSRuntime.Valid.limited_ {rt : JSRuntime} (valid : rt.Valid overhead) :
    Limited overhead (rt.most overhead) rt.mallocState rt.window := by
  intro most is
  cases lifted : rt.inOutOfMemory with
  | true => exact .inl (by simp [JSRuntime.window, lifted])
  | false =>
    obtain ⟨⟨limit, start⟩, set, rfl⟩ := Option.map_eq_some_iff.mp is
    have current := valid.outside lifted
    rw [set] at current
    exact .inr ⟨limit, current, Nat.add_le_add_right (Nat.le_max_left limit start) overhead⟩

theorem JSRuntime.Valid.update {rt : JSRuntime} (valid : rt.Valid overhead) {s : JSMallocState}
    (accounts : Accounted overhead (rt.most overhead) s)
    (same : s.mallocLimit = rt.mallocState.mallocLimit) :
    ({ rt with mallocState := s } : JSRuntime).Valid overhead := by
  constructor
  · exact accounts
  · exact fun window => same.trans (valid.outside window)
  · intro window
    obtain ⟨none, saved⟩ := valid.inside window
    exact ⟨same.trans none, saved⟩

theorem JSRuntime.Valid.step {rt rt' : JSRuntime} {event : Event} (valid : rt.Valid overhead)
    (steps : step overhead rt event = some rt') : rt'.Valid overhead := by
  cases event with
  | malloc size place granted =>
    obtain ⟨⟨result, s⟩, made, rfl⟩ := Option.map_eq_some_iff.mp steps
    obtain ⟨accounts, same⟩ := accounted_jsMalloc valid.accounts valid.limited_ made
    exact valid.update accounts same
  | free p =>
    obtain ⟨s, frees, rfl⟩ := Option.map_eq_some_iff.mp steps
    obtain ⟨accounts, same⟩ := accounted_jsFree valid.accounts frees
    exact valid.update accounts same
  | realloc p size place granted =>
    obtain ⟨⟨result, s⟩, made, rfl⟩ := Option.map_eq_some_iff.mp steps
    obtain ⟨accounts, same⟩ := accounted_jsRealloc valid.accounts valid.limited_ made
    exact valid.update accounts same
  | setMemoryLimit limit =>
    simp only [Memory.step] at steps
    split at steps
    · next idle =>
        obtain rfl := Option.some.inj steps
        constructor
        · refine ⟨valid.accounts.counted, valid.accounts.roomy, ?_⟩
          intro most is
          obtain rfl : max limit rt.mallocState.mallocSize + overhead = most := by
            simpa [JSRuntime.most] using is
          have := Nat.le_max_right limit rt.mallocState.mallocSize
          simp only
          omega
        · exact fun _ => rfl
        · intro window
          rw [show rt.inOutOfMemory = true from window] at idle
          cases idle.1
    · cases steps
  | throwOutOfMemory =>
    simp only [Memory.step] at steps
    split at steps
    · obtain rfl := Option.some.inj steps
      exact valid
    · next idle =>
        obtain rfl := Option.some.inj steps
        constructor
        · exact ⟨valid.accounts.counted, valid.accounts.roomy, valid.accounts.bounded⟩
        · nofun
        · exact fun _ => ⟨rfl, valid.outside (by simpa using idle)⟩
  | thrown =>
    simp only [Memory.step] at steps
    split at steps
    · next window =>
        obtain rfl := Option.some.inj steps
        constructor
        · exact ⟨valid.accounts.counted, valid.accounts.roomy, valid.accounts.bounded⟩
        · exact fun _ => (valid.inside window).2
        · nofun
    · cases steps

theorem machine_valid (runtimeSize : Nat) :
    (machine overhead runtimeSize).Invariant (fun _ _ => True) (JSRuntime.Valid overhead) := by
  refine ⟨⟨⟨?_, ?_, nofun⟩, fun _ => rfl, nofun⟩, fun valid _ steps => valid.step steps⟩
  · simp [machine, weight]
  · intro block member
    obtain rfl : block = ⟨runtimeSize, .large, none⟩ := by simpa [machine] using member
    exact roomy_large _ _

/-! ### Windows -/

def windowOf (entry : Option Block) : Option Nat := entry.bind (·.window)

variable (overhead) in
def JSMallocState.windowBytes (s : JSMallocState) (n : Nat) : Nat :=
  tally (fun entry => if windowOf entry = some n then weight overhead entry else 0) s.blocks

def JSMallocState.liveWindows (s : JSMallocState) : Finset Nat :=
  (s.blocks.filterMap windowOf).toFinset

variable (overhead) in
def charge (size : Nat) (place : Option Nat) : Nat :=
  if size = 0 then 0
  else if totalSize size ≤ 512 then
    match place with
    | some _ => 0
    | none =>
      40 + arenaBlocks (getBlockSizeIndex (totalSize size)) *
        blockSize (getBlockSizeIndex (totalSize size)) + overhead
  else 8 + size + overhead

variable (overhead) in
def JSRuntime.charge (rt : JSRuntime) : Event → Nat
  | .malloc size place _ => Memory.charge overhead size place
  | .realloc p size place _ =>
    match rt.mallocState.blocks[p]? with
    | some (some ⟨_, .large, _⟩) => if size = 0 then 0 else 8 + size + overhead
    | some (some ⟨_, .arena i _ _, _⟩) =>
      if totalSize size ≤ blockSize i then 0 else Memory.charge overhead size place
    | _ => 0
  | _ => 0

variable (overhead) in
/-- When the limit is lifted, blocks of no more than `kept` earlier windows are live, and in one
window no more than `bytes` are asked for at a time. -/
def Moderate (kept bytes : Nat) (rt : JSRuntime) (event : Event) : Prop :=
  (event = .throwOutOfMemory → rt.inOutOfMemory = false → rt.mallocState.liveWindows.card ≤ kept) ∧
    (rt.inOutOfMemory = true →
      rt.mallocState.windowBytes overhead rt.windows + rt.charge overhead event ≤ bytes)

instance (kept bytes : Nat) (rt : JSRuntime) (event : Event) :
    Decidable (Moderate overhead kept bytes rt event) :=
  inferInstanceAs (Decidable (_ ∧ _))

theorem mem_liveWindows {n : Nat} :
    n ∈ s.liveWindows ↔ ∃ entry ∈ s.blocks, windowOf entry = some n := by
  rw [JSMallocState.liveWindows, List.mem_toFinset, List.mem_filterMap]

theorem lifted_le {bytes : Nat} (each : ∀ n, s.windowBytes overhead n ≤ bytes) :
    tally (liftedWeight overhead) s.blocks ≤ s.liveWindows.card * bytes := by
  have same : liftedWeight overhead = fun entry =>
      if (windowOf entry).isSome then weight overhead entry else 0 := by
    funext entry
    cases entry <;> rfl
  rw [same]
  exact tally_groups_le (fun entry member n is => mem_liveWindows.mpr ⟨entry, member, is⟩) each

variable (overhead) in
/-- Only the open window gets bytes, and no more than `cost`. -/
structure Grows (window : Option Nat) (cost : Nat) (s s' : JSMallocState) : Prop where
  bytes : ∀ n, s'.windowBytes overhead n ≤ s.windowBytes overhead n +
    if window = some n then cost else 0
  windows : ∀ n ∈ s'.liveWindows, n ∈ s.liveWindows ∨ window = some n

variable {cost : Nat}

theorem Grows.same (blocks : s'.blocks = s.blocks) : Grows overhead window cost s s' where
  bytes n := by
    unfold JSMallocState.windowBytes
    rw [blocks]
    exact Nat.le_add_right _ _
  windows n member := by
    rw [mem_liveWindows, blocks, ← mem_liveWindows] at member
    exact .inl member

theorem Grows.frees {later : JSMallocState} (first : Grows overhead window cost s s')
    (second : Grows overhead none 0 s' later) : Grows overhead window cost s later where
  bytes n := by
    have one := first.bytes n
    have two := second.bytes n
    rw [if_neg nofun] at two
    omega
  windows n member := (second.windows n member).elim (first.windows n) nofun

theorem grows_set {p : Nat} {old new : Option Block} (found : s.blocks[p]? = some old)
    (is : s'.blocks = s.blocks.set p new)
    (labels : ∀ n, windowOf new = some n → windowOf old = some n ∨ window = some n)
    (bytes : ∀ n, (if windowOf new = some n then weight overhead new else 0) ≤
      (if windowOf old = some n then weight overhead old else 0) +
        if window = some n then cost else 0) :
    Grows overhead window cost s s' where
  bytes n := by
    have traded :=
      tally_set (f := fun entry =>
        if windowOf entry = some n then weight overhead entry else 0) found new
    have more := bytes n
    simp only [JSMallocState.windowBytes, is]
    omega
  windows n member := by
    rw [mem_liveWindows, is] at member
    obtain ⟨entry, inside, labelled⟩ := member
    rcases List.mem_or_eq_of_mem_set inside with old | rfl
    · exact .inl (mem_liveWindows.mpr ⟨entry, old, labelled⟩)
    · exact (labels n labelled).imp
        (fun was => mem_liveWindows.mpr ⟨_, List.mem_of_getElem? found, was⟩) id

theorem grows_jsDefMalloc {block : Block} (made : jsDefMalloc overhead s block granted = some s')
    (its : block.window = window) (costs : block.size + overhead ≤ cost) :
    Grows overhead window cost s s' := by
  unfold jsDefMalloc at made
  split at made
  · cases made
  · split at made
    · obtain rfl := Option.some.inj made
      have labelled : windowOf (some block) = window := its
      constructor
      · intro n
        have weighs : weight overhead (some block) = block.size + overhead := rfl
        simp only [JSMallocState.windowBytes, tally_append, tally_cons, tally_nil, labelled, weighs]
        split <;> omega
      · intro n member
        obtain ⟨entry, inside, is⟩ := mem_liveWindows.mp member
        rcases List.mem_append.mp inside with old | new
        · exact .inl (mem_liveWindows.mpr ⟨entry, old, is⟩)
        · obtain rfl := List.mem_singleton.mp new
          exact .inr (labelled.symm.trans is)
    · cases made

theorem grows_jsDefFree {p : Nat} {block : Block} (found : s.blocks[p]? = some (some block)) :
    Grows overhead none 0 s (jsDefFree overhead s p block) :=
  grows_set found rfl nofun fun _ => Nat.zero_le _

theorem grows_jsDefRealloc {p : Nat} {old new : Block} (found : s.blocks[p]? = some (some old))
    (made : jsDefRealloc s p old new granted = some s') (its : new.window = window)
    (costs : new.size + overhead ≤ cost) : Grows overhead window cost s s' := by
  unfold jsDefRealloc at made
  split at made
  · cases made
  · split at made
    · obtain rfl := Option.some.inj made
      have labelled : windowOf (some new) = window := its
      apply grows_set found rfl
      · exact fun n is => .inr (labelled.symm.trans is)
      · intro n
        have weighs : weight overhead (some new) = new.size + overhead := rfl
        rw [labelled, weighs]
        split <;> omega
    · cases made

theorem grows_setUsed {p bytes i n used used' : Nat} {its : Option Nat}
    (found : s.blocks[p]? = some (some ⟨bytes, .arena i n used, its⟩)) :
    Grows overhead window cost s
      { s with blocks := s.blocks.set p (some ⟨bytes, .arena i n used', its⟩) } :=
  grows_set found rfl (fun _ => .inl) fun _ => Nat.le_add_right _ _

theorem grows_jsMallocSmall {idx : Nat} {place : Option Nat} {result : Bool}
    (made : jsMallocSmall overhead s window idx place granted = some (result, s'))
    (costs : place = none → 40 + arenaBlocks idx * blockSize idx + overhead ≤ cost) :
    Grows overhead window cost s s' := by
  unfold jsMallocSmall at made
  split at made
  · split at made
    · next found =>
      split at made
      · obtain ⟨rfl, rfl⟩ : true = result ∧ _ = s' := by simpa using made
        exact grows_setUsed found
      · cases made
    · cases made
  · split at made
    · cases made
    · rcases answer_spec (Option.some.inj made) with allocates | rfl
      · exact grows_jsDefMalloc allocates rfl (costs rfl)
      · exact .same rfl

theorem grows_jsMalloc {size : Nat} {place : Option Nat} {result : Bool}
    (made : jsMalloc overhead s window size place granted = some (result, s')) :
    Grows overhead window (charge overhead size place) s s' := by
  unfold jsMalloc at made
  split at made
  · obtain ⟨rfl, rfl⟩ : true = result ∧ s = s' := by simpa using made
    exact .same rfl
  · next some =>
    split at made
    · next small =>
      refine grows_jsMallocSmall made fun fresh => ?_
      simp only [charge, if_neg some, if_pos small, fresh, Nat.le_refl]
    · next large =>
      rcases answer_spec (Option.some.inj made) with allocates | rfl
      · refine grows_jsDefMalloc allocates rfl ?_
        simp only [charge, if_neg some, if_neg large, Nat.le_refl]
      · exact .same rfl

theorem grows_jsFree {p : Nat} (frees : jsFree overhead s p = some s') :
    Grows overhead none 0 s s' := by
  unfold jsFree at frees
  split at frees
  · next found =>
    obtain rfl := Option.some.inj frees
    exact grows_jsDefFree found
  · next found =>
    split at frees
    · cases frees
    · split at frees
      · obtain rfl := Option.some.inj frees
        exact grows_jsDefFree found
      · obtain rfl := Option.some.inj frees
        exact grows_setUsed found
  · cases frees

theorem Grows.of_frees (frees : Grows overhead none 0 s s') : Grows overhead window cost s s' :=
  Grows.frees (.same rfl) frees

theorem grows_realloc {rt : JSRuntime} {p size : Nat} {place : Option Nat} {result : Bool}
    (made : jsRealloc overhead rt.mallocState window p size place granted = some (result, s')) :
    Grows overhead window (rt.charge overhead (.realloc p size place granted))
      rt.mallocState s' := by
  unfold jsRealloc at made
  split at made
  · obtain ⟨freed, frees, is⟩ := Option.map_eq_some_iff.mp made
    obtain ⟨rfl, rfl⟩ : false = result ∧ freed = s' := by simpa using is
    exact (grows_jsFree frees).of_frees
  · next some =>
    split at made
    · next found =>
      rcases answer_spec (Option.some.inj made) with resizes | rfl
      · refine grows_jsDefRealloc found resizes rfl ?_
        simp only [JSRuntime.charge, found, if_neg some, Nat.le_refl]
      · exact .same rfl
    · next i _ _ _ found =>
      split at made
      · obtain ⟨rfl, rfl⟩ : true = result ∧ rt.mallocState = s' := by simpa using made
        exact .same rfl
      · next grown =>
        have charged : rt.charge overhead (.realloc p size place granted) =
            charge overhead size place := by
          simp only [JSRuntime.charge, found, if_neg grown]
        rw [charged]
        split at made
        · next allocates =>
          obtain ⟨freed, frees, is⟩ := Option.map_eq_some_iff.mp made
          obtain ⟨rfl, rfl⟩ : true = result ∧ freed = s' := by simpa using is
          exact (grows_jsMalloc allocates).frees (grows_jsFree frees)
        · exact grows_jsMalloc made
    · cases made

/-- What a run within the condition has of the windows. -/
structure Budgeted (overhead kept bytes : Nat) (rt : JSRuntime) : Prop where
  each : ∀ n, rt.mallocState.windowBytes overhead n ≤ bytes
  opened : ∀ n ∈ rt.mallocState.liveWindows, n ≤ rt.windows
  earlier : rt.inOutOfMemory = true → (rt.mallocState.liveWindows.erase rt.windows).card ≤ kept
  live : rt.mallocState.liveWindows.card ≤ kept + 1

variable {kept bytes : Nat} {rt rt' : JSRuntime}

theorem Budgeted.grows (budget : Budgeted overhead kept bytes rt) {event : Event}
    (moderate : Moderate overhead kept bytes rt event)
    (grows : Grows overhead rt.window (rt.charge overhead event) rt.mallocState rt'.mallocState)
    (windows : rt'.windows = rt.windows)
    (inside : rt'.inOutOfMemory = true → rt.inOutOfMemory = true) :
    Budgeted overhead kept bytes rt' := by
  have isOpen {n : Nat} (is : rt.window = some n) : rt.inOutOfMemory = true ∧ rt.windows = n := by
    unfold JSRuntime.window at is
    split at is
    · next lifted => exact ⟨lifted, Option.some.inj is⟩
    · cases is
  have erased : rt'.mallocState.liveWindows.erase rt.windows ⊆
      rt.mallocState.liveWindows.erase rt.windows := by
    intro n member
    obtain ⟨other, live⟩ := Finset.mem_erase.mp member
    rcases grows.windows n live with old | is
    · exact Finset.mem_erase.mpr ⟨other, old⟩
    · exact absurd (isOpen is).2.symm other
  constructor
  · intro n
    have more := grows.bytes n
    split at more
    · next is =>
      obtain ⟨lifted, rfl⟩ := isOpen is
      exact more.trans (moderate.2 lifted)
    · exact more.trans (budget.each n)
  · intro n member
    rw [windows]
    rcases grows.windows n member with old | is
    · exact budget.opened n old
    · exact Nat.le_of_eq (isOpen is).2.symm
  · intro lifted
    rw [windows]
    exact (Finset.card_le_card erased).trans (budget.earlier (inside lifted))
  · cases lifted : rt.inOutOfMemory with
    | true =>
      have others := (Finset.card_le_card erased).trans (budget.earlier lifted)
      have one :=
        Finset.pred_card_le_card_erase (s := rt'.mallocState.liveWindows) (a := rt.windows)
      omega
    | false =>
      refine (Finset.card_le_card fun n member => ?_).trans budget.live
      rcases grows.windows n member with old | is
      · exact old
      · rw [(isOpen is).1] at lifted
        cases lifted

theorem Budgeted.step (budget : Budgeted overhead kept bytes rt) {event : Event}
    (moderate : Moderate overhead kept bytes rt event) (steps : step overhead rt event = some rt') :
    Budgeted overhead kept bytes rt' := by
  cases event with
  | malloc size place granted =>
    obtain ⟨⟨result, s⟩, made, rfl⟩ := Option.map_eq_some_iff.mp steps
    exact budget.grows moderate (grows_jsMalloc made) rfl id
  | free p =>
    obtain ⟨s, frees, rfl⟩ := Option.map_eq_some_iff.mp steps
    exact budget.grows moderate (grows_jsFree frees).of_frees rfl id
  | realloc p size place granted =>
    obtain ⟨⟨result, s⟩, made, rfl⟩ := Option.map_eq_some_iff.mp steps
    exact budget.grows moderate (grows_realloc made) rfl id
  | setMemoryLimit limit =>
    simp only [Memory.step] at steps
    split at steps
    · obtain rfl := Option.some.inj steps
      exact budget.grows moderate (.same rfl) rfl id
    · cases steps
  | throwOutOfMemory =>
    simp only [Memory.step] at steps
    split at steps
    · exact Option.some.inj steps ▸ budget
    · next idle =>
      obtain rfl := Option.some.inj steps
      -- the new window has no blocks, and the condition is about all others
      have few := moderate.1 rfl (by simpa using idle)
      constructor
      · exact budget.each
      · exact fun n member => (budget.opened n member).trans (Nat.le_succ _)
      · exact fun _ => (Finset.card_erase_le).trans few
      · exact few.trans (Nat.le_succ _)
  | thrown =>
    simp only [Memory.step] at steps
    split at steps
    · next lifted =>
      obtain rfl := Option.some.inj steps
      exact budget.grows moderate (.same rfl) rfl fun _ => lifted
    · cases steps

theorem budgeted_invariant (runtimeSize : Nat) :
    (machine overhead runtimeSize).Invariant (Moderate overhead kept bytes)
      (Budgeted overhead kept bytes) := by
  have none_ : (machine overhead runtimeSize).init.mallocState.liveWindows = ∅ := rfl
  constructor
  · constructor
    · exact fun n => Nat.zero_le _
    · simp [none_]
    · nofun
    · simp [none_]
  · exact fun budget moderate steps => budget.step moderate steps

variable (overhead) in
/-- While blocks of few errors are kept, and each error takes little, the size stays under a
bound. -/
theorem limit_bounds (runtimeSize kept bytes : Nat) {rt : JSRuntime}
    (reaches : (machine overhead runtimeSize).Reaches (Moderate overhead kept bytes) rt)
    {limit start : Nat} (set : rt.limited = some (limit, start)) :
    rt.mallocState.mallocSize ≤ max limit start + (overhead + (kept + 1) * bytes) := by
  have valid := (machine_valid runtimeSize).reached (reaches.mono fun _ _ _ => trivial)
  have budget := (budgeted_invariant runtimeSize).reached reaches
  have bounded :=
    valid.accounts.bounded (max limit start + overhead) (by simp [JSRuntime.most, set])
  have lifted : tally (liftedWeight overhead) rt.mallocState.blocks ≤ (kept + 1) * bytes :=
    (lifted_le budget.each).trans (Nat.mul_le_mul_right bytes budget.live)
  omega

/-- Three errors: the first is dropped after the second is made, and the second is kept when the
third is made. -/
theorem limit_bounds_kept :
    let rt : JSRuntime :=
      ⟨⟨3, 8800, some 5000, [some ⟨4096, .large, none⟩, none, some ⟨608, .large, some 2⟩,
        some ⟨4072, .arena 7 56 1, some 3⟩]⟩, false, none, some (5000, 4104), 3⟩
    rt.mallocState.mallocSize ≤ max 5000 4104 + (8 + (1 + 1) * 4080) := by
  refine limit_bounds 8 4096 1 4080 (.run
    [.setMemoryLimit 5000, .malloc 5000 none true, .throwOutOfMemory, .malloc 64 none true, .thrown,
      .malloc 5000 none true, .throwOutOfMemory, .malloc 600 none true, .thrown, .free 1,
      .throwOutOfMemory, .malloc 64 none true, .thrown] .init ?_) rfl
  decide +kernel

/-! ### Errors that are kept -/

theorem used_le_size {rt : JSRuntime} (valid : rt.Valid overhead) :
    tally usedWeight rt.mallocState.blocks ≤ rt.mallocState.mallocSize := by
  rw [valid.accounts.counted]
  refine tally_mono fun entry member => ?_
  cases entry with
  | none => exact Nat.le_refl 0
  | some block =>
    have roomy := valid.accounts.roomy block member
    obtain ⟨size, contents, window⟩ := block
    cases contents with
    | large => exact Nat.le_add_right size overhead
    | arena i n used =>
      obtain ⟨fits, holds⟩ := roomy
      have within : used * blockSize i ≤ n * blockSize i := Nat.mul_le_mul_right _ fits
      have counted : usedWeight (some ⟨size, .arena i n used, window⟩) = used * blockSize i := rfl
      have weighed : weight overhead (some ⟨size, .arena i n used, window⟩) = size + overhead := rfl
      have held : n * blockSize i ≤ size := holds
      omega

-- While the limit is lifted there is always room for a small block.
theorem small_made (s : JSMallocState) (lifted : s.mallocLimit = none) (window : Option Nat)
    (idx : Nat) (size : 0 < blockSize idx) :
    ∃ place s', jsMallocSmall overhead s window idx place true = some (true, s') ∧
      tally usedWeight s.blocks < tally usedWeight s'.blocks := by
  cases room : s.blocks.any (·.elim false (Block.hasRoom idx)) with
  | true =>
    obtain ⟨entry, member, roomy⟩ := List.any_eq_true.mp room
    obtain ⟨p, found⟩ := List.getElem?_of_mem member
    cases entry with
    | none => cases roomy
    | some block =>
      obtain ⟨bytes, contents, its⟩ := block
      cases contents with
      | large => cases roomy
      | arena i n used =>
        obtain ⟨rfl, below⟩ : i = idx ∧ used < n := by simpa [Block.hasRoom] using roomy
        have grown := tally_set (f := usedWeight) found (some ⟨bytes, .arena i n (used + 1), its⟩)
        refine ⟨some p, _, by simp only [jsMallocSmall, found, below, and_self, if_true]; rfl, ?_⟩
        simp only [usedWeight, Option.elim_some, Nat.add_mul, Nat.one_mul] at grown
        simp only
        omega
  | false =>
    refine ⟨none, _,
      by simp only [jsMallocSmall, room, jsDefMalloc, JSMallocState.exceeds, lifted]; rfl, ?_⟩
    simp [usedWeight, size]

-- The guest asks for too much, keeps the error and is back where it was, with one more block in
-- use.
theorem error_kept {runtimeSize limit start : Nat} {rt : JSRuntime} (large : 512 ≤ limit)
    (reaches : (machine overhead runtimeSize).Reaches (fun _ _ => True) rt)
    (idle : rt.inOutOfMemory = false) (set : rt.limited = some (limit, start)) :
    ∃ rt', (machine overhead runtimeSize).Reaches (fun _ _ => True) rt' ∧
    rt'.inOutOfMemory = false ∧
      rt'.limited = some (limit, start) ∧
      tally usedWeight rt.mallocState.blocks < tally usedWeight rt'.mallocState.blocks := by
  have valid := (machine_valid runtimeSize).reached reaches
  have current : rt.mallocState.mallocLimit = some limit := by
    rw [valid.outside idle, set]
    rfl
  -- the request that fails
  have refused : (machine overhead runtimeSize).step rt (.malloc limit none true) = some rt := by
    have small : ¬totalSize limit ≤ 512 := by
      simp only [totalSize]
      omega
    have nonzero : ¬limit = 0 := by omega
    have exceeds : limit < rt.mallocState.mallocSize + (8 + limit) := by omega
    simp [machine, Memory.step, jsMalloc, nonzero, small, jsDefMalloc, JSMallocState.exceeds,
      current, exceeds, answer]
  -- the error object
  let lifted : JSRuntime := { rt with
    mallocState := { rt.mallocState with mallocLimit := none }
    inOutOfMemory := true
    saved := rt.mallocState.mallocLimit
    windows := rt.windows + 1 }
  have opens : (machine overhead runtimeSize).step rt .throwOutOfMemory = some lifted := by
    simp [machine, Memory.step, idle, lifted]
  obtain ⟨place, s', made, grows⟩ :=
    small_made lifted.mallocState rfl (some (rt.windows + 1)) 7 (by decide)
  have makes : (machine overhead runtimeSize).step lifted (.malloc 64 place true) =
      some { lifted with mallocState := s' } := by
    have size : jsMalloc overhead lifted.mallocState lifted.window 64 place true =
        some (true, s') := made
    simp only [machine, Memory.step, size]
    rfl
  have closes : (machine overhead runtimeSize).step { lifted with mallocState := s' } .thrown =
      some ⟨{ s' with mallocLimit := some limit }, false, none, some (limit, start),
        rt.windows + 1⟩ := by
    simp [machine, Memory.step, lifted, current, set]
  have reaches' :=
    (((reaches.step trivial refused).step trivial opens).step trivial makes).step trivial closes
  exact ⟨_, reaches', rfl, rfl, grows⟩

theorem errors_kept (limit : Nat) (large : 512 ≤ limit) (n : Nat) :
    ∃ rt, (machine overhead 4096).Reaches (fun _ _ => True) rt ∧ rt.inOutOfMemory = false ∧
      rt.limited = some (limit, 4096 + overhead) ∧ n ≤ tally usedWeight rt.mallocState.blocks := by
  induction n with
  | zero =>
    have sets : (machine overhead 4096).step (machine overhead 4096).init (.setMemoryLimit limit) =
        some ⟨⟨1, 4096 + overhead, some limit, [some ⟨4096, .large, none⟩]⟩, false, none,
          some (limit, 4096 + overhead), 0⟩ := rfl
    exact ⟨_, Machine.Reaches.init.step trivial sets, rfl, rfl, Nat.zero_le _⟩
  | succ n ih =>
    obtain ⟨rt, reaches, idle, set, used⟩ := ih
    obtain ⟨rt', reaches', idle', set', more⟩ := error_kept large reaches idle set
    exact ⟨rt', reaches', idle', set', by omega⟩

theorem limit_unbounded : ¬∀ limit, ∃ C, ∀ rt start, (machine 8 4096).Reaches (fun _ _ => True) rt →
    rt.limited = some (limit, start) → rt.mallocState.mallocSize ≤ limit + C := by
  intro bounds
  obtain ⟨C, bounded⟩ := bounds 1048576
  obtain ⟨rt, reaches, -, set, used⟩ := @errors_kept 8 1048576 (by decide) (1048576 + C + 1)
  have valid := (machine_valid 4096).reached reaches
  have := bounded rt _ reaches set
  have := used_le_size valid
  omega

end Allocator

end QuickJSBun.Bridge.Memory
