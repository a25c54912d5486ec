import QuickJSBun.Library.Blocks
import QuickJSBun.Library.Machine

/-! The allocator of the engine: `js_def_malloc`, `js_def_free` and `js_def_realloc` keep the size of
a block in a header before it, and count blocks and bytes against a limit. The `malloc`,
`realloc` and `free` of the host are behind them; they fail when they like.
-/

set_option autoImplicit false

namespace QuickJSBun.Engine.Allocator

open Library

/-- `MALLOC_OVERHEAD` depends on the platform. -/
inductive Platform where
  | apple
  | other
  deriving DecidableEq, Repr

def Platform.mallocOverhead : Platform → UInt64
  | .apple => 0
  | .other => 8

/-- `sizeof(JSDefMallocHeader)` -/
def headerBytes : UInt64 := 16

/-- `JSMallocState`, and the heap of the host: the blocks it has given away, and the `size` of the
header at an address. -/
structure JSMallocState where
  mallocCount : UInt64
  mallocSize : UInt64
  mallocLimit : UInt64
  blocks : List Block
  sizes : Nat → UInt64

def release (address : Nat) (blocks : List Block) : List Block :=
  blocks.filter (·.address != address)

/-- `malloc` or `realloc` has answered `header`, and the header is written. -/
def JSMallocState.write (s : JSMallocState) (header : Nat) (size : UInt64) (others : List Block) :
    JSMallocState :=
  { s with
    blocks := ⟨header, (headerBytes + size).toNat⟩ :: others
    sizes := Function.update s.sizes header size }

/-- `header + 1` -/
def payload (header : Nat) : Nat := header + headerBytes.toNat

/-- `(JSDefMallocHeader *)ptr - 1` -/
def headerOf (ptr : Nat) : Nat := ptr - headerBytes.toNat

def jsDefMallocUsableSize (s : JSMallocState) : Option Nat → UInt64
  | some ptr => s.sizes (headerOf ptr)
  | none => 0

variable (platform : Platform)

/-- `answer` is what the host's `malloc` answers; `assert(size != 0)` is left to the caller. -/
def jsDefMalloc (s : JSMallocState) (size : UInt64) (answer : Option Nat) :
    Option Nat × JSMallocState :=
  if s.mallocLimit < s.mallocSize + size then (none, s)
  else match answer with
    | none => (none, s)
    | some header =>
      (some (payload header),
        { s.write header size s.blocks with
          mallocCount := s.mallocCount + 1
          mallocSize := s.mallocSize + (size + platform.mallocOverhead) })

/-- The end of `js_def_free`, and of `js_def_realloc` to no bytes. -/
def drop (s : JSMallocState) (header : Nat) : JSMallocState :=
  { s with
    mallocCount := s.mallocCount - 1
    mallocSize := s.mallocSize - (s.sizes header + platform.mallocOverhead)
    blocks := release header s.blocks }

def jsDefFree (s : JSMallocState) : Option Nat → JSMallocState
  | none => s
  | some ptr => drop platform s (headerOf ptr)

/-- `answer` is what the host's `malloc` or `realloc` answers. -/
def jsDefRealloc (s : JSMallocState) (ptr : Option Nat) (size : UInt64) (answer : Option Nat) :
    Option Nat × JSMallocState :=
  match ptr with
  | none => if size = 0 then (none, s) else jsDefMalloc platform s size answer
  | some ptr =>
    let oldSize := s.sizes (headerOf ptr)
    if size = 0 then (none, drop platform s (headerOf ptr))
    else if s.mallocLimit < s.mallocSize + size - oldSize then (none, s)
    else match answer with
      | none => (none, s)
      | some header =>
        (some (payload header),
          { s.write header size (release (headerOf ptr) s.blocks) with
            mallocSize := s.mallocSize + (size - oldSize) })

/-! ### Callers -/

inductive Call where
  | malloc (size : UInt64) (answer : Option Nat)
  | realloc (ptr : Option Nat) (size : UInt64) (answer : Option Nat)
  | free (ptr : Option Nat)
  deriving DecidableEq, Repr

def Call.run (s : JSMallocState) : Call → Option Nat × JSMallocState
  | .malloc size answer => jsDefMalloc platform s size answer
  | .realloc ptr size answer => jsDefRealloc platform s ptr size answer
  | .free ptr => (none, jsDefFree platform s ptr)

/-- A pointer that the caller has, with the size it asked for. -/
structure Held where
  ptr : Nat
  size : UInt64
  deriving DecidableEq, Repr

def Held.block (held : Held) : Block := ⟨headerOf held.ptr, (headerBytes + held.size).toNat⟩

/-- What a block counts for in `malloc_size`. -/
def Held.cost (held : Held) : Nat := held.size.toNat + platform.mallocOverhead.toNat

/-- The allocator, and the books of its callers. -/
structure State where
  malloc : JSMallocState
  held : List Held

def without (ptr : Nat) (held : List Held) : List Held := held.filter (·.ptr != ptr)

/-- What the callers have after a call that has answered `result`. -/
def Call.book (held : List Held) (result : Option Nat) : Call → List Held
  | .malloc size _ | .realloc none size _ =>
    match result with
    | some ptr => ⟨ptr, size⟩ :: held
    | none => held
  | .realloc (some old) size _ =>
    if size = 0 then without old held
    else match result with
      | some ptr => ⟨ptr, size⟩ :: without old held
      | none => held
  | .free (some old) => without old held
  | .free none => held

def addressSpace : Nat := 2 ^ 64

-- The host gives a block away that overlaps no other.
def Fits (blocks : List Block) (size : UInt64) (answer : Option Nat) : Prop :=
  ∀ header, answer = some header →
    0 < header ∧ header + (headerBytes + size).toNat ≤ addressSpace ∧
      ∀ b ∈ blocks, Block.Apart ⟨header, (headerBytes + size).toNat⟩ b

def Holds (held : List Held) (ptr : Nat) : Prop := ∃ entry ∈ held, entry.ptr = ptr

/-- Sizes below 2^63, pointers that the caller has, and no `malloc` of nothing, which an assertion
refuses. -/
def Call.Admissible (s : State) : Call → Prop
  | .malloc size answer => size ≠ 0 ∧ size.toNat < 2 ^ 63 ∧ Fits s.malloc.blocks size answer
  | .realloc none size answer => size.toNat < 2 ^ 63 ∧ Fits s.malloc.blocks size answer
  | .realloc (some ptr) size answer =>
    Holds s.held ptr ∧ size.toNat < 2 ^ 63 ∧
      Fits (release (headerOf ptr) s.malloc.blocks) size answer
  | .free none => True
  | .free (some ptr) => Holds s.held ptr

instance (blocks : List Block) (size : UInt64) (answer : Option Nat) :
    Decidable (Fits blocks size answer) :=
  match answer with
  | none => isTrue fun _ same => nomatch same
  | some header =>
    decidable_of_iff (0 < header ∧ header + (headerBytes + size).toNat ≤ addressSpace ∧
        ∀ b ∈ blocks, Block.Apart ⟨header, (headerBytes + size).toNat⟩ b)
      ⟨fun fits _ same => Option.some.inj same ▸ fits, fun fits => fits header rfl⟩

instance (held : List Held) (ptr : Nat) : Decidable (Holds held ptr) :=
  inferInstanceAs (Decidable (∃ entry ∈ held, entry.ptr = ptr))

instance (s : State) (call : Call) : Decidable (call.Admissible s) :=
  match call with
  | .malloc _ _ => inferInstanceAs (Decidable (_ ∧ _ ∧ _))
  | .realloc none _ _ => inferInstanceAs (Decidable (_ ∧ _))
  | .realloc (some _) _ _ => inferInstanceAs (Decidable (_ ∧ _ ∧ _))
  | .free none => isTrue trivial
  | .free (some _) => inferInstanceAs (Decidable (Holds _ _))

def step (s : State) (call : Call) : Option State :=
  if call.Admissible s then
    some ⟨(call.run platform s.malloc).2, call.book s.held (call.run platform s.malloc).1⟩
  else none

def machine (limit : UInt64) : Machine State Call :=
  ⟨⟨⟨0, 0, limit, [], fun _ => 0⟩, []⟩, step platform⟩

/-! ### The books -/

/-- The host's blocks are those that the callers have, and their headers hold the sizes asked
for. -/
structure Laid (blocks : List Block) (sizes : Nat → UInt64) (held : List Held) : Prop where
  books : blocks = held.map Held.block
  headers : ∀ entry ∈ held, sizes (headerOf entry.ptr) = entry.size
  above : ∀ entry ∈ held, headerBytes.toNat < entry.ptr
  small : ∀ entry ∈ held, entry.size.toNat < 2 ^ 63
  within : ∀ b ∈ blocks, b.address + b.length ≤ addressSpace
  apart : blocks.Pairwise Block.Apart

theorem headerBytes_toNat : headerBytes.toNat = 16 := rfl

theorem toNat_length {size : UInt64} (small : size.toNat < 2 ^ 63) :
    (headerBytes + size).toNat = 16 + size.toNat := by
  rw [UInt64.toNat_add, headerBytes_toNat]
  omega

theorem overhead_le : platform.mallocOverhead.toNat ≤ 8 := by
  cases platform
  · exact Nat.zero_le 8
  · exact Nat.le_refl 8

section
variable {blocks : List Block} {sizes : Nat → UInt64} {held : List Held}
    (laid : Laid blocks sizes held)
include laid

theorem Laid.distinct : held.Pairwise fun x y => x.ptr ≠ y.ptr := by
  have apart := laid.apart
  rw [laid.books, List.pairwise_map] at apart
  refine apart.imp_of_mem fun {x y} first second separate same => ?_
  have longer := toNat_length (laid.small x first)
  have longer' := toNat_length (laid.small y second)
  simp only [Held.block, Block.Apart, same] at separate
  omega

theorem Laid.release (ptr : Nat) (above : headerBytes.toNat < ptr) :
    Laid (release (headerOf ptr) blocks) sizes (without ptr held) where
  books := by
    rw [Allocator.release, laid.books, List.filter_map, without]
    congr 1
    refine List.filter_congr fun entry member => ?_
    have its := laid.above entry member
    simp only [Function.comp_apply, Held.block, headerOf, headerBytes_toNat] at its above ⊢
    rw [Bool.eq_iff_iff, bne_iff_ne, bne_iff_ne]
    omega
  headers entry member := laid.headers entry (List.mem_of_mem_filter member)
  above entry member := laid.above entry (List.mem_of_mem_filter member)
  small entry member := laid.small entry (List.mem_of_mem_filter member)
  within b member := laid.within b (List.mem_of_mem_filter member)
  apart := laid.apart.filter _

theorem Laid.insert {header : Nat} {size : UInt64} (small : size.toNat < 2 ^ 63)
    (fits : Fits blocks size (some header)) :
    Laid (⟨header, (headerBytes + size).toNat⟩ :: blocks) (Function.update sizes header size)
      (⟨payload header, size⟩ :: held) := by
  obtain ⟨positive, inside, apart⟩ := fits header rfl
  have back : headerOf (payload header) = header := Nat.add_sub_cancel header headerBytes.toNat
  refine ⟨?_, fun entry member => ?_, fun entry member => ?_, fun entry member =>
    ?_, fun b member => ?_, List.pairwise_cons.mpr ⟨apart, laid.apart⟩⟩
  · rw [List.map_cons, Held.block, back, laid.books]
  · rcases List.mem_cons.mp member with rfl | other
    · simp only [back, Function.update_self]
    · have separate := apart entry.block (laid.books ▸ List.mem_map_of_mem other)
      have longer := toNat_length small
      have elsewhere : headerOf entry.ptr ≠ header := by
        intro same
        have longer' := toNat_length (laid.small entry other)
        simp only [Held.block, Block.Apart, same] at separate
        omega
      rw [Function.update_of_ne elsewhere]
      exact laid.headers entry other
  · rcases List.mem_cons.mp member with rfl | other
    · exact Nat.lt_add_of_pos_left positive
    · exact laid.above entry other
  · rcases List.mem_cons.mp member with rfl | other
    · exact small
    · exact laid.small entry other
  · rcases List.mem_cons.mp member with rfl | other
    · exact inside
    · exact laid.within b other

-- All that is held fits the addresses, headers and all.
theorem Laid.total_lt : tally (fun entry : Held => entry.block.length) held < 2 ^ 64 := by
  have positive : ∀ b ∈ blocks, 0 < b.address := by
    intro b member
    obtain ⟨entry, found, rfl⟩ := List.mem_map.mp (laid.books ▸ member)
    exact Nat.sub_pos_of_lt (laid.above entry found)
  have all := Block.tally_length_lt laid.apart positive laid.within (Nat.two_pow_pos 64)
  rwa [laid.books, tally, List.map_map] at all

theorem Laid.cost_lt : tally (Held.cost platform) held < 2 ^ 64 := by
  refine Nat.lt_of_le_of_lt (tally_mono fun entry member => ?_) laid.total_lt
  have longer := toNat_length (laid.small entry member)
  have overhead := overhead_le platform
  simp only [Held.cost, Held.block]
  omega

theorem Laid.length_lt : held.length < 2 ^ 64 := by
  have fewer : tally (fun _ : Held => 1) held ≤
      tally (fun entry : Held => entry.block.length) held := by
    refine tally_mono fun entry member => ?_
    have longer := toNat_length (laid.small entry member)
    simp only [Held.block]
    omega
  have length : tally (fun _ : Held => 1) held = held.length := by simp [tally]
  exact Nat.lt_of_le_of_lt (length ▸ fewer) laid.total_lt

end

-- The counters agree with the books.
structure Valid (limit : UInt64) (s : State) : Prop where
  laid : Laid s.malloc.blocks s.malloc.sizes s.held
  count : s.malloc.mallocCount.toNat = s.held.length
  size : s.malloc.mallocSize.toNat = tally (Held.cost platform) s.held
  fixed : s.malloc.mallocLimit = limit
  bounded : s.malloc.mallocSize.toNat ≤ limit.toNat + platform.mallocOverhead.toNat

/-! ### What the functions do -/

theorem jsDefMalloc_cases (s : JSMallocState) (size : UInt64) (answer : Option Nat) :
    jsDefMalloc platform s size answer = (none, s) ∨
      ∃ header, answer = some header ∧ ¬s.mallocLimit < s.mallocSize + size ∧
        jsDefMalloc platform s size answer =
          (some (payload header),
            { s.write header size s.blocks with
              mallocCount := s.mallocCount + 1
              mallocSize := s.mallocSize + (size + platform.mallocOverhead) }) := by
  unfold jsDefMalloc
  split
  · exact .inl rfl
  · next room =>
      cases answer with
      | none => exact .inl rfl
      | some header => exact .inr ⟨header, rfl, room, rfl⟩

theorem jsDefRealloc_cases (s : JSMallocState) (ptr : Nat) {size : UInt64} (some_ : size ≠ 0)
    (answer : Option Nat) :
    jsDefRealloc platform s (some ptr) size answer = (none, s) ∨
      ∃ header, answer = some header ∧
      ¬s.mallocLimit < s.mallocSize + size - s.sizes (headerOf ptr) ∧
        jsDefRealloc platform s (some ptr) size answer =
          (some (payload header),
            { s.write header size (release (headerOf ptr) s.blocks) with
              mallocSize := s.mallocSize + (size - s.sizes (headerOf ptr)) }) := by
  unfold jsDefRealloc
  simp only [if_neg some_]
  split
  · exact .inl rfl
  · next room =>
      cases answer with
      | none => exact .inl rfl
      | some header => exact .inr ⟨header, rfl, room, rfl⟩

section
variable {limit : UInt64} {s : State} (valid : Valid platform limit s)
include valid

theorem Valid.malloc {size : UInt64} {header : Nat} (small : size.toNat < 2 ^ 63)
    (fits : Fits s.malloc.blocks size (some header))
    (room : ¬s.malloc.mallocLimit < s.malloc.mallocSize + size) :
    Valid platform limit
      ⟨{ s.malloc.write header size s.malloc.blocks with
          mallocCount := s.malloc.mallocCount + 1
          mallocSize := s.malloc.mallocSize + (size + platform.mallocOverhead) },
        ⟨payload header, size⟩ :: s.held⟩ := by
  have laid := valid.laid.insert small fits
  have fewer := laid.length_lt
  have total := laid.cost_lt platform
  have overhead := overhead_le platform
  have count := valid.count
  have size_ := valid.size
  simp only [tally_cons, Held.cost, List.length_cons] at total fewer
  rw [valid.fixed, UInt64.lt_iff_toNat_lt, UInt64.toNat_add] at room
  have grown : (s.malloc.mallocSize + (size + platform.mallocOverhead)).toNat =
      s.malloc.mallocSize.toNat + (size.toNat + platform.mallocOverhead.toNat) := by
    rw [UInt64.toNat_add, UInt64.toNat_add]
    omega
  refine ⟨laid, ?_, ?_, valid.fixed, ?_⟩
  · show (s.malloc.mallocCount + 1).toNat = s.held.length + 1
    rw [UInt64.toNat_add, count, UInt64.toNat_one]
    omega
  · show (s.malloc.mallocSize + (size + platform.mallocOverhead)).toNat = _
    simp only [tally_cons, Held.cost]
    omega
  · show (s.malloc.mallocSize + (size + platform.mallocOverhead)).toNat ≤ _
    omega

-- What is subtracted is there.
theorem Valid.covers {entry : Held} (member : entry ∈ s.held) :
    0 < s.malloc.mallocCount.toNat ∧
      (entry.size + platform.mallocOverhead).toNat = entry.cost platform ∧
      entry.cost platform ≤ s.malloc.mallocSize.toNat := by
  have small := valid.laid.small entry member
  have overhead := overhead_le platform
  refine ⟨?_, ?_, ?_⟩
  · rw [valid.count]
    exact List.length_pos_of_mem member
  · rw [UInt64.toNat_add, Held.cost]
    omega
  · rw [valid.size]
    exact le_tally member

theorem Valid.drop {entry : Held} (member : entry ∈ s.held) :
    Valid platform limit
      ⟨drop platform s.malloc (headerOf entry.ptr), without entry.ptr s.held⟩ := by
  have laid := valid.laid.release entry.ptr (valid.laid.above entry member)
  have header := valid.laid.headers entry member
  have out := tally_filter_ne (f := Held.cost platform) valid.laid.distinct member
  have one := tally_filter_ne (f := fun _ => 1) valid.laid.distinct member
  have length : ∀ entries : List Held, tally (fun _ : Held => 1) entries = entries.length :=
    fun entries => by simp [tally]
  rw [length, length] at one
  obtain ⟨counted, cost, covered⟩ := valid.covers platform member
  have count := valid.count
  have size := valid.size
  have bounded := valid.bounded
  have within := s.malloc.mallocSize.toNat_lt
  have within' := s.malloc.mallocCount.toNat_lt
  have less : (s.malloc.mallocSize - (entry.size + platform.mallocOverhead)).toNat =
      s.malloc.mallocSize.toNat - entry.cost platform := by
    rw [UInt64.toNat_sub, cost]
    omega
  refine ⟨laid, ?_, ?_, valid.fixed, ?_⟩
  · show (s.malloc.mallocCount - 1).toNat = (without entry.ptr s.held).length
    rw [UInt64.toNat_sub, UInt64.toNat_one, without]
    omega
  · show (s.malloc.mallocSize -
        (s.malloc.sizes (headerOf entry.ptr) + platform.mallocOverhead)).toNat =
      tally (Held.cost platform) (without entry.ptr s.held)
    rw [header, less, without]
    omega
  · show (s.malloc.mallocSize -
        (s.malloc.sizes (headerOf entry.ptr) + platform.mallocOverhead)).toNat ≤ _
    rw [header, less]
    omega

theorem Valid.realloc {entry : Held} (member : entry ∈ s.held) {size : UInt64} {header : Nat}
    (small : size.toNat < 2 ^ 63)
    (fits : Fits (release (headerOf entry.ptr) s.malloc.blocks) size (some header))
    (room : ¬s.malloc.mallocLimit < s.malloc.mallocSize + size -
      s.malloc.sizes (headerOf entry.ptr)) :
    Valid platform limit
      ⟨{ s.malloc.write header size (release (headerOf entry.ptr) s.malloc.blocks) with
          mallocSize := s.malloc.mallocSize + (size - s.malloc.sizes (headerOf entry.ptr)) },
        ⟨payload header, size⟩ :: without entry.ptr s.held⟩ := by
  have laid := (valid.laid.release entry.ptr (valid.laid.above entry member)).insert small fits
  have total := laid.cost_lt platform
  have out := tally_filter_ne (f := Held.cost platform) valid.laid.distinct member
  have one := tally_filter_ne (f := fun _ => 1) valid.laid.distinct member
  have length : ∀ entries : List Held, tally (fun _ : Held => 1) entries = entries.length :=
    fun entries => by simp [tally]
  rw [length, length] at one
  have cost := (valid.covers platform member).2.1
  have count := valid.count
  have size_ := valid.size
  have old := valid.laid.small entry member
  have within := s.malloc.mallocSize.toNat_lt
  simp only [tally_cons, Held.cost, without] at total out cost
  rw [valid.laid.headers entry member] at room ⊢
  rw [valid.fixed, UInt64.lt_iff_toNat_lt, UInt64.toNat_sub, UInt64.toNat_add] at room
  have moved : (s.malloc.mallocSize + (size - entry.size)).toNat + entry.size.toNat =
      s.malloc.mallocSize.toNat + size.toNat := by
    rw [UInt64.toNat_add, UInt64.toNat_sub]
    omega
  refine ⟨laid, ?_, ?_, valid.fixed, ?_⟩
  · show s.malloc.mallocCount.toNat = (without entry.ptr s.held).length + 1
    rw [without]
    omega
  · show (s.malloc.mallocSize + (size - entry.size)).toNat = _
    simp only [tally_cons, Held.cost, without]
    omega
  · show (s.malloc.mallocSize + (size - entry.size)).toNat ≤ _
    omega

end

/-- A call for memory; the others answer NULL when they succeed. -/
def Call.asks : Call → Bool
  | .malloc _ _ => true
  | .realloc _ size _ => size != 0
  | .free _ => false

theorem step_eq {s s' : State} {call : Call} (steps : step platform s call = some s') :
    call.Admissible s ∧
    s' = ⟨(call.run platform s.malloc).2, call.book s.held (call.run platform s.malloc).1⟩ := by
  unfold step at steps
  split at steps
  · next admissible => exact ⟨admissible, (Option.some.inj steps).symm⟩
  · cases steps

theorem Valid.asked {limit : UInt64} {s : State} (valid : Valid platform limit s) {size : UInt64}
    {answer : Option Nat} (small : size.toNat < 2 ^ 63) (fits : Fits s.malloc.blocks size answer) :
    Valid platform limit
      ⟨(jsDefMalloc platform s.malloc size answer).2,
        match (jsDefMalloc platform s.malloc size answer).1 with
        | some ptr => ⟨ptr, size⟩ :: s.held
        | none => s.held⟩ := by
  rcases jsDefMalloc_cases platform s.malloc size answer with same | ⟨header, rfl, room, made⟩
  · rw [same]
    exact valid
  · rw [made]
    exact valid.malloc platform small fits room

theorem Valid.step {limit : UInt64} {s s' : State} {call : Call} (valid : Valid platform limit s)
    (steps : step platform s call = some s') : Valid platform limit s' := by
  obtain ⟨admissible, rfl⟩ := step_eq platform steps
  cases call with
  | malloc size answer => exact valid.asked platform admissible.2.1 admissible.2.2
  | realloc ptr size answer =>
    cases ptr with
    | none =>
      by_cases nothing : size = 0
      · simp only [Call.run, Call.book, jsDefRealloc, if_pos nothing]
        exact valid
      · simp only [Call.run, Call.book, jsDefRealloc, if_neg nothing]
        exact valid.asked platform admissible.1 admissible.2
    | some ptr =>
      obtain ⟨⟨entry, member, rfl⟩, small, fits⟩ := admissible
      by_cases nothing : size = 0
      · simp only [Call.run, Call.book, jsDefRealloc, if_pos nothing]
        exact valid.drop platform member
      · simp only [Call.run, Call.book, if_neg nothing]
        rcases jsDefRealloc_cases platform s.malloc entry.ptr nothing
          answer with same | ⟨header, rfl, room, made⟩
        · rw [same]
          exact valid
        · rw [made]
          exact valid.realloc platform member small fits room
  | free ptr =>
    cases ptr with
    | none => exact valid
    | some ptr =>
      obtain ⟨entry, member, rfl⟩ := admissible
      exact valid.drop platform member

theorem valid_start (limit : UInt64) : Valid platform limit (machine platform limit).init where
  laid :=
    ⟨rfl, by simp [machine], by simp [machine], by simp [machine], by simp [machine],
      List.Pairwise.nil⟩
  count := rfl
  size := rfl
  fixed := rfl
  bounded := Nat.zero_le _

theorem valid_reached {limit : UInt64} {s : State}
    (reaches : (machine platform limit).Reaches (fun _ _ => True) s) : Valid platform limit s :=
  Machine.Invariant.reached
    ⟨valid_start platform limit, fun valid _ steps => valid.step platform steps⟩ reaches

-- A call for memory that answers NULL has done nothing.
theorem failed_nothing {s s' : State} {call : Call} (steps : step platform s call = some s')
    (asks : call.asks = true) (failed : (call.run platform s.malloc).1 = none) : s' = s := by
  obtain ⟨-, rfl⟩ := step_eq platform steps
  have fails : ∀ size answer, (jsDefMalloc platform s.malloc size answer).1 = none →
      jsDefMalloc platform s.malloc size answer = (none, s.malloc) := by
    intro size answer isNone
    rcases jsDefMalloc_cases platform s.malloc size answer with same | ⟨header, -, -, made⟩
    · exact same
    · rw [made] at isNone
      cases isNone
  cases call with
  | malloc size answer =>
    have same := fails size answer failed
    simp only [Call.run, Call.book, same]
  | realloc ptr size answer =>
    have some_ : size ≠ 0 := bne_iff_ne.mp asks
    cases ptr with
    | none =>
      simp only [Call.run, jsDefRealloc, if_neg some_] at failed
      have same := fails size answer failed
      simp only [Call.run, Call.book, jsDefRealloc, if_neg some_, same]
    | some ptr =>
      rcases jsDefRealloc_cases platform s.malloc ptr some_ answer with same | ⟨header, -, -, made⟩
      · simp only [Call.run, Call.book, if_neg some_, same]
      · rw [Call.run, made] at failed
        cases failed
  | free ptr => cases asks

/-- The counters are exact in every state, and a call that fails changes nothing. -/
theorem malloc_accounts (limit : UInt64) {s : State}
    (reaches : (machine platform limit).Reaches (fun _ _ => True) s) :
    s.malloc.mallocCount.toNat = s.held.length ∧
      s.malloc.mallocSize.toNat = tally (Held.cost platform) s.held ∧
      (∀ entry ∈ s.held, jsDefMallocUsableSize s.malloc (some entry.ptr) = entry.size ∧
        0 < s.malloc.mallocCount.toNat ∧ entry.cost platform ≤ s.malloc.mallocSize.toNat) ∧
      s.malloc.mallocSize.toNat ≤ limit.toNat + platform.mallocOverhead.toNat ∧
      ∀ call s', step platform s call = some s' → call.asks = true →
      (call.run platform s.malloc).1 = none → s' = s := by
  have valid := valid_reached platform reaches
  refine ⟨valid.count, valid.size, fun entry member => ?_, valid.bounded,
    fun call s' steps asks failed => ?_⟩
  · have covers := valid.covers platform member
    exact ⟨valid.laid.headers entry member, covers.1, covers.2.2⟩
  · exact failed_nothing platform steps asks failed

/-- A block is made, a second one fails in the host, the first grows in place, and is freed. -/
theorem malloc_accounts_growing :
    ∃ s : State, s.malloc.mallocCount = 1 ∧ s.malloc.mallocSize = 208 ∧ s.held = [⟨4112, 200⟩] ∧
      s.malloc.mallocSize.toNat = tally (Held.cost .other) s.held := by
  have runs : ∃ s, (machine .other 1000).run (fun _ _ => True) (machine .other 1000).init
      [.malloc 100 (some 4096), .malloc 50 none, .realloc (some 4112) 200 (some 4096), .free none] =
        some s ∧
      s.malloc.mallocCount = 1 ∧ s.malloc.mallocSize = 208 ∧ s.held = [⟨4112, 200⟩] :=
    ⟨_, rfl, by decide, by decide, by decide⟩
  obtain ⟨s, runs, count, size, held⟩ := runs
  have reaches := Machine.Reaches.run _ (Machine.Reaches.init (m := machine .other 1000)) runs
  exact ⟨s, count, size, held, (malloc_accounts .other 1000 reaches).2.1⟩

end QuickJSBun.Engine.Allocator
