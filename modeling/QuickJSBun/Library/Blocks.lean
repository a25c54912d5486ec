import Mathlib.Data.Finset.Union
import Mathlib.Order.Interval.Finset.Nat
import QuickJSBun.Library.Tally

/-! Blocks of an address space. Blocks that do not overlap have no more cells together than
the space they are in.
-/

set_option autoImplicit false

namespace QuickJSBun.Library

structure Block where
  address : Nat
  length : Nat
  deriving DecidableEq, Repr

namespace Block

def Apart (b c : Block) : Prop :=
  b.address + b.length ≤ c.address ∨ c.address + c.length ≤ b.address

instance (b c : Block) : Decidable (b.Apart c) := inferInstanceAs (Decidable (_ ∨ _))

def cells (b : Block) : Finset Nat := Finset.Ico b.address (b.address + b.length)

@[simp] theorem card_cells (b : Block) : b.cells.card = b.length := by
  simp [cells]

theorem Apart.disjoint {b c : Block} (apart : b.Apart c) : Disjoint b.cells c.cells := by
  rw [Finset.disjoint_left]
  intro cell inFirst inSecond
  have first := Finset.mem_Ico.mp inFirst
  have second := Finset.mem_Ico.mp inSecond
  rcases apart with before | after
  · omega
  · omega

def covered (blocks : List Block) : Finset Nat := blocks.foldr (fun b cells => b.cells ∪ cells) ∅

theorem mem_covered {blocks : List Block} {cell : Nat} :
    cell ∈ covered blocks ↔ ∃ b ∈ blocks, cell ∈ b.cells := by
  induction blocks with
  | nil => simp [covered]
  | cons b rest ih =>
    rw [covered, List.foldr_cons, Finset.mem_union]
    simp only [covered] at ih
    simp [ih]

theorem card_covered {blocks : List Block} (apart : blocks.Pairwise Apart) :
    (covered blocks).card = tally Block.length blocks := by
  induction blocks with
  | nil => rfl
  | cons b rest ih =>
    obtain ⟨fromOthers, others⟩ := List.pairwise_cons.mp apart
    have disjoint : Disjoint b.cells (covered rest) := by
      rw [Finset.disjoint_left]
      intro cell inFirst inRest
      obtain ⟨c, member, inSecond⟩ := mem_covered.mp inRest
      exact Finset.disjoint_left.mp (fromOthers c member).disjoint inFirst inSecond
    have sum := Finset.card_union_of_disjoint disjoint
    rw [ih others, card_cells] at sum
    rw [tally_cons]
    exact sum

-- Addresses start above zero.
theorem tally_length_lt {blocks : List Block} {bound : Nat} (apart : blocks.Pairwise Apart)
    (positive : ∀ b ∈ blocks, 0 < b.address) (within : ∀ b ∈ blocks, b.address + b.length ≤ bound)
    (space : 0 < bound) : tally Block.length blocks < bound := by
  have inside : covered blocks ⊆ Finset.Ico 1 bound := by
    intro cell covers
    obtain ⟨b, member, inBlock⟩ := mem_covered.mp covers
    have above := positive b member
    have below := within b member
    have bounds := Finset.mem_Ico.mp inBlock
    exact Finset.mem_Ico.mpr ⟨by omega, by omega⟩
  have fewer := Finset.card_le_card inside
  rw [card_covered apart, Nat.card_Ico] at fewer
  omega

end Block

end QuickJSBun.Library
