import QuickJSBun.Library.Tally

/-! Reference counted heaps. The count of a cell is the number of references to it, from the other cells
and from outside; a cell goes with its last reference, and what it refers to loses one.
-/

set_option autoImplicit false

namespace QuickJSBun.Library

structure Cell (α : Type) where
  address : Nat
  count : Nat
  node : α
  deriving DecidableEq, Repr

namespace Cell
variable {α : Type}

def find (cells : List (Cell α)) (address : Nat) : Option (Cell α) :=
  cells.find? (·.address == address)

def nodeAt (cells : List (Cell α)) (address : Nat) : Option α := (find cells address).map Cell.node

def countAt (cells : List (Cell α)) (address : Nat) : Nat :=
  ((find cells address).map Cell.count).getD 0

def update (address : Nat) (change : Cell α → Cell α) (cells : List (Cell α)) : List (Cell α) :=
  cells.map fun cell => if cell.address = address then change cell else cell

def retain (address : Nat) (cells : List (Cell α)) : List (Cell α) :=
  update address (fun cell => { cell with count := cell.count + 1 }) cells

def lower (address : Nat) (cells : List (Cell α)) : List (Cell α) :=
  update address (fun cell => { cell with count := cell.count - 1 }) cells

def store (address : Nat) (node : α) (cells : List (Cell α)) : List (Cell α) :=
  update address (fun cell => { cell with node := node }) cells

def erase (address : Nat) (cells : List (Cell α)) : List (Cell α) :=
  cells.filter (·.address != address)

variable (refers : α → List Nat)

/-- Give references back, and those of the cells that go with them. -/
def drop : Nat → List Nat → List (Cell α) → List (Cell α)
  | 0, _, cells => cells
  | _, [], cells => cells
  | fuel + 1, address :: rest, cells =>
    match find cells address with
    | none => drop fuel rest cells
    | some cell =>
      if cell.count ≤ 1 then drop fuel (refers cell.node ++ rest) (erase address cells)
      else drop fuel rest (lower address cells)

-- Every step gives back one reference.
def release (addresses : List Nat) (cells : List (Cell α)) : List (Cell α) :=
  drop refers (tally Cell.count cells) addresses cells

def inside (cells : List (Cell α)) (address : Nat) : Nat :=
  tally (fun cell => (refers cell.node).count address) cells

structure Balanced (cells : List (Cell α)) (held : List Nat) : Prop where
  distinct : cells.Pairwise fun x y => x.address ≠ y.address
  counted : ∀ address, countAt cells address = inside refers cells address + held.count address

/-! ### Cells -/

section
variable {cells : List (Cell α)} {address other : Nat}

theorem find_address {cell : Cell α} (found : find cells address = some cell) :
    cell.address = address := by
  simpa using List.find?_some found

theorem find_mem {cell : Cell α} (found : find cells address = some cell) : cell ∈ cells :=
  List.mem_of_find?_eq_some found

theorem find_update {change : Cell α → Cell α}
    (same : ∀ cell, (change cell).address = cell.address) :
    find (update address change cells) other =
      (find cells other).map fun cell => if other = address then change cell else cell := by
  induction cells with
  | nil => rfl
  | cons first rest ih =>
    have moved : (if first.address = address then change first else first).address =
        first.address := by
      split
      · exact same first
      · rfl
    simp only [find, update, List.map_cons, List.find?_cons, moved] at ih ⊢
    by_cases here : first.address = other
    · rw [beq_iff_eq.mpr here]
      simp [here]
    · rw [beq_eq_false_iff_ne.mpr here]
      exact ih

theorem find_retain : find (retain address cells) other =
    (find cells other).map fun cell =>
      if other = address then { cell with count := cell.count + 1 } else cell :=
  find_update fun _ => rfl

theorem find_lower : find (lower address cells) other =
    (find cells other).map fun cell =>
      if other = address then { cell with count := cell.count - 1 } else cell :=
  find_update fun _ => rfl

theorem find_store {node : α} : find (store address node cells) other =
    (find cells other).map fun cell =>
      if other = address then { cell with node := node } else cell :=
  find_update fun _ => rfl

theorem find_erase :
    find (erase address cells) other = if other = address then none else find cells other := by
  induction cells with
  | nil => simp [find, erase]
  | cons first rest ih =>
    simp only [find, erase] at ih ⊢
    by_cases gone : first.address = address
    · rw [List.filter_cons_of_neg (by simp [gone]), ih, List.find?_cons]
      by_cases same : other = address
      · simp [same]
      · rw [if_neg same, if_neg same, beq_eq_false_iff_ne.mpr (gone ▸ Ne.symm same)]
    · rw [List.filter_cons_of_pos (by simp [gone]), List.find?_cons, List.find?_cons, ih]
      by_cases here : first.address = other
      · have still : ¬other = address := here ▸ gone
        simp only [beq_iff_eq.mpr here, if_neg still]
      · rw [beq_eq_false_iff_ne.mpr here]

theorem nodeAt_retain : nodeAt (retain address cells) other = nodeAt cells other := by
  simp only [nodeAt, find_retain, Option.map_map]
  congr 1
  funext cell
  simp only [Function.comp]
  split <;> rfl

theorem nodeAt_lower : nodeAt (lower address cells) other = nodeAt cells other := by
  simp only [nodeAt, find_lower, Option.map_map]
  congr 1
  funext cell
  simp only [Function.comp]
  split <;> rfl

theorem nodeAt_erase :
    nodeAt (erase address cells) other = if other = address then none else nodeAt cells other := by
  simp only [nodeAt, find_erase]
  split <;> rfl

theorem nodeAt_store {node : α} :
    nodeAt (store address node cells) other =
      if other = address then (nodeAt cells other).map fun _ => node else nodeAt cells other := by
  simp only [nodeAt, find_store, Option.map_map]
  by_cases same : other = address
  · simp only [if_pos same]
    rfl
  · simp only [if_neg same]
    rfl

theorem find_of_countAt (counted : 0 < countAt cells address) :
    ∃ cell, find cells address = some cell := by
  unfold countAt at counted
  cases found : find cells address with
  | none =>
    rw [found] at counted
    cases counted
  | some cell => exact ⟨cell, rfl⟩

theorem inside_update {change : Cell α → Cell α} (same : ∀ cell, (change cell).node = cell.node) :
    inside refers (update address change cells) other = inside refers cells other := by
  simp only [inside, update, tally, List.map_map]
  congr 2
  funext cell
  simp only [Function.comp]
  split
  · rw [same]
  · rfl

theorem inside_retain : inside refers (retain address cells) other = inside refers cells other :=
  inside_update refers fun _ => rfl

theorem inside_lower : inside refers (lower address cells) other = inside refers cells other :=
  inside_update refers fun _ => rfl

theorem distinct_update {change : Cell α → Cell α}
    (same : ∀ cell, (change cell).address = cell.address)
    (distinct : cells.Pairwise fun x y => x.address ≠ y.address) :
    (update address change cells).Pairwise fun x y => x.address ≠ y.address := by
  have moved : ∀ cell : Cell α, (if cell.address = address then change cell else cell).address =
      cell.address := by
    intro cell
    split
    · exact same cell
    · rfl
  refine List.pairwise_map.mpr (distinct.imp fun apart => ?_)
  rw [moved, moved]
  exact apart

end

/-! ### Balance -/

section
variable {refers} {cells : List (Cell α)} {held : List Nat} {address : Nat}

theorem Balanced.perm {held' : List Nat} (balanced : Balanced refers cells held)
    (same : ∀ address, held'.count address = held.count address) : Balanced refers cells held' :=
  ⟨balanced.distinct, fun address => by rw [same, balanced.counted]⟩

theorem Balanced.countAt_held (balanced : Balanced refers cells held) (member : address ∈ held) :
    0 < countAt cells address := by
  have positive : 0 < held.count address := List.count_pos_iff.mpr member
  rw [balanced.counted]
  omega

theorem Balanced.countAt_child (balanced : Balanced refers cells held) {parent : Nat} {node : α}
    (found : nodeAt cells parent = some node) (member : address ∈ refers node) :
    0 < countAt cells address := by
  obtain ⟨cell, at_, rfl⟩ := Option.map_eq_some_iff.mp found
  have positive : 0 < (refers cell.node).count address := List.count_pos_iff.mpr member
  have below := le_tally (f := fun cell => (refers cell.node).count address) (find_mem at_)
  rw [balanced.counted]
  unfold inside
  omega

-- What is referred to is there.
theorem Balanced.live (balanced : Balanced refers cells held) (member : address ∈ held) :
    ∃ cell, find cells address = some cell :=
  find_of_countAt (balanced.countAt_held member)

theorem Balanced.child (balanced : Balanced refers cells held) {parent : Nat} {node : α}
    (found : nodeAt cells parent = some node) (member : address ∈ refers node) :
    ∃ cell, find cells address = some cell :=
  find_of_countAt (balanced.countAt_child found member)

theorem Balanced.retain (balanced : Balanced refers cells held) (live : ∃ cell, find cells address = some cell) :
    Balanced refers (retain address cells) (address :: held) := by
  refine ⟨distinct_update (fun _ => rfl) balanced.distinct, fun other => ?_⟩
  obtain ⟨cell, found⟩ := live
  have before := balanced.counted other
  simp only [countAt, find_retain, inside_retain, List.count_cons] at before ⊢
  by_cases same : other = address
  · subst same
    simp only [found, Option.map_some, Option.getD_some, if_true, beq_self_eq_true] at before ⊢
    omega
  · simp only [if_neg same, Option.map_id', beq_iff_eq, Ne.symm same, if_false, Nat.add_zero]
    exact before

theorem Balanced.lower (balanced : Balanced refers cells (address :: held)) :
    Balanced refers (lower address cells) held := by
  refine ⟨distinct_update (fun _ => rfl) balanced.distinct, fun other => ?_⟩
  obtain ⟨cell, found⟩ := balanced.live List.mem_cons_self
  have before := balanced.counted other
  simp only [countAt, find_lower, inside_lower, List.count_cons] at before ⊢
  by_cases same : other = address
  · subst same
    simp only [found, Option.map_some, Option.getD_some, if_true, beq_self_eq_true] at before ⊢
    omega
  · simp only [if_neg same, Option.map_id', beq_iff_eq, Ne.symm same, if_false, Nat.add_zero] at before ⊢
    exact before

-- The last reference: the cell goes, and its references are the holder's.
theorem Balanced.erase (balanced : Balanced refers cells (address :: held)) {cell : Cell α}
    (found : find cells address = some cell) (last : cell.count ≤ 1) :
    Balanced refers (erase address cells) (refers cell.node ++ held) := by
  have parted : ∀ other, inside refers (Cell.erase address cells) other + (refers cell.node).count other =
      inside refers cells other := by
    intro other
    have taken := tally_filter_ne (f := fun cell => (refers cell.node).count other) balanced.distinct (find_mem found)
    rw [find_address found] at taken
    exact taken
  refine ⟨balanced.distinct.filter _, fun other => ?_⟩
  have before := balanced.counted other
  have split := parted other
  simp only [countAt, find_erase, List.count_cons, List.count_append] at before ⊢
  by_cases same : other = address
  · subst same
    simp only [found, Option.map_some, Option.getD_some, if_true, Option.map_none, Option.getD_none,
      beq_self_eq_true] at before ⊢
    omega
  · simp only [if_neg same, beq_iff_eq, Ne.symm same, if_false, Nat.add_zero] at before ⊢
    omega

theorem held_le_total (balanced : Balanced refers cells held) :
    held = [] ∨ 0 < tally Cell.count cells := by
  cases held with
  | nil => exact .inl rfl
  | cons address rest =>
    obtain ⟨cell, found⟩ := balanced.live List.mem_cons_self
    have counted := balanced.counted address
    have below := le_tally (f := Cell.count) (find_mem found)
    simp only [countAt, found, Option.map_some, Option.getD_some, List.count_cons_self] at counted
    exact .inr (by omega)

theorem total_lower {cell : Cell α} (found : find cells address = some cell)
    (more : 1 < cell.count) : tally Cell.count (lower address cells) < tally Cell.count cells := by
  simp only [Cell.lower, update, tally, List.map_map]
  refine List.sum_lt_sum _ _ (fun other _ => ?_) ⟨cell, find_mem found, ?_⟩
  · simp only [Function.comp]
    split
    · exact Nat.sub_le _ _
    · exact Nat.le_refl _
  · simp only [Function.comp, if_pos (find_address found)]
    omega

theorem total_erase {cell : Cell α} (distinct : cells.Pairwise fun x y => x.address ≠ y.address)
    (found : find cells address = some cell) :
    tally Cell.count (erase address cells) + cell.count = tally Cell.count cells := by
  have taken := tally_filter_ne (f := Cell.count) distinct (find_mem found)
  rw [find_address found] at taken
  exact taken

theorem Balanced.drop {fuel : Nat} {given : List Nat}
    (balanced : Balanced refers cells (given ++ held)) (enough : tally Cell.count cells ≤ fuel) :
    Balanced refers (drop refers fuel given cells) held := by
  induction fuel generalizing given cells with
  | zero =>
    rcases held_le_total balanced with none | some
    · obtain ⟨rfl, rfl⟩ := List.append_eq_nil_iff.mp none
      exact balanced
    · omega
  | succ fuel ih =>
    cases given with
    | nil => exact balanced
    | cons address rest =>
      obtain ⟨cell, found⟩ := balanced.live List.mem_cons_self
      have counted := balanced.counted address
      simp only [countAt, found, Option.map_some, Option.getD_some, List.cons_append,
        List.count_cons_self] at counted
      simp only [Cell.drop, found]
      split
      · next last =>
          have fewer := total_erase balanced.distinct found
          refine ih ?_ (by omega)
          rw [List.append_assoc]
          exact balanced.erase found last
      · next more =>
          have fewer := total_lower found (Nat.lt_of_not_le more)
          exact ih balanced.lower (by omega)

theorem Balanced.release {given : List Nat} (balanced : Balanced refers cells (given ++ held)) :
    Balanced refers (release refers given cells) held :=
  balanced.drop (Nat.le_refl _)

-- A new node trades references with the holder.
theorem Balanced.store {held' : List Nat} {old new : α} (balanced : Balanced refers cells held)
    (found : nodeAt cells address = some old)
    (trade : ∀ other, held.count other + (refers old).count other = held'.count other +
      (refers new).count other) :
    Balanced refers (store address new cells) held' := by
  obtain ⟨cell, at_, rfl⟩ := Option.map_eq_some_iff.mp found
  have moved : ∀ other, inside refers (Cell.store address new cells) other +
      (refers cell.node).count other = inside refers cells other + (refers new).count other := by
    intro other
    have distinct := balanced.distinct
    clear balanced found
    induction cells with
    | nil => cases at_
    | cons first rest ih =>
      obtain ⟨apart, others⟩ := List.pairwise_cons.mp distinct
      simp only [find, List.find?_cons, inside, Cell.store, update, List.map_cons,
        tally_cons] at at_ ih ⊢
      by_cases here : first.address = address
      · simp only [here, beq_self_eq_true, Option.some.injEq] at at_
        subst at_
        have untouched :
            rest.map (fun cell =>
              if cell.address = address then { cell with node := new } else cell) =
            rest := by
          refine (List.map_congr_left fun cell member => ?_).trans (List.map_id _)
          exact if_neg fun same => apart cell member (here.trans same.symm)
        rw [if_pos here, untouched]
        dsimp only
        omega
      · rw [beq_eq_false_iff_ne.mpr here] at at_
        have later := ih at_ others
        rw [if_neg here]
        omega
  refine ⟨distinct_update (fun _ => rfl) balanced.distinct, fun other => ?_⟩
  have before := balanced.counted other
  have after := moved other
  have traded := trade other
  have counts : countAt (Cell.store address new cells) other = countAt cells other := by
    simp only [countAt, find_store, Option.map_map]
    congr 2
    funext cell
    simp only [Function.comp]
    split <;> rfl
  omega

/-! ### What a release leaves -/

-- The cells that are still there have kept their nodes.
def Kept (before after : List (Cell α)) : Prop :=
  ∀ address node, nodeAt after address = some node → nodeAt before address = some node

theorem Kept.refl (cells : List (Cell α)) : Kept cells cells := fun _ _ found => found

theorem Kept.trans {first second third : List (Cell α)} (one : Kept first second)
    (two : Kept second third) : Kept first third :=
  fun address node found => one address node (two address node found)

theorem kept_drop {fuel : Nat} {given : List Nat} :
    Kept cells (Cell.drop refers fuel given cells) := by
  induction fuel generalizing given cells with
  | zero => exact .refl _
  | succ fuel ih =>
    cases given with
    | nil => exact .refl _
    | cons address rest =>
      simp only [Cell.drop]
      split
      · exact ih
      · next cell found =>
          split
          · refine Kept.trans (fun other node there => ?_) ih
            rw [nodeAt_erase] at there
            split at there
            · cases there
            · exact there
          · exact Kept.trans (fun other node there => nodeAt_lower ▸ there) ih

theorem kept_release {given : List Nat} : Kept cells (Cell.release refers given cells) := kept_drop

theorem release_nil : Cell.release refers [] cells = cells := by
  unfold Cell.release
  cases tally Cell.count cells <;> rfl

theorem release_lower {cell : Cell α} (found : find cells address = some cell)
    (more : 1 < cell.count) : Cell.release refers [address] cells = Cell.lower address cells := by
  have below := le_tally (f := Cell.count) (find_mem found)
  obtain ⟨fuel, total⟩ : ∃ fuel, tally Cell.count cells = fuel + 1 :=
    ⟨tally Cell.count cells - 1, by omega⟩
  rw [Cell.release, total]
  simp only [Cell.drop, found, if_neg (Nat.not_le_of_lt more)]
  cases fuel <;> rfl

theorem lower_retain : Cell.lower address (Cell.retain address cells) = cells := by
  simp only [Cell.lower, Cell.retain, update, List.map_map]
  refine (List.map_congr_left fun cell _ => ?_).trans (List.map_id _)
  by_cases same : cell.address = address
  · obtain rfl := same
    simp [Function.comp]
  · simp [Function.comp, same]

theorem retain_comm (other : Nat) :
    Cell.retain address (Cell.retain other cells) = Cell.retain other
      (Cell.retain address cells) := by
  simp only [Cell.retain, update, List.map_map]
  refine List.map_congr_left fun cell _ => ?_
  simp only [Function.comp]
  by_cases first : cell.address = address
  · obtain rfl := first
    by_cases second : cell.address = other
    · obtain rfl := second
      rfl
    · simp [second]
  · by_cases second : cell.address = other
    · obtain rfl := second
      simp [first]
    · simp [first, second]

theorem foldr_retain (addresses : List Nat) :
    addresses.foldr Cell.retain (Cell.retain address cells) = Cell.retain address
      (addresses.foldr Cell.retain cells) := by
  induction addresses with
  | nil => rfl
  | cons other rest ih => rw [List.foldr_cons, List.foldr_cons, ih, retain_comm]

theorem countAt_retain (other : Nat) :
    countAt cells address ≤ countAt (Cell.retain other cells) address := by
  unfold countAt
  rw [find_retain]
  cases find cells address with
  | none => exact Nat.le_refl _
  | some cell =>
    simp only [Option.map_some, Option.getD_some]
    split
    · exact Nat.le_succ _
    · exact Nat.le_refl _

theorem countAt_foldr_retain (addresses : List Nat) :
    countAt cells address ≤ countAt (addresses.foldr Cell.retain cells) address := by
  induction addresses with
  | nil => exact Nat.le_refl _
  | cons other rest ih => exact ih.trans (countAt_retain other)

theorem release_retain {addresses : List Nat} (counted : 0 < countAt cells address) :
    Cell.release refers [address] (addresses.foldr Cell.retain (Cell.retain address cells)) =
      addresses.foldr Cell.retain cells := by
  have still := Nat.lt_of_lt_of_le counted (countAt_foldr_retain addresses)
  obtain ⟨cell, found⟩ := find_of_countAt still
  rw [countAt, found] at still
  have raised : find (Cell.retain address (addresses.foldr Cell.retain cells)) address =
      some { cell with count := cell.count + 1 } := by
    rw [find_retain, found, Option.map_some, if_pos rfl]
  rw [foldr_retain, release_lower raised (Nat.succ_lt_succ still), lower_retain]

end

end Cell

end QuickJSBun.Library
