import QuickJSBun.Library.Tally
import Mathlib.Data.List.Perm.Basic
import Mathlib.Data.List.Nodup
import Mathlib.Logic.Function.Basic

/-! Finite graphs with references from outside. What can be reached from these, how many references there are
to a node, and what happens to their number when references move or a node goes.
-/

set_option autoImplicit false

namespace QuickJSBun.Library

structure Graph (α : Type) where
  nodes : List α
  kids : α → List α

namespace Graph
variable {α : Type} {g g' : Graph α} {roots roots' : List α} {p q : α}

inductive Reach (g : Graph α) (roots : List α) : α → Prop where
  | root {p : α} : p ∈ roots → Reach g roots p
  | step {p q : α} : Reach g roots p → q ∈ g.kids p → Reach g roots q

theorem Reach.within {inside : α → Prop} (reach : g.Reach roots p) (starts : ∀ p ∈ roots, inside p)
    (closed : ∀ p q, inside p → q ∈ g.kids p → inside q) : inside p := by
  induction reach with
  | root member => exact starts _ member
  | step _ member ih => exact closed _ _ ih member

-- Every reference, each as often as there is one.
def references (g : Graph α) (roots : List α) : List α := g.nodes.flatMap g.kids ++ roots

-- Nodes may be listed in any order.
theorem references_perm (nodes : g.nodes.Perm g'.nodes) (kids : ∀ p ∈ g.nodes, g.kids p = g'.kids p)
    (outside : roots.Perm roots') : (g.references roots).Perm (g'.references roots') := by
  unfold references
  have same : g.nodes.flatMap g.kids = g.nodes.flatMap g'.kids := List.flatMap_congr kids
  rw [same]
  exact (nodes.flatMap_right _).append outside

section
variable [DecidableEq α]

def refs (g : Graph α) (roots : List α) (p : α) : Nat := (g.references roots).count p

theorem refs_of_perm (same : (g.references roots).Perm (g'.references roots')) :
    g.refs roots p = g'.refs roots' p :=
  same.count_eq p

theorem refs_append : g.refs roots p = g.refs [] p + roots.count p := by
  unfold refs references
  rw [List.append_nil, List.count_append]

theorem refs_pos : 0 < g.refs roots p ↔ (∃ q ∈ g.nodes, p ∈ g.kids q) ∨ p ∈ roots := by
  unfold refs references
  rw [List.count_pos_iff, List.mem_append, List.mem_flatMap]

theorem refs_cons : g.refs (q :: roots) p = g.refs roots p + if q = p then 1 else 0 := by
  rw [refs_append, @refs_append _ g roots, List.count_cons, Nat.add_assoc]
  simp only [beq_iff_eq]

theorem refs_root (member : p ∈ roots) : 0 < g.refs roots p := refs_pos.mpr (.inr member)

theorem refs_kid (node : q ∈ g.nodes) (kid : p ∈ g.kids q) : 0 < g.refs roots p :=
  refs_pos.mpr (.inl ⟨q, node, kid⟩)

-- References of a node that are no longer its own are somebody else's.
theorem references_exchange {new : List α} (node : q ∈ g.nodes) (once : g.nodes.Nodup)
    (moved : (new ++ roots').Perm (g.kids q ++ roots)) :
    (references ⟨g.nodes, Function.update g.kids q new⟩ roots').Perm (g.references roots) := by
  obtain ⟨front, back, split⟩ := List.append_of_mem node
  have apart : (q :: (front ++ back)).Nodup := List.nodup_middle.mp (split ▸ once)
  have absent : q ∉ front ++ back := (List.nodup_cons.mp apart).1
  have before : front.flatMap (Function.update g.kids q new) = front.flatMap g.kids := by
    apply List.flatMap_congr
    intro p member
    exact Function.update_of_ne (fun same => absent (List.mem_append_left _ (by rwa [← same]))) _ _
  have after : back.flatMap (Function.update g.kids q new) = back.flatMap g.kids := by
    apply List.flatMap_congr
    intro p member
    exact Function.update_of_ne (fun same => absent (List.mem_append_right _ (by rwa [← same]))) _ _
  unfold references
  simp only [split, List.flatMap_append, List.flatMap_cons, before, after, Function.update_self,
    List.append_assoc]
  -- both sides are the references of the other nodes and those that are exchanged
  refine List.Perm.append_left _ ?_
  have front : (new ++ (back.flatMap g.kids ++ roots')).Perm
      (back.flatMap g.kids ++ (new ++ roots')) := by
    rw [← List.append_assoc, ← List.append_assoc]
    exact List.perm_append_comm.append_right _
  have behind : (back.flatMap g.kids ++ (g.kids q ++ roots)).Perm
      (g.kids q ++ (back.flatMap g.kids ++ roots)) := by
    rw [← List.append_assoc, ← List.append_assoc]
    exact List.perm_append_comm.append_right _
  exact front.trans ((moved.append_left _).trans behind)

-- A node without references of its own leaves none behind.
theorem references_remove (node : q ∈ g.nodes) (none : g.kids q = []) :
    (references ⟨g.nodes.erase q, g.kids⟩ roots).Perm (g.references roots) := by
  have parts : (g.nodes.flatMap g.kids).Perm (g.kids q ++ (g.nodes.erase q).flatMap g.kids) :=
    (List.perm_cons_erase node).flatMap_right _
  rw [none, List.nil_append] at parts
  exact (parts.append_right _).symm

end

-- What can be reached is kept by whoever keeps everything that is referred to, with its
-- references.
theorem Reach.kept [DecidableEq α] (reach : g.Reach roots p)
    (same : ∀ p, g.Reach roots p → p ∈ g'.nodes → g'.kids p = g.kids p)
    (inside : ∀ p, 0 < g'.refs roots p → p ∈ g'.nodes) : p ∈ g'.nodes ∧ g'.Reach roots p := by
  induction reach with
  | root member => exact ⟨inside _ (refs_root member), .root member⟩
  | step before member ih =>
    rw [← same _ before ih.1] at member
    exact ⟨inside _ (refs_kid ih.1 member), ih.2.step member⟩

-- Without cycles what is referred to by somebody, and everything is, can be reached.
theorem Reach.of_rank [DecidableEq α] {rank : α → Nat}
    (lower : ∀ p, ∀ q ∈ g.kids p, rank q < rank p) (referred : ∀ p ∈ g.nodes, 0 < g.refs roots p)
    (node : p ∈ g.nodes) : g.Reach roots p := by
  have highest : ∀ p ∈ g.nodes, rank p ≤ tally rank g.nodes := fun p member => le_tally member
  -- from a node upwards, as far as the ranks go
  induction distance : tally rank g.nodes - rank p using Nat.strongRecOn generalizing p with
  | ind n ih =>
    rcases refs_pos.mp (referred p node) with ⟨q, member, kid⟩ | root
    · have higher := lower q p kid
      have bounded := highest q member
      exact (ih (tally rank g.nodes - rank q) (by omega) member rfl).step kid
    · exact .root root

end Graph

end QuickJSBun.Library
