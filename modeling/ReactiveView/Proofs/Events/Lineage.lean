/-
# Ancestors

The path of an event goes from parent to parent, and it is looked for in no more steps than the
document has nodes.  Where no node is above itself (`Document.Acyclic`) these steps are enough: a
node that has a parent is there, the nodes on the way are different, and so there are not more of
them than nodes (`Document.length_le_of_nodup`).  The path is then the whole chain of ancestors up
to a node without a parent (`Document.Acyclic.lineage_ancestors`), and no node is on it twice
(`Document.Lineage.nodup`).
-/

import Mathlib.Data.List.Nodup
import Mathlib.Data.List.Perm.Subperm
import Mathlib.Logic.Relation
import ReactiveView.Proofs.Rendering.Frame

namespace ReactiveView
namespace View
namespace Document

open Relation (ReflTransGen TransGen)

variable {d : Document} {n m p : NodeId} {chain : List NodeId}

/-- The second node is the parent of the first one. -/
def IsParent (d : Document) (n p : NodeId) : Prop := d.parent n = some p

/-- No node is above itself. -/
def Acyclic (d : Document) : Prop := ∀ n, ¬ TransGen d.IsParent n n

/-- The nodes are the first one, its parent, the parent of that, and so on to the end. -/
inductive Lineage (d : Document) : NodeId → List NodeId → Prop
  | root {n : NodeId} (h : d.parent n = none) : Lineage d n [n]
  | child {n p : NodeId} {chain : List NodeId} (h : d.IsParent n p) (above : Lineage d p chain) :
      Lineage d n (n :: chain)

/-- What has a parent is there. -/
theorem IsParent.has (h : d.IsParent n p) : d.Has n := by
  refine Decidable.byContradiction fun hnot => ?_
  rw [IsParent, parent, node_of_not_has hnot] at h
  exact absurd h (by simp [default])

/-- Where every parent is older than its children there are no circles. -/
theorem acyclic_of_lt (h : ∀ i < d.nodes.size, ∀ p ∈ d.parent ⟨i⟩, p.index < i) : d.Acyclic := by
  have hlt {n m : NodeId} (hnm : TransGen d.IsParent n m) : m.index < n.index := by
    induction hnm with
    | single hparent => exact h _ hparent.has _ hparent
    | tail _ hparent ih => exact Nat.lt_trans (h _ hparent.has _ hparent) ih
  exact fun n hn => Nat.lt_irrefl _ (hlt hn)

/-- There are not more different nodes than the document has. -/
theorem length_le_of_nodup {ns : List NodeId} (hdifferent : ns.Nodup) (has : ∀ n ∈ ns, d.Has n) :
    ns.length ≤ d.nodes.size := by
  have hindices : (ns.map NodeId.index).Nodup :=
    List.Nodup.map (fun _ _ h => congrArg NodeId.mk h) hdifferent
  have hsubset : ns.map NodeId.index ⊆ List.range d.nodes.size := by
    intro i hi
    obtain ⟨n, hn, rfl⟩ := List.mem_map.1 hi
    exact List.mem_range.2 (has n hn)
  simpa using (List.subperm_of_subset hindices hsubset).length_le

/-- Nodes below `n` have been gone through, and as many steps are left as there are other
nodes. -/
theorem Acyclic.lineage_ancestorsTo (h : d.Acyclic) {levels : Nat} {seen : List NodeId}
    (hdifferent : seen.Nodup) (hbelow : ∀ m ∈ seen, d.Has m ∧ TransGen d.IsParent m n)
    (hlevels : levels + seen.length = d.nodes.size) :
    d.Lineage n (n :: d.ancestorsTo levels n) := by
  have hnot : n ∉ seen := fun hmem => h n (hbelow n hmem).2
  induction levels generalizing n seen with
  | zero =>
    refine .root ?_
    cases hp : d.parent n with
    | none => rfl
    | some p =>
      -- `n` would be one node too many
      have has : ∀ m ∈ n :: seen, d.Has m :=
        List.forall_mem_cons.2 ⟨IsParent.has hp, fun m hm => (hbelow m hm).1⟩
      have hle := length_le_of_nodup (List.nodup_cons.2 ⟨hnot, hdifferent⟩) has
      rw [List.length_cons] at hle
      omega
  | succ levels ih =>
    cases hp : d.parent n with
    | none =>
      simp only [ancestorsTo, hp]
      exact .root hp
    | some p =>
      simp only [ancestorsTo, hp]
      have hparent : d.IsParent n p := hp
      have hbelow' : ∀ m ∈ n :: seen, d.Has m ∧ TransGen d.IsParent m p :=
        List.forall_mem_cons.2
          ⟨⟨hparent.has, .single hparent⟩, fun m hm => (hbelow m hm).imp_right (·.tail hparent)⟩
      refine .child hparent (ih (List.nodup_cons.2 ⟨hnot, hdifferent⟩) hbelow' ?_ ?_)
      · rw [List.length_cons]
        omega
      · exact fun hmem => h p (hbelow' p hmem).2

/-- **The ancestors of a node are all that there are**, if no node is above itself. -/
theorem Acyclic.lineage_ancestors (h : d.Acyclic) (n : NodeId) :
    d.Lineage n (n :: d.ancestors n) :=
  h.lineage_ancestorsTo List.nodup_nil (fun _ hm => absurd hm List.not_mem_nil) (Nat.add_zero _)

/-- Every node of a lineage is reached by parent links. -/
theorem Lineage.above (h : d.Lineage n chain) (hm : m ∈ chain) : ReflTransGen d.IsParent n m := by
  induction h with
  | root => exact List.mem_singleton.1 hm ▸ .refl
  | child hparent _ ih =>
    rcases List.mem_cons.1 hm with rfl | hm
    · exact .refl
    · exact .head hparent (ih hm)

/-- No node is on the way twice. -/
theorem Lineage.nodup (hacyclic : d.Acyclic) (h : d.Lineage n chain) : chain.Nodup := by
  induction h with
  | root => exact List.nodup_singleton _
  | child hparent above ih =>
    refine List.nodup_cons.2 ⟨fun hmem => ?_, ih⟩
    exact hacyclic _ (TransGen.head' hparent (above.above hmem))

end Document
end View
end ReactiveView
