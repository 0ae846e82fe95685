/-
# What the standard transforms make of any tree

Templates give bare trees only, but the standard transforms take every tree: slots may be
filled already, texts may have children, and roots may stand anywhere.  They succeed on just
the trees whose slots are all empty and whose roots have one child each (`Node.Fillable`), and
then they fill every slot with the code that stands for its node, and change nothing else
(`Node.filled`).  A tree that they refuse has a fault that the error names (`Node.Faulty`).

Both are read off the recursion that the transforms amount to (`Node.lowered_spec`).
-/

import ReactiveView.Proofs.Markup.Lowered

namespace ReactiveView
namespace Markup
namespace Node

/-! ## Trees and their nodes -/

mutual

/-- The nodes of a tree, each before those below it. -/
def nodes : Node → List Node
  | mk kind children code => mk kind children code :: nodesEach children

/-- The nodes of several trees. -/
def nodesEach : List Node → List Node
  | [] => []
  | node :: rest => nodes node ++ nodesEach rest

end

/-- The nodes of several trees are those of each. -/
theorem mem_nodesEach {node : Node} {trees : List Node} :
    node ∈ nodesEach trees ↔ ∃ tree ∈ trees, node ∈ tree.nodes := by
  induction trees with
  | nil => simp [nodesEach]
  | cons tree rest ih => simp [nodesEach, ih]

/-- The nodes of a tree are its outermost one and those of its children. -/
theorem mem_nodes {node : Node} {kind : Kind} {children : List Node} {code : Option Code} :
    node ∈ (mk kind children code).nodes ↔
      node = mk kind children code ∨ ∃ child ∈ children, node ∈ child.nodes := by
  rw [nodes, List.mem_cons, mem_nodesEach]

/-- All slots of the tree are empty, and each of its roots has one child. -/
structure Fillable (tree : Node) : Prop where
  empty : ∀ node ∈ tree.nodes, node.code = none
  single : ∀ node ∈ tree.nodes, node.kind = .root → node.children.length = 1

/-- **A tree is fillable from the top down**: its slot is empty, a root has one child, and the
children are fillable. -/
theorem fillable_mk {kind : Kind} {children : List Node} {code : Option Code} :
    (mk kind children code).Fillable ↔
      code = none ∧ (kind = .root → children.length = 1) ∧ ∀ child ∈ children, child.Fillable := by
  constructor
  · rintro ⟨hempty, hsingle⟩
    have hself : mk kind children code ∈ (mk kind children code).nodes := mem_nodes.2 (.inl rfl)
    refine ⟨hempty _ hself, hsingle _ hself, fun child hchild => ⟨?_, ?_⟩⟩
    · exact fun node hnode => hempty node (mem_nodes.2 (.inr ⟨child, hchild, hnode⟩))
    · exact fun node hnode => hsingle node (mem_nodes.2 (.inr ⟨child, hchild, hnode⟩))
  · rintro ⟨hcode, hroot, hchildren⟩
    refine ⟨?_, ?_⟩
    · intro node hnode
      rcases mem_nodes.1 hnode with rfl | ⟨child, hchild, hnode⟩
      · exact hcode
      · exact (hchildren child hchild).empty node hnode
    · intro node hnode
      rcases mem_nodes.1 hnode with rfl | ⟨child, hchild, hnode⟩
      · exact hroot
      · exact (hchildren child hchild).single node hnode

/-- The fault of the tree that an error names: a slot that is filled already, a root without
children, or a root with several. -/
def Faulty (tree : Node) : TransformError → Prop
  | .codeAlreadySet described =>
    ∃ node ∈ tree.nodes, node.code ≠ none ∧ node.kind.describe = described
  | .emptyRoot => ∃ node ∈ tree.nodes, node.kind = .root ∧ node.children = []
  | .multipleRoots count =>
    ∃ node ∈ tree.nodes, node.kind = .root ∧ node.children.length = count ∧ 1 < count
  | _ => False

/-- The fault of a tree is a fault of every tree around it. -/
theorem Faulty.of_subset {tree around : Node} {error : TransformError}
    (hnodes : ∀ node ∈ tree.nodes, node ∈ around.nodes) (h : tree.Faulty error) :
    around.Faulty error := by
  cases error with
  | codeAlreadySet | emptyRoot | multipleRoots =>
    obtain ⟨node, hnode, hfault⟩ := h
    exact ⟨node, hnodes node hnode, hfault⟩
  | missingCode | cannotRemoveRoot | endless => exact h

/-- A tree with a fault cannot be filled. -/
theorem Faulty.not_fillable {tree : Node} {error : TransformError} (h : tree.Faulty error) :
    ¬ tree.Fillable := by
  rintro ⟨hempty, hsingle⟩
  cases error with
  | codeAlreadySet described =>
    obtain ⟨node, hnode, hcode, -⟩ := h
    exact hcode (hempty node hnode)
  | emptyRoot =>
    obtain ⟨node, hnode, hkind, hchildren⟩ := h
    have hone := hsingle node hnode hkind
    rw [hchildren] at hone
    exact absurd hone (by simp)
  | multipleRoots count =>
    obtain ⟨node, hnode, hkind, rfl, hcount⟩ := h
    exact Nat.ne_of_gt hcount (hsingle node hnode hkind)
  | missingCode | cannotRemoveRoot | endless => exact h

/-! ## Filled trees -/

mutual

/-- The tree with every slot filled by the code that stands for its node. -/
def filled : Node → Node
  | mk kind children code =>
    mk kind (filledEach children) (some (renderCode (mk kind children code)))

/-- The trees with every slot filled. -/
def filledEach : List Node → List Node
  | [] => []
  | node :: rest => filled node :: filledEach rest

end

/-- A filled node holds the code that stands for it. -/
theorem code_filled (node : Node) : node.filled.code = some node.renderCode := by
  cases node
  rfl

/-- Filled nodes hold the codes that stand for them, in order. -/
theorem carry_filledEach (nodes : List Node) : Carry (filledEach nodes) (renderEach nodes) := by
  induction nodes with
  | nil => exact .nil
  | cons node rest ih => exact .cons (code_filled node) ih

/-- Filling keeps the number of nodes. -/
theorem length_filledEach (nodes : List Node) : (filledEach nodes).length = nodes.length := by
  rw [(carry_filledEach nodes).length_eq, length_renderEach]

/-! ## Filling one node -/

/-- A slot that is filled already is the fault of the tree itself. -/
theorem faulty_self {kind : Kind} {children : List Node} (code : Code) :
    (mk kind children (some code)).Faulty (.codeAlreadySet kind.describe) :=
  ⟨_, mem_nodes.2 (.inl rfl), Option.some_ne_none code, rfl⟩

/-- What became of a tree: it is filled, or it has the fault that the error names. -/
def Settled (tree : Node) : Except TransformError Node → Prop
  | .ok result => tree.Fillable ∧ result = tree.filled
  | .error error => tree.Faulty error

/-- What became of several trees, up to the first that is refused. -/
def SettledEach (trees : List Node) : Except TransformError (List Node) → Prop
  | .ok results => (∀ tree ∈ trees, tree.Fillable) ∧ results = filledEach trees
  | .error error => ∃ tree ∈ trees, tree.Faulty error

/-- Above children that are filled, the tree is settled by setting the slot to the code that
stands for the node. -/
theorem settled_setCode {kind : Kind} {children : List Node} (code : Option Code)
    (hroot : kind = .root → children.length = 1) (hchildren : ∀ child ∈ children, child.Fillable) :
    (mk kind children code).Settled
      ((mk kind (filledEach children) code).setCode (renderCode (mk kind children code))) := by
  cases code with
  | some code => exact faulty_self code
  | none => exact ⟨fillable_mk.2 ⟨rfl, hroot, hchildren⟩, rfl⟩

/-- Above children that are filled, a root is filled if it has one child. -/
theorem settled_fillRoot {children : List Node} (code : Option Code)
    (hchildren : ∀ child ∈ children, child.Fillable) :
    (mk .root children code).Settled (Lowering.fillRoot (mk .root (filledEach children) code)) := by
  have hself : mk .root children code ∈ (mk .root children code).nodes := mem_nodes.2 (.inl rfl)
  match children with
  | [] => exact ⟨_, hself, rfl, rfl⟩
  | [only] =>
    have hfill : Lowering.fillRoot (mk .root (filledEach [only]) code) =
        (mk .root (filledEach [only]) code).setCode (renderCode (mk .root [only] code)) := by
      simp only [Lowering.fillRoot, kind, Node.children, filledEach,
        needCode_of_code (code_filled only)]
      rfl
    rw [hfill]
    exact settled_setCode code (fun _ => rfl) hchildren
  | first :: second :: rest =>
    have hcount : 1 < (first :: second :: rest).length := by simp
    have hlength := length_filledEach (first :: second :: rest)
    exact ⟨_, hself, rfl, hlength.symm, hlength.symm ▸ hcount⟩

/-- A fault of a child is a fault of the tree. -/
theorem faulty_of_child {kind : Kind} {children : List Node} {code : Option Code}
    {error : TransformError} (h : ∃ child ∈ children, child.Faulty error) :
    (mk kind children code).Faulty error := by
  obtain ⟨child, hchild, hfault⟩ := h
  exact hfault.of_subset fun node hnode => mem_nodes.2 (.inr ⟨child, hchild, hnode⟩)

/-- A text is filled on the way in, so it may be refused before its children are looked at. -/
theorem settled_text (content : String) {children : List Node} (code : Option Code)
    (h : SettledEach children (loweredEach children)) :
    (mk (.text content) children code).Settled (mk (.text content) children code).lowered := by
  cases code with
  | some code => exact faulty_self code
  | none =>
    rw [lowered]
    cases hchildren : loweredEach children with
    | error error =>
      rw [hchildren] at h
      exact faulty_of_child h
    | ok results =>
      rw [hchildren] at h
      obtain ⟨hfillable, rfl⟩ := h
      exact settled_setCode none (by simp) hfillable

/-- An element is filled from its children once they are. -/
theorem settled_element (tag : String) {children : List Node} (code : Option Code)
    (h : SettledEach children (loweredEach children)) :
    (mk (.element tag) children code).Settled (mk (.element tag) children code).lowered := by
  rw [lowered]
  cases hchildren : loweredEach children with
  | error error =>
    rw [hchildren] at h
    exact faulty_of_child h
  | ok results =>
    rw [hchildren] at h
    obtain ⟨hfillable, rfl⟩ := h
    have hfill := (carry_filledEach children).fillElement tag code
    have hroot : Kind.element tag = .root → children.length = 1 := by simp
    have hsettled := settled_setCode code hroot hfillable
    rw [renderCode, ← hfill] at hsettled
    exact hsettled

/-- A root is filled from its only child, and there is nothing left for the exit phase of
elements. -/
theorem settled_root {children : List Node} (code : Option Code)
    (h : SettledEach children (loweredEach children)) :
    (mk .root children code).Settled (mk .root children code).lowered := by
  rw [lowered]
  cases hchildren : loweredEach children with
  | error error =>
    rw [hchildren] at h
    exact faulty_of_child h
  | ok results =>
    rw [hchildren] at h
    obtain ⟨hfillable, rfl⟩ := h
    have hsettled := settled_fillRoot code hfillable
    show Settled _ (Lowering.fillRoot (mk .root (filledEach children) code) >>=
      Lowering.fillElement)
    cases hfill : Lowering.fillRoot (mk .root (filledEach children) code) with
    | error error =>
      rw [hfill] at hsettled
      exact hsettled
    | ok result =>
      rw [hfill] at hsettled
      obtain ⟨hfillable, rfl⟩ := hsettled
      exact ⟨hfillable, rfl⟩

mutual

/-- **The recursion over the tree fills it, or stops at a fault.** -/
theorem settled_lowered : ∀ node : Node, node.Settled node.lowered
  | mk .root children code => settled_root code (settledEach_loweredEach children)
  | mk (.element tag) children code => settled_element tag code (settledEach_loweredEach children)
  | mk (.text content) children code =>
    settled_text content code (settledEach_loweredEach children)

/-- Several trees are filled one by one, up to the first that is refused. -/
theorem settledEach_loweredEach : ∀ nodes : List Node, SettledEach nodes (loweredEach nodes)
  | [] => ⟨by simp, rfl⟩
  | node :: rest => by
    have hnode := settled_lowered node
    have hrest := settledEach_loweredEach rest
    rw [loweredEach]
    cases hlowered : node.lowered with
    | error error =>
      rw [hlowered] at hnode
      exact ⟨node, List.mem_cons_self, hnode⟩
    | ok result =>
      rw [hlowered] at hnode
      obtain ⟨hfillable, rfl⟩ := hnode
      cases hlater : loweredEach rest with
      | error error =>
        rw [hlater] at hrest
        obtain ⟨tree, htree, hfault⟩ := hrest
        exact ⟨tree, List.mem_cons_of_mem node htree, hfault⟩
      | ok results =>
        rw [hlater] at hrest
        obtain ⟨hfillables, rfl⟩ := hrest
        exact ⟨List.forall_mem_cons.2 ⟨hfillable, hfillables⟩, rfl⟩

end

/-- Lowering succeeds on the trees that can be filled, and fills them. -/
theorem lowered_eq_ok_iff {tree result : Node} :
    tree.lowered = .ok result ↔ tree.Fillable ∧ result = tree.filled := by
  have hsettled := settled_lowered tree
  constructor
  · intro h
    rw [h] at hsettled
    exact hsettled
  · rintro ⟨hfillable, rfl⟩
    cases hlowered : tree.lowered with
    | error error =>
      rw [hlowered] at hsettled
      exact absurd hfillable hsettled.not_fillable
    | ok result =>
      rw [hlowered] at hsettled
      rw [hsettled.2]

end Node

/-! ## Runs -/

/-- **What the standard transforms do with a tree.**  They succeed if and only if no slot is
filled and every root has one child, and then the kinds, the contents and the order of the
children are as before and each slot holds the code that stands for its node.  If they fail,
the error is a fault of the tree: a slot that was filled already, a root without children, or a
root with several.  The state of the traversal stays as it is. -/
theorem run_standard_fills {σ : Type} (tree : Node) (state : σ) :
    ∃ outcome, (Transform.run Lowering.standard tree).run.run state = (outcome, state) ∧
      (∀ result, outcome = .ok result ↔ tree.Fillable ∧ result = tree.filled) ∧
        ∀ error, outcome = .error error → tree.Faulty error := by
  refine ⟨tree.lowered, by rw [Transform.run_standard]; rfl, ?_, ?_⟩
  · exact fun result => Node.lowered_eq_ok_iff
  · intro error h
    have hsettled := Node.settled_lowered tree
    rw [h] at hsettled
    exact hsettled

/-- A text may have children and a root may stand anywhere. -/
example :
    (Node.mk (.text "a") [.root [.element "p" []]] none).filled =
      .mk (.text "a") [.mk .root [.mk (.element "p") []
        (some (.call (.identifier "h") [.string "p", .array []]))]
          (some (.function (.identifier "render") []
            [.ret (.call (.identifier "h") [.string "p", .array []])]))]
        (some (.string "a")) := rfl

end Markup
end ReactiveView
