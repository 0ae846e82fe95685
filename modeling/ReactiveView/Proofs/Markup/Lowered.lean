/-
# The standard traversal

The traversal with the three standard transforms threads a state and a place through the
tree, and keeps exit phases for later.  It amounts to a recursion over the tree that knows
neither (`Node.lowered`, `Transform.run_standard`): a text is filled, then the children are
lowered, then a root or an element is filled from them.

On a bare tree this never fails, and it leaves every slot filled with the code that stands
for the node (`Node.renderCode`).  So what a template that parses compiles to is said by the
children of its root (`compile_of_parse`).
-/

import Mathlib.Data.List.Forall2
import ReactiveView.Markup.Compile
import ReactiveView.Proofs.Markup.Parsed

namespace ReactiveView
namespace Markup

variable {σ : Type}

namespace Step

variable {α β : Type}

@[simp] theorem ofExcept_ok (a : α) : (ofExcept (.ok a) : Step σ α) = pure a := rfl

@[simp] theorem ofExcept_error (error : TransformError) :
    (ofExcept (.error error) : Step σ α) = throw error := rfl

/-- A result may be worked over before or after it is made a step. -/
theorem map_ofExcept (f : α → β) (result : Except TransformError α) :
    f <$> (ofExcept result : Step σ α) = ofExcept (f <$> result) := by
  cases result <;> rfl

end Step

namespace Node

mutual

/-- The node after the standard transforms. -/
def lowered : Node → Except TransformError Node
  | mk kind children code => do
    let node ← Lowering.fillText (mk kind children code)
    let children ← loweredEach children
    let node ← Lowering.fillRoot (node.withChildren children)
    Lowering.fillElement node

/-- The nodes after the standard transforms. -/
def loweredEach : List Node → Except TransformError (List Node)
  | [] => .ok []
  | node :: rest => do
    let node ← lowered node
    let rest ← loweredEach rest
    .ok (node :: rest)

end

/-- Filling the slot of a node leaves its children. -/
theorem children_of_setCode {node node' : Node} {code : Code}
    (h : node.setCode code = .ok node') : node'.children = node.children := by
  unfold setCode at h
  split at h
  · exact absurd h (by simp)
  · obtain rfl := Except.ok.inj h
    cases node
    rfl

/-- The filling of a text leaves the children as they are. -/
theorem children_of_fillText {node node' : Node} (h : Lowering.fillText node = .ok node') :
    node'.children = node.children := by
  unfold Lowering.fillText at h
  split at h
  · exact children_of_setCode h
  · rw [Except.ok.inj h]

end Node

namespace Transform

/-- The exit phases of the standard transforms. -/
def standardExits : List (Exit σ) :=
  [fun node => .ofExcept (Lowering.fillRoot node),
    fun node => .ofExcept (Lowering.fillElement node)]

/-- On the way down only texts are filled; the two other transforms wait for the way up. -/
theorem enterAll_standard (visit : Visit) (node : Node) :
    enterAll visit Lowering.standard node ([] : List (Exit σ)) =
      Step.ofExcept ((fun node => some (node, standardExits)) <$> Lowering.fillText node) := by
  cases h : Lowering.fillText node <;>
    simp [enterAll, Lowering.standard, Lowering.element, Lowering.text, Lowering.root, h,
      standardExits]

/-- On the way up the root is filled, and then the element. -/
theorem exits_standard (node : Node) :
    (standardExits : List (Exit σ)).foldlM (fun node exit => exit node) node =
      Step.ofExcept (Lowering.fillRoot node >>= Lowering.fillElement) := by
  cases h : Lowering.fillRoot node <;> simp [standardExits, h] <;> rfl

/-- Children that are lowered one by one are kept in order. -/
theorem foldlM_standard {levels : Nat}
    (ih : ∀ visit node, node.depth ≤ levels →
      traverse (Lowering.standard (σ := σ)) levels visit node =
        Step.ofExcept (some <$> node.lowered))
    (ancestors : List Kind) (nodes : List Node) (h : Node.depthEach nodes ≤ levels)
    (kept : Array Node) :
    nodes.foldlM (fun (kept : Array Node) child => do
        match ← traverse (Lowering.standard (σ := σ)) levels ⟨ancestors, kept.size⟩ child with
        | some child => pure (kept.push child)
        | none => pure kept) kept =
      Step.ofExcept ((fun more => kept ++ more.toArray) <$> Node.loweredEach nodes) := by
  induction nodes generalizing kept with
  | nil =>
    have hkept : kept ++ #[] = kept := Array.append_empty
    exact congrArg pure hkept.symm
  | cons node rest ihrest =>
    obtain ⟨hnode, hrest⟩ := Nat.max_le.1 h
    rw [List.foldlM_cons, ih _ node hnode, Node.loweredEach]
    cases hlowered : node.lowered with
    | error error => rfl
    | ok node' =>
      have hpush (more : List Node) :
          kept.push node' ++ more.toArray = kept ++ (node' :: more).toArray := by simp
      refine (ihrest hrest (kept.push node')).trans ?_
      cases hlater : Node.loweredEach rest with
      | error error => rfl
      | ok more => exact congrArg (fun kept => Step.ofExcept (.ok kept)) (hpush more)

/-- **The standard traversal is a recursion over the tree.** -/
theorem traverse_standard (levels : Nat) (visit : Visit) (node : Node) (h : node.depth ≤ levels) :
    traverse (Lowering.standard (σ := σ)) levels visit node =
      Step.ofExcept (some <$> node.lowered) := by
  induction levels generalizing visit node with
  | zero =>
    obtain ⟨kind, children, code⟩ := node
    exact absurd h (by simp [Node.depth])
  | succ levels ih =>
    obtain ⟨kind, children, code⟩ := node
    rw [traverse, enterAll_standard, Node.lowered]
    cases htext : Lowering.fillText (.mk kind children code) with
    | error error => rfl
    | ok node' =>
      have hchildren : node'.children = children := Node.children_of_fillText htext
      have hdepth : Node.depthEach node'.children ≤ levels := by
        rw [hchildren]
        exact Nat.le_of_succ_le_succ h
      have hfold := foldlM_standard ih (node'.kind :: visit.ancestors) node'.children hdepth #[]
      have hexits (kept : Array Node) := exits_standard (σ := σ) (node'.withChildren kept.toList)
      refine (congrArg (· >>= fun kept => some <$> standardExits.foldlM (fun node exit => exit node)
        (node'.withChildren kept.toList)) hfold).trans ?_
      rw [hchildren]
      cases hlowered : Node.loweredEach children with
      | error error => rfl
      | ok children' =>
        have hempty : (#[] ++ children'.toArray).toList = children' := by simp
        refine (congrArg (some <$> ·) (hexits (#[] ++ children'.toArray))).trans ?_
        rw [hempty, Step.map_ofExcept]
        rfl

/-- **One run of the standard transforms is a recursion over the tree.** -/
theorem run_standard (tree : Node) :
    run (Lowering.standard (σ := σ)) tree = Step.ofExcept tree.lowered := by
  unfold run
  rw [traverse_standard _ _ _ (Nat.le_add_right _ _)]
  cases tree.lowered <;> rfl

end Transform

/-! ## Bare trees -/

namespace Node

/-- What an element passes on besides its tag: the code of its one child, or the array of
the codes of its children. -/
def contentCode : List Code → Code
  | [only] => only
  | codes => .array codes

mutual

/-- The code that stands for a node. -/
def renderCode : Node → Code
  | mk .root children _ => .function (.identifier "render") [] ((renderEach children).map .ret)
  | mk (.element tag) children _ =>
    .call (.identifier "h") [.string tag, contentCode (renderEach children)]
  | mk (.text content) _ _ => .string content

/-- The codes that stand for several nodes. -/
def renderEach : List Node → List Code
  | [] => []
  | node :: rest => renderCode node :: renderEach rest

end

@[simp] theorem length_renderEach (nodes : List Node) :
    (renderEach nodes).length = nodes.length := by
  induction nodes with
  | nil => rfl
  | cons node rest ih => simp [renderEach, ih]

/-- The slots of the nodes hold these codes. -/
abbrev Carry : List Node → List Code → Prop :=
  List.Forall₂ fun node code => node.code = some code

/-- A filled slot has its code. -/
theorem needCode_of_code {node : Node} {code : Code} (h : node.code = some code) :
    node.needCode = .ok code := by
  rw [needCode, h]

/-- Filled slots have their codes, in order. -/
theorem Carry.mapM_needCode {nodes : List Node} {codes : List Code} (h : Carry nodes codes) :
    nodes.mapM needCode = .ok codes := by
  induction h with
  | nil => rfl
  | cons hcode _ ih =>
    rw [List.mapM_cons, needCode_of_code hcode, ih]
    rfl

/-- An element is filled from what its children carry. -/
theorem Carry.fillElement {children : List Node} {codes : List Code} (h : Carry children codes)
    (tag : String) (code : Option Code) :
    Lowering.fillElement (mk (.element tag) children code) =
      (mk (.element tag) children code).setCode
        (.call (.identifier "h") [.string tag, contentCode codes]) := by
  have hcodes := h.mapM_needCode
  cases h with
  | nil => rfl
  | @cons first code rest codes hcode hrest =>
    cases hrest with
    | nil =>
      simp only [Lowering.fillElement, kind, Node.children, needCode_of_code hcode]
      rfl
    | cons =>
      simp only [Lowering.fillElement, kind, Node.children, hcodes]
      rfl

mutual

/-- A bare node is lowered to one that carries its code. -/
theorem lowered_of_bare : ∀ node : Node, node.Bare →
    ∃ node', node.lowered = .ok node' ∧ node'.code = some node.renderCode
  | mk .root children code, h => h.elim
  | mk (.element tag) children code, h => by
    obtain ⟨-, hchildren, rfl⟩ := h
    obtain ⟨children', hlowered, hcarry⟩ := loweredEach_of_bare children hchildren
    refine ⟨mk (.element tag) children' (some (renderCode (mk (.element tag) children none))),
      ?_, rfl⟩
    rw [lowered, hlowered, renderCode]
    exact hcarry.fillElement tag none
  | mk (.text content) children code, h => by
    obtain ⟨rfl, rfl⟩ := h
    exact ⟨_, rfl, rfl⟩

/-- Bare nodes are lowered one by one, and each gets the code that stands for it. -/
theorem loweredEach_of_bare : ∀ nodes : List Node, BareEach nodes →
    ∃ nodes', loweredEach nodes = .ok nodes' ∧ Carry nodes' (renderEach nodes)
  | [], _ => ⟨[], rfl, .nil⟩
  | node :: rest, h => by
    obtain ⟨node', hnode, hcode⟩ := lowered_of_bare node h.1
    obtain ⟨rest', hrest, hcarry⟩ := loweredEach_of_bare rest h.2
    refine ⟨node' :: rest', ?_, .cons hcode hcarry⟩
    rw [loweredEach, hnode, hrest]
    rfl

end

end Node

/-- A template that parses compiles to the code that its root carries after the transforms. -/
theorem compile_of_lowered {template : String} {tree : Node}
    (h : Node.parse template = .ok tree) :
    compile template =
      match tree.lowered.bind Node.needCode with
      | .error error => .error (.transform error)
      | .ok code => .ok code.print := by
  -- the run goes first: with its many levels in the goal, checking a `match` is slow
  simp only [compile, compileWith, Transform.run_standard]
  rw [h]
  cases hlowered : tree.lowered with
  | error error =>
    simp only [hlowered]
    rfl
  | ok lowered =>
    have hrun : (Step.ofExcept (.ok lowered) : Step Unit Node).run.run () = (.ok lowered, ()) := rfl
    simp only [hlowered, hrun, Except.bind]
    cases lowered.needCode <;> rfl

/-- What a root with these children compiles to. -/
def compiled : List Node → Except CompileError String
  | [] => .error (.transform .emptyRoot)
  | [child] => .ok (Code.function (.identifier "render") [] [.ret child.renderCode]).print
  | many => .error (.transform (.multipleRoots many.length))

/-- **A template that parses compiles by the children of its root.** -/
theorem compile_of_parse {template : String} {children : List Node}
    (h : Node.parse template = .ok (.root children)) : compile template = compiled children := by
  obtain ⟨_, hroot, hbare⟩ := Node.bare_of_parse h
  obtain rfl := (Node.mk.inj hroot).2.1
  obtain ⟨children', hlowered, hcarry⟩ := Node.loweredEach_of_bare children hbare
  have hroot : (Node.root children).lowered =
      (Lowering.fillRoot (.mk .root children' none)).bind Lowering.fillElement := by
    rw [Node.root, Node.lowered, hlowered]
    rfl
  rw [compile_of_lowered h, hroot]
  cases children with
  | nil =>
    cases hcarry
    rfl
  | cons child rest =>
    cases hcarry with
    | @cons child' _ rest' _ hcode hrest =>
      cases rest with
      | nil =>
        cases hrest
        have hfill : Lowering.fillRoot (.mk .root [child'] none) = .ok (.mk .root [child']
            (some (.function (.identifier "render") [] [.ret child.renderCode]))) := by
          simp only [Lowering.fillRoot, Node.kind, Node.children, Node.needCode_of_code hcode]
          rfl
        rw [hfill]
        rfl
      | cons second rest =>
        cases hrest with
        | @cons second' _ rest' _ _ hrest =>
          have hfill : Lowering.fillRoot (.mk .root (child' :: second' :: rest') none) =
              .error (.multipleRoots (child' :: second' :: rest').length) := rfl
          have hlength : (child' :: second' :: rest').length =
              (child :: second :: rest).length := by
            simp [hrest.length_eq]
          rw [hfill, hlength]
          rfl

end Markup
end ReactiveView
