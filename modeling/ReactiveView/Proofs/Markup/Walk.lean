/-
# Traversals, step by step

A step of a traversal *ends* with an outcome and a state (`Step.Ends`), and steps in a row end
as the first failure among them does, or as the last of them.  A traversal enters a node, keeps
what is left of its children (`Transform.keepEach`), and runs the exit phases
(`Transform.traverse_succ`).

How many levels it may descend is a matter of the run (`Transform.runTo`); `Transform.run` sets
them by the tree that it is given.

A rule hands back the exit phase of its exit actions, or none (`Rule.exit_of_enter`).
-/

import ReactiveView.Markup.Rule

namespace ReactiveView
namespace Markup

variable {σ α β : Type} {s s₁ s' : σ}

namespace Step

/-- From the state `s` the step ends with an outcome and the state `s'`. -/
def Ends (step : Step σ α) (s : σ) (outcome : Except TransformError α) (s' : σ) : Prop :=
  step.run.run s = (outcome, s')

/-- Every step ends, well or not. -/
theorem ends (step : Step σ α) (s : σ) : ∃ outcome s', step.Ends s outcome s' := ⟨_, _, rfl⟩

namespace Ends

variable {step : Step σ α} {next : α → Step σ β} {a : α} {outcome : Except TransformError β}
  {error : TransformError}

/-- A step that does nothing ends with its value. -/
theorem pure (a : α) (s : σ) : Ends (Pure.pure a : Step σ α) s (.ok a) s := rfl

/-- A step that fails ends with its failure. -/
theorem throw (error : TransformError) (s : σ) :
    Ends (MonadExcept.throw error : Step σ α) s (.error error) s := rfl

/-- Two steps in a row end as the second one does. -/
theorem bind (h : step.Ends s (.ok a) s₁) (h' : (next a).Ends s₁ outcome s') :
    Ends (step >>= next) s outcome s' := by
  unfold Ends at h h' ⊢
  simp only [ExceptT.run_bind, StateT.run_bind, h]
  exact h'

/-- If the first one fails, the second one is not begun. -/
theorem bind_error (h : step.Ends s (.error error) s') :
    Ends (step >>= next) s (.error error) s' := by
  unfold Ends at h ⊢
  simp only [ExceptT.run_bind, StateT.run_bind, h]
  rfl

/-- The result of a step may be worked over. -/
theorem map (f : α → β) (h : step.Ends s (.ok a) s') : Ends (f <$> step) s (.ok (f a)) s' := by
  rw [map_eq_pure_bind]
  exact h.bind (.pure _ _)

/-- A step has one outcome. -/
theorem unique {outcome outcome' : Except TransformError α} {s'' : σ}
    (h : step.Ends s outcome s') (h' : step.Ends s outcome' s'') :
    outcome = outcome' ∧ s' = s'' :=
  Prod.mk.inj (h.symm.trans h')

/-- If two steps in a row succeed, each of them does. -/
theorem of_bind_ok {b : β} (h : Ends (step >>= next) s (.ok b) s') :
    ∃ a s₁, step.Ends s (.ok a) s₁ ∧ (next a).Ends s₁ (.ok b) s' := by
  obtain ⟨outcome, s₁, hfirst⟩ := step.ends s
  cases outcome with
  | ok a =>
    obtain ⟨outcome', s₂, hnext⟩ := (next a).ends s₁
    obtain ⟨rfl, rfl⟩ := h.unique (hfirst.bind hnext)
    exact ⟨a, s₁, hfirst, hnext⟩
  | error error => exact absurd (h.unique hfirst.bind_error).1 (by simp)

/-- What comes out of it was the result before. -/
theorem of_map_ok {f : α → β} {b : β} (h : Ends (f <$> step) s (.ok b) s') :
    ∃ a, step.Ends s (.ok a) s' ∧ b = f a := by
  rw [map_eq_pure_bind] at h
  obtain ⟨a, s₁, hstep, hpure⟩ := h.of_bind_ok
  obtain ⟨hb, rfl⟩ := hpure.unique (.pure _ _)
  exact ⟨a, hstep, Except.ok.inj hb⟩

end Ends
end Step

namespace Transform

open Step (Ends)

variable {transforms : List (Transform σ)} {levels : Nat} {ancestors : List Kind}

/-- A node that is left comes behind those that are kept already. -/
def keep (kept : Array Node) : Option Node → Array Node
  | some node => kept.push node
  | none => kept

/-- Children that are kept one by one are kept all together. -/
theorem keep_append (kept : Array Node) (left : Option Node) (more : List Node) :
    keep kept left ++ more.toArray = kept ++ (left.toList ++ more).toArray := by
  cases left <;> simp [keep]

/-- At most one more is kept. -/
theorem size_keep (kept : Array Node) (left : Option Node) :
    (keep kept left).size = kept.size + left.toList.length := by
  cases left <;> simp [keep]

/-- Traverses children in order, each behind those that were kept before it. -/
def keepEach (transforms : List (Transform σ)) (levels : Nat) (ancestors : List Kind) :
    List Node → Array Node → Step σ (Array Node)
  | [], kept => pure kept
  | child :: rest, kept => do
    let left ← traverse transforms levels ⟨ancestors, kept.size⟩ child
    keepEach transforms levels ancestors rest (keep kept left)

/-- The loop over the children, told by recursion. -/
theorem foldlM_eq_keepEach (children : List Node) (kept : Array Node) :
    children.foldlM (fun (kept : Array Node) child => do
        match ← traverse transforms levels ⟨ancestors, kept.size⟩ child with
        | some child => pure (kept.push child)
        | none => pure kept) kept =
      keepEach transforms levels ancestors children kept := by
  induction children generalizing kept with
  | nil => rfl
  | cons child rest ih =>
    rw [List.foldlM_cons, keepEach, bind_assoc]
    refine congrArg _ (funext fun left => ?_)
    cases left with
    | some child => exact (pure_bind _ _).trans (ih _)
    | none => exact (pure_bind _ _).trans (ih _)

/-- What is done at a node once the entry phases have run. -/
def finish (transforms : List (Transform σ)) (levels : Nat) (visit : Visit) :
    Option (Node × List (Exit σ)) → Step σ (Option Node)
  | none => pure none
  | some (node, exits) => do
    let kept ← keepEach transforms levels (node.kind :: visit.ancestors) node.children #[]
    some <$> exits.foldlM (fun node exit => exit node) (node.withChildren kept.toList)

/-- **A traversal enters its node, and then finishes it.** -/
theorem traverse_succ (transforms : List (Transform σ)) (levels : Nat) (visit : Visit)
    (node : Node) :
    traverse transforms (levels + 1) visit node =
      enterAll visit transforms node [] >>= finish transforms levels visit := by
  rw [traverse]
  refine congrArg _ (funext fun entered => ?_)
  cases entered with
  | none => rfl
  | some entered => exact congrArg (· >>= _) (foldlM_eq_keepEach ..)

/-- The tree after one traversal of at most `levels` levels. -/
def runTo (levels : Nat) (transforms : List (Transform σ)) (tree : Node) : Step σ Node := do
  match ← traverse transforms levels .top tree with
  | some tree => pure tree
  | none => throw .cannotRemoveRoot

/-- A run ends as the traversal of the outermost node does, but that node cannot be removed. -/
theorem runTo_ends {tree : Node} {left : Option Node}
    (h : Ends (traverse transforms levels .top tree) s (.ok left) s') :
    Ends (runTo levels transforms tree) s (left.elim (.error .cannotRemoveRoot) .ok) s' := by
  cases left with
  | some tree => exact h.bind (.pure tree s')
  | none => exact h.bind (.throw .cannotRemoveRoot s')

/-- A run may descend as deep as the tree is, and a little deeper. -/
theorem run_eq_runTo (transforms : List (Transform σ)) (tree : Node) :
    run transforms tree = runTo (tree.depth + spareLevels) transforms tree := rfl

end Transform

/-! ## Rules -/

namespace Rule

variable {rule : Rule}

/-- The exit phase of the exit actions. -/
def exitPhase (rule : Rule) : Option (Exit (Array LogLine)) :=
  rule.exit.map fun actions node => actions.foldlM (fun node action => action.apply node) node

/-- The exit phase that a rule hands back is that of its exit actions; where the rule does not
apply there is none. -/
theorem exit_of_enter {visit : Visit} {node : Node} {log log' : Array LogLine}
    {current : Option Node} {exit : Option (Exit (Array LogLine))}
    (h : (rule.transform.enter visit node).Ends log (.ok (current, exit)) log') :
    exit = none ∨ exit = rule.exitPhase := by
  simp only [Rule.transform] at h
  split at h
  · obtain ⟨entered, log'', -, hpure⟩ := h.of_bind_ok
    obtain ⟨hresult, -⟩ := hpure.unique (.pure _ _)
    exact .inr (Prod.mk.inj (Except.ok.inj hresult)).2
  · obtain ⟨hresult, -⟩ := h.unique (.pure _ _)
    exact .inl (Prod.mk.inj (Except.ok.inj hresult)).2

end Rule
end Markup
end ReactiveView
