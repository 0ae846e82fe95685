/-
# One pass or two

A transform that hands back no exit phase may run in one traversal with the standard
transforms, ahead of them at every node, or in a traversal of its own before theirs.  If its
own traversal succeeds, both ways come to the same: the same tree or the same error
(`Transform.runTo_fused`).

In the one traversal the standard transforms have filled slots of ancestors and of earlier
siblings by the time that the transform enters a node.  It cannot tell: the node, what is below
it, the kinds of its ancestors and the number of siblings kept are what they are in its own
traversal (`Transform.traverse_fused`).  And the slots are filled in the order in which the
second traversal fills them, so the first failure is the same.
-/

import ReactiveView.Proofs.Markup.Lowered
import ReactiveView.Proofs.Markup.Walk

namespace ReactiveView
namespace Markup

variable {σ α β : Type} {s s₁ s' : σ}

namespace Step

/-- From the state `s` the step ends with the outcome, and with the state `s'` if it succeeds. -/
def Yields (step : Step σ α) (s : σ) (outcome : Except TransformError α) (s' : σ) : Prop :=
  ∃ s'', step.Ends s outcome s'' ∧ ∀ a, outcome = .ok a → s'' = s'

namespace Yields

variable {step : Step σ α} {next : α → Step σ β} {a : α} {outcome : Except TransformError β}
  {error : TransformError}

/-- What a step ends with it yields. -/
theorem of_ends {outcome : Except TransformError α} (h : step.Ends s outcome s') :
    step.Yields s outcome s' := ⟨s', h, fun _ _ => rfl⟩

/-- A value that is yielded is the outcome. -/
theorem ends (h : step.Yields s (.ok a) s') : step.Ends s (.ok a) s' := by
  obtain ⟨s'', hends, hstate⟩ := h
  rwa [← hstate a rfl]

/-- A step that yields a value, and what the next one yields. -/
theorem bind_ok (h : step.Yields s (.ok a) s₁) (h' : (next a).Yields s₁ outcome s') :
    Yields (step >>= next) s outcome s' := by
  obtain ⟨s'', hends, hstate⟩ := h'
  exact ⟨s'', h.ends.bind hends, hstate⟩

/-- A failure leaves open which state a success would have led to. -/
theorem bind_error (h : step.Yields s (.error error) s₁) (s' : σ) :
    Yields (step >>= next) s (.error error) s' := by
  obtain ⟨s'', hends, -⟩ := h
  exact ⟨s'', hends.bind_error, fun _ hok => absurd hok (by simp)⟩

end Yields
end Step

namespace Node

/-- The node that is left, if any, after the standard transforms. -/
def loweredLeft : Option Node → Except TransformError (Option Node)
  | none => .ok none
  | some node => some <$> node.lowered

/-- Setting a slot has nothing to do with the children. -/
theorem setCode_withChildren (code : Code) (children : List Node) (node : Node) :
    (node.withChildren children).setCode code = withChildren children <$> node.setCode code := by
  obtain ⟨kind, _, _ | code⟩ := node <;> rfl

/-- Filling a text does not look at children. -/
theorem fillText_withChildren (children : List Node) (node : Node) :
    Lowering.fillText (node.withChildren children) =
      withChildren children <$> Lowering.fillText node := by
  obtain ⟨_ | _ | content, _, code⟩ := node
  · rfl
  · rfl
  · exact setCode_withChildren (.string content) children _

/-- The kind of a node is not changed by code. -/
theorem kind_of_setCode {node node' : Node} {code : Code} (h : node.setCode code = .ok node') :
    node'.kind = node.kind := by
  unfold setCode at h
  split at h
  · exact absurd h (by simp)
  · obtain rfl := Except.ok.inj h
    cases node
    rfl

/-- Filling a text leaves the kind. -/
theorem kind_of_fillText {node node' : Node} (h : Lowering.fillText node = .ok node') :
    node'.kind = node.kind := by
  unfold Lowering.fillText at h
  split at h
  · exact kind_of_setCode h
  · rw [Except.ok.inj h]

/-- A node with other children is filled as a text, then its children are, and then it is
filled as a root or an element. -/
theorem lowered_withChildren (node : Node) (children : List Node) :
    (node.withChildren children).lowered =
      Lowering.fillText node >>= fun node =>
        loweredEach children >>= fun children =>
          Lowering.fillRoot (node.withChildren children) >>= Lowering.fillElement := by
  have htext := fillText_withChildren children node
  obtain ⟨kind, _, code⟩ := node
  rw [withChildren, lowered, ← withChildren, htext]
  cases Lowering.fillText _ with
  | error error => rfl
  | ok node =>
    cases node
    rfl

end Node

namespace Transform

open Step (Ends Yields)

variable {rule : Transform σ} {levels : Nat}

/-- The transform never hands back an exit phase. -/
def EntryOnly (rule : Transform σ) : Prop :=
  ∀ visit node s current exit s', (rule.enter visit node).Ends s (.ok (current, exit)) s' →
    exit = none

/-- Nothing else is entered once the first transform has removed the node. -/
theorem enterAll_removed {visit : Visit} {node : Node} (rest : List (Transform σ))
    (h : (rule.enter visit node).Ends s (.ok (none, none)) s') :
    Ends (enterAll visit (rule :: rest) node []) s (.ok none) s' := by
  rw [enterAll]
  exact h.bind (.pure _ _)

/-- The rest is entered with the node that the first transform leaves. -/
theorem enterAll_left {visit : Visit} {node node' : Node} {rest : List (Transform σ)}
    {outcome : Except TransformError (Option (Node × List (Exit σ)))}
    (h : (rule.enter visit node).Ends s (.ok (some node', none)) s₁)
    (hrest : Ends (enterAll visit rest node' []) s₁ outcome s') :
    Ends (enterAll visit (rule :: rest) node []) s outcome s' := by
  rw [enterAll]
  exact h.bind hrest

/-- The entry phase of such a transform alone. -/
theorem enterAll_singleton_ok (hrule : rule.EntryOnly) {visit : Visit} {node : Node}
    {entered : Option (Node × List (Exit σ))}
    (h : Ends (enterAll visit [rule] node []) s (.ok entered) s') :
    ∃ current, (rule.enter visit node).Ends s (.ok (current, none)) s' ∧
      entered = current.map fun node => (node, []) := by
  rw [enterAll] at h
  obtain ⟨⟨current, exit⟩, s₁, henter, hrest⟩ := h.of_bind_ok
  obtain rfl := hrule _ _ _ _ _ _ henter
  refine ⟨current, ?_⟩
  cases current with
  | none =>
    obtain ⟨hentered, rfl⟩ := hrest.unique (.pure _ _)
    exact ⟨henter, Except.ok.inj hentered⟩
  | some node =>
    obtain ⟨hentered, rfl⟩ := hrest.unique (.pure _ _)
    exact ⟨henter, Except.ok.inj hentered⟩

/-- Children that the transform keeps are kept in the one traversal, lowered. -/
theorem keepEach_fused
    (ih : ∀ visit node (s : σ) left s', Ends (traverse [rule] levels visit node) s (.ok left) s' →
      Yields (traverse (rule :: Lowering.standard) levels visit node) s (Node.loweredLeft left) s')
    (ancestors : List Kind) (children : List Node) {kept kept' all : Array Node} {s s' : σ}
    (hsize : kept'.size = kept.size)
    (h : Ends (keepEach [rule] levels ancestors children kept) s (.ok all) s') :
    ∃ more : List Node, all = kept ++ more.toArray ∧
      Yields (keepEach (rule :: Lowering.standard) levels ancestors children kept') s
        ((fun more => kept' ++ more.toArray) <$> Node.loweredEach more) s' := by
  induction children generalizing kept kept' s with
  | nil =>
    obtain ⟨hall, rfl⟩ := h.unique (.pure _ _)
    have hkept : kept' ++ #[] = kept' := Array.append_empty
    refine ⟨[], (Except.ok.inj hall).trans Array.append_empty.symm, .of_ends ?_⟩
    exact congrArg (fun kept => (Except.ok kept, s')) hkept.symm
  | cons child rest ihrest =>
    obtain ⟨left, s₁, hchild, hrest⟩ := h.of_bind_ok
    have hfused := ih _ _ _ _ _ hchild
    rw [← hsize] at hfused
    rw [keepEach]
    cases left with
    | none =>
      obtain ⟨more, hall, hmore⟩ := ihrest hsize hrest
      exact ⟨more, hall, hfused.bind_ok hmore⟩
    | some child =>
      rw [Node.loweredLeft] at hfused
      cases hlowered : child.lowered with
      | error error =>
        rw [hlowered] at hfused
        have hsize' : (keep kept' (some child)).size = (keep kept (some child)).size := by
          simp [size_keep, hsize]
        obtain ⟨more, hall, -⟩ := ihrest hsize' hrest
        -- In the one traversal the first failure ends everything; in two, the later children are
        -- traversed before the failure is met.
        refine ⟨child :: more, hall.trans (keep_append ..), ?_⟩
        rw [Node.loweredEach, hlowered]
        exact hfused.bind_error s'
      | ok child' =>
        rw [hlowered] at hfused
        have hsize' : (keep kept' (some child')).size = (keep kept (some child)).size := by
          simp [size_keep, hsize]
        obtain ⟨more, hall, hmore⟩ := ihrest hsize' hrest
        refine ⟨child :: more, hall.trans (keep_append ..), ?_⟩
        rw [Node.loweredEach, hlowered]
        refine hfused.bind_ok ?_
        simp only [keep_append] at hmore
        cases hlater : Node.loweredEach more with
        | error error =>
          rw [hlater] at hmore
          exact hmore
        | ok more' =>
          rw [hlater] at hmore
          exact hmore

/-- Below a node that is filled as a text the children are kept, and then the node is filled
as a root or an element. -/
theorem finish_fused
    (ih : ∀ visit node (s : σ) left s', Ends (traverse [rule] levels visit node) s (.ok left) s' →
      Yields (traverse (rule :: Lowering.standard) levels visit node) s (Node.loweredLeft left) s')
    {visit : Visit} {node : Node} {left : Option Node} {s s' : σ}
    (h : Ends (finish [rule] levels visit (some (node, []))) s (.ok left) s') :
    ∃ more, left = some (node.withChildren more) ∧
      ∀ filled, Lowering.fillText node = .ok filled →
        Yields (finish (rule :: Lowering.standard) levels visit (some (filled, standardExits))) s
          (some <$> (Node.loweredEach more >>= fun children =>
            Lowering.fillRoot (filled.withChildren children) >>= Lowering.fillElement)) s' := by
  obtain ⟨all, s₁, hkeep, hmap⟩ := h.of_bind_ok
  obtain ⟨node', hpure, rfl⟩ := hmap.of_map_ok
  obtain ⟨hnode, rfl⟩ := hpure.unique (.pure _ _)
  obtain rfl := Except.ok.inj hnode
  have hsize : (#[] : Array Node).size = (#[] : Array Node).size := rfl
  obtain ⟨more, rfl, hmore⟩ := keepEach_fused ih _ _ hsize hkeep
  have hlist (more : List Node) : (#[] ++ more.toArray).toList = more := by simp
  refine ⟨more, by rw [hlist], ?_⟩
  intro filled htext
  rw [finish, Node.kind_of_fillText htext, Node.children_of_fillText htext]
  cases hlowered : Node.loweredEach more with
  | error error =>
    rw [hlowered] at hmore
    exact hmore.bind_error s'
  | ok more' =>
    rw [hlowered] at hmore
    refine hmore.bind_ok (.of_ends ?_)
    rw [hlist, exits_standard, Step.map_ofExcept]
    rfl

/-- **A traversal with the standard transforms behind goes where the traversal without them
goes, and lowers what that leaves.** -/
theorem traverse_fused (hrule : rule.EntryOnly) (levels : Nat) (visit : Visit) (node : Node)
    (s : σ) (left : Option Node) (s' : σ)
    (h : Ends (traverse [rule] levels visit node) s (.ok left) s') :
    Yields (traverse (rule :: Lowering.standard) levels visit node) s (Node.loweredLeft left)
      s' := by
  induction levels generalizing visit node s left s' with
  | zero => exact absurd (h.unique (.throw .endless s)).1 (by simp)
  | succ levels ih =>
    rw [traverse_succ] at h ⊢
    obtain ⟨entered, s₁, henter, hfinish⟩ := h.of_bind_ok
    obtain ⟨current, hcurrent, rfl⟩ := enterAll_singleton_ok hrule henter
    cases current with
    | none =>
      obtain ⟨hleft, rfl⟩ := hfinish.unique (.pure _ _)
      obtain rfl := Except.ok.inj hleft
      exact .of_ends ((enterAll_removed Lowering.standard hcurrent).bind (.pure _ _))
    | some node =>
      obtain ⟨more, rfl, hmore⟩ := finish_fused ih hfinish
      have hstandard : Ends (enterAll visit Lowering.standard node []) s₁
          ((fun node => some (node, standardExits)) <$> Lowering.fillText node) s₁ := by
        rw [enterAll_standard]
        rfl
      rw [Node.loweredLeft, Node.lowered_withChildren]
      cases htext : Lowering.fillText node with
      | error error =>
        rw [htext] at hstandard
        exact (Yields.of_ends (enterAll_left hcurrent hstandard)).bind_error s'
      | ok filled =>
        rw [htext] at hstandard
        exact (Yields.of_ends (enterAll_left hcurrent hstandard)).bind_ok (hmore filled htext)

/-- **One pass or two.**  Let a transform hand back no exit phase, and let a traversal with it
alone leave a tree.  Then a traversal with it and the standard transforms behind it has the
outcome of the standard transforms on that tree: the same tree or the same error.  If that is
a tree, the state is the same too. -/
theorem runTo_fused (hrule : rule.EntryOnly) {levels : Nat} {tree tree' : Node} {s s' : σ}
    (halone : (runTo levels [rule] tree).run.run s = (.ok tree', s')) :
    let fused := (runTo levels (rule :: Lowering.standard) tree).run.run s
    let behind := (run Lowering.standard tree').run.run s'
    fused.1 = behind.1 ∧ (fused.1.isOk = true → fused.2 = behind.2) := by
  obtain ⟨left, s₁, htraverse, hleft⟩ := Ends.of_bind_ok halone
  cases left with
  | none => exact absurd (hleft.unique (.throw .cannotRemoveRoot s₁)).1 (by simp)
  | some node =>
    obtain ⟨hnode, rfl⟩ := hleft.unique (.pure node s₁)
    obtain rfl := Except.ok.inj hnode
    have hfused := traverse_fused hrule levels .top tree s _ s' htraverse
    rw [Node.loweredLeft] at hfused
    have hbehind : Ends (run Lowering.standard tree') s' tree'.lowered s' := by
      rw [run_standard]
      rfl
    cases hlowered : tree'.lowered with
    | error error =>
      rw [hlowered] at hfused hbehind
      obtain ⟨s'', hends, -⟩ := hfused
      have hrun : Ends (runTo levels (rule :: Lowering.standard) tree) s (.error error) s'' :=
        hends.bind_error
      unfold Ends at hrun hbehind
      rw [hrun, hbehind]
      exact ⟨rfl, fun hok => absurd hok (by simp [Except.isOk, Except.toBool])⟩
    | ok lowered =>
      rw [hlowered] at hfused hbehind
      have hrun : Ends (runTo levels (rule :: Lowering.standard) tree) s (.ok lowered) s' :=
        hfused.ends.bind (.pure lowered s')
      unfold Ends at hrun hbehind
      rw [hrun, hbehind]
      exact ⟨rfl, fun _ => rfl⟩

end Transform

/-- A rule without exit actions hands back no exit phase. -/
theorem Rule.entryOnly {rule : Rule} (h : rule.exit = none) : rule.transform.EntryOnly := by
  intro visit node log current exit log' hends
  rcases exit_of_enter hends with rfl | rfl
  · rfl
  · rw [exitPhase, h]
    rfl

/-- Takes the elements `b` out. -/
def pruning : Rule where
  pattern := { tag := some "b" }
  entry := [.remove, .log "pruned"]
  exit := none

/-- One pass or two, with an element to take out in front of a text. -/
theorem Transform.runTo_fused_pruning :
    let tree : Node := .root [.element "p" [.element "b" [.text "x"], .text "y"]]
    let tree' : Node := .root [.element "p" [.text "y"]]
    let log := #[.entered "pruned" none ⟨[.element "p", .root], 0⟩]
    pruning.transform.EntryOnly ∧
      (run [pruning.transform] tree).run.run #[] = (.ok tree', log) ∧
      let fused := (run (pruning.transform :: Lowering.standard) tree).run.run #[]
      let behind := (run Lowering.standard tree').run.run log
      fused.1 = behind.1 ∧ (fused.1.isOk = true → fused.2 = behind.2) := by
  intro tree tree' log
  have hrule : pruning.transform.EntryOnly := Rule.entryOnly rfl
  have halone : (run [pruning.transform] tree).run.run #[] = (.ok tree', log) := rfl
  refine ⟨hrule, halone, ?_⟩
  rw [run_eq_runTo] at halone
  exact runTo_fused hrule halone

end Markup
end ReactiveView
