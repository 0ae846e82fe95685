/-
# Trees that are refused

A render fails for one reason only: somewhere in the tree, under whatever kinds of nodes,
stands a component.  Then nothing is done, and the failure names the first component
(`Container.render_error_iff`).

The other trees are rendered whatever the document holds, fragments of a text and texts
with children included.  Work that goes well on every document *succeeds*
(`Work.Succeeds`).  What it needs is that every virtual node that it takes down or patches
knows its node of the document: that is what a mounted tree leaves behind
(`VNode.Patchable`), and every tree that a container keeps was mounted or patched.
-/

import ReactiveView.Proofs.Rendering.Mount

namespace ReactiveView
namespace View

variable {α β : Type}

namespace Work

/-- On every document the work succeeds, with a result that has the property. -/
def Succeeds (work : Work α) (P : α → Prop) : Prop :=
  ∀ d, ∃ a d', Runs work d a d' ∧ P a

namespace Succeeds

variable {work : Work α} {P : α → Prop} {Q : β → Prop}

/-- Work without an effect succeeds. -/
theorem pure {a : α} (h : P a) : Succeeds (Pure.pure a) P :=
  fun d => ⟨a, d, .pure a d, h⟩

/-- Work that succeeds with a result of the kind that the next piece of work needs. -/
theorem bind {next : α → Work β} (h : Succeeds work P) (h' : ∀ a, P a → Succeeds (next a) Q) :
    Succeeds (work >>= next) Q := by
  intro d
  obtain ⟨a, d₁, hruns, ha⟩ := h d
  obtain ⟨b, d₂, hruns', hb⟩ := h' a ha d₁
  exact ⟨b, d₂, hruns.bind hruns', hb⟩

/-- A result may be worked over. -/
theorem map {f : α → β} (h : Succeeds work P) (hf : ∀ a, P a → Q (f a)) :
    Succeeds (f <$> work) Q := by
  intro d
  obtain ⟨a, d', hruns, ha⟩ := h d
  exact ⟨f a, d', hruns.map f, hf a ha⟩

/-- A change of the document cannot fail. -/
theorem change (f : Document → Document) : Succeeds (Work.change f) fun _ => True :=
  fun d => ⟨(), f d, .change f d, trivial⟩

/-- The making of a node cannot fail. -/
theorem create (f : Document → NodeId × Document) : Succeeds (Work.create f) fun _ => True :=
  fun d => ⟨(f d).1, (f d).2, .create f d, trivial⟩

/-- A change that is made on a condition, before the result. -/
theorem orChange {a : α} (h : P a) (condition : Prop) [Decidable condition]
    (f : Document → Document) :
    Succeeds (if condition then Pure.pure a else do Work.change f; Pure.pure a) P := by
  split
  · exact .pure h
  · exact (Succeeds.change f).bind fun _ _ => .pure h

/-- The same work, again and again. -/
theorem forM {each : α → Work Unit} (h : ∀ a, Succeeds (each a) fun _ => True) (list : List α) :
    Succeeds (list.forM each) fun _ => True := by
  induction list with
  | nil => exact .pure trivial
  | cons a rest ih => exact (h a).bind fun _ _ => ih

end Succeeds
end Work

namespace VNode

open Work (Succeeds)

/-! ## Components -/

mutual

/-- The virtual nodes of a tree, depth first: the tree itself, then what is reached through
its list of children. -/
def preorder : VNode → List VNode
  | mk kind props children el => mk kind props children el :: preorderIn children

/-- The virtual nodes among children. -/
def preorderIn : Children → List VNode
  | .none => []
  | .text _ => []
  | .nodes nodes => preorderEach nodes

/-- The virtual nodes of several trees. -/
def preorderEach : List VNode → List VNode
  | [] => []
  | v :: rest => preorder v ++ preorderEach rest

end

mutual

/-- The search for a component finds the first one of the tree. -/
theorem component?_eq : ∀ v : VNode,
    v.component? = (v.preorder.find? fun u => u.kind.isComponent).map kind
  | mk kind props children el => by
    rw [component?, preorder, List.find?_cons]
    cases h : kind.isComponent with
    | true => simp [VNode.kind, h]
    | false =>
      simp only [VNode.kind, h]
      exact componentIn?_eq children

/-- Among children, the component that is refused is the first one depth first. -/
theorem componentIn?_eq : ∀ children : Children,
    componentIn? children = ((preorderIn children).find? fun u => u.kind.isComponent).map kind
  | .none => rfl
  | .text _ => rfl
  | .nodes nodes => componentOf?_eq nodes

/-- In a list of trees it is that of the first tree that has one. -/
theorem componentOf?_eq : ∀ nodes : List VNode,
    componentOf? nodes = ((preorderEach nodes).find? fun u => u.kind.isComponent).map kind
  | [] => rfl
  | v :: rest => by
    rw [componentOf?, preorderEach, List.find?_append, component?_eq v, componentOf?_eq rest]
    cases (preorder v).find? fun u => u.kind.isComponent <;> rfl

end

/-- What a tree without components is made of. -/
theorem component?_mk {kind : VKind} {props : Option Props} {children : Children}
    {el : Option NodeId} (h : (mk kind props children el).component? = none) :
    kind.isComponent = false ∧ componentIn? children = none := by
  rw [component?] at h
  split at h
  · exact absurd h (by simp)
  · rename_i hkind
    exact ⟨by simpa using hkind, h⟩

/-- What a list of trees without components is made of. -/
theorem componentOf?_cons {v : VNode} {rest : List VNode} (h : componentOf? (v :: rest) = none) :
    v.component? = none ∧ componentOf? rest = none := by
  rw [componentOf?] at h
  cases hv : v.component? with
  | none =>
    rw [hv] at h
    exact ⟨rfl, h⟩
  | some kind =>
    rw [hv] at h
    exact absurd h (by simp)

/-! ## Mounting -/

/-- The tree is mounted, and so are the children that patching it takes down. -/
structure Patchable (v : VNode) : Prop where
  mounted : v.Mounted
  children : ∀ tag, v.kind = .element tag → MountedIn v.children

/-- What is mounted as children is mounted as a list; where there is no list, nothing had to be
mounted. -/
theorem mountedEach_toList {children : Children} (h : MountedIn children) :
    MountedEach children.toList := by
  cases children with
  | none => trivial
  | text content => trivial
  | nodes nodes => exact h

/-- A text or a comment is mounted once it has a node. -/
theorem patchable_leaf {kind : VKind} (hkind : kind = .text ∨ kind = .comment)
    (props : Option Props) (children : Children) (el : NodeId) :
    (mk kind props children (some el)).Patchable := by
  rcases hkind with rfl | rfl <;> exact ⟨rfl, fun _ h => absurd h (by simp [VNode.kind])⟩

/-- An element that knows its node can be patched if its children are mounted. -/
theorem patchable_element (tag : String) (props : Option Props) {children : Children}
    (h : MountedIn children) (el : NodeId) :
    (mk (.element tag) props children (some el)).Patchable :=
  ⟨rfl, fun _ _ => h⟩

/-- A fragment needs no node of its own. -/
theorem patchable_fragment (props : Option Props) {children : Children} (h : MountedIn children)
    (el : Option NodeId) : (mk .fragment props children el).Patchable :=
  ⟨h, fun _ h => absurd h (by simp [VNode.kind])⟩

mutual

/-- **A tree without components can be mounted anywhere.** -/
theorem mount_succeeds : ∀ (v : VNode) (p : NodeId), v.component? = none →
    Succeeds (mount p v) Patchable
  | mk (.element tag) props children el, p, h => by
    rw [mount_element]
    refine (Succeeds.create _).bind fun n _ => ?_
    refine (fill_succeeds children n (component?_mk h).2).bind fun children' hmounted => ?_
    refine (Succeeds.forM (fun _ => .change _) _).bind fun _ _ => ?_
    refine (Succeeds.change _).bind fun _ _ => ?_
    exact .pure (patchable_element tag props hmounted n)
  | mk .text props children el, p, _ =>
    (Succeeds.create _).bind fun n _ => (Succeeds.change _).bind fun _ _ =>
      .pure (patchable_leaf (.inl rfl) props children n)
  | mk .comment props children el, p, _ =>
    (Succeeds.create _).bind fun n _ => (Succeeds.change _).bind fun _ _ =>
      .pure (patchable_leaf (.inr rfl) props children n)
  | mk .fragment props .none el, p, _ =>
    have hmounted : MountedIn .none := trivial
    .pure (patchable_fragment props hmounted none)
  | mk .fragment props (.text content) el, p, _ =>
    have hmounted : MountedIn (.text content) := trivial
    .pure (patchable_fragment props hmounted none)
  | mk .fragment props (.nodes nodes) el, p, h => by
    have hmount : Succeeds (Children.nodes <$> mountEach p nodes) MountedIn :=
      (mountEach_succeeds nodes p (component?_mk h).2).map fun _ => id
    exact hmount.bind fun children h => .pure (patchable_fragment props h none)
  | mk (.component name) props children el, p, h =>
    absurd (component?_mk h).1 (by simp [VKind.isComponent])

/-- A list without components can be mounted. -/
theorem mountEach_succeeds : ∀ (nodes : List VNode) (p : NodeId), componentOf? nodes = none →
    Succeeds (mountEach p nodes) MountedEach
  | [], p, _ => .pure trivial
  | v :: rest, p, h => by
    obtain ⟨hv, hrest⟩ := componentOf?_cons h
    refine (mount_succeeds v p hv).bind fun v' hv' => ?_
    refine (mountEach_succeeds rest p hrest).bind fun rest' hrest' => ?_
    exact .pure ⟨hv'.mounted, hrest'⟩

/-- Children without components can always be mounted. -/
theorem fill_succeeds : ∀ (children : Children) (n : NodeId), componentIn? children = none →
    Succeeds (fill children n) MountedIn
  | .none, _, _ => .pure trivial
  | .text _, _, _ => (Succeeds.change _).bind fun _ _ => .pure trivial
  | .nodes nodes, n, h => (mountEach_succeeds nodes n h).map fun _ => id

end

/-! ## Patching -/

/-- **What is mounted can be taken down**, on whatever document. -/
theorem unmount_succeeds {v : VNode} (h : v.Mounted) : Succeeds v.unmount fun _ => True :=
  fun d => ⟨(), _, unmount_runs v h d, trivial⟩

/-- A list of what is mounted can. -/
theorem unmountEach_succeeds {nodes : List VNode} (h : MountedEach nodes) :
    Succeeds (unmountEach nodes) fun _ => True :=
  fun d => ⟨(), _, unmountEach_runs nodes h d, trivial⟩

/-- Props are changed one by one, and no change of a prop fails. -/
theorem patchProps_succeeds (el : NodeId) (old new : Props) :
    Succeeds (patchProps el old new) fun _ => True := by
  have hpatch (condition : Prop) [Decidable condition] (f : Document → Document) :
      Succeeds (if condition then Pure.pure () else Work.change f) fun _ => True := by
    split
    · exact .pure trivial
    · exact .change f
  exact (Succeeds.forM (fun _ => hpatch _ _) _).bind fun _ _ => .forM (fun _ => hpatch _ _) _

/-- Children of any form give way to children of any form. -/
theorem patchChildren_succeeds (p : NodeId) {old new : Children} (hold : MountedEach old.toList)
    (hnew : componentIn? new = none) : Succeeds (patchChildren p old new) MountedIn := by
  refine (unmountEach_succeeds hold).bind fun _ _ => ?_
  cases new with
  | text content =>
    cases old <;> exact (Succeeds.change _).bind fun _ _ => .pure trivial
  | nodes nodes =>
    have hmount : Succeeds (Children.nodes <$> mountEach p nodes) MountedIn :=
      (mountEach_succeeds nodes p hnew).map fun _ => id
    cases old with
    | nodes old => exact hmount
    | none | text => exact (Succeeds.change _).bind fun _ _ => hmount
  | none =>
    cases old with
    | text content => exact (Succeeds.change _).bind fun _ _ => .pure trivial
    | none | nodes => exact .pure trivial

/-- A mounted tree gives way to one of the same kind. -/
theorem patch_same_succeeds (p : NodeId) {kind : VKind} {props props' : Option Props}
    {children children' : Children} {el el' : Option NodeId}
    (hold : (mk kind props children el).Patchable)
    (hnew : (mk kind props' children' el').component? = none) :
    Succeeds (patch p (some (mk kind props children el)) (mk kind props' children' el'))
      Patchable := by
  obtain ⟨hkind, hchildren⟩ := component?_mk hnew
  simp only [patch, VNode.kind, ne_eq, not_true_eq_false, if_false]
  cases kind with
  | element tag =>
    obtain ⟨n, rfl⟩ := Option.isSome_iff_exists.1 hold.mounted
    refine Succeeds.bind (P := fun m => m = n) (.pure rfl) ?_
    rintro m rfl
    refine (patchProps_succeeds m _ _).bind fun _ _ => ?_
    refine (patchChildren_succeeds m (mountedEach_toList (hold.children tag rfl)) hchildren).bind ?_
    intro children₂ hmounted
    exact .pure (patchable_element tag props' hmounted m)
  | text =>
    obtain ⟨n, rfl⟩ := Option.isSome_iff_exists.1 hold.mounted
    exact Succeeds.bind (P := fun _ => True) (.pure trivial) fun m _ =>
      .orChange (patchable_leaf (.inl rfl) props' children' m) _ _
  | comment =>
    obtain ⟨n, rfl⟩ := Option.isSome_iff_exists.1 hold.mounted
    exact Succeeds.bind (P := fun _ => True) (.pure trivial) fun m _ =>
      .orChange (patchable_leaf (.inr rfl) props' children' m) _ _
  | fragment =>
    refine (patchChildren_succeeds p (mountedEach_toList hold.mounted) hchildren).bind ?_
    intro children₂ hmounted
    exact .pure (patchable_fragment props' hmounted el')
  | component name => exact absurd hkind (by simp [VKind.isComponent])

/-- **A tree without components takes the place of any mounted tree.** -/
theorem patch_succeeds (p : NodeId) {old : Option VNode} {new : VNode}
    (hold : ∀ v ∈ old, v.Patchable) (hnew : new.component? = none) :
    Succeeds (patch p old new) Patchable := by
  cases old with
  | none => exact mount_succeeds new p hnew
  | some old =>
    have hold := hold old rfl
    by_cases hkind : old.kind = new.kind
    · obtain ⟨kind, props, children, el⟩ := old
      obtain ⟨kind', props', children', el'⟩ := new
      obtain rfl : kind = kind' := hkind
      exact patch_same_succeeds p hold hnew
    · simp only [patch, ne_eq, hkind, not_false_eq_true, if_true]
      exact (unmount_succeeds hold.mounted).bind fun _ _ => mount_succeeds new p hnew

end VNode

/-! ## Rendering -/

namespace Container

variable {c : Container}

/-- The container comes out of some renders of any trees, failed ones included.  The
document may change in any way between them. -/
inductive Rendered : Container → Prop
  | new (node : NodeId) : Rendered ⟨node, none⟩
  | render {c : Container} (h : Rendered c) (tree : Option VNode) (d : Document) :
      Rendered (c.render tree d).2.1

/-- A tree with a component is refused. -/
theorem render_of_component {tree : Option VNode} {kind : VKind}
    (h : tree.bind VNode.component? = some kind) (d : Document) :
    c.render tree d = (.error (.unsupported kind.describe), c, d) := by
  simp only [render, h]

/-- The work that puts a tree, or nothing, in place of that of the container. -/
def replace (c : Container) (tree : Option VNode) : Work (Option VNode) :=
  match tree, c.tree with
  | some new, old => some <$> VNode.patch c.node old new
  | none, some old => do
    old.unmount
    pure none
  | none, none => pure none

/-- **A tree without components can be put in place of any that can be patched**, and it can be
patched in its turn. -/
theorem replace_succeeds {tree : Option VNode} (hc : ∀ v ∈ c.tree, v.Patchable)
    (h : tree.bind VNode.component? = none) :
    (c.replace tree).Succeeds fun tree => ∀ v ∈ tree, v.Patchable := by
  obtain ⟨node, old⟩ := c
  cases tree with
  | some new =>
    refine (VNode.patch_succeeds node hc h).map ?_
    rintro v hv v' hv'
    obtain rfl := Option.some.inj hv'
    exact hv
  | none =>
    have hnone : ∀ v ∈ (none : Option VNode), v.Patchable := fun v hv => absurd hv (by simp)
    cases old with
    | none => exact .pure hnone
    | some old => exact (VNode.unmount_succeeds (hc old rfl).mounted).bind fun _ _ => .pure hnone

/-- A tree without components, or none, is rendered. -/
theorem render_of_no_component {tree : Option VNode} (hc : ∀ v ∈ c.tree, v.Patchable)
    (h : tree.bind VNode.component? = none) (d : Document) :
    ∃ tree' d', c.render tree d = (.ok (), ⟨c.node, tree'⟩, d') ∧ ∀ v ∈ tree', v.Patchable := by
  obtain ⟨tree', d', hruns, htree⟩ := replace_succeeds hc h d
  refine ⟨tree', d', ?_, htree⟩
  simp only [render, h]
  split
  · rename_i heq
    obtain ⟨hresult, rfl⟩ := Prod.mk.inj (heq.symm.trans hruns)
    obtain rfl := Except.ok.inj hresult
    rfl
  · rename_i heq
    exact absurd (Prod.mk.inj (heq.symm.trans hruns)).1 (by simp)

/-- The tree that a container keeps can be patched. -/
theorem Rendered.patchable (h : c.Rendered) : ∀ v ∈ c.tree, v.Patchable := by
  induction h with
  | new node => exact fun v hv => absurd hv (by simp)
  | @render c _ tree d ih =>
    cases hcomponent : tree.bind VNode.component? with
    | some kind =>
      rw [render_of_component hcomponent]
      exact ih
    | none =>
      obtain ⟨tree', d', hrender, htree⟩ := render_of_no_component ih hcomponent d
      rw [hrender]
      exact htree

/-- **A render fails for components only, and then it does nothing.**  Take a container
after any renders.  Rendering a tree into it fails exactly when a component is reached
through lists of children; the failure names the first one, depth first, and the container
and the document are as they were.  Taking the tree down never fails, and no virtual node is
ever found to lack its node of the document. -/
theorem render_error_iff (hc : c.Rendered) (d : Document) :
    (∀ tree : VNode,
      ((∃ error, (c.render (some tree) d).1 = .error error) ↔
        ∃ v ∈ tree.preorder, v.kind.isComponent = true) ∧
      ∀ error, (c.render (some tree) d).1 = .error error →
        ∃ v, tree.preorder.find? (fun u => u.kind.isComponent) = some v ∧
          error = .unsupported v.kind.describe ∧ (c.render (some tree) d).2 = (c, d)) ∧
    (c.render none d).1 = .ok () ∧
    ∀ tree kind, (c.render tree d).1 ≠ .error (.notMounted kind) := by
  have hok {tree : Option VNode} (h : tree.bind VNode.component? = none) :
      (c.render tree d).1 = .ok () := by
    obtain ⟨tree', d', hrender, -⟩ := render_of_no_component hc.patchable h d
    rw [hrender]
  refine ⟨fun tree => ?_, hok rfl, fun tree kind => ?_⟩
  · cases hfirst : tree.preorder.find? fun u => u.kind.isComponent with
    | none =>
      have hcomponent : (some tree).bind VNode.component? = none := by
        rw [Option.bind_some, VNode.component?_eq, hfirst]
        rfl
      have hrender : (c.render (some tree) d).1 = .ok () := hok hcomponent
      have hnone : ∀ error, (c.render (some tree) d).1 ≠ .error error := by simp [hrender]
      refine ⟨⟨fun ⟨error, h⟩ => absurd h (hnone error), ?_⟩, fun error h => absurd h (hnone error)⟩
      rintro ⟨v, hv, hkind⟩
      exact absurd (List.find?_eq_none.1 hfirst v hv) (by simp [hkind])
    | some v =>
      have hcomponent : (some tree).bind VNode.component? = some v.kind := by
        rw [Option.bind_some, VNode.component?_eq, hfirst]
        rfl
      -- The tree is searched before anything is done.
      have hrender : c.render (some tree) d = (.error (.unsupported v.kind.describe), c, d) :=
        render_of_component hcomponent d
      rw [hrender]
      refine ⟨⟨fun _ => ⟨v, List.mem_of_find?_eq_some hfirst, ?_⟩, fun _ => ⟨_, rfl⟩⟩, ?_⟩
      · exact List.find?_some (p := fun u : VNode => u.kind.isComponent) hfirst
      · intro error h
        exact ⟨v, rfl, (Except.error.inj h).symm, rfl⟩
  · cases hcomponent : tree.bind VNode.component? with
    | none =>
      rw [hok hcomponent]
      simp
    | some kind' =>
      rw [render_of_component hcomponent]
      simp

/-- A document with one element to render into. -/
def blank : Document := ((Document.empty ⟨0, 0⟩).mountPoint "div").2

/-- A container that shows a paragraph and a comment, and its document. -/
def shown : Container × Document :=
  (Container.render ⟨⟨0⟩, none⟩ (some (.fragment [.h "p" (.text "a"), .comment "b"])) blank).2

/-- A fragment in which a text has children, components among them. -/
def menuInText : VNode :=
  .fragment [.comment "b", (VNode.text "c").withChildren
    (.nodes [.h "p" .none, .component "Menu", .component "Bar"])]

/-- A component among the children of a text is refused. -/
theorem render_error_iff_menuInText :
    shown.1.Rendered ∧ (∃ v ∈ menuInText.preorder, v.kind.isComponent = true) ∧
      (shown.1.render (some menuInText) shown.2).1 = .error (.unsupported "component `Menu`") ∧
        (shown.1.render (some menuInText) shown.2).2 = shown := by
  have hrendered : shown.1.Rendered := .render (.new ⟨0⟩) _ _
  have hcomponent : ∃ v ∈ menuInText.preorder, v.kind.isComponent = true :=
    ⟨.component "Menu", List.mem_of_find?_eq_some (p := fun u => u.kind.isComponent) rfl, rfl⟩
  have hmenu := (render_error_iff hrendered shown.2).1 menuInText
  obtain ⟨error, herror⟩ := hmenu.1.2 hcomponent
  obtain ⟨v, hfirst, rfl, hsame⟩ := hmenu.2 error herror
  obtain rfl : VNode.component "Menu" = v := Option.some.inj hfirst
  exact ⟨hrendered, hcomponent, herror, hsame⟩

end Container
end View
end ReactiveView
