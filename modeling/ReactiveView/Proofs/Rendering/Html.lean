/-
# HTML

The HTML of a tree of the document depends on what the tree shows only
(`Document.html_sceneOf`), and not on which handlers are bound.  So trees that differ in
the names of their handlers give the same HTML (`VNode.htmlOf_rename`), and the HTML of a
container is that of a new one into which its last tree is rendered
(`Container.Holds.html`, `freshHtml_eq`).
-/

import ReactiveView.Proofs.Rendering.Containers

namespace ReactiveView
namespace View

open Reactive (CallbackId)

/-- The open tag of an element that looks like this. -/
def Look.openTag (look : Look) : String :=
  DomTree.openTag ⟨look.tag, look.className, look.attributes, .empty, .empty⟩

/-- The look of an element with a tag and nothing else. -/
def Look.new (tag : String) : Look := ⟨tag, "", .empty, .empty, .empty⟩

namespace Scene

mutual

/-- A scene as HTML. -/
def html : Scene → String
  | element look children => look.openTag ++ htmlOf children ++ "</" ++ look.tag ++ ">"
  | text content => content
  | comment content => "<!--" ++ content ++ "-->"

/-- Several scenes as HTML. -/
def htmlOf : List Scene → String
  | [] => ""
  | s :: rest => html s ++ htmlOf rest

end

/-- The HTML of a list of scenes is put together from its parts. -/
theorem htmlOf_append (scenes scenes' : List Scene) :
    htmlOf (scenes ++ scenes') = htmlOf scenes ++ htmlOf scenes' := by
  induction scenes with
  | nil => rw [List.nil_append, htmlOf, String.empty_append]
  | cons s rest ih => rw [List.cons_append, htmlOf, htmlOf, ih, String.append_assoc]

end Scene

/-! ## The document as HTML -/

namespace Document

variable {d : Document} {n : NodeId} {A : NodeId → Prop}

mutual

/-- The HTML of a tree is the HTML of what it shows. -/
theorem html_sceneOf (d : Document) : ∀ tree, (d.sceneOf tree).html = tree.html
  | .element e children => by
    rw [sceneOf, Scene.html, DomTree.html, html_scenesOf d children]
    rfl
  | .text _ => rfl
  | .comment _ => rfl

/-- The HTML of several trees of a document is that of what they show. -/
theorem html_scenesOf (d : Document) :
    ∀ trees, Scene.htmlOf (d.scenesOf trees) = DomTree.htmlOf trees
  | [] => rfl
  | tree :: rest => by
    rw [scenesOf, Scene.htmlOf, DomTree.htmlOf, html_sceneOf d tree, html_scenesOf d rest]

end

/-- **A node that shows a scene has the HTML of the scene.** -/
theorem Shows.html {s : Scene} (h : d.Shows A n s) : (d.tree n).html = s.html := by
  rw [← html_sceneOf d, tree, h.sceneOf_treeTo d.nodes.size (Nat.le_add_left _ _)]

end Document

/-- The HTML of a container with a tag that shows a tree, or nothing. -/
def containerHtml (tag : String) (tree : Option VNode) : String :=
  Scene.html (.element (.new tag) ((tree.map VNode.scenes).getD []))

/-- A container that has a tag and nothing else, and whose content is newer, gives the
HTML of its tree. -/
theorem Container.Holds.html {d : Document} {A : NodeId → Prop} {c : Container} {tag : String}
    {last : Option VNode} (h : c.Holds d A last) (has : d.Has c.node)
    (hdata : (d.node c.node).data = .element (.new tag))
    (hnewer : ∀ n, A n → c.node.index < n.index) :
    (d.tree c.node).html = containerHtml tag last := by
  have heach : d.ShowsEach A (d.children c.node) ((last.map VNode.scenes).getD []) := by
    cases last with
    | none =>
      rw [h.2]
      exact .nil
    | some last =>
      obtain ⟨v, -, -, -, -, hshows⟩ := h
      exact hshows
  have hshows : d.Shows (fun _ => True) c.node
      (.element (d.look (.new tag)) ((last.map VNode.scenes).getD [])) :=
    .element trivial has hdata (fun n hn => hnewer n (heach.mem hn).1)
      (heach.mono fun _ _ => trivial)
  exact hshows.html

/-- The HTML of a new container into which a tree is rendered. -/
def freshHtml (clock : Clock) (tag : String) (tree : Option VNode) : Except RenderError String :=
  (renderFresh clock tag tree).map fun (n, d) => (d.tree n).html

/-- **The HTML of a fresh render** is that of the container's tag around what the tree shows. -/
theorem freshHtml_eq (clock : Clock) (tag : String) {tree : Option VNode}
    (hplain : ∀ v ∈ tree, v.Plain) :
    freshHtml clock tag tree = .ok (containerHtml tag tree) := by
  obtain ⟨c, d, hrender, hnode, has, hdata, hholds⟩ := renderFresh_runs clock tag hplain
  rw [freshHtml, hrender, ← hholds.html has hdata (by rw [hnode]; exact fun _ => id)]
  rfl

/-! ## A container of a stage -/

/-- The one tree of an option. -/
theorem VNode.Plain.of_some {v : VNode} (h : v.Plain) : ∀ v' ∈ some v, v'.Plain := by
  intro v' hv'
  rw [← Option.some.inj hv']
  exact h

namespace Stage

variable {τ : Type} {s s' : Stage τ} {c : ContainerId} {tag : String} {last : Option VNode}

/-- The container, which has the tag and nothing else, shows the tree. -/
structure Holds (c : ContainerId) (tag : String) (last : Option VNode) (s : Stage τ) : Prop where
  keeps : ∃ owner trees, s.Keeps owner trees ∧ trees c = last
  container : ∃ k, s.container? c = some k ∧
    (s.document.node k.node).data = .element (.new tag)

/-- A container shows what was rendered last. -/
theorem Holds.render {v : VNode} (h : s.Holds c tag last) (hplain : v.Plain) :
    ∃ s', s.render c (some v) = (.ok (), s') ∧ s'.Holds c tag (some v) := by
  obtain ⟨owner, trees, hkeeps, -⟩ := h.keeps
  obtain ⟨k, hk, hdata⟩ := h.container
  obtain ⟨s', owner', hrender, hkeeps', hnodes, -⟩ := hkeeps.render c hplain.of_some
  obtain ⟨k', hk', hnode⟩ := hnodes.kept hk
  refine ⟨s', hrender, ⟨owner', _, hkeeps', if_pos rfl⟩, k', hk', ?_⟩
  rw [hnode, hnodes.data hk, hdata]

/-- The clock, the record of operations, the events and the rest do not matter. -/
theorem Keeps.of_same {owner : NodeId → Option ContainerId} {trees : ContainerId → Option VNode}
    (h : s.Keeps owner trees) (nodes : s'.document.nodes = s.document.nodes)
    (listeners : s'.document.listeners = s.document.listeners)
    (containers : s'.containers = s.containers) : s'.Keeps owner trees := by
  have hcontainer (c : ContainerId) : s'.container? c = s.container? c := by
    rw [container?, containers, container?]
  have hwithin {S : NodeId → Prop} : Document.Within S (fun _ => False) s.document s'.document :=
    Document.within_of_same nodes listeners
  refine ⟨?has, ?free, ?apart, ?newer, ?owns, ?holds⟩
  case has =>
    intro c k hk
    rw [hcontainer c] at hk
    have has : s.document.Has k.node := h.has hk
    rwa [Document.Has, ← nodes] at has
  case free =>
    intro c k hk
    rw [hcontainer c] at hk
    exact h.free hk
  case apart =>
    intro c₁ c₂ k₁ k₂ hk₁ hk₂ heq
    rw [hcontainer c₁] at hk₁
    rw [hcontainer c₂] at hk₂
    exact h.apart hk₁ hk₂ heq
  case newer =>
    intro c k n hk hn
    rw [hcontainer c] at hk
    exact h.newer hk hn
  case owns => exact hwithin.owns h.owns
  case holds =>
    intro c k hk
    rw [hcontainer c] at hk
    refine (h.holds hk).within hwithin h.owns ?_ (h.has hk) id
    intro n hn _
    refine ⟨hn, ?_, id⟩
    rw [hn]
    exact Option.some_ne_none c

/-- What a container shows is in the nodes, the listeners and the container itself; events and
the rest of the stage do not matter. -/
theorem Holds.of_same (h : s.Holds c tag last) (nodes : s'.document.nodes = s.document.nodes)
    (listeners : s'.document.listeners = s.document.listeners)
    (containers : s'.containers = s.containers) : s'.Holds c tag last := by
  obtain ⟨owner, trees, hkeeps, hlast⟩ := h.keeps
  obtain ⟨k, hk, hdata⟩ := h.container
  refine ⟨⟨owner, trees, hkeeps.of_same nodes listeners containers, hlast⟩, k, ?_, ?_⟩
  · rw [container?, containers]
    exact hk
  · rw [Document.node, nodes]
    exact hdata

/-- **The HTML of a container** tells the tree that it shows. -/
theorem Holds.html (h : s.Holds c tag last) :
    ∃ k, s.container? c = some k ∧ (s.document.tree k.node).html = containerHtml tag last := by
  obtain ⟨owner, trees, hkeeps, rfl⟩ := h.keeps
  obtain ⟨k, hk, hdata⟩ := h.container
  refine ⟨k, hk, (hkeeps.holds hk).html (hkeeps.has hk) hdata ?_⟩
  intro n hn
  refine hkeeps.newer hk ?_
  rw [hn]
  exact Option.some_ne_none c

end Stage

/-! ## Names of handlers -/

/-- The prop with other names for handlers. -/
def PropValue.rename (f : CallbackId → CallbackId) : PropValue → PropValue
  | handler callback => handler (f callback)
  | handlers callbacks => handlers (callbacks.map f)
  | prop => prop

/-- The props with other names for handlers. -/
def Props.rename (f : CallbackId → CallbackId) (props : Props) : Props :=
  props.filterMap fun _ prop => some (prop.rename f)

/-- Renaming handlers keeps the keys. -/
theorem Props.get?_rename (f : CallbackId → CallbackId) (props : Props) (key : String) :
    (Props.rename f props).get? key = (props.get? key).map (PropValue.rename f) := by
  rw [Props.rename, KeyTable.get?_filterMap]
  cases props.get? key <;> rfl

/-- An open tag does not show handlers. -/
theorem Look.openTag_rename (f : CallbackId → CallbackId) (tag : String) (props : Props) :
    (Look.of tag (Props.rename f props)).openTag = (Look.of tag props).openTag := by
  have hclass : classOf ((Props.rename f props).get? "class") = classOf (props.get? "class") := by
    rw [Props.get?_rename]
    rcases props.get? "class" with _ | prop
    · rfl
    · cases prop <;> rfl
  have hattributes : (Props.rename f props).filterMap (attributeOf tag) =
      props.filterMap (attributeOf tag) := by
    refine KeyTable.ext_get? fun key => ?_
    rw [KeyTable.get?_filterMap, KeyTable.get?_filterMap, Props.get?_rename]
    rcases props.get? key with _ | prop
    · rfl
    · cases prop <;> rfl
  simp only [Look.openTag, Look.of, hclass, hattributes]

namespace VNode

mutual

/-- The tree with other names for handlers. -/
def rename (f : CallbackId → CallbackId) : VNode → VNode
  | mk kind props children el => mk kind (props.map (Props.rename f)) (renameIn f children) el

/-- The children with other names for handlers. -/
def renameIn (f : CallbackId → CallbackId) : Children → Children
  | .none => .none
  | .text content => .text content
  | .nodes nodes => .nodes (renameEach f nodes)

/-- Several trees with other names for handlers. -/
def renameEach (f : CallbackId → CallbackId) : List VNode → List VNode
  | [] => []
  | v :: rest => rename f v :: renameEach f rest

end

/-- A text that stands for children has no handlers. -/
theorem text?_renameIn (f : CallbackId → CallbackId) (children : Children) :
    (renameIn f children).text? = children.text? := by
  cases children <;> rfl

mutual

/-- Whether a tree is plain is no matter of handlers. -/
theorem Plain.rename (f : CallbackId → CallbackId) : ∀ {v : VNode}, v.Plain → (v.rename f).Plain
  | mk _ _ children _, ⟨hkind, htext, hchildren⟩ =>
    ⟨hkind, fun hk => (text?_renameIn f children).trans (htext hk), PlainIn.rename f hchildren⟩

/-- Renaming handlers leaves plain children plain. -/
theorem PlainIn.rename (f : CallbackId → CallbackId) : ∀ {children : Children},
    PlainIn children → PlainIn (renameIn f children)
  | .none, _ => trivial
  | .text _, _ => trivial
  | .nodes _, h => PlainEach.rename f h

/-- Renaming handlers leaves several plain trees plain. -/
theorem PlainEach.rename (f : CallbackId → CallbackId) : ∀ {nodes : List VNode},
    PlainEach nodes → PlainEach (renameEach f nodes)
  | [], _ => trivial
  | _ :: _, ⟨hv, hrest⟩ => ⟨hv.rename f, PlainEach.rename f hrest⟩

end

mutual

/-- **The names of handlers do not show.** -/
theorem htmlOf_rename (f : CallbackId → CallbackId) : ∀ v : VNode,
    Scene.htmlOf (v.rename f).scenes = Scene.htmlOf v.scenes
  | mk (.element tag) props children _ => by
    have hprops :
        (props.map (Props.rename f)).getD .empty = Props.rename f (props.getD .empty) := by
      cases props <;> rfl
    have hchildren := htmlOf_renameIn f children
    simp only [rename, scenes, Scene.htmlOf, Scene.html, hprops, Look.openTag_rename, hchildren]
    rfl
  | mk .text _ children _ => by
    rw [rename, scenes, scenes, text?_renameIn]
  | mk .comment _ children _ => by
    rw [rename, scenes, scenes, text?_renameIn]
  | mk .fragment _ children _ => by
    rw [rename, scenes, scenes, htmlOf_renameIn f children]
  | mk (.component _) _ _ _ => rfl

/-- Children show the same HTML whatever their handlers are called. -/
theorem htmlOf_renameIn (f : CallbackId → CallbackId) : ∀ children : Children,
    Scene.htmlOf (scenesIn (renameIn f children)) = Scene.htmlOf (scenesIn children)
  | .none => rfl
  | .text _ => rfl
  | .nodes nodes => htmlOf_renameEach f nodes

/-- Several trees look the same when handlers are renamed. -/
theorem htmlOf_renameEach (f : CallbackId → CallbackId) : ∀ nodes : List VNode,
    Scene.htmlOf (scenesEach (renameEach f nodes)) = Scene.htmlOf (scenesEach nodes)
  | [] => rfl
  | v :: rest => by
    rw [renameEach, scenesEach, scenesEach, Scene.htmlOf_append, Scene.htmlOf_append,
      htmlOf_rename f v, htmlOf_renameEach f rest]

end

end VNode

/-- **The HTML of a container does not depend on the names of handlers.** -/
theorem containerHtml_rename (f : CallbackId → CallbackId) (tag : String) (v : VNode) :
    containerHtml tag (some (v.rename f)) = containerHtml tag (some v) := by
  simp only [containerHtml, Option.map_some, Option.getD_some, Scene.html, VNode.htmlOf_rename]

end View
end ReactiveView
