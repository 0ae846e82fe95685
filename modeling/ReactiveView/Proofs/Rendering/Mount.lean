/-
# Mounting and taking down

A tree that is mounted knows the nodes that it put into its container, its *roots*: one
for an element, a text or a comment, and those of its children for a fragment.  Mounting
adds roots that show what the tree describes and changes nothing else
(`VNode.mount_runs`).  Taking the tree down takes the roots out again
(`VNode.unmount_runs`).
-/

import ReactiveView.Proofs.Rendering.Dress
import ReactiveView.Proofs.Rendering.Place

namespace ReactiveView
namespace View

variable {d d' d'' : Document} {n p : NodeId} {S R : NodeId → Prop}

namespace VNode

mutual

/-- The nodes that a mounted tree has put into its container. -/
def roots : VNode → List NodeId
  | mk kind _ children el =>
    match kind with
    | .fragment => rootsIn children
    | _ => el.toList

/-- The nodes that mounted children have put into their container. -/
def rootsIn : Children → List NodeId
  | .none => []
  | .text _ => []
  | .nodes nodes => rootsEach nodes

/-- The nodes that several mounted trees have put into their container. -/
def rootsEach : List VNode → List NodeId
  | [] => []
  | v :: rest => roots v ++ rootsEach rest

end

mutual

/-- What stands for a node of its own knows that node. -/
def Mounted : VNode → Prop
  | mk kind _ children el =>
    match kind with
    | .fragment => MountedIn children
    | .component _ => False
    | _ => el.isSome = true

/-- The children are mounted. -/
def MountedIn : Children → Prop
  | .none => True
  | .text _ => True
  | .nodes nodes => MountedEach nodes

/-- Each tree is mounted. -/
def MountedEach : List VNode → Prop
  | [] => True
  | v :: rest => Mounted v ∧ MountedEach rest

end

/-! ## Taking down -/

/-- A node that is known is taken out of its parent. -/
theorem unmountNode_runs (kind : VKind) {el : Option NodeId} (h : el.isSome = true)
    (d : Document) : Runs (unmountNode kind el) d () (el.toList.foldl Document.takeOut d) := by
  obtain ⟨n, rfl⟩ := Option.isSome_iff_exists.1 h
  exact .change _ d

mutual

/-- **Taking a mounted tree down takes its roots out.** -/
theorem unmount_runs : ∀ (v : VNode), v.Mounted → ∀ d,
    Runs v.unmount d () (v.roots.foldl Document.takeOut d)
  | mk .fragment _ .none _, _, d => .pure () d
  | mk .fragment _ (.text _) _, _, d => .pure () d
  | mk .fragment _ (.nodes nodes) _, h, d => unmountEach_runs nodes h d
  | mk (.component _) _ _ _, h, _ => h.elim
  | mk (.element tag) _ _ _, h, d => unmountNode_runs (.element tag) h d
  | mk .text _ _ _, h, d => unmountNode_runs .text h d
  | mk .comment _ _ _, h, d => unmountNode_runs .comment h d

/-- Several trees are taken down root by root. -/
theorem unmountEach_runs : ∀ (nodes : List VNode), MountedEach nodes → ∀ d,
    Runs (unmountEach nodes) d () ((rootsEach nodes).foldl Document.takeOut d)
  | [], _, d => .pure () d
  | v :: rest, ⟨hv, hrest⟩, d => by
    rw [rootsEach, List.foldl_append]
    exact (unmount_runs v hv d).bind (unmountEach_runs rest hrest _)

end

/-! ## Descriptions -/

/-- A clone of children is the same text. -/
theorem text?_of_clone {children children' : Children}
    (h : cloneChildren children' = cloneChildren children) : children'.text? = children.text? := by
  cases children <;> cases children' <;> simp_all [cloneChildren, Children.text?]

mutual

/-- Scenes depend on the description alone. -/
theorem scenes_clone : ∀ v : VNode, v.clone.scenes = v.scenes
  | mk (.element _) _ children _ => by
    rw [clone, scenes, scenes, scenesIn_clone children]
  | mk .text _ children _ => by
    cases children <;> rfl
  | mk .comment _ children _ => by
    cases children <;> rfl
  | mk .fragment _ children _ => scenesIn_clone children
  | mk (.component _) _ _ _ => rfl

/-- Clones of children describe the same scenes. -/
theorem scenesIn_clone : ∀ children : Children,
    scenesIn (cloneChildren children) = scenesIn children
  | .none => rfl
  | .text _ => rfl
  | .nodes nodes => scenesEach_clone nodes

/-- Clones of several trees describe the same scenes. -/
theorem scenesEach_clone : ∀ nodes : List VNode,
    scenesEach (cloneEach nodes) = scenesEach nodes
  | [] => rfl
  | v :: rest => by
    rw [cloneEach, scenesEach, scenesEach, scenes_clone v, scenesEach_clone rest]

end

/-- Trees with the same clone describe the same scenes. -/
theorem scenes_of_clone {v v' : VNode} (h : v'.clone = v.clone) : v'.scenes = v.scenes := by
  rw [← scenes_clone v', h, scenes_clone]

end VNode

/-! ## Mounting -/

namespace Document

/-- The children of the node are those that the mounted children stand for. -/
def Filled (d : Document) (n : NodeId) : Children → Prop
  | .none => d.children n = []
  | .text _ => True
  | .nodes nodes => VNode.MountedEach nodes ∧ d.children n = VNode.rootsEach nodes ∧
      ∀ c ∈ VNode.rootsEach nodes, d.parent c = some n

/-- Whether a node is filled is seen at its children and at their parent links. -/
theorem Filled.congr {children : Children} (h : d.Filled n children)
    (hchildren : d'.children n = d.children n)
    (hparent : ∀ c ∈ d.children n, d'.parent c = d.parent c) : d'.Filled n children := by
  cases children with
  | none => exact hchildren.trans h
  | text content => trivial
  | nodes nodes =>
    obtain ⟨hmounted, hroots, hparents⟩ := h
    refine ⟨hmounted, hchildren.trans hroots, ?_⟩
    intro c hc
    rw [hparent c (hroots ▸ hc)]
    exact hparents c hc

/-- Insertion leaves alone what a node is filled with. -/
theorem Filled.insert {children : Children} (hn : d.Has n) (hp : d.Has p) (hne : n ≠ p)
    (hparent : d.parent n = none) (hkids : ∀ c ∈ d.children n, c ≠ n ∧ c ≠ p)
    (h : d.Filled n children) : (d.insert n p none).Filled n children := by
  have hnode := node_insert hn hp hne hparent
  refine h.congr ?_ ?_
  · rw [Document.children, hnode, if_pos rfl, Document.children]
  · intro c hc
    obtain ⟨hcn, hcp⟩ := hkids c hc
    rw [parent, hnode, if_neg hcn, if_neg hcp, parent]

/-- A new element was not there before, is empty, and binds nothing. -/
theorem createElement_spec (S : NodeId → Prop) (d : Document) (tag : String) :
    ¬ d.Has (d.createElement tag).1 ∧ (d.createElement tag).2.Has (d.createElement tag).1 ∧
      (d.createElement tag).2.node (d.createElement tag).1 = ⟨.element (.new tag), none, []⟩ ∧
      Within S (fun m => ¬ d.Has m) d (d.createElement tag).2 := by
  refine ⟨not_has_create (d.record _) _, (has_create (d.record _) _).2 (.inl rfl), ?_, ?_⟩
  · rw [createElement, node_create, if_pos rfl]
  · refine (within_record _).trans (within_create ?_)
    intro e he key
    obtain rfl := DomData.element.inj he
    rfl

/-- A new node goes on showing its scene when it is inserted. -/
theorem Shows.insert {A : NodeId → Prop} {s : Scene} (has : d.Has p) (hp : ¬ A p)
    (hA : ∀ m, A m → S m) (howns : d.Owns S) (hparent : d.parent n = none)
    (hshows : d.Shows A n s) : (d.insert n p none).Shows A n s := by
  have hne : n ≠ p := fun h => hp (h ▸ hshows.mem)
  have hinsert : Within S (fun m => m = n ∨ m = p) d (d.insert n p none) :=
    within_insert (.inl rfl) (.inr rfl) hparent
  have hself : (d.insert n p none).node n = { d.node n with parent := some p } := by
    rw [node_insert hshows.has has hne hparent, if_pos rfl]
  cases hshows with
  | text mem has' data => exact .text mem (hinsert.has n has') (by rw [hself, data])
  | comment mem has' data => exact .comment mem (hinsert.has n has') (by rw [hself, data])
  | element mem has' data newer each =>
    have hchildren : (d.insert n p none).children n = d.children n := by
      rw [children, hself, children]
    have hlook (e : Element) : (d.insert n p none).look e = d.look e := by
      refine look_congr ?_
      intro key l hl
      rw [listener, listeners_insert hparent, listener]
    rw [← hlook]
    refine .element mem (hinsert.has n has') (by rw [hself, data]) ?_ ?_
    · rw [hchildren]
      exact newer
    · rw [hchildren]
      refine ShowsEach.within hinsert howns ?_ (each.above newer)
      rintro m ⟨hm, hlt⟩ -
      refine ⟨hm, hA m hm, ?_⟩
      rintro (rfl | rfl)
      · exact Nat.lt_irrefl _ hlt
      · exact hp hm

/-- A new node that shows a scene is added by its insertion. -/
theorem adds_insert {s : Scene} (has : d.Has p) (hS : ∀ m, ¬ d.Has m → S m) (howns : d.Owns S)
    (hwithin : Within S (fun m => ¬ d.Has m) d d') (hparent : d'.parent n = none)
    (hshows : d'.Shows (fun m => ¬ d.Has m) n s) :
    Adds S p [s] [n] d (d'.insert n p none) := by
  have hn : d'.Has n := hshows.has
  have hp : d'.Has p := hwithin.has p has
  have hne : n ≠ p := fun h => hshows.mem (h ▸ has)
  have hnode := node_insert hn hp hne hparent
  have hinsert : Within S (fun m => m = n ∨ m = p) d' (d'.insert n p none) :=
    within_insert (.inl rfl) (.inr rfl) hparent
  have hself : (d'.insert n p none).node n = { d'.node n with parent := some p } := by
    rw [hnode, if_pos rfl]
  refine ⟨?_, ?_, .cons ?_ .nil, ?_, ?_⟩
  · refine (hwithin.mono fun m => .inr).trans (hinsert.mono ?_)
    intro m hm
    rcases hm with rfl | rfl
    · exact .inr hshows.mem
    · exact .inl rfl
  · have hsame : d'.node p = d.node p := hwithin.node p has fun hnot => hnot has
    rw [hnode, if_neg hne.symm, if_pos rfl, children, hsame]
    rfl
  · exact hshows.insert hp (fun hnot => hnot has) hS (hwithin.owns howns) hparent
  · intro c hc
    obtain rfl := List.mem_singleton.1 hc
    rw [parent, hself]
  · intro _ hSp key l hbinds
    rw [← hwithin.listener howns p key l hSp (fun hnot => hnot has) has hbinds, listener,
      listeners_insert hparent, listener]

end Document

namespace VNode

open Document (Adds Redresses Within)

/-- Mounting `v` at the end of `p` gave the mounted tree `v'`. -/
structure Mounts (S : NodeId → Prop) (p : NodeId) (v : VNode) (d : Document) (v' : VNode)
    (d' : Document) : Prop where
  clone : v'.clone = v.clone
  mounted : v'.Mounted
  adds : Adds S p v.scenes v'.roots d d'
  filled : ∀ tag n, v'.kind = .element tag → v'.el = some n → d'.Filled n v'.children

/-- Some work fills a new node with what the children describe. -/
def Fills (S : NodeId → Prop) (n : NodeId) (children : Children) (fill : Work Children)
    (d : Document) : Prop :=
  ∃ children' roots d', Runs fill d children' d' ∧
    cloneChildren children' = cloneChildren children ∧
      Adds S n (scenesIn children) roots d d' ∧ d'.Filled n children'

/-- A new text or comment, put at the end of `p` at once. -/
theorem adds_leaf {data : DomData} {s : Scene} (op : HostOp) (hdata : ∀ e, data ≠ .element e)
    (hshows : ∀ (d : Document) (A : NodeId → Prop) n, A n → d.Has n → (d.node n).data = data →
      d.Shows A n s)
    (has : d.Has p) (hS : ∀ m, ¬ d.Has m → S m) (howns : d.Owns S) :
    Adds S p [s] [((d.record op).create data).1] d
      (((d.record op).create data).2.insert ((d.record op).create data).1 p none) := by
  have hcreate : Within S (fun m => ¬ d.Has m) d ((d.record op).create data).2 :=
    (Document.within_record op).trans
      (Document.within_create fun e he => absurd he (hdata e))
  have hnode : ((d.record op).create data).2.node ((d.record op).create data).1 =
      ⟨data, none, []⟩ := by
    rw [Document.node_create, if_pos rfl]
  refine Document.adds_insert has hS howns hcreate ?_ (hshows _ _ _ ?_ ?_ ?_)
  · rw [Document.parent, hnode]
  · exact Document.not_has_create (d.record op) data
  · exact (Document.has_create (d.record op) data).2 (.inl rfl)
  · rw [hnode]

/-- Mounting an element whose children some work fills in. -/
def mountWith (p : NodeId) (tag : String) (props : Option Props) (fill : NodeId → Work Children) :
    Work VNode := do
  let el ← Work.create (·.createElement tag)
  let children ← fill el
  (props.getD .empty).entries.forM fun (key, value) =>
    Work.change (·.patchProp el key (some value))
  Work.change (·.insert el p none)
  pure (mk (.element tag) props children (some el))

/-- **An element is filled, dressed and inserted.** -/
theorem mountWith_runs (tag : String) (props : Option Props) {children : Children}
    {fill : NodeId → Work Children} (has : d.Has p) (hS : ∀ m, ¬ d.Has m → S m)
    (howns : d.Owns S)
    (hfill : ∀ n d, d.Has n → d.children n = [] → (∀ m, ¬ d.Has m → S m) → d.Owns S →
      Fills S n children (fill n) d) :
    ∃ v' d', Runs (mountWith p tag props fill) d v' d' ∧
      Mounts S p (mk (.element tag) props children none) d v' d' := by
  obtain ⟨hnew, hself, hnode, hcreate⟩ := Document.createElement_spec S d tag
  have hruns := Runs.create (·.createElement tag) d
  generalize (d.createElement tag).1 = n at hnew hself hnode hruns
  generalize (d.createElement tag).2 = d₁ at hself hnode hcreate hruns
  have hfresh (m : NodeId) (hm : ¬ d₁.Has m) : ¬ d.Has m := fun h => hm (hcreate.has m h)
  have howns₁ := hcreate.owns howns
  -- the children
  have hempty : d₁.children n = [] := by rw [Document.children, hnode]
  obtain ⟨children', roots, d₂, hrunsFill, hclone, hadds, hfilled⟩ := hfill n d₁ hself hempty
    (fun m hm => hS m (hfresh m hm)) howns₁
  have howns₂ := hadds.within.owns howns₁
  have hself₂ := hadds.within.has n hself
  have hroots (c : NodeId) (hc : c ∈ roots) : ¬ d₁.Has c ∧ d₂.Has c := hadds.shows.mem hc
  have hne (c : NodeId) (hc : ¬ d₁.Has c) : c ≠ n := fun h => hc (h ▸ hself)
  -- the props
  have hdressed : d₂.Dressed n tag fun _ => none :=
    ⟨.new tag, by rw [hadds.node, hnode], rfl, Document.wears_new d₂ tag⟩
  obtain ⟨d₃, hrunsProps, hredresses, e, hdata, htag, hwears⟩ :=
    Document.mountProps_runs (props.getD .empty) (hS n hnew) howns₂ hdressed
  have hself₃ := hredresses.within.has n hself₂
  have hparent : d₃.parent n = none := by
    rw [hredresses.parent, Document.parent, hadds.node, hnode]
  have hchildren : d₃.children n = roots := by
    rw [hredresses.children, Document.children, hadds.node, hempty, List.nil_append]
  have hwithin : Within S (fun m => ¬ d.Has m) d d₃ := by
    refine (hcreate.trans (hadds.within.mono ?_)).trans (hredresses.within.mono ?_)
    · rintro m (rfl | hm)
      · exact hnew
      · exact hfresh m hm
    · rintro m rfl
      exact hnew
  have hshows : d₃.Shows (fun m => ¬ d.Has m) n
      (.element (.of tag (props.getD .empty)) (scenesIn children)) := by
    rw [← htag]
    refine .of_wears hnew hself₃ hdata hwears hchildren ?_ ?_
    · intro c hc
      exact hself.lt_of_not_has (hroots c hc).1
    · refine hadds.shows.within hredresses.within howns₂ ?_
      intro m hm _
      exact ⟨hfresh m hm, hS m (hfresh m hm), hne m hm⟩
  -- the insertion
  have hfilled₃ : d₃.Filled n children' := by
    refine hfilled.congr hredresses.children ?_
    intro c hc
    rw [← hredresses.children, hchildren] at hc
    obtain ⟨hc₁, hc₂⟩ := hroots c hc
    rw [Document.parent, hredresses.within.node c hc₂ (hne c hc₁), Document.parent]
  refine ⟨mk (.element tag) props children' (some n), d₃.insert n p none, ?_, ?_, rfl, ?_, ?_⟩
  · exact hruns.bind (hrunsFill.bind (hrunsProps.bind ((Runs.change _ d₃).bind (.pure _ _))))
  · rw [clone, clone, hclone]
  · exact Document.adds_insert has hS howns hwithin hparent hshows
  · rintro tag' m - hm
    obtain rfl := Option.some.inj hm
    refine hfilled₃.insert hself₃ (hwithin.has p has) (fun h => hnew (h ▸ has)) hparent ?_
    intro c hc
    rw [hchildren] at hc
    obtain ⟨hc₁, -⟩ := hroots c hc
    exact ⟨hne c hc₁, fun h => hfresh c hc₁ (h ▸ has)⟩

/-- The work that fills a new element with children. -/
def fill (children : Children) (n : NodeId) : Work Children :=
  match children with
  | .none => pure .none
  | .text content => do
    Work.change (·.setElementText n content)
    pure (.text content)
  | .nodes nodes => .nodes <$> mountEach n nodes

/-- An element is mounted from the inside out: it is made, filled, dressed, and put in. -/
theorem mount_element (p : NodeId) (tag : String) (props : Option Props) (children : Children)
    (el : Option NodeId) :
    mount p (mk (.element tag) props children el) = mountWith p tag props (fill children) := by
  rw [mount]
  cases children <;> rfl

mutual

/-- **Mounting a tree adds the nodes that show it**, and changes nothing else. -/
theorem mount_runs : ∀ (v : VNode) (p : NodeId) (d : Document), v.Plain → d.Has p →
    (∀ m, ¬ d.Has m → S m) → d.Owns S → ∃ v' d', Runs (mount p v) d v' d' ∧ Mounts S p v d v' d'
  | mk (.element tag) props children el, p, d, h, has, hS, howns => by
    obtain ⟨v', d', hruns, hmounts⟩ := mountWith_runs tag props has hS howns
      fun n d hn hempty hS howns => fill_runs children n d h.2.2 hn hempty hS howns
    refine ⟨v', d', ?_, hmounts.clone, hmounts.mounted, hmounts.adds, hmounts.filled⟩
    rw [mount_element]
    exact hruns
  | mk .text props children el, p, d, h, has, hS, howns => by
    refine ⟨_, _, (Runs.create _ d).bind ((Runs.change _ _).bind (.pure _ _)), rfl, rfl, ?_,
      fun _ _ hkind => absurd hkind (by simp [kind])⟩
    exact adds_leaf _ (by simp) (fun _ _ _ hm hn hdata => .text hm hn hdata) has hS howns
  | mk .comment props children el, p, d, h, has, hS, howns => by
    refine ⟨_, _, (Runs.create _ d).bind ((Runs.change _ _).bind (.pure _ _)), rfl, rfl, ?_,
      fun _ _ hkind => absurd hkind (by simp [kind])⟩
    exact adds_leaf _ (by simp) (fun _ _ _ hm hn hdata => .comment hm hn hdata) has hS howns
  | mk .fragment props .none el, p, d, h, has, hS, howns =>
    ⟨mk .fragment props .none none, d, .pure _ d, rfl, trivial, .refl ..,
      fun _ _ hkind => absurd hkind (by simp [kind])⟩
  | mk .fragment props (.text content) el, p, d, h, has, hS, howns =>
    absurd (h.2.1 rfl) (by simp [Children.text?])
  | mk .fragment props (.nodes nodes) el, p, d, h, has, hS, howns => by
    obtain ⟨nodes', d', hruns, hclone, hmounted, hadds⟩ :=
      mountEach_runs nodes p d h.2.2 has hS howns
    refine ⟨mk .fragment props (.nodes nodes') none, d',
      (hruns.map Children.nodes).bind (.pure _ _), ?_, hmounted, hadds,
      fun _ _ hkind => absurd hkind (by simp [kind])⟩
    rw [clone, clone, cloneChildren, cloneChildren, hclone]
  | mk (.component name) props children el, p, d, h, has, hS, howns =>
    absurd h.1 (by simp [VKind.isComponent])

/-- Mounting several trees adds the nodes that show them, in order. -/
theorem mountEach_runs : ∀ (nodes : List VNode) (p : NodeId) (d : Document), PlainEach nodes →
    d.Has p → (∀ m, ¬ d.Has m → S m) → d.Owns S → ∃ nodes' d',
      Runs (mountEach p nodes) d nodes' d' ∧ cloneEach nodes' = cloneEach nodes ∧
        MountedEach nodes' ∧ Adds S p (scenesEach nodes) (rootsEach nodes') d d'
  | [], p, d, _, _, _, _ => ⟨[], d, .pure _ d, rfl, trivial, .refl ..⟩
  | v :: rest, p, d, ⟨hv, hrest⟩, has, hS, howns => by
    obtain ⟨v', d₁, hruns, hmounts⟩ := mount_runs v p d hv has hS howns
    have hwithin := hmounts.adds.within
    obtain ⟨rest', d', hruns', hclone, hmounted, hadds⟩ := mountEach_runs rest p d₁ hrest
      (hwithin.has p has) (fun m hm => hS m fun h => hm (hwithin.has m h)) (hwithin.owns howns)
    refine ⟨v' :: rest', d', hruns.bind (hruns'.bind (.pure _ _)), ?_, ⟨hmounts.mounted, hmounted⟩,
      hmounts.adds.trans has hS howns hadds⟩
    rw [cloneEach, cloneEach, hmounts.clone, hclone]

/-- A new element is filled with what its children describe. -/
theorem fill_runs : ∀ (children : Children) (n : NodeId) (d : Document), PlainIn children →
    d.Has n → d.children n = [] → (∀ m, ¬ d.Has m → S m) → d.Owns S →
      Fills S n children (fill children n) d
  | .none, n, d, _, _, hempty, _, _ => ⟨.none, [], d, .pure _ d, rfl, .refl .., hempty⟩
  | .text content, n, d, _, hn, hempty, hS, howns => by
    obtain ⟨d₁, roots, hclears, hadds⟩ := Document.setElementText_spec (S := S) hn
      (by rw [hempty]; exact List.not_mem_nil) content
    exact ⟨.text content, roots, _, (Runs.change _ d).bind (.pure _ _), rfl,
      (hclears.adds hadds).adds hempty, trivial⟩
  | .nodes nodes, n, d, h, hn, hempty, hS, howns => by
    obtain ⟨nodes', d', hruns, hclone, hmounted, hadds⟩ := mountEach_runs nodes n d h hn hS howns
    have hchildren : d'.children n = rootsEach nodes' := by
      rw [Document.children, hadds.node, hempty, List.nil_append]
    refine ⟨.nodes nodes', _, d', hruns.map Children.nodes, ?_, hadds, hmounted, hchildren,
      hadds.parents⟩
    rw [cloneChildren, cloneChildren, hclone]

end

end VNode
end View
end ReactiveView
