/-
# Patching

Patching puts a tree in place of a mounted one.  Whatever the two are, the container
then shows what the new tree describes (`VNode.patch_runs`).  The old tree matters only
in so far as the document shows it: its roots are the children of the container, and the
children of a root element are the roots of its children (`Document.Placed`).  Deeper
nodes are never looked at again, since lists of children are taken down and mounted
anew.
-/

import ReactiveView.Proofs.Rendering.Mount

namespace ReactiveView
namespace View

variable {d d' d'' : Document} {n p : NodeId} {S A : NodeId → Prop} {old : VNode}

namespace VNode

open Document (Adds Clears Filled Redresses Replaces Within)

/-! ## Children -/

/-- Some work replaces the children of the node by what `children` describe. -/
def Refills (S : NodeId → Prop) (n : NodeId) (children : Children) (work : Work Children)
    (d : Document) : Prop :=
  ∃ children' roots d', Runs work d children' d' ∧
    cloneChildren children' = cloneChildren children ∧
      Replaces S n (scenesIn children) roots d d' ∧ d'.Filled n children'

/-- Old children that are nodes leave. -/
theorem unmountEach_clears {nodes : List VNode} (has : d.Has n) (hold : d.Filled n (.nodes nodes))
    (hself : n ∉ d.children n) :
    ∃ d', Runs (unmountEach nodes) d () d' ∧ Clears S n d d' := by
  obtain ⟨hmounted, hroots, hparents⟩ := hold
  exact ⟨_, unmountEach_runs nodes hmounted d,
    Document.clears_takeOut has (hroots ▸ hself) hroots hparents⟩

/-- A text takes the place of any children. -/
theorem patchChildren_text {old : Children} (content : String) (has : d.Has n)
    (hold : d.Filled n old) (hself : n ∉ d.children n) :
    Refills S n (.text content) (patchChildren n old (.text content)) d := by
  have hset : ∃ roots, Replaces S n (scenesIn (.text content)) roots d
      (d.setElementText n content) := by
    obtain ⟨d₁, roots, hclears, hadds⟩ := Document.setElementText_spec (S := S) has hself content
    exact ⟨roots, hclears.adds hadds⟩
  cases old with
  | none | text =>
    obtain ⟨roots, hreplaces⟩ := hset
    exact ⟨.text content, roots, _, (Runs.change _ d).bind (.pure _ _), rfl, hreplaces, trivial⟩
  | nodes nodes =>
    obtain ⟨d₁, hruns, hclears⟩ := unmountEach_clears (S := S) has hold hself
    obtain ⟨d₂, roots, hclears', hadds⟩ := Document.setElementText_spec (S := S)
      ((hclears.has n).2 has) (by rw [hclears.empty]; exact List.not_mem_nil) content
    exact ⟨.text content, roots, _, hruns.bind ((Runs.change _ d₁).bind (.pure _ _)), rfl,
      (hclears.trans hclears').adds hadds, trivial⟩

/-- New nodes are mounted where nothing is left. -/
theorem mountEach_refills {nodes : List VNode} (hplain : PlainEach nodes) (has : d.Has n)
    (hS : ∀ m, ¬ d.Has m → S m) (howns : d.Owns S) (hclears : Clears S n d d') :
    ∃ children' roots d'', Runs (Children.nodes <$> mountEach n nodes) d' children' d'' ∧
      cloneChildren children' = cloneChildren (.nodes nodes) ∧
        Replaces S n (scenesEach nodes) roots d d'' ∧ d''.Filled n children' := by
  obtain ⟨nodes', d'', hruns, hclone, hmounted, hadds⟩ := mountEach_runs nodes n d' hplain
    ((hclears.has n).2 has) (fun m hm => hS m fun h => hm ((hclears.has m).2 h))
    (hclears.within.owns howns)
  have hreplaces := hclears.adds hadds
  refine ⟨.nodes nodes', _, d'', hruns.map _, ?_, hreplaces, hmounted, hreplaces.roots,
    hreplaces.parents⟩
  rw [cloneChildren, cloneChildren, hclone]

/-- Nodes take the place of any children. -/
theorem patchChildren_nodes {old : Children} {nodes : List VNode} (hplain : PlainEach nodes)
    (has : d.Has n) (hold : d.Filled n old) (hself : n ∉ d.children n)
    (hS : ∀ m, ¬ d.Has m → S m) (howns : d.Owns S) :
    Refills S n (.nodes nodes) (patchChildren n old (.nodes nodes)) d := by
  cases old with
  | none | text =>
    obtain ⟨children', roots, d', hruns, hresult⟩ := mountEach_refills hplain has hS howns
      (Document.clears_setElementText has hself)
    exact ⟨children', roots, d', (Runs.change _ d).bind hruns, hresult⟩
  | nodes old =>
    obtain ⟨d₁, hruns, hclears⟩ := unmountEach_clears (S := S) has hold hself
    obtain ⟨children', roots, d', hruns', hresult⟩ := mountEach_refills hplain has hS howns hclears
    exact ⟨children', roots, d', hruns.bind hruns', hresult⟩

/-- Nothing takes the place of any children. -/
theorem patchChildren_none {old : Children} (has : d.Has n) (hold : d.Filled n old)
    (hself : n ∉ d.children n) :
    Refills S n .none (patchChildren n old .none) d := by
  have hdone {d₁ : Document} (hclears : Clears S n d d₁) :
      Replaces S n (scenesIn .none) [] d d₁ ∧ d₁.Filled n .none :=
    ⟨hclears.adds (.refl S n d₁), hclears.empty⟩
  cases old with
  | none => exact ⟨.none, [], d, .pure _ d, rfl, hdone (.refl hold)⟩
  | text content =>
    exact ⟨.none, [], d.setElementText n "", (Runs.change _ d).bind (.pure _ _), rfl,
      hdone (Document.clears_setElementText has hself)⟩
  | nodes nodes =>
    obtain ⟨d₁, hruns, hclears⟩ := unmountEach_clears (S := S) has hold hself
    exact ⟨.none, [], d₁, hruns.bind (.pure _ _), rfl, hdone hclears⟩

/-- **Patching children replaces them** by what the new ones describe. -/
theorem patchChildren_runs {old new : Children} (hplain : PlainIn new) (has : d.Has n)
    (hold : d.Filled n old) (hself : n ∉ d.children n) (hS : ∀ m, ¬ d.Has m → S m)
    (howns : d.Owns S) : Refills S n new (patchChildren n old new) d := by
  cases new with
  | none => exact patchChildren_none has hold hself
  | text content => exact patchChildren_text content has hold hself
  | nodes nodes => exact patchChildren_nodes hplain has hold hself hS howns

end VNode

/-! ## Trees -/

namespace Document

/-- The tree is mounted in `p`: its roots are the children there, and those of a root
element are what its children stand for. -/
structure Placed (d : Document) (p : NodeId) (v : VNode) : Prop where
  mounted : v.Mounted
  roots : d.children p = v.roots
  parents : ∀ c ∈ v.roots, d.parent c = some p
  filled : ∀ tag n, v.kind = .element tag → v.el = some n → d.Filled n v.children

end Document

namespace VNode

open Document (Clears Placed Redresses Within)

/-- The tree is patched into one that describes what `new` does. -/
structure Patches (S A : NodeId → Prop) (p : NodeId) (new : VNode) (d : Document) (v' : VNode)
    (d' : Document) : Prop where
  clone : v'.clone = new.clone
  placed : d'.Placed p v'
  data : (d'.node p).data = (d.node p).data
  within : Within S (fun m => m = p ∨ A m ∨ ¬ d.Has m) d d'
  shows : d'.ShowsEach (fun m => A m ∨ ¬ d.Has m) (d'.children p) new.scenes

/-- A new tree where nothing is left. -/
theorem mount_patches {new : VNode} (hplain : new.Plain) (has : d.Has p)
    (hchildren : ∀ c ∈ d.children p, A c) (hS : ∀ m, ¬ d.Has m → S m) (howns : d.Owns S)
    (hclears : Clears S p d d') :
    ∃ v' d'', Runs (mount p new) d' v' d'' ∧ Patches S A p new d v' d'' := by
  obtain ⟨v', d'', hruns, hmounts⟩ := mount_runs new p d' hplain ((hclears.has p).2 has)
    (fun m hm => hS m fun h => hm ((hclears.has m).2 h)) (hclears.within.owns howns)
  have hreplaces := hclears.adds hmounts.adds
  refine ⟨v', d'', hruns, hmounts.clone, ⟨hmounts.mounted, hreplaces.roots, hreplaces.parents,
    hmounts.filled⟩, by rw [hreplaces.node],
    hreplaces.within.mono fun m hm => hm.imp_right (.imp_left (hchildren m)), ?_⟩
  rw [hreplaces.roots]
  exact hreplaces.shows.mono fun _ => .inr

/-- The one node of a tree stays where it is. -/
theorem patches_in_place {new v' : VNode} {s : Scene} (has : d.Has p) (hp : ¬ A p)
    (hchildren : d.children p = [n]) (hwithin : Within S (fun m => A m ∨ ¬ d.Has m) d d')
    (hparent : d'.parent n = some p) (hshows : d'.Shows (fun m => A m ∨ ¬ d.Has m) n s)
    (hscenes : new.scenes = [s]) (hclone : v'.clone = new.clone) (hmounted : v'.Mounted)
    (hroots : v'.roots = [n])
    (hfilled : ∀ tag m, v'.kind = .element tag → v'.el = some m → d'.Filled m v'.children) :
    Patches S A p new d v' d' := by
  have hnode : d'.node p = d.node p := hwithin.node p has fun h => h.elim hp fun h => h has
  have hkept : d'.children p = [n] := by
    rw [← hchildren, Document.children, hnode, Document.children]
  refine ⟨hclone, ⟨hmounted, hkept.trans hroots.symm, ?_, hfilled⟩, by rw [hnode],
    hwithin.mono fun m hm => .inr hm, ?_⟩
  · intro c hc
    rw [hroots, List.mem_singleton] at hc
    rw [hc, hparent]
  · rw [hkept, hscenes]
    exact .cons hshows .nil

/-- What patching needs: the old tree is mounted in `p`, and `p` shows it. -/
structure Stands (S A : NodeId → Prop) (p : NodeId) (old : VNode) (d : Document) : Prop where
  has : d.Has p
  outside : ¬ A p
  inside : ∀ m, A m → S m
  fresh : ∀ m, ¬ d.Has m → S m
  owns : d.Owns S
  placed : d.Placed p old
  shows : d.ShowsEach A (d.children p) old.scenes

/-- A tree with a node of its own is that node in its container. -/
theorem placed_single {kind : VKind} {props : Option Props} {children : Children}
    {el : Option NodeId} {s : Scene} (h : d.Placed p (mk kind props children el))
    (hshows : d.ShowsEach A (d.children p) (scenes (mk kind props children el)))
    (hkind : kind ≠ .fragment) (hscenes : scenes (mk kind props children el) = [s]) :
    ∃ n, el = some n ∧ d.children p = [n] ∧ d.parent n = some p ∧ d.Shows A n s := by
  have hmounted : el.isSome = true := by
    have h := h.mounted
    cases kind <;> first | exact h | exact h.elim | exact absurd rfl hkind
  obtain ⟨n, rfl⟩ := Option.isSome_iff_exists.1 hmounted
  have hroots : roots (mk kind props children (some n)) = [n] := by
    cases kind <;> first | rfl | exact absurd rfl hkind
  have hchildren := h.roots.trans hroots
  rw [hchildren, hscenes] at hshows
  cases hshows with
  | cons head tail =>
    exact ⟨n, rfl, hchildren, h.parents n (by rw [hroots]; exact List.mem_singleton_self n), head⟩

/-- The kinds of nodes that are their content. -/
inductive Leaf where
  | text
  | comment

namespace Leaf

/-- The kind of the virtual node. -/
def kind : Leaf → VKind
  | text => .text
  | comment => .comment

/-- The node of the document. -/
def data : Leaf → String → DomData
  | text => .text
  | comment => .comment

/-- What is to be seen. -/
def scene : Leaf → String → Scene
  | text => .text
  | comment => .comment

/-- The operation that changes the content. -/
def op : Leaf → String → HostOp
  | text => .setText
  | comment => .setComment

/-- Changes the content. -/
def set : Leaf → Document → NodeId → String → Document
  | text => Document.setText
  | comment => Document.setComment

/-- A leaf describes itself, with the text that it has. -/
theorem scenes_eq (leaf : Leaf) (props : Option Props) (children : Children)
    (el : Option NodeId) :
    VNode.scenes (mk leaf.kind props children el) = [leaf.scene (children.text?.getD "")] := by
  cases leaf <;> rfl

/-- A text or a comment is shown by a node that has just its data. -/
theorem shows_iff (leaf : Leaf) {content : String} :
    d.Shows A n (leaf.scene content) ↔
      A n ∧ d.Has n ∧ (d.node n).data = leaf.data content := by
  constructor
  · intro h
    refine ⟨h.mem, h.has, ?_⟩
    cases leaf with
    | text =>
      cases h with
      | text mem has data => exact data
    | comment =>
      cases h with
      | comment mem has data => exact data
  · rintro ⟨mem, has, hdata⟩
    cases leaf with
    | text => exact .text mem has hdata
    | comment => exact .comment mem has hdata

/-- The content changes, and nothing else. -/
theorem set_redresses (leaf : Leaf) {content : String} (has : d.Has n)
    (hdata : (d.node n).data = leaf.data content) (content' : String) :
    Redresses S n d (leaf.set d n content') ∧
      ((leaf.set d n content').node n).data = leaf.data content' := by
  have hset : leaf.set d n content' =
      (d.record (leaf.op content')).setData n (leaf.data content') := by
    cases leaf with
    | text =>
      replace hdata : (d.node n).data = .text content := hdata
      simp only [set, op, data, Document.setText, Document.node_record, hdata]
    | comment =>
      replace hdata : (d.node n).data = .comment content := hdata
      simp only [set, op, data, Document.setComment, Document.node_record, hdata]
  have hrecord := Document.redresses_record S n d (leaf.op content')
  have hbinds : ∀ key l e, leaf.data content' = .element e → e.listeners.get? key = some l →
      (d.record (leaf.op content')).Binds n key l := by
    intro key l e he
    cases leaf <;> exact absurd he (by simp [data])
  rw [hset]
  constructor
  · exact hrecord.trans (Document.redresses_setData (d := d.record _) has hbinds)
  · rw [Document.node_setData (d := d.record _) has]

/-- Nodes of one kind are changed if their contents differ. -/
theorem patch_eq (leaf : Leaf) (props props' : Option Props) (children children' : Children)
    (n : NodeId) (el' : Option NodeId) :
    patch p (some (mk leaf.kind props children (some n))) (mk leaf.kind props' children' el') =
      (do
        unless children.text?.getD "" = children'.text?.getD "" do
          Work.change (leaf.set · n (children'.text?.getD ""))
        pure (mk leaf.kind props' children' (some n))) := by
  cases leaf <;> rfl

end Leaf

/-- A text or a comment stays where it is. -/
theorem patch_leaf_runs (leaf : Leaf) {props props' : Option Props}
    {children children' : Children} {el el' : Option NodeId}
    (h : Stands S A p (mk leaf.kind props children el) d) :
    ∃ v' d', Runs (patch p (some (mk leaf.kind props children el))
        (mk leaf.kind props' children' el')) d v' d' ∧
      Patches S A p (mk leaf.kind props' children' el') d v' d' := by
  have hkind : leaf.kind ≠ .fragment := by cases leaf <;> simp [Leaf.kind]
  obtain ⟨n, rfl, hchildren, hparent, hshows⟩ :=
    placed_single h.placed h.shows hkind (leaf.scenes_eq props children el)
  obtain ⟨hn, has, hdata⟩ := leaf.shows_iff.1 hshows
  rw [leaf.patch_eq]
  -- whatever becomes of the content, the rest is as before
  have hdone {d' : Document} (hredresses : Redresses S n d d')
      (hdata' : (d'.node n).data = leaf.data (children'.text?.getD "")) :
      Patches S A p (mk leaf.kind props' children' el') d (mk leaf.kind props' children' (some n))
        d' := by
    have hwithin : Within S (fun m => A m ∨ ¬ d.Has m) d d' :=
      hredresses.within.mono fun m hm => .inl (hm ▸ hn)
    have hshows' : d'.Shows (fun m => A m ∨ ¬ d.Has m) n
        (leaf.scene (children'.text?.getD "")) :=
      leaf.shows_iff.2 ⟨.inl hn, hredresses.within.has n has, hdata'⟩
    refine patches_in_place h.has h.outside hchildren hwithin (hredresses.parent.trans hparent)
      hshows' (leaf.scenes_eq props' children' el') rfl ?_ ?_ ?_
    · cases leaf <;> rfl
    · cases leaf <;> rfl
    · intro tag m htag
      cases leaf <;> exact absurd htag (by simp [VNode.kind, Leaf.kind])
  by_cases hsame : children.text?.getD "" = children'.text?.getD ""
  · refine ⟨_, d, ?_, hdone (.refl ..) (hsame ▸ hdata)⟩
    rw [if_pos hsame]
    exact .pure _ d
  · obtain ⟨hredresses, hdata'⟩ := leaf.set_redresses (S := S) has hdata (children'.text?.getD "")
    refine ⟨_, _, ?_, hdone hredresses hdata'⟩
    rw [if_neg hsame]
    exact (Runs.change _ d).bind (.pure _ _)

/-- An element of the same tag gets the new props, then the new children. -/
theorem patch_element_runs {tag : String} {props props' : Option Props}
    {children children' : Children} {el el' : Option NodeId} (hplain : PlainIn children')
    (h : Stands S A p (mk (.element tag) props children el) d) :
    ∃ v' d', Runs (patch p (some (mk (.element tag) props children el))
        (mk (.element tag) props' children' el')) d v' d' ∧
      Patches S A p (mk (.element tag) props' children' el') d v' d' := by
  obtain ⟨n, rfl, hchildren, hparent, hshows⟩ := placed_single h.placed h.shows (by simp) rfl
  have hn := h.inside n hshows.mem
  obtain ⟨e, hdata, hlook, hnewer, heach⟩ := hshows.element_inv
  obtain rfl : e.tag = tag := congrArg Look.tag hlook
  have hne (c : NodeId) (hc : c ∈ d.children n) : c ≠ n := by
    rintro rfl
    exact Nat.lt_irrefl _ (hnewer c hc)
  -- the props
  obtain ⟨d₁, hrunsProps, hredresses, e₁, hdata₁, htag₁, hwears₁⟩ :=
    Document.patchProps_runs (S := S) (props.getD .empty) (props'.getD .empty) hn h.owns
      ⟨e, hdata, rfl, Document.wears_of_look_eq hlook⟩
  have howns₁ := hredresses.within.owns h.owns
  have hhas₁ := hredresses.within.has n hshows.has
  have hfresh (m : NodeId) (hm : ¬ d₁.Has m) : ¬ d.Has m := fun hd =>
    hm (hredresses.within.has m hd)
  have hfilled : d₁.Filled n children := by
    refine (h.placed.filled e.tag n rfl rfl).congr hredresses.children ?_
    intro c hc
    rw [Document.parent, hredresses.within.node c (heach.mem hc).2 (hne c hc), Document.parent]
  -- the children
  have hself₁ : n ∉ d₁.children n := by
    rw [hredresses.children]
    exact fun hmem => hne n hmem rfl
  obtain ⟨children₂, roots₂, d₂, hrunsChildren, hclone, hreplaces, hfilled₂⟩ :=
    patchChildren_runs hplain hhas₁ hfilled
      hself₁ (fun m hm => h.fresh m (hfresh m hm)) howns₁
  have hwithin : Within S (fun m => A m ∨ ¬ d.Has m) d d₂ := by
    refine (hredresses.within.mono fun m hm => .inl (hm ▸ hshows.mem)).trans
      (hreplaces.within.mono ?_)
    intro m hm
    rcases hm with rfl | hm | hm
    · exact .inl hshows.mem
    · rw [hredresses.children] at hm
      exact .inl (heach.mem hm).1
    · exact .inr (hfresh m hm)
  have hdata₂ : (d₂.node n).data = .element e₁ := by rw [hreplaces.node, hdata₁]
  have hwears₂ : d₂.Wears e₁ (props'.getD .empty).get? := by
    refine hwears₁.congr ?_
    intro key l hl
    exact hreplaces.listener howns₁ hn key l ⟨e₁, hdata₁, hl⟩
  have hshows₂ : d₂.Shows (fun m => A m ∨ ¬ d.Has m) n
      (.element (.of e.tag (props'.getD .empty)) (scenesIn children')) := by
    rw [← htag₁]
    refine .of_wears (.inl hshows.mem) (hreplaces.within.has n hhas₁) hdata₂ hwears₂ hreplaces.roots ?_
      ?_
    · intro c hc
      exact hhas₁.lt_of_not_has (hreplaces.shows.mem hc).1
    · exact hreplaces.shows.mono fun m hm => .inr (hfresh m hm)
  have hparent₂ : d₂.parent n = some p := by
    rw [Document.parent, hreplaces.node, ← hparent, ← hredresses.parent, Document.parent]
  refine ⟨mk (.element e.tag) props' children₂ (some n), d₂, ?_,
    patches_in_place h.has h.outside hchildren hwithin hparent₂ hshows₂ rfl ?_ rfl rfl ?_⟩
  · simp only [patch, kind, ne_eq, not_true_eq_false, if_false]
    exact (Runs.pure n d).bind (hrunsProps.bind (hrunsChildren.bind (.pure _ _)))
  · rw [clone, clone, hclone]
  · rintro tag' m - hm
    obtain rfl := Option.some.inj hm
    exact hfilled₂

/-- The container is none of its own children. -/
theorem Stands.not_mem (h : Stands S A p old d) : p ∉ d.children p := fun hp =>
  h.outside (h.shows.mem hp).1

/-- The children of a fragment are patched in its container. -/
theorem patch_fragment_runs {props props' : Option Props} {children children' : Children}
    {el el' : Option NodeId} (hplain : (mk .fragment props' children' el').Plain)
    (h : Stands S A p (mk .fragment props children el) d) :
    ∃ v' d', Runs (patch p (some (mk .fragment props children el))
        (mk .fragment props' children' el')) d v' d' ∧
      Patches S A p (mk .fragment props' children' el') d v' d' := by
  obtain ⟨-, htext, hplain⟩ := hplain
  have hfilled : d.Filled p children := by
    cases children with
    | none => exact h.placed.roots
    | text content => trivial
    | nodes nodes => exact ⟨h.placed.mounted, h.placed.roots, h.placed.parents⟩
  obtain ⟨children₂, roots₂, d₂, hruns, hclone, hreplaces, hfilled₂⟩ :=
    patchChildren_runs hplain h.has hfilled h.not_mem h.fresh h.owns
  have hroots : MountedIn children₂ ∧ d₂.children p = rootsIn children₂ := by
    cases children₂ with
    | none => exact ⟨trivial, hfilled₂⟩
    | text content =>
      rw [← text?_of_clone hclone] at htext
      exact absurd (htext rfl) (by simp [Children.text?])
    | nodes nodes => exact ⟨hfilled₂.1, hfilled₂.2.1⟩
  refine ⟨mk .fragment props' children₂ el', d₂, ?_, ?_,
    ⟨hroots.1, hroots.2, ?_, fun _ _ hkind => absurd hkind (by simp [kind])⟩,
    by rw [hreplaces.node], ?_, ?_⟩
  · simp only [patch, kind, ne_eq, not_true_eq_false, if_false]
    exact hruns.bind (.pure _ _)
  · rw [clone, clone, hclone]
  · intro c hc
    refine hreplaces.parents c ?_
    rw [← hreplaces.roots, hroots.2]
    exact hc
  · exact hreplaces.within.mono fun m hm => hm.imp_right (.imp_left fun hc => (h.shows.mem hc).1)
  · rw [hreplaces.roots]
    exact hreplaces.shows.mono fun _ => .inr

/-- A tree of another kind is taken down, and the new one is mounted. -/
theorem patch_other_runs {new : VNode} (hkind : old.kind ≠ new.kind) (hplain : new.Plain)
    (h : Stands S A p old d) :
    ∃ v' d', Runs (patch p (some old) new) d v' d' ∧ Patches S A p new d v' d' := by
  have hself := h.not_mem
  rw [h.placed.roots] at hself
  have hclears := Document.clears_takeOut (S := S) h.has hself h.placed.roots h.placed.parents
  obtain ⟨v', d', hruns, hpatches⟩ := mount_patches hplain h.has (fun c hc => (h.shows.mem hc).1)
    h.fresh h.owns hclears
  refine ⟨v', d', ?_, hpatches⟩
  simp only [patch, ne_eq, hkind, not_false_eq_true, if_true]
  exact (unmount_runs old h.placed.mounted d).bind hruns

/-- **Whatever the old tree and the new one are, after patching the container shows what
the new one describes**, and nothing else has changed. -/
theorem patch_runs {new : VNode} (hplain : new.Plain) (h : Stands S A p old d) :
    ∃ v' d', Runs (patch p (some old) new) d v' d' ∧ Patches S A p new d v' d' := by
  by_cases hkind : old.kind = new.kind
  · obtain ⟨kind, props, children, el⟩ := old
    obtain ⟨kind', props', children', el'⟩ := new
    obtain rfl : kind = kind' := hkind
    cases kind with
    | element tag => exact patch_element_runs hplain.2.2 h
    | text => exact patch_leaf_runs .text h
    | comment => exact patch_leaf_runs .comment h
    | fragment => exact patch_fragment_runs hplain h
    | component name => exact absurd hplain.1 (by simp [VKind.isComponent])
  · exact patch_other_runs hkind hplain h

end VNode
end View
end ReactiveView
