/-
# One render keeps tree and document mirrored

Mounting makes all hosts of a tree anew, each newer than those before it along the tree
(`VNode.mount_mirrors`).  Patching reuses one node at most, the outermost one, and only for
a virtual node that knows it; so a host that is older than a render is known to the tree
that was rendered (`VNode.patch_reflects`).  Of the old tree only the outermost nodes matter,
since lists of children are taken down and mounted anew.

Work has one outcome, so what is known of a mounted tree from before (`VNode.mount_runs`,
`VNode.patchChildren_runs`) is known of this one.
-/

import ReactiveView.Proofs.Rendering.Containers
import ReactiveView.Proofs.Rendering.Mirror

namespace ReactiveView
namespace View

variable {d d' d'' : Document} {n p : NodeId} {S A : NodeId → Prop}

/-! ## Props do not move nodes -/

namespace Document

/-- Nodes that are not there own nothing, so nothing twice. -/
theorem owns_new (d : Document) : d.Owns fun m => ¬ d.Has m :=
  fun _ _ _ hn hbinds => absurd hbinds.has hn

/-- A region without nodes owns no listeners. -/
theorem within_of_node {R : NodeId → Prop} (has : ∀ m, d.Has m → d'.Has m)
    (node : ∀ m, d.Has m → ¬ R m → d'.node m = d.node m) : Within (fun _ => False) R d d' where
  has := has
  node := node
  owns _ _ _ _ hn _ := hn.elim
  listener _ _ _ _ hn _ _ _ := hn.elim

/-- A change of the data of one node is one whatever is asked of the listeners. -/
theorem Redresses.unowned (h : Redresses S n d d') : Redresses (fun _ => False) n d d' :=
  ⟨within_of_node h.within.has h.within.node, h.parent, h.children⟩

/-- Changing a prop of a node moves no node. -/
theorem redresses_patchProp_unowned (d : Document) (n : NodeId) (key : String)
    (next : Option PropValue) : Redresses (fun _ => False) n d (d.patchProp n key next) :=
  (redresses_patchProp (S := fun _ => True) trivial d key next).unowned

/-- Many changes of the data of one node are one. -/
theorem redresses_forM {α : Type} {work : α → Work Unit} {list : List α}
    (hwork : ∀ a d d', Runs (work a) d () d' → Redresses S n d d')
    (hruns : Runs (list.forM work) d () d') : Redresses S n d d' := by
  induction list generalizing d with
  | nil =>
    obtain ⟨-, rfl⟩ := hruns.unique (.pure _ _)
    exact .refl ..
  | cons a rest ih =>
    obtain ⟨_, d₁, hruns, hrest⟩ :=
      (show Runs (do work a; rest.forM work) d () d' from hruns).of_bind
    exact (hwork a d d₁ hruns).trans (ih hrest)

/-! ## Texts that stand for children -/

/-- A new text in a node without children. -/
theorem hasText_create (has : d.Has n) (hempty : d.children n = []) {content : String}
    (hcontent : content.isEmpty = false) {c : NodeId} (hc : c = (d.create (.text content)).1)
    (hd' : d' = ((d.create (.text content)).2.setParent c (some n)).modifyChildren n fun children =>
      children ++ [c]) :
    d'.HasText n content ∧ d'.Rising (fun m => ¬ d.Has m) (d'.children n) := by
  have hnot : ¬ d.Has c := hc ▸ not_has_create d _
  have hne : n ≠ c := fun h => hnot (h ▸ has)
  have hhas (m : NodeId) : (d.create (.text content)).2.Has m ↔ m = c ∨ d.Has m := by
    rw [has_create, ← hc]
  have hchildren : d'.children n = [c] := by
    have hnone : (d.node n).children = [] := hempty
    simp [hd', modifyChildren, setParent, node_modifyNode, node_create, hhas, has, hne, hne.symm,
      ← hc, children, hnone]
  have hnode : d'.node c = ⟨.text content, some n, []⟩ := by
    simp [hd', modifyChildren, setParent, node_modifyNode, node_create, hhas, hne, ← hc]
  have hthere : d'.Has c := by simp [hd', modifyChildren, setParent, hhas]
  constructor
  · rw [HasText, hcontent]
    exact ⟨c, hchildren, hnode⟩
  · rw [hchildren]
    exact .cons hnot hthere (fun _ h => absurd h List.not_mem_nil) .nil

/-- After a text is set, it is what the node has for children, and it is new. -/
theorem setElementText_hasText (has : d.Has n) (hself : n ∉ d.children n) (content : String) :
    (d.setElementText n content).HasText n content ∧
      (d.setElementText n content).Rising (fun m => ¬ d.Has m)
        ((d.setElementText n content).children n) := by
  have hclears := clears_emptied (S := fun _ => False) has hself (.setElementText content)
  have hempty : (d.emptied n (.setElementText content)).children n = [] := by
    rw [children, hclears.node]
  cases hcontent : content.isEmpty with
  | true =>
    have heq : d.setElementText n content = d.emptied n (.setElementText content) := by
      simp only [setElementText, hcontent, if_true]
      rfl
    rw [heq, HasText, hcontent, hempty]
    exact ⟨rfl, .nil⟩
  | false =>
    have hnew : (d.setElementText n content).HasText n content ∧
        (d.setElementText n content).Rising
          (fun m => ¬ (d.emptied n (.setElementText content)).Has m)
          ((d.setElementText n content).children n) := by
      refine hasText_create ((hclears.has n).2 has) hempty hcontent rfl ?_
      simp only [setElementText, hcontent]
      rfl
    refine ⟨hnew.1, hnew.2.mono ?_ fun _ => id⟩
    intro m hm h
    exact hm ((hclears.has m).2 h)

/-- Nodes of a region that a change leaves out. -/
theorem Rising.same {R : NodeId → Prop} {ns : List NodeId} (h : d.Rising A ns)
    (hwithin : Within S R d d') (hA : ∀ m, A m → d.Has m → ¬ R m) :
    ∀ m ∈ ns, d'.node m = d.node m := by
  intro m hm
  obtain ⟨hmA, has⟩ := h.mem m hm
  exact hwithin.node m has (hA m hmA has)

end Document

namespace VNode

open Document (Adds Clears Filled Mirrored MirroredIn MirroredEach Placed Redresses Replaces Rising
  Within)

/-! ## Mounting -/

/-- Mounting has one outcome; what `mount_runs` says of some outcome, it says of this one. -/
theorem mount_mounts {v v' : VNode} (h : v.Plain) (has : d.Has p)
    (hruns : Runs (mount p v) d v' d') : Mounts (fun m => ¬ d.Has m) p v d v' d' := by
  obtain ⟨v₁, d₁, hruns₁, hmounts⟩ := mount_runs v p d h has (fun _ => id) d.owns_new
  obtain ⟨rfl, rfl⟩ := hruns.unique hruns₁
  exact hmounts

/-- Mounting several plain trees adds what they describe, in order. -/
theorem mountEach_adds {nodes nodes' : List VNode} (h : PlainEach nodes) (has : d.Has p)
    (hruns : Runs (mountEach p nodes) d nodes' d') :
    Adds (fun m => ¬ d.Has m) p (scenesEach nodes) (rootsEach nodes') d d' := by
  obtain ⟨nodes₁, d₁, hruns₁, -, -, hadds⟩ :=
    mountEach_runs nodes p d h has (fun _ => id) d.owns_new
  obtain ⟨rfl, rfl⟩ := hruns.unique hruns₁
  exact hadds

/-- Mounting plain children into an empty node adds what they describe. -/
theorem fill_adds {children children' : Children} (h : PlainIn children) (has : d.Has n)
    (hempty : d.children n = []) (hruns : Runs (fill children n) d children' d') :
    ∃ roots, Adds (fun m => ¬ d.Has m) n (scenesIn children) roots d d' := by
  obtain ⟨children₁, roots, d₁, hruns₁, -, hadds, -⟩ :=
    fill_runs children n d h has hempty (fun _ => id) d.owns_new
  obtain ⟨rfl, rfl⟩ := hruns.unique hruns₁
  exact ⟨roots, hadds⟩

/-- An element that was filled by new nodes is mirrored once it is inserted. -/
theorem mountWith_mirrors {tag : String} {props : Option Props} {children : Children}
    {v' : VNode} (h : PlainIn children) (has : d.Has p)
    (hruns : Runs (mountWith p tag props (fill children)) d v' d')
    (hfill : ∀ n d children' d', d.Has n → d.children n = [] →
      Runs (fill children n) d children' d' →
        d'.MirroredIn n children' ∧ d'.Rising (fun m => ¬ d.Has m) (hostsIn d' n children')) :
    d'.Mirrored p v' ∧ d'.Rising (fun m => ¬ d.Has m) (hosts d' v') := by
  obtain ⟨n, d₁, hcreate, hruns⟩ := hruns.of_bind
  obtain ⟨rfl, rfl⟩ := hcreate.unique (.create _ d)
  obtain ⟨hnew, hself, hnode, hwithin⟩ :=
    Document.createElement_spec (fun m => ¬ d.Has m) d tag
  generalize (d.createElement tag).1 = n at hnew hself hnode hruns
  generalize (d.createElement tag).2 = d₁ at hself hnode hwithin hruns
  have hfresh (m : NodeId) (hm : ¬ d₁.Has m) : ¬ d.Has m := fun h => hm (hwithin.has m h)
  have hempty : d₁.children n = [] := by rw [Document.children, hnode]
  -- the children
  obtain ⟨children', d₂, hruns₂, hruns⟩ := hruns.of_bind
  obtain ⟨hin, hrising⟩ := hfill n d₁ children' d₂ hself hempty hruns₂
  obtain ⟨roots, hadds⟩ := fill_adds h hself hempty hruns₂
  have hself₂ := hadds.within.has n hself
  -- the props
  obtain ⟨_, d₃, hruns₃, hruns⟩ := hruns.of_bind
  have hredresses : Redresses (fun _ => False) n d₂ d₃ := by
    refine Document.redresses_forM ?_ hruns₃
    rintro ⟨key, value⟩ d d' hruns
    obtain ⟨-, rfl⟩ := hruns.unique (.change _ d)
    exact Document.redresses_patchProp_unowned _ n key (some value)
  have hself₃ := hredresses.within.has n hself₂
  have hparent : d₃.parent n = none := by
    rw [hredresses.parent, Document.parent, hadds.node, hnode]
  -- the insertion
  obtain ⟨_, d₄, hinsert, hruns⟩ := hruns.of_bind
  obtain ⟨-, rfl⟩ := hinsert.unique (.change _ d₃)
  obtain ⟨rfl, rfl⟩ := hruns.unique (.pure _ _)
  have hp₃ : d₃.Has p :=
    hredresses.within.has p (hadds.within.has p (hwithin.has p has))
  have hne : n ≠ p := fun h => hnew (h ▸ has)
  have hnode₄ := Document.node_insert hself₃ hp₃ hne hparent
  have hsame : ∀ m ∈ hostsIn d₂ n children', (d₃.insert n p none).node m = d₂.node m := by
    intro m hm
    obtain ⟨hm₁, hm₂⟩ := hrising.mem m hm
    have hmn : m ≠ n := fun h => hm₁ (h ▸ hself)
    have hmp : m ≠ p := fun h => hfresh m hm₁ (h ▸ has)
    rw [hnode₄, if_neg hmn, if_neg hmp, hredresses.within.node m hm₂ hmn]
  have hchildren : (d₃.insert n p none).children n = d₂.children n := by
    rw [Document.children, hnode₄, if_pos rfl]
    exact hredresses.children
  obtain ⟨hin', hhosts⟩ := hin.congr hchildren hsame
  have hinsert : Within (fun _ => False) (fun m => m = n ∨ m = p) d₃ (d₃.insert n p none) :=
    Document.within_insert (.inl rfl) (.inr rfl) hparent
  refine ⟨⟨n, rfl, by rw [Document.parent, hnode₄, if_pos rfl], hin'⟩, ?_⟩
  rw [hosts, hhosts]
  refine .cons hnew (hinsert.has n hself₃) ?_ ?_
  · intro m hm
    exact hself.lt_of_not_has (hrising.mem m hm).1
  · exact hrising.mono hfresh fun m hm => hinsert.has m (hredresses.within.has m hm)

/-- A new text or comment is mirrored. -/
theorem mount_leaf_mirrors {data : DomData} (op : HostOp) (has : d.Has p) {n : NodeId}
    (hn : n = ((d.record op).create data).1)
    (hd' : d' = ((d.record op).create data).2.insert n p none) :
    (d'.parent n = some p ∧ d'.children n = []) ∧ d'.Rising (fun m => ¬ d.Has m) [n] := by
  have hnew : ¬ d.Has n := hn ▸ Document.not_has_create (d.record op) data
  have hself : ((d.record op).create data).2.Has n :=
    (Document.has_create (d.record op) data).2 (.inl hn)
  have hp : ((d.record op).create data).2.Has p :=
    (Document.has_create (d.record op) data).2 (.inr has)
  have hnode : ((d.record op).create data).2.node n = ⟨data, none, []⟩ := by
    rw [Document.node_create, if_pos hn]
  have hparent : ((d.record op).create data).2.parent n = none := by
    rw [Document.parent, hnode]
  have hnode' := Document.node_insert hself hp (fun h => hnew (h ▸ has)) hparent n
  rw [if_pos rfl, ← hd'] at hnode'
  have hinsert : Within (fun _ => False) (fun m => m = n ∨ m = p)
      ((d.record op).create data).2 d' := hd' ▸ Document.within_insert (.inl rfl) (.inr rfl) hparent
  refine ⟨⟨by rw [Document.parent, hnode'], by rw [Document.children, hnode', hnode]⟩, ?_⟩
  exact .cons hnew (hinsert.has n hself) (fun _ h => absurd h List.not_mem_nil) .nil

mutual

/-- **A mounted tree is mirrored by new nodes**, newer and newer along the tree. -/
theorem mount_mirrors : ∀ (v : VNode) (p : NodeId) (d : Document) (v' : VNode) (d' : Document),
    v.Plain → d.Has p → Runs (mount p v) d v' d' →
      d'.Mirrored p v' ∧ d'.Rising (fun m => ¬ d.Has m) (hosts d' v')
  | mk (.element tag) props children el, p, d, v', d', h, has, hruns => by
    rw [mount_element] at hruns
    exact mountWith_mirrors h.2.2 has hruns fun n d children' d' hn hempty hruns =>
      fill_mirrors children n d children' d' h.2.2 hn hempty hruns
  | mk .text props children el, p, d, v', d', h, has, hruns => by
    obtain ⟨n, d₁, hcreate, hruns⟩ := hruns.of_bind
    obtain ⟨rfl, rfl⟩ := hcreate.unique (.create _ d)
    obtain ⟨_, d₂, hinsert, hruns⟩ := hruns.of_bind
    obtain ⟨-, rfl⟩ := hinsert.unique (.change _ _)
    obtain ⟨rfl, rfl⟩ := hruns.unique (.pure _ _)
    obtain ⟨hleaf, hrising⟩ := mount_leaf_mirrors _ has rfl rfl
    exact ⟨⟨_, rfl, hleaf⟩, hrising⟩
  | mk .comment props children el, p, d, v', d', h, has, hruns => by
    obtain ⟨n, d₁, hcreate, hruns⟩ := hruns.of_bind
    obtain ⟨rfl, rfl⟩ := hcreate.unique (.create _ d)
    obtain ⟨_, d₂, hinsert, hruns⟩ := hruns.of_bind
    obtain ⟨-, rfl⟩ := hinsert.unique (.change _ _)
    obtain ⟨rfl, rfl⟩ := hruns.unique (.pure _ _)
    obtain ⟨hleaf, hrising⟩ := mount_leaf_mirrors _ has rfl rfl
    exact ⟨⟨_, rfl, hleaf⟩, hrising⟩
  | mk .fragment props .none el, p, d, v', d', _, _, hruns => by
    obtain ⟨rfl, rfl⟩ := hruns.unique (.pure _ d)
    exact ⟨trivial, .nil⟩
  | mk .fragment props (.text content) el, p, d, v', d', h, _, _ =>
    absurd (h.2.1 rfl) (by simp [Children.text?])
  | mk .fragment props (.nodes nodes) el, p, d, v', d', h, has, hruns => by
    obtain ⟨children', d₁, hmap, hruns⟩ := hruns.of_bind
    obtain ⟨rfl, rfl⟩ := hruns.unique (.pure _ _)
    obtain ⟨nodes', hmount, rfl⟩ := hmap.of_map
    exact mountEach_mirrors nodes p d nodes' d' h.2.2 has hmount
  | mk (.component name) props children el, p, d, v', d', h, _, _ =>
    absurd h.1 (by simp [VKind.isComponent])

/-- The hosts of several trees are made tree by tree, each newer than those before. -/
theorem mountEach_mirrors : ∀ (nodes : List VNode) (p : NodeId) (d : Document)
    (nodes' : List VNode) (d' : Document), PlainEach nodes → d.Has p →
      Runs (mountEach p nodes) d nodes' d' →
        d'.MirroredEach p nodes' ∧ d'.Rising (fun m => ¬ d.Has m) (hostsEach d' nodes')
  | [], p, d, nodes', d', _, _, hruns => by
    obtain ⟨rfl, rfl⟩ := hruns.unique (.pure _ d)
    exact ⟨trivial, .nil⟩
  | v :: rest, p, d, nodes', d', ⟨hv, hrest⟩, has, hruns => by
    obtain ⟨v', d₁, hruns₁, hruns⟩ := hruns.of_bind
    obtain ⟨rest', d₂, hruns₂, hruns⟩ := hruns.of_bind
    obtain ⟨rfl, rfl⟩ := hruns.unique (.pure _ _)
    have hwithin₁ := (mount_mounts hv has hruns₁).adds.within
    have has₁ := hwithin₁.has p has
    obtain ⟨hmirrored, hrising⟩ := mount_mirrors v p d v' d₁ hv has hruns₁
    obtain ⟨hmirrored', hrising'⟩ := mountEach_mirrors rest p d₁ rest' d' hrest has₁ hruns₂
    -- what was mounted first is not touched any more
    have hwithin₂ := (mountEach_adds hrest has₁ hruns₂).within
    have hsame := hrising.same hwithin₂ fun m hm hm₁ => by
      rintro (rfl | hnot)
      · exact hm has
      · exact hnot hm₁
    obtain ⟨hmirrored, hhosts⟩ := hmirrored.congr hsame
    refine ⟨⟨hmirrored, hmirrored'⟩, ?_⟩
    rw [hostsEach, hhosts]
    refine (hrising.mono (fun _ => id) hwithin₂.has).append
      (hrising'.mono (fun m hm h => hm (hwithin₁.has m h)) fun _ => id) ?_
    intro m hm m' hm'
    exact (hrising.mem m hm).2.lt_of_not_has (hrising'.mem m' hm').1

/-- What fills a new element mirrors its children. -/
theorem fill_mirrors : ∀ (children : Children) (n : NodeId) (d : Document) (children' : Children)
    (d' : Document), PlainIn children → d.Has n → d.children n = [] →
      Runs (fill children n) d children' d' →
        d'.MirroredIn n children' ∧ d'.Rising (fun m => ¬ d.Has m) (hostsIn d' n children')
  | .none, n, d, children', d', _, _, hempty, hruns => by
    obtain ⟨rfl, rfl⟩ := hruns.unique (.pure _ d)
    exact ⟨hempty, .nil⟩
  | .text content, n, d, children', d', _, has, hempty, hruns => by
    obtain ⟨_, d₁, hset, hruns⟩ := hruns.of_bind
    obtain ⟨-, rfl⟩ := hset.unique (.change _ d)
    obtain ⟨rfl, rfl⟩ := hruns.unique (.pure _ _)
    exact Document.setElementText_hasText has
      (by rw [hempty]; exact List.not_mem_nil) content
  | .nodes nodes, n, d, children', d', h, has, hempty, hruns => by
    obtain ⟨nodes', hmount, rfl⟩ := hruns.of_map
    have hadds := mountEach_adds h has hmount
    obtain ⟨heach, hrising⟩ := mountEach_mirrors nodes n d nodes' d' h has hmount
    refine ⟨⟨?_, heach⟩, hrising⟩
    rw [Document.children, hadds.node, hempty, List.nil_append]

end

/-! ## Patching -/

/-- Going over the props of an element changes its data alone. -/
theorem patchProps_redresses {old new : Props}
    (hruns : Runs (patchProps n old new) d () d') : Redresses (fun _ => False) n d d' := by
  have hpatch {skip : Bool} {key : String} {next : Option PropValue} {d d' : Document}
      (hruns : Runs (do unless skip do Work.change (·.patchProp n key next)) d () d') :
      Redresses (fun _ => False) n d d' := by
    cases skip with
    | true =>
      obtain ⟨-, rfl⟩ := hruns.unique (.pure () d)
      exact .refl ..
    | false =>
      obtain ⟨-, rfl⟩ := hruns.unique (.change _ d)
      exact Document.redresses_patchProp_unowned _ n key next
  obtain ⟨_, d₁, hnew, hold⟩ := hruns.of_bind
  exact (Document.redresses_forM (fun _ _ _ hruns => hpatch hruns) hnew).trans
    (Document.redresses_forM (fun _ _ _ hruns => hpatch hruns) hold)

/-- Before new children are put in, old nodes leave; what is there then is not the node
itself, and it is nothing where the old children were nodes. -/
theorem unmountEach_toList {old : Children} (has : d.Has n) (hold : d.Filled n old)
    (hself : n ∉ d.children n) :
    ∃ d₁, Runs (unmountEach old.toList) d () d₁ ∧ (∀ m, d₁.Has m ↔ d.Has m) ∧
      n ∉ d₁.children n ∧ (old.text? = none → d₁.children n = []) := by
  cases old with
  | none => exact ⟨d, .pure () d, fun _ => Iff.rfl, hself, fun _ => hold⟩
  | text content =>
    exact ⟨d, .pure () d, fun _ => Iff.rfl, hself, fun h => absurd h (by simp [Children.text?])⟩
  | nodes nodes =>
    obtain ⟨d₁, hruns, hclears⟩ := unmountEach_clears (S := fun _ => False) has hold hself
    exact ⟨d₁, hruns, hclears.has, by rw [hclears.empty]; exact List.not_mem_nil,
      fun _ => hclears.empty⟩

/-- **New children are mirrored by new nodes**, whatever was there before. -/
theorem patchChildren_mirrors {old new children' : Children} (hplain : PlainIn new)
    (has : d.Has n) (hold : d.Filled n old) (hself : n ∉ d.children n)
    (hruns : Runs (patchChildren n old new) d children' d') :
    d'.MirroredIn n children' ∧ d'.Rising (fun m => ¬ d.Has m) (hostsIn d' n children') := by
  obtain ⟨d₁, hunmount, hhas, hself₁, hempty₁⟩ :=
    unmountEach_toList has hold hself
  have has₁ := (hhas n).2 has
  have hclears := Document.clears_setElementText (S := fun _ => False) has₁ hself₁
  obtain ⟨_, d₂, hunmount', hruns⟩ := hruns.of_bind
  obtain ⟨-, rfl⟩ := hunmount.unique hunmount'
  -- what is new then was not there before
  have hdone {d₂ : Document} (hhas₂ : ∀ m, d₂.Has m ↔ d.Has m)
      (h : d'.MirroredIn n children' ∧
        d'.Rising (fun m => ¬ d₂.Has m) (hostsIn d' n children')) :
      d'.MirroredIn n children' ∧ d'.Rising (fun m => ¬ d.Has m) (hostsIn d' n children') := by
    refine ⟨h.1, h.2.mono ?_ fun _ => id⟩
    intro m hm hd
    exact hm ((hhas₂ m).2 hd)
  have hfill {d₂ : Document} (hhas₂ : ∀ m, d₂.Has m ↔ d.Has m) (hempty : d₂.children n = [])
      (hruns : Runs (fill new n) d₂ children' d') :=
    hdone hhas₂ (fill_mirrors new n d₂ children' d' hplain ((hhas₂ n).2 has) hempty hruns)
  have hhas₂ (m : NodeId) : (d₁.setElementText n "").Has m ↔ d.Has m :=
    (hclears.has m).trans (hhas m)
  have hempty₂ : (d₁.setElementText n "").children n = [] := hclears.empty
  cases new with
  | text content =>
    obtain ⟨_, d₂, hset, hruns⟩ := hruns.of_bind
    obtain ⟨-, rfl⟩ := hset.unique (.change _ d₁)
    obtain ⟨rfl, rfl⟩ := hruns.unique (.pure _ _)
    exact hdone hhas (Document.setElementText_hasText has₁ hself₁ content)
  | nodes nodes =>
    cases old with
    | none | text =>
      obtain ⟨_, d₂, hset, hruns⟩ := hruns.of_bind
      obtain ⟨-, rfl⟩ := hset.unique (.change _ d₁)
      exact hfill hhas₂ hempty₂ hruns
    | nodes old => exact hfill hhas (hempty₁ rfl) hruns
  | none =>
    cases old with
    | none | nodes => exact hfill hhas (hempty₁ rfl) hruns
    | text content =>
      obtain ⟨_, d₂, hset, hruns⟩ := hruns.of_bind
      obtain ⟨-, rfl⟩ := hset.unique (.change _ d₁)
      exact hfill hhas₂ hempty₂ hruns

/-- What a render leaves: the tree is mirrored, and a host that was there before is known to
the tree. -/
structure Reflects (A : NodeId → Prop) (p : NodeId) (d : Document) (v' : VNode)
    (d' : Document) : Prop where
  mirrored : d'.Mirrored p v'
  rising : d'.Rising (fun m => A m ∨ ¬ d.Has m) (hosts d' v')
  known : ∀ m ∈ hosts d' v', d.Has m → m ∈ v'.els

/-- Where all hosts are new, none was there before. -/
theorem Reflects.of_new {v' : VNode} (hmirrored : d'.Mirrored p v')
    (hrising : d'.Rising (fun m => ¬ d.Has m) (hosts d' v')) : Reflects A p d v' d' :=
  ⟨hmirrored, hrising.mono (fun _ => .inr) fun _ => id,
    fun m hm has => absurd has (hrising.mem m hm).1⟩

/-- The node that is reused is older than all new hosts, so it stands before them. -/
theorem Rising.reused {ns : List NodeId} (hn : A n) (has : d.Has n) (has' : d'.Has n)
    (h : d'.Rising (fun m => ¬ d.Has m) ns) :
    d'.Rising (fun m => A m ∨ ¬ d.Has m) (n :: ns) :=
  .cons (.inl hn) has' (fun m hm => has.lt_of_not_has (h.mem m hm).1)
    (h.mono (fun _ => .inr) fun _ => id)

/-- An element of the same tag keeps its node. -/
theorem patch_element_reflects {tag : String} {props props' : Option Props}
    {children children' : Children} {el el' : Option NodeId} {v' : VNode}
    (hplain : PlainIn children') (h : Stands S A p (mk (.element tag) props children el) d)
    (hruns : Runs (patch p (some (mk (.element tag) props children el))
      (mk (.element tag) props' children' el')) d v' d') : Reflects A p d v' d' := by
  obtain ⟨n, rfl, hchildren, hparent, hshows⟩ := placed_single h.placed h.shows (by simp) rfl
  obtain ⟨e, hdata, -, hnewer, heach⟩ := hshows.element_inv
  have hne (c : NodeId) (hc : c ∈ d.children n) : c ≠ n := by
    rintro rfl
    exact Nat.lt_irrefl _ (hnewer c hc)
  simp only [patch, kind, ne_eq, not_true_eq_false, if_false] at hruns
  obtain ⟨m, d₀, hmounted, hdress⟩ := hruns.of_bind
  obtain ⟨hm, hd₀⟩ := hmounted.unique (.pure n d)
  rw [hm, hd₀] at hdress
  -- the props
  obtain ⟨_, d₁, hprops, hfill⟩ := hdress.of_bind
  have hredresses : Redresses (fun _ => False) n d d₁ :=
    patchProps_redresses hprops
  have hhas₁ := hredresses.within.has n hshows.has
  have hfilled : d₁.Filled n children := by
    refine (h.placed.filled tag n rfl rfl).congr hredresses.children ?_
    intro c hc
    rw [Document.parent, hredresses.within.node c (heach.mem hc).2 (hne c hc), Document.parent]
  have hself₁ : n ∉ d₁.children n := by
    rw [hredresses.children]
    exact fun hmem => hne n hmem rfl
  -- the children
  obtain ⟨children₂, d₂, hpatch, hpure⟩ := hfill.of_bind
  obtain ⟨rfl, rfl⟩ := hpure.unique (.pure _ _)
  obtain ⟨hin, hrising⟩ := patchChildren_mirrors hplain hhas₁ hfilled hself₁ hpatch
  obtain ⟨children₃, roots, d₃, hpatch', -, hreplaces, -⟩ := patchChildren_runs hplain hhas₁ hfilled
    hself₁ (fun _ => id) d₁.owns_new
  obtain ⟨rfl, rfl⟩ := hpatch.unique hpatch'
  have hparent' : d'.parent n = some p := by
    rw [Document.parent, hreplaces.node, ← hparent, ← hredresses.parent, Document.parent]
  have hrising' : d'.Rising (fun m => ¬ d.Has m) (hostsIn d' n children₂) := by
    refine hrising.mono ?_ fun _ => id
    intro m hm hd
    exact hm (hredresses.within.has m hd)
  refine ⟨⟨n, rfl, hparent', hin⟩, ?_, ?_⟩
  · exact Rising.reused hshows.mem hshows.has (hreplaces.within.has n hhas₁) hrising'
  · intro m hm has
    rcases List.mem_cons.1 hm with rfl | hm
    · exact List.mem_cons_self
    · exact absurd has (hrising'.mem m hm).1

/-- A text or a comment keeps its node. -/
theorem patch_leaf_reflects (leaf : Leaf) {props props' : Option Props}
    {children children' : Children} {el el' : Option NodeId} {v' : VNode}
    (h : Stands S A p (mk leaf.kind props children el) d)
    (hold : d.Mirrored p (mk leaf.kind props children el))
    (hruns : Runs (patch p (some (mk leaf.kind props children el))
      (mk leaf.kind props' children' el')) d v' d') : Reflects A p d v' d' := by
  have hkind : leaf.kind ≠ .fragment := by cases leaf <;> simp [Leaf.kind]
  obtain ⟨n, rfl, -, -, hshows⟩ :=
    placed_single h.placed h.shows hkind (leaf.scenes_eq props children el)
  obtain ⟨hn, has, hdata⟩ := leaf.shows_iff.1 hshows
  obtain ⟨hparent, hchildren⟩ : d.parent n = some p ∧ d.children n = [] := by
    cases leaf <;>
    · obtain ⟨m, hm, hleaf⟩ := hold
      obtain rfl := Option.some.inj hm
      exact hleaf
  rw [leaf.patch_eq] at hruns
  obtain ⟨rfl, hredresses⟩ : v' = mk leaf.kind props' children' (some n) ∧
      Redresses (fun _ => False) n d d' := by
    by_cases hsame : children.text?.getD "" = children'.text?.getD ""
    · rw [if_pos hsame] at hruns
      obtain ⟨rfl, rfl⟩ := hruns.unique (.pure _ d)
      exact ⟨rfl, .refl ..⟩
    · rw [if_neg hsame] at hruns
      obtain ⟨_, d₁, hset, hpure⟩ := hruns.of_bind
      obtain ⟨-, rfl⟩ := hset.unique (.change _ d)
      obtain ⟨rfl, rfl⟩ := hpure.unique (.pure _ _)
      exact ⟨rfl, (leaf.set_redresses has hdata _).1⟩
  -- Setting a text reaches the data of the node alone, so the node stays where it is.
  have hleaf : d'.parent n = some p ∧ d'.children n = [] :=
    ⟨hredresses.parent.trans hparent, hredresses.children.trans hchildren⟩
  have hmirrored : d'.Mirrored p (mk leaf.kind props' children' (some n)) := by
    cases leaf <;> exact ⟨n, rfl, hleaf⟩
  have hhosts : hosts d' (mk leaf.kind props' children' (some n)) = [n] := by
    cases leaf <;> rfl
  refine ⟨hmirrored, ?_, ?_⟩
  · rw [hhosts]
    exact Rising.reused hn has (hredresses.within.has n has) .nil
  · intro m hm _
    rw [hhosts] at hm
    cases leaf <;> exact hm

/-- A fragment is mirrored by the children of its container. -/
theorem mirrored_fragment (props : Option Props) (el : Option NodeId) {children : Children}
    (htext : children.text? = none) (h : d.MirroredIn p children) :
    d.Mirrored p (mk .fragment props children el) ∧
      hosts d (mk .fragment props children el) = hostsIn d p children := by
  cases children with
  | none => exact ⟨trivial, rfl⟩
  | text content => exact absurd htext (by simp [Children.text?])
  | nodes nodes => exact ⟨h.2, rfl⟩

/-- The children of a fragment are new. -/
theorem patch_fragment_reflects {props props' : Option Props} {children children' : Children}
    {el el' : Option NodeId} {v' : VNode} (hplain : (mk .fragment props' children' el').Plain)
    (h : Stands S A p (mk .fragment props children el) d)
    (hruns : Runs (patch p (some (mk .fragment props children el))
      (mk .fragment props' children' el')) d v' d') : Reflects A p d v' d' := by
  obtain ⟨-, htext, hplain⟩ := hplain
  have hfilled : d.Filled p children := by
    cases children with
    | none => exact h.placed.roots
    | text content => trivial
    | nodes nodes => exact ⟨h.placed.mounted, h.placed.roots, h.placed.parents⟩
  simp only [patch, kind, ne_eq, not_true_eq_false, if_false] at hruns
  obtain ⟨children₂, d₂, hpatch, hpure⟩ := hruns.of_bind
  obtain ⟨rfl, rfl⟩ := hpure.unique (.pure _ _)
  obtain ⟨hin, hrising⟩ := patchChildren_mirrors hplain h.has hfilled h.not_mem hpatch
  obtain ⟨children₃, roots, d₃, hpatch', hclone, -⟩ := patchChildren_runs hplain h.has hfilled
    h.not_mem (fun _ => id) d.owns_new
  obtain ⟨rfl, rfl⟩ := hpatch.unique hpatch'
  have htext' : children₂.text? = none := (text?_of_clone hclone).trans (htext rfl)
  obtain ⟨hmirrored, hhosts⟩ := mirrored_fragment props' el' htext' hin
  exact .of_new hmirrored (hhosts ▸ hrising)

/-- A tree of another kind is mounted anew. -/
theorem patch_other_reflects {old new v' : VNode} (hkind : old.kind ≠ new.kind)
    (hplain : new.Plain) (h : Stands S A p old d)
    (hruns : Runs (patch p (some old) new) d v' d') : Reflects A p d v' d' := by
  have hself := h.not_mem
  rw [h.placed.roots] at hself
  have hclears := Document.clears_takeOut (S := S) h.has hself h.placed.roots h.placed.parents
  simp only [patch, ne_eq, hkind, not_false_eq_true, if_true] at hruns
  obtain ⟨_, d₁, hunmount, hmount⟩ := hruns.of_bind
  obtain ⟨-, rfl⟩ := hunmount.unique (unmount_runs old h.placed.mounted d)
  obtain ⟨hmirrored, hrising⟩ :=
    mount_mirrors new p _ v' d' hplain ((hclears.has p).2 h.has) hmount
  refine .of_new hmirrored (hrising.mono ?_ fun _ => id)
  intro m hm hd
  exact hm ((hclears.has m).2 hd)

/-- **After patching, the new tree is mirrored**; a host that was there before is known to
it. -/
theorem patch_reflects {old new v' : VNode} (hplain : new.Plain) (h : Stands S A p old d)
    (hold : d.Mirrored p old) (hruns : Runs (patch p (some old) new) d v' d') :
    Reflects A p d v' d' := by
  by_cases hkind : old.kind = new.kind
  · obtain ⟨kind, props, children, el⟩ := old
    obtain ⟨kind', props', children', el'⟩ := new
    obtain rfl : kind = kind' := hkind
    cases kind with
    | element tag => exact patch_element_reflects hplain.2.2 h hruns
    | text => exact patch_leaf_reflects .text h hold hruns
    | comment => exact patch_leaf_reflects .comment h hold hruns
    | fragment => exact patch_fragment_reflects hplain h hruns
    | component name => exact absurd hplain.1 (by simp [VKind.isComponent])
  · exact patch_other_reflects hkind hplain h hruns

end VNode
end View
end ReactiveView
