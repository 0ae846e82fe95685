/-
# Any number of renders

Containers share one document, and each is rendered into again and again.  Every node
that rendering makes belongs to one container, and a render changes nodes of its own
container only; so each container goes on showing its last tree (`Stage.Keeps`).

Hence rendering over what is there is rendering afresh: after any calls, what is to be
seen in a container is what its last tree gives in a new document
(`Stage.renderEach_eq_fresh`).
-/

import ReactiveView.Proofs.Rendering.Patch
import ReactiveView.View.Dispatch

namespace ReactiveView
namespace View

variable {d d' : Document} {p : NodeId} {S A A' R : NodeId → Prop}

/-! ## One container -/

namespace Document

/-- Fewer nodes own their listeners as well. -/
theorem Owns.mono (h : d.Owns S) {S' : NodeId → Prop} (hS : ∀ n, S' n → S n) : d.Owns S' :=
  fun n key l hn hbinds =>
    let ⟨hlt, hunique⟩ := h n key l (hS n hn) hbinds
    ⟨hlt, fun n' key' hn' => hunique n' key' (hS n' hn')⟩

/-- What binds a listener is a node that is there. -/
theorem Binds.has {n : NodeId} {key : String} {l : ListenerId} (h : d.Binds n key l) : d.Has n := by
  obtain ⟨e, hdata, -⟩ := h
  exact has_of_element? (element?_eq_some_iff.2 hdata)

/-- Nodes that are not there bind nothing. -/
theorem Owns.fresh (h : d.Owns S) : d.Owns fun n => S n ∨ ¬ d.Has n := by
  intro n key l hn hbinds
  obtain ⟨hlt, hunique⟩ := h n key l (hn.resolve_right fun hnot => hnot hbinds.has) hbinds
  exact ⟨hlt, fun n' key' hn' hbinds' =>
    hunique n' key' (hn'.resolve_right fun hnot => hnot hbinds'.has) hbinds'⟩

/-- A mounted tree stays mounted under changes elsewhere. -/
theorem Placed.within {v : VNode} (hwithin : Within S R d d')
    (hA : ∀ n, A n → d.Has n → A' n ∧ S n ∧ ¬ R n) (has : d.Has p) (hp : ¬ R p)
    (hshows : d.ShowsEach A (d.children p) v.scenes) (h : d.Placed p v) : d'.Placed p v := by
  have hchildren : d'.children p = d.children p := by
    rw [children, hwithin.node p has hp, children]
  have hparent {scenes : List Scene} {nodes : List NodeId} (heach : d.ShowsEach A nodes scenes)
      (c : NodeId) (hc : c ∈ nodes) : d'.parent c = d.parent c := by
    obtain ⟨hc, hhas⟩ := heach.mem hc
    rw [parent, hwithin.node c hhas (hA c hc hhas).2.2, parent]
  refine ⟨h.mounted, hchildren.trans h.roots, ?_, ?_⟩
  · intro c hc
    rw [hparent hshows c (h.roots ▸ hc)]
    exact h.parents c hc
  · intro tag n hkind hel
    obtain ⟨kind, props, children, el⟩ := v
    obtain rfl : kind = .element tag := hkind
    obtain ⟨m, hm, -, -, hroot⟩ := VNode.placed_single h hshows (by simp) rfl
    obtain rfl : m = n := Option.some.inj (hm.symm.trans hel)
    obtain ⟨e, hdata, -, -, heach⟩ := hroot.element_inv
    refine (h.filled tag m rfl hel).congr ?_ (hparent heach)
    rw [Document.children, hwithin.node m hroot.has (hA m hroot.mem hroot.has).2.2,
      Document.children]

end Document

namespace Container

/-- The container shows the tree, or nothing, with nodes of the region. -/
def Holds (d : Document) (A : NodeId → Prop) (c : Container) : Option VNode → Prop
  | none => c.tree = none ∧ d.children c.node = []
  | some last => ∃ v, c.tree = some v ∧ v.clone = last.clone ∧ last.Plain ∧ d.Placed c.node v ∧
      d.ShowsEach A (d.children c.node) last.scenes

/-- **What is to be seen in a container** is its last tree. -/
theorem Holds.content {c : Container} {last : Option VNode} (h : c.Holds d A last) :
    d.content c.node = (last.map VNode.scenes).getD [] := by
  cases last with
  | none =>
    rw [Document.content, h.2]
    rfl
  | some last =>
    obtain ⟨v, -, -, -, -, hshows⟩ := h
    exact hshows.content_eq

/-- Its nodes may be looked for in a larger region. -/
theorem Holds.mono {c : Container} {last : Option VNode} (hA : ∀ n, A n → A' n)
    (h : c.Holds d A last) : c.Holds d A' last := by
  cases last with
  | none => exact h
  | some last =>
    obtain ⟨v, htree, hclone, hplain, hplaced, hshows⟩ := h
    exact ⟨v, htree, hclone, hplain, hplaced, hshows.mono hA⟩

/-- A container goes on showing its tree while changes keep away from its nodes. -/
theorem Holds.within {c : Container} {last : Option VNode} (hwithin : Document.Within S R d d')
    (howns : d.Owns S) (hA : ∀ n, A n → d.Has n → A' n ∧ S n ∧ ¬ R n) (has : d.Has c.node)
    (hp : ¬ R c.node) (h : c.Holds d A last) : c.Holds d' A' last := by
  have hchildren : d'.children c.node = d.children c.node := by
    rw [Document.children, hwithin.node c.node has hp, Document.children]
  cases last with
  | none => exact ⟨h.1, hchildren.trans h.2⟩
  | some last =>
    obtain ⟨v, htree, hclone, hplain, hplaced, hshows⟩ := h
    have hscenes := VNode.scenes_of_clone hclone
    refine ⟨v, htree, hclone, hplain, hplaced.within hwithin hA has hp (hscenes ▸ hshows), ?_⟩
    rw [hchildren]
    exact hshows.within hwithin howns hA

/-- Rendering leads from the one document and tree to the other. -/
def Renders (S A : NodeId → Prop) (c : Container) (tree : Option VNode) (d : Document)
    (c' : Container) (d' : Document) : Prop :=
  c.render tree d = (.ok (), c', d') ∧ c'.node = c.node ∧
    (d'.node c.node).data = (d.node c.node).data ∧
    Document.Within S (fun m => m = c.node ∨ A m ∨ ¬ d.Has m) d d' ∧
      c'.Holds d' (fun m => A m ∨ ¬ d.Has m) tree

/-- A render patches the tree over the last one. -/
theorem render_some_of_runs {c : Container} {new v' : VNode} (hcomponent : new.component? = none)
    (hruns : Runs (VNode.patch c.node c.tree new) d v' d') :
    c.render (some new) d = (.ok (), ⟨c.node, some v'⟩, d') := by
  have hmap : Runs (some <$> VNode.patch c.node c.tree new) d (some v') d' := hruns.map some
  unfold Runs at hmap
  simp only [render, Option.bind_some, hcomponent, hmap]

/-- A render of nothing takes the last tree down. -/
theorem render_none_of_runs {c : Container} {v : VNode} (htree : c.tree = some v)
    (hruns : Runs v.unmount d () d') : c.render none d = (.ok (), ⟨c.node, none⟩, d') := by
  have hbind : Runs (do v.unmount; pure (none : Option VNode)) d none d' :=
    hruns.bind (.pure none _)
  unfold Runs at hbind
  simp only [render, Option.bind_none, htree, hbind]

/-- A patched tree is the tree of the container. -/
theorem Renders.of_patch {c : Container} {new v' : VNode} (hplain : new.Plain)
    (hruns : Runs (VNode.patch c.node c.tree new) d v' d')
    (h : VNode.Patches S A c.node new d v' d') :
    Renders S A c (some new) d ⟨c.node, some v'⟩ d' :=
  ⟨render_some_of_runs hplain.component? hruns, rfl, h.data, h.within, v', rfl, h.clone, hplain,
    h.placed, h.shows⟩

/-- Nothing is rendered where nothing is. -/
theorem renders_none_none {c : Container} (h : c.Holds d A none) :
    ∃ c', Renders S A c none d c' d := by
  refine ⟨⟨c.node, none⟩, ?_, rfl, rfl, .refl .., rfl, h.2⟩
  simp only [render, Option.bind_none, h.1]
  rfl

/-- The last tree is taken down. -/
theorem renders_none_some {c : Container} {last : VNode} (has : d.Has c.node) (hp : ¬ A c.node)
    (h : c.Holds d A (some last)) : ∃ d', Renders S A c none d ⟨c.node, none⟩ d' := by
  obtain ⟨v, htree, -, -, hplaced, hshows⟩ := h
  have hself : c.node ∉ d.children c.node := fun hmem => hp (hshows.mem hmem).1
  rw [hplaced.roots] at hself
  have hclears := Document.clears_takeOut (S := S) has hself hplaced.roots hplaced.parents
  exact ⟨_, render_none_of_runs htree (VNode.unmount_runs v hplaced.mounted d), rfl,
    by rw [hclears.node], hclears.within.mono fun m hm =>
      hm.imp_right fun hmem => .inl (hshows.mem hmem).1, rfl, hclears.empty⟩

/-- **A render leads from any tree to any other**, with nodes of the container's own and
new ones. -/
theorem render_runs {c : Container} {last tree : Option VNode} (hplain : ∀ v ∈ tree, v.Plain)
    (has : d.Has c.node) (hp : ¬ A c.node) (hA : ∀ m, A m → S m) (hS : ∀ m, ¬ d.Has m → S m)
    (howns : d.Owns S) (h : c.Holds d A last) : ∃ c' d', Renders S A c tree d c' d' := by
  cases tree with
  | none =>
    cases last with
    | none =>
      obtain ⟨c', hrenders⟩ := renders_none_none (S := S) h
      exact ⟨c', d, hrenders⟩
    | some last =>
      obtain ⟨d', hrenders⟩ := renders_none_some (S := S) has hp h
      exact ⟨_, d', hrenders⟩
  | some new =>
    have hplain := hplain new rfl
    cases last with
    | none =>
      obtain ⟨htree, hempty⟩ := h
      obtain ⟨v', d', hruns, hpatches⟩ := VNode.mount_patches (A := A) hplain has
        (by rw [hempty]; exact fun m hm => absurd hm List.not_mem_nil) hS howns (.refl hempty)
      exact ⟨_, d', .of_patch hplain (htree ▸ hruns) hpatches⟩
    | some last =>
      obtain ⟨v, htree, hclone, -, hplaced, hshows⟩ := h
      have hscenes := VNode.scenes_of_clone hclone
      obtain ⟨v', d', hruns, hpatches⟩ := VNode.patch_runs hplain
        ⟨has, hp, hA, hS, howns, hplaced, hscenes ▸ hshows⟩
      exact ⟨_, d', .of_patch hplain (htree ▸ hruns) hpatches⟩

end Container

/-! ## Many containers -/

namespace Stage

variable {τ : Type} {s s' : Stage τ} {owner : NodeId → Option ContainerId}
  {last : ContainerId → Option VNode} {c : ContainerId} {container container' : Container}

/-- The container with an identity. -/
def container? (s : Stage τ) (c : ContainerId) : Option Container := s.containers[c.index]?

/-- The stage after a render of a container. -/
def withRendered (s : Stage τ) (c : ContainerId) (container : Container) (d : Document) :
    Stage τ :=
  { s with document := d, containers := s.containers.setIfInBounds c.index container }

/-- To render into a container that is not there is to do nothing. -/
theorem render_of_none {tree : Option VNode} (h : s.container? c = none) :
    s.render c tree = (.ok (), s) := by
  simp only [render, show s.containers[c.index]? = none from h]

/-- A render of a stage is a render of the container, and the stage keeps the result. -/
theorem render_of_some {tree : Option VNode} (h : s.container? c = some container)
    (hrender : container.render tree s.document = (.ok (), container', d')) :
    s.render c tree = (.ok (), s.withRendered c container' d') := by
  simp only [render, show s.containers[c.index]? = some container from h, hrender]
  rfl

/-- Other containers are not rendered. -/
theorem container?_withRendered (h : s.container? c = some container) (c' : ContainerId) :
    (s.withRendered c container' d').container? c' =
      if c' = c then some container' else s.container? c' := by
  obtain ⟨i⟩ := c
  obtain ⟨j⟩ := c'
  obtain ⟨hlt, -⟩ := Array.getElem?_eq_some_iff.1 h
  simp only [container?, withRendered, Array.getElem?_setIfInBounds, ContainerId.mk.injEq]
  by_cases hij : i = j
  · subst hij
    simp only [if_true, if_pos hlt]
  · rw [if_neg hij, if_neg fun h => hij h.symm]

/-- The containers have nodes of their own to render into, and each shows its last tree
with newer nodes that it owns. -/
structure Keeps (owner : NodeId → Option ContainerId) (last : ContainerId → Option VNode)
    (s : Stage τ) : Prop where
  has : ∀ {c container}, s.container? c = some container → s.document.Has container.node
  free : ∀ {c container}, s.container? c = some container → owner container.node = none
  apart : ∀ {c c' container container'}, s.container? c = some container →
    s.container? c' = some container' → container.node = container'.node → c = c'
  newer : ∀ {c container n}, s.container? c = some container → owner n ≠ none →
    container.node.index < n.index
  owns : s.document.Owns fun n => owner n ≠ none
  holds : ∀ {c container}, s.container? c = some container →
    container.Holds s.document (fun n => owner n = some c) (last c)

/-- After a render the nodes that were not there belong to the container. -/
def claim (d : Document) (c : ContainerId) (owner : NodeId → Option ContainerId) (n : NodeId) :
    Option ContainerId :=
  if d.Has n then owner n else some c

/-- A node that was there stays with its owner. -/
theorem claim_of_has {n : NodeId} (h : d.Has n) : claim d c owner n = owner n := if_pos h

/-- Afterwards the container has the nodes that it had and all new ones. -/
theorem claim_eq_some {n : NodeId} (h : owner n = some c ∨ ¬ d.Has n) :
    claim d c owner n = some c := by
  unfold claim
  split
  · rename_i has
    exact h.resolve_right fun hnot => hnot has
  · rfl

/-- Who is owned afterwards was owned or is new. -/
theorem claim_ne_none {n : NodeId} (h : claim d c owner n ≠ none) :
    owner n ≠ none ∨ ¬ d.Has n := by
  unfold claim at h
  split at h
  · exact .inl h
  · rename_i hnot
    exact .inr hnot

/-- The last trees after one more call. -/
def lastAfter (last : ContainerId → Option VNode) (c : ContainerId) (tree : Option VNode) :
    ContainerId → Option VNode :=
  fun c' => if c' = c then tree else last c'

/-- Each container has the node that it had, and that is what it was apart from its
children. -/
structure SameNodes (s s' : Stage τ) : Prop where
  node : ∀ {c container'}, s'.container? c = some container' →
    ∃ container, s.container? c = some container ∧ container.node = container'.node
  kept : ∀ {c container}, s.container? c = some container →
    ∃ container', s'.container? c = some container' ∧ container'.node = container.node
  data : ∀ {c container}, s.container? c = some container →
    (s'.document.node container.node).data = (s.document.node container.node).data

/-- A stage has the containers that it has. -/
theorem SameNodes.refl (s : Stage τ) : SameNodes s s :=
  ⟨fun h => ⟨_, h, rfl⟩, fun h => ⟨_, h, rfl⟩, fun _ => rfl⟩

/-- Containers keep their nodes along any number of calls. -/
theorem SameNodes.trans {s'' : Stage τ} (h : SameNodes s s') (h' : SameNodes s' s'') :
    SameNodes s s'' where
  node hc := by
    obtain ⟨_, hc, hnode⟩ := h'.node hc
    obtain ⟨container, hc, hnode'⟩ := h.node hc
    exact ⟨container, hc, hnode'.trans hnode⟩
  kept hc := by
    obtain ⟨_, hc, hnode⟩ := h.kept hc
    obtain ⟨container, hc, hnode'⟩ := h'.kept hc
    exact ⟨container, hc, hnode'.trans hnode⟩
  data hc := by
    obtain ⟨_, hc', hnode⟩ := h.kept hc
    rw [← hnode, h'.data hc', hnode, h.data hc]

/-- The region of a render has no node of another container. -/
theorem Keeps.apart_region (h : s.Keeps owner last) (hc : s.container? c = some container)
    {c' : ContainerId} {k : Container} (hk : s.container? c' = some k) (hne : c' ≠ c) :
    ¬ (k.node = container.node ∨ owner k.node = some c ∨ ¬ s.document.Has k.node) := by
  rintro (heq | heq | hnot)
  · exact hne (h.apart hk hc heq)
  · exact absurd ((h.free hk).symm.trans heq) (by simp)
  · exact hnot (h.has hk)

/-- What another container owns is outside everything that a render here may touch. -/
theorem Keeps.owned_apart (h : s.Keeps owner last) (hc : s.container? c = some container)
    {c' : ContainerId} {n : NodeId} (hn : owner n = some c') (has : s.document.Has n)
    (hne : c' ≠ c) : ¬ (n = container.node ∨ owner n = some c ∨ ¬ s.document.Has n) := by
  rintro (rfl | heq | hnot)
  · exact absurd ((h.free hc).symm.trans hn) (by simp)
  · exact hne (Option.some.inj (hn.symm.trans heq))
  · exact hnot has

/-- No container owns the node of a container. -/
theorem Keeps.not_owned (h : s.Keeps owner last) (hc : s.container? c = some container)
    (c' : ContainerId) : owner container.node ≠ some c' := by
  rw [h.free hc]
  exact (Option.some_ne_none c').symm

/-- What a container owns is owned. -/
theorem ne_none_of_eq_some (m : NodeId) (hm : owner m = some c) :
    owner m ≠ none ∨ ¬ d.Has m := by
  rw [hm]
  exact .inl (Option.some_ne_none c)

/-- A render of one container succeeds, whatever is in the others. -/
theorem Keeps.renders {tree : Option VNode} (h : s.Keeps owner last)
    (hc : s.container? c = some container) (hplain : ∀ v ∈ tree, v.Plain) :
    ∃ container' d', container.Renders (fun n => owner n ≠ none ∨ ¬ s.document.Has n)
      (fun n => owner n = some c) tree s.document container' d' :=
  Container.render_runs hplain (h.has hc) (h.not_owned hc c) ne_none_of_eq_some (fun _ => .inr)
    h.owns.fresh (h.holds hc)

/-- A render takes no container its node. -/
theorem Keeps.sameNodes {tree : Option VNode} {S : NodeId → Prop} (h : s.Keeps owner last)
    (hc : s.container? c = some container)
    (hrenders : container.Renders S (fun n => owner n = some c) tree s.document container' d') :
    SameNodes s (s.withRendered c container' d') := by
  obtain ⟨-, hnode, hdata, hwithin, -⟩ := hrenders
  constructor
  · intro c' k hk
    rw [container?_withRendered hc] at hk
    split at hk
    · rename_i heq
      obtain rfl := Option.some.inj hk
      exact ⟨container, heq ▸ hc, hnode.symm⟩
    · exact ⟨k, hk, rfl⟩
  · intro c' k hk
    rw [container?_withRendered hc]
    split
    · rename_i heq
      obtain rfl := Option.some.inj (hc.symm.trans (heq ▸ hk))
      exact ⟨container', rfl, hnode⟩
    · exact ⟨k, hk, rfl⟩
  · intro c' k hk
    by_cases heq : c' = c
    · obtain rfl := Option.some.inj (hc.symm.trans (heq ▸ hk))
      exact hdata
    · have hsame : d'.node k.node = s.document.node k.node :=
        hwithin.node _ (h.has hk) (h.apart_region hc hk heq)
      show (d'.node k.node).data = (s.document.node k.node).data
      rw [hsame]

/-- What a render of one container does, all containers survive. -/
theorem Keeps.withRendered {tree : Option VNode} (h : s.Keeps owner last)
    (hc : s.container? c = some container)
    (hrenders : container.Renders (fun n => owner n ≠ none ∨ ¬ s.document.Has n)
      (fun n => owner n = some c) tree s.document container' d') :
    (s.withRendered c container' d').Keeps (claim s.document c owner)
      (lastAfter last c tree) := by
  have hnodes := h.sameNodes hc hrenders
  obtain ⟨-, -, -, hwithin, hholds⟩ := hrenders
  refine ⟨?has, ?free, ?apart, ?newer, ?owns, ?holds⟩
  case has =>
    intro c' k hk
    obtain ⟨k₀, hk₀, hsame⟩ := hnodes.node hk
    rw [← hsame]
    exact hwithin.has _ (h.has hk₀)
  case free =>
    intro c' k hk
    obtain ⟨k₀, hk₀, hsame⟩ := hnodes.node hk
    rw [← hsame, claim_of_has (h.has hk₀)]
    exact h.free hk₀
  case apart =>
    intro c₁ c₂ k₁ k₂ hk₁ hk₂ heq
    obtain ⟨l₁, hl₁, hsame₁⟩ := hnodes.node hk₁
    obtain ⟨l₂, hl₂, hsame₂⟩ := hnodes.node hk₂
    exact h.apart hl₁ hl₂ (hsame₁.trans (heq.trans hsame₂.symm))
  case newer =>
    intro c' k n hk hn
    obtain ⟨k₀, hk₀, hsame⟩ := hnodes.node hk
    rw [← hsame]
    rcases claim_ne_none hn with hn | hn
    · exact h.newer hk₀ hn
    -- What the render has made is newer than any container.
    · exact (h.has hk₀).lt_of_not_has hn
  case owns =>
    have howns := hwithin.owns h.owns.fresh
    exact howns.mono fun n hn => claim_ne_none hn
  case holds =>
    intro c' k hk
    rw [container?_withRendered hc] at hk
    unfold lastAfter
    split at hk
    · rename_i heq
      obtain rfl := Option.some.inj hk
      rw [heq, if_pos rfl]
      exact hholds.mono fun n hn => claim_eq_some hn
    · rename_i hne
      rw [if_neg hne]
      -- Another container keeps away from all that the render may have changed.
      refine (h.holds hk).within hwithin h.owns.fresh ?_ (h.has hk) (h.apart_region hc hk hne)
      intro n hn has
      exact ⟨(claim_of_has has).trans hn, ne_none_of_eq_some n hn, h.owned_apart hc hn has hne⟩

/-- A render into a container that is not there changes nothing. -/
theorem Keeps.of_none {tree : Option VNode} (h : s.Keeps owner last)
    (hc : s.container? c = none) : s.Keeps owner (lastAfter last c tree) := by
  refine ⟨h.has, h.free, h.apart, h.newer, h.owns, ?_⟩
  intro c' k hk
  have hne : c' ≠ c := by
    rintro rfl
    exact absurd (hc.symm.trans hk) (by simp)
  unfold lastAfter
  rw [if_neg hne]
  exact h.holds hk

/-- **Any render succeeds, and every container goes on showing its last tree.** -/
theorem Keeps.render (h : s.Keeps owner last) (c : ContainerId) {tree : Option VNode}
    (hplain : ∀ v ∈ tree, v.Plain) :
    ∃ s' owner', s.render c tree = (.ok (), s') ∧ s'.Keeps owner' (lastAfter last c tree) ∧
      SameNodes s s' ∧ s'.events = s.events := by
  cases hc : s.container? c with
  | none => exact ⟨s, owner, render_of_none hc, h.of_none hc, .refl s, rfl⟩
  | some container =>
    obtain ⟨container', d', hrenders⟩ := h.renders hc hplain
    exact ⟨_, _, render_of_some hc hrenders.1, h.withRendered hc hrenders,
      h.sameNodes hc hrenders, rfl⟩

/-! ## Many calls -/

/-- Renders one tree after another, until a render fails. -/
def renderEach (s : Stage τ) : List (ContainerId × Option VNode) → Except RenderError (Stage τ)
  | [] => .ok s
  | (c, tree) :: rest =>
    match s.render c tree with
    | (.ok (), s) => s.renderEach rest
    | (.error error, _) => .error error

/-- The last tree that some calls render into a container. -/
def lastTree (c : ContainerId) (calls : List (ContainerId × Option VNode)) : Option VNode :=
  calls.foldl (fun last call => lastAfter last call.1 call.2) (fun _ => none) c

/-- The containers have nodes of their own to render into, and nothing is there yet. -/
structure Vacant (s : Stage τ) : Prop where
  has : ∀ {c container}, s.container? c = some container → s.document.Has container.node
  apart : ∀ {c c' container container'}, s.container? c = some container →
    s.container? c' = some container' → container.node = container'.node → c = c'
  blank : ∀ {c container}, s.container? c = some container → container.tree = none
  empty : ∀ {c container}, s.container? c = some container →
    s.document.children container.node = []

/-- Nothing is owned at first. -/
theorem Vacant.keeps (h : s.Vacant) : s.Keeps (fun _ => none) (fun _ => none) where
  has := h.has
  free _ := rfl
  apart := h.apart
  newer _ hn := absurd rfl hn
  owns _ _ _ hn := absurd rfl hn
  holds hc := ⟨h.blank hc, h.empty hc⟩

/-- Calls lead every container to its last tree. -/
theorem Keeps.renderEach (calls : List (ContainerId × Option VNode)) (h : s.Keeps owner last)
    (hplain : ∀ call ∈ calls, ∀ v ∈ call.2, v.Plain) :
    ∃ s' owner', s.renderEach calls = .ok s' ∧
      s'.Keeps owner' (calls.foldl (fun last call => lastAfter last call.1 call.2) last) ∧
        SameNodes s s' := by
  induction calls generalizing s owner last with
  | nil => exact ⟨s, owner, rfl, h, .refl s⟩
  | cons call rest ih =>
    obtain ⟨s₁, owner₁, hrender, hkeeps, hnodes, -⟩ := h.render call.1
      (hplain call List.mem_cons_self)
    obtain ⟨s', owner', hrest, hkeeps', hnodes'⟩ := ih hkeeps fun call' hcall =>
      hplain call' (List.mem_cons_of_mem call hcall)
    refine ⟨s', owner', ?_, hkeeps', hnodes.trans hnodes'⟩
    rw [Stage.renderEach, hrender]
    exact hrest

end Stage

/-- A new container of a new document, rendered into: its node and the document. -/
def renderFresh (clock : Clock) (tag : String) (tree : Option VNode) :
    Except RenderError (NodeId × Document) :=
  let (node, d) := (Document.empty clock).mountPoint tag
  match Container.render ⟨node, none⟩ tree d with
  | (.ok (), container, d) => .ok (container.node, d)
  | (.error error, _, _) => .error error

/-- A render into a new container succeeds; the container is the one node that was there
before. -/
theorem renderFresh_runs (clock : Clock) (tag : String) {tree : Option VNode}
    (hplain : ∀ v ∈ tree, v.Plain) :
    ∃ (c : Container) (d : Document), renderFresh clock tag tree = .ok (c.node, d) ∧
      c.node = ⟨0⟩ ∧ d.Has c.node ∧
        (d.node c.node).data = .element (.new tag) ∧ c.Holds d (fun n => 0 < n.index) tree := by
  have has : ((Document.empty clock).mountPoint tag).2.Has ⟨0⟩ := Nat.zero_lt_one
  have howns : ((Document.empty clock).mountPoint tag).2.Owns fun n =>
      ¬ ((Document.empty clock).mountPoint tag).2.Has n :=
    fun _ _ _ hn hbinds => absurd hbinds.has hn
  have hblank : Container.Holds ((Document.empty clock).mountPoint tag).2 (fun _ => False)
      ⟨⟨0⟩, none⟩ none := ⟨rfl, rfl⟩
  obtain ⟨c, d, hrender, hnode, hdata, hwithin, hholds⟩ := Container.render_runs hplain has id
    (fun _ => False.elim) (fun _ => id) howns hblank
  replace hrender : Container.render ⟨((Document.empty clock).mountPoint tag).1, none⟩ tree
      ((Document.empty clock).mountPoint tag).2 = (.ok (), c, d) := hrender
  refine ⟨c, d, ?_, hnode, ?_, ?_, hholds.mono ?_⟩
  · simp only [renderFresh, hrender]
  · rw [hnode]
    exact hwithin.has _ has
  · rw [hnode]
    exact hdata
  · intro n hn
    exact has.lt_of_not_has (hn.resolve_left id)

/-- What is to be seen in a new container into which the tree is rendered. -/
def freshContent (clock : Clock) (tag : String) (tree : Option VNode) :
    Except RenderError (List Scene) :=
  (renderFresh clock tag tree).map fun (n, d) => d.content n

/-- In a new container a tree gives what it describes. -/
theorem freshContent_eq (clock : Clock) (tag : String) {tree : Option VNode}
    (hplain : ∀ v ∈ tree, v.Plain) :
    freshContent clock tag tree = .ok ((tree.map VNode.scenes).getD []) := by
  obtain ⟨c, d, hrender, -, -, -, hholds⟩ := renderFresh_runs clock tag hplain
  rw [freshContent, hrender, ← hholds.content]
  rfl

namespace Stage

variable {τ : Type} {s : Stage τ}

/-- **Rendering over what is there is rendering afresh.**  Calls for any containers in any
order succeed, and then what is to be seen in each container is what its last tree gives
in a new one: the scenes that the tree describes, and nothing if there is none. -/
theorem renderEach_eq_fresh (hvacant : s.Vacant) (calls : List (ContainerId × Option VNode))
    (hplain : ∀ call ∈ calls, ∀ v ∈ call.2, v.Plain) :
    ∃ s', s.renderEach calls = .ok s' ∧ SameNodes s s' ∧
      ∀ c container, s'.container? c = some container →
        (∀ clock tag, freshContent clock tag (lastTree c calls) =
          .ok (s'.document.content container.node)) ∧
        s'.document.content container.node = ((lastTree c calls).map VNode.scenes).getD [] := by
  obtain ⟨s', owner, hcalls, hkeeps, hnodes⟩ := hvacant.keeps.renderEach calls hplain
  refine ⟨s', hcalls, hnodes, ?_⟩
  intro c container hc
  have hlast : ∀ v ∈ lastTree c calls, v.Plain := by
    intro v hv
    have hholds := hkeeps.holds hc
    rw [show calls.foldl (fun last call => lastAfter last call.1 call.2) (fun _ => none) c = some v
      from hv] at hholds
    obtain ⟨-, -, -, hplain, -⟩ := hholds
    exact hplain
  have hcontent : s'.document.content container.node =
      ((lastTree c calls).map VNode.scenes).getD [] := (hkeeps.holds hc).content
  refine ⟨fun clock tag => ?_, hcontent⟩
  rw [freshContent_eq clock tag hlast, hcontent]

/-- A new document with two containers. -/
def twoContainers : Stage Unit where
  document := (((Document.empty ⟨0, 0⟩).mountPoint "div").2.mountPoint "div").2
  containers := #[⟨⟨0⟩, none⟩, ⟨⟨1⟩, none⟩]
  events := #[]
  rest := ()

/-- The two containers are vacant to begin with. -/
theorem twoContainers_vacant : twoContainers.Vacant := by
  refine ⟨?has, ?apart, ?blank, ?empty⟩
  case has =>
    rintro ⟨_ | _ | i⟩ container hc <;> cases hc
    · exact Nat.zero_lt_two
    · exact Nat.one_lt_two
  case apart =>
    rintro ⟨_ | _ | i⟩ ⟨_ | _ | j⟩ container container' hc hc' heq <;> cases hc <;> cases hc' <;>
      first | rfl | exact absurd heq (by decide)
  case blank =>
    rintro ⟨_ | _ | i⟩ container hc <;> cases hc <;> rfl
  case empty =>
    rintro ⟨_ | _ | i⟩ container hc <;> cases hc <;> rfl

/-- A paragraph gives way to a fragment, while the other container is filled and
emptied. -/
def fourCalls : List (ContainerId × Option VNode) :=
  [(⟨0⟩, some (.h "p" (.text "a"))), (⟨1⟩, some (.text "b")),
    (⟨0⟩, some (.fragment [.h "p" (.nodes [.text "c"]), .comment "d"])), (⟨1⟩, none)]

/-- Rendering afresh in two containers. -/
theorem renderEach_eq_fresh_twoContainers :
    twoContainers.Vacant ∧ (∀ call ∈ fourCalls, ∀ v ∈ call.2, v.Plain) ∧
      ∃ s', twoContainers.renderEach fourCalls = .ok s' ∧ SameNodes twoContainers s' ∧
        ∀ c container, s'.container? c = some container →
          (∀ clock tag, freshContent clock tag (lastTree c fourCalls) =
            .ok (s'.document.content container.node)) ∧
          s'.document.content container.node =
            ((lastTree c fourCalls).map VNode.scenes).getD [] := by
  have hplain : ∀ call ∈ fourCalls, ∀ v ∈ call.2, v.Plain := by
    simp [fourCalls, VNode.h, VNode.element, VNode.text, VNode.comment, VNode.fragment, VNode.new,
      VNode.withChildren, VNode.Plain, VNode.PlainIn, VNode.PlainEach, VKind.isComponent,
      Children.text?]
  exact ⟨twoContainers_vacant, hplain, renderEach_eq_fresh twoContainers_vacant fourCalls hplain⟩

end Stage
end View
end ReactiveView
