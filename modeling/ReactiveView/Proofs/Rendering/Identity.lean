/-
# Virtual nodes and nodes of the document, one to one

After any renders the cached tree of each container and the nodes below its mount node
mirror each other (`Stage.renderEach_mirrors`, `Container.Mirrors`).  What an earlier tree
knew and the last one does not is not reached from a mount node any more.

The invariant (`Stage.Reflects`) adds the hosts to what containers keep (`Stage.Keeps`):
those of a container belong to it, so that a render of another one leaves them alone.  For
the nodes of earlier trees it takes any set of nodes of which those that host a tree are
known to it.  A render keeps that, because a host that was there before is known
(`VNode.patch_reflects`), and a node that was known once is there for good.
-/

import Mathlib.Data.List.Nodup
import ReactiveView.Proofs.Rendering.Reflection

namespace ReactiveView
namespace View

variable {d d' : Document} {p : NodeId} {S A A' R E : NodeId → Prop}

open VNode (hosts)

/-! ## One container -/

namespace Container

/-- The cached tree is mirrored by nodes of the region. -/
def Reflected (d : Document) (A : NodeId → Prop) (c : Container) : Prop :=
  ∀ v ∈ c.tree, d.Mirrored c.node v ∧ d.Rising A (hosts d v)

/-- A change that leaves the region out leaves the tree mirrored, by the same hosts. -/
theorem Reflected.within {c : Container} (h : c.Reflected d A)
    (hwithin : Document.Within S R d d') (hA : ∀ m, A m → d.Has m → A' m ∧ ¬ R m) :
    c.Reflected d' A' ∧ ∀ v ∈ c.tree, hosts d' v = hosts d v := by
  have hsame : ∀ v ∈ c.tree, ∀ m ∈ hosts d v, d'.node m = d.node m := fun v hv =>
    (h v hv).2.same hwithin fun m hm has => (hA m hm has).2
  refine ⟨fun v hv => ?_, fun v hv => ((h v hv).1.congr (hsame v hv)).2⟩
  obtain ⟨hmirrored, hrising⟩ := h v hv
  obtain ⟨hmirrored', hhosts⟩ := hmirrored.congr (hsame v hv)
  refine ⟨hmirrored', hhosts ▸ ⟨?_, hrising.newer⟩⟩
  intro m hm
  obtain ⟨hmA, has⟩ := hrising.mem m hm
  exact ⟨(hA m hmA has).1, hwithin.has m has⟩

/-- What a render of a tree does. -/
theorem of_render {c c' : Container} {new : VNode} (hplain : new.Plain)
    (h : c.render (some new) d = (.ok (), c', d')) :
    ∃ v', Runs (VNode.patch c.node c.tree new) d v' d' ∧ c' = ⟨c.node, some v'⟩ := by
  have hcomponent : (some new).bind VNode.component? = none := hplain.component?
  simp only [render, hcomponent] at h
  cases hwork : (some <$> VNode.patch c.node c.tree new : Work (Option VNode)).run.run d with
  | mk result d₁ =>
    rw [hwork] at h
    cases result with
    | error error => exact absurd (congrArg Prod.fst h) (by simp)
    | ok tree =>
      obtain ⟨-, hrest⟩ := Prod.mk.inj h
      obtain ⟨rfl, rfl⟩ := Prod.mk.inj hrest
      obtain ⟨v', hruns, rfl⟩ := Runs.of_map (show Runs _ d tree d₁ from hwork)
      exact ⟨v', hruns, rfl⟩

/-- **After a render the cached tree is mirrored**; a host that was there before is known to
it. -/
theorem render_reflects {c c' : Container} {last tree : Option VNode}
    (hplain : ∀ v ∈ tree, v.Plain) (has : d.Has c.node) (hp : ¬ A c.node)
    (hA : ∀ m, A m → S m) (hS : ∀ m, ¬ d.Has m → S m) (howns : d.Owns S)
    (hholds : c.Holds d A last) (h : c.Reflected d A)
    (hrenders : Renders S A c tree d c' d') :
    ∀ v ∈ c'.tree, VNode.Reflects A c.node d v d' := by
  obtain ⟨hrender, -, -, -, hholds'⟩ := hrenders
  cases tree with
  | none =>
    rw [hholds'.1]
    exact fun v hv => absurd hv (by simp)
  | some new =>
    have hplain := hplain new rfl
    obtain ⟨v', hruns, rfl⟩ := of_render hplain hrender
    rintro v ⟨rfl⟩
    cases last with
    | none =>
      rw [hholds.1] at hruns
      obtain ⟨hmirrored, hrising⟩ := VNode.mount_mirrors new c.node d _ d' hplain has hruns
      exact .of_new hmirrored hrising
    | some last =>
      obtain ⟨v, htree, hclone, -, hplaced, hshows⟩ := hholds
      rw [htree] at hruns
      exact VNode.patch_reflects hplain
        ⟨has, hp, hA, hS, howns, hplaced, VNode.scenes_of_clone hclone ▸ hshows⟩ (h v htree).1 hruns

/-- The virtual nodes of the cached tree that a node of the document stands for. -/
def parts (c : Container) : List VNode := (c.tree.map VNode.shown).getD []

/-- The nodes that the virtual nodes of the cached tree know. -/
def els (c : Container) : List NodeId := c.parts.filterMap VNode.el

/-- The roots of the cached tree. -/
def roots (c : Container) : List NodeId := (c.tree.map VNode.roots).getD []

/-- **The cached tree and the nodes below the mount node mirror each other.** -/
structure Mirrors (d : Document) (c : Container) : Prop where
  /-- Every virtual node that is shown knows a node. -/
  known : ∀ w ∈ c.parts, w.el.isSome = true
  /-- Different virtual nodes know different nodes. -/
  different : (c.parts.map VNode.el).Nodup
  /-- The children of the mount node are the roots of the tree. -/
  mounted : d.children c.node = c.roots
  /-- The children of an element are the roots of its list. -/
  lists : ∀ w ∈ c.parts, ∀ tag nodes n, w.kind = .element tag → w.children = .nodes nodes →
    w.el = some n → d.children n = VNode.rootsEach nodes
  /-- An element with a text has one child, which is that text; for the empty text it has
  none. -/
  texts : ∀ w ∈ c.parts, ∀ tag content n, w.kind = .element tag → w.children = .text content →
    w.el = some n →
      if content.isEmpty then d.children n = []
      else ∃ m, d.children n = [m] ∧ (d.node m).data = .text content
  /-- An element without children has none. -/
  nothing : ∀ w ∈ c.parts, ∀ tag n, w.kind = .element tag → w.children = .none →
    w.el = some n → d.children n = []
  /-- The nodes that virtual nodes know are below the mount node. -/
  reached : ∀ n ∈ c.els, d.Reaches c.node n
  /-- The parent of a child is the node that has it for a child. -/
  parents : ∀ n, d.Reaches c.node n → ∀ m ∈ d.children n, d.parent m = some n
  /-- A node has no child twice. -/
  once : ∀ n, d.Reaches c.node n → (d.children n).Nodup

/-- A container without a tree has nothing below its mount node. -/
theorem mirrors_none {c : Container} (htree : c.tree = none) (hempty : d.children c.node = []) :
    c.Mirrors d := by
  have hparts : c.parts = [] := by rw [parts, htree]; rfl
  have hroots : c.roots = [] := by rw [roots, htree]; rfl
  have hreaches (n : NodeId) (h : d.Reaches c.node n) : n = c.node := by
    induction h with
    | refl => rfl
    | tail _ hchild ih =>
      rw [ih, hempty] at hchild
      exact absurd hchild List.not_mem_nil
  have hnot (w : VNode) : w ∉ c.parts := by
    rw [hparts]
    exact List.not_mem_nil
  have hchildren (n : NodeId) (hn : d.Reaches c.node n) : d.children n = [] := by
    rw [hreaches n hn, hempty]
  refine ⟨fun w hw => absurd hw (hnot w), by rw [hparts]; exact .nil, hempty.trans hroots.symm,
    fun w hw => absurd hw (hnot w), fun w hw => absurd hw (hnot w),
    fun w hw => absurd hw (hnot w), ?_, ?_, ?_⟩
  · rw [els, hparts]
    exact fun _ hn => absurd hn List.not_mem_nil
  · intro n hn
    rw [hchildren n hn]
    exact fun _ hm => absurd hm List.not_mem_nil
  · intro n hn
    rw [hchildren n hn]
    exact .nil

/-- The els of virtual nodes that all know one. -/
theorem map_el_eq {vs : List VNode} (h : ∀ w ∈ vs, w.el.isSome = true) :
    vs.map VNode.el = (vs.filterMap VNode.el).map some := by
  induction vs with
  | nil => rfl
  | cons w rest ih =>
    obtain ⟨hw, hrest⟩ := List.forall_mem_cons.1 h
    obtain ⟨n, hn⟩ := Option.isSome_iff_exists.1 hw
    simp [hn, ih hrest]

/-- A mirrored tree is all that is below the mount node. -/
theorem mirrors_some {c : Container} {v : VNode} (htree : c.tree = some v)
    (hroots : d.children c.node = v.roots) (hmirrored : d.Mirrored c.node v)
    (hrising : d.Rising A (hosts d v)) : c.Mirrors d := by
  have hparts : c.parts = v.shown := by rw [parts, htree]; rfl
  have hels : c.els = v.els := by rw [els, hparts]; rfl
  have hknown : ∀ w ∈ v.shown, w.el.isSome = true := by
    intro w hw
    obtain ⟨-, n, -, hn⟩ := hmirrored.of_mem_shown hw
    rw [hn]
    rfl
  have helement {w : VNode} {tag : String} {n : NodeId} (hw : w ∈ v.shown)
      (hkind : w.kind = .element tag) (hel : w.el = some n) : d.MirroredIn n w.children := by
    obtain ⟨q, -, hw, -⟩ := hmirrored.of_mem_shown hw
    exact hw.element hkind hel
  -- Below the container there are the hosts of the tree and no others.
  have hlinked (n : NodeId) (hn : d.Reaches c.node n) : d.Linked (hosts d v) n := by
    rcases (hmirrored.reaches_iff hroots).1 hn with rfl | hhost
    · refine ⟨hroots ▸ Document.roots_sublist_hosts d v, ?_⟩
      rw [hroots]
      exact hmirrored.parent_root
    · exact hmirrored.linked n hhost
  refine ⟨?known, ?different, ?mounted, ?lists, ?texts, ?nothing, ?reached, ?parents, ?once⟩
  case known => rwa [hparts]
  case different =>
    rw [hparts, map_el_eq hknown]
    refine List.Nodup.map (fun _ _ => Option.some.inj) ?_
    exact hmirrored.els_sublist_hosts.nodup hrising.nodup
  case mounted =>
    rw [hroots, roots, htree]
    rfl
  case lists =>
    intro w hw tag nodes n hkind hchildren hel
    have hin := helement (hparts ▸ hw) hkind hel
    rw [hchildren] at hin
    exact hin.1
  case texts =>
    intro w hw tag content n hkind hchildren hel
    have hin := helement (hparts ▸ hw) hkind hel
    rw [hchildren] at hin
    replace hin : d.HasText n content := hin
    unfold Document.HasText at hin
    by_cases hempty : content.isEmpty = true
    · rw [if_pos hempty] at hin ⊢
      exact hin
    · rw [if_neg hempty] at hin ⊢
      obtain ⟨m, hm, hnode⟩ := hin
      exact ⟨m, hm, by rw [hnode]⟩
  case nothing =>
    intro w hw tag n hkind hchildren hel
    have hin := helement (hparts ▸ hw) hkind hel
    rw [hchildren] at hin
    exact hin
  case reached =>
    intro n hn
    rw [hels] at hn
    exact (hmirrored.reaches_iff hroots).2 (.inr (hmirrored.els_sublist_hosts.subset hn))
  case parents => exact fun n hn => (hlinked n hn).2
  case once => exact fun n hn => (hlinked n hn).1.nodup hrising.nodup

end Container

/-! ## Many containers -/

namespace Stage

variable {τ : Type} {s s' : Stage τ} {owner : NodeId → Option ContainerId}
  {last : ContainerId → Option VNode} {c : ContainerId} {container container' : Container}

/-- Each container keeps its tree and mirrors it with nodes that it owns.  Of the nodes of
`E`, which are there and no mount nodes, those that host a tree are known to it. -/
structure Reflects (owner : NodeId → Option ContainerId) (last : ContainerId → Option VNode)
    (E : NodeId → Prop) (s : Stage τ) : Prop where
  keeps : s.Keeps owner last
  reflected : ∀ {c container}, s.container? c = some container →
    container.Reflected s.document (fun n => owner n = some c)
  had : ∀ m, E m → s.document.Has m
  apart : ∀ {c container}, s.container? c = some container → ¬ E container.node
  known : ∀ {c container v}, s.container? c = some container → container.tree = some v →
    ∀ m ∈ hosts s.document v, E m → m ∈ v.els

/-- What a render of one container does, all containers survive. -/
theorem Reflects.withRendered {tree : Option VNode} (h : s.Reflects owner last E)
    (hc : s.container? c = some container) (hplain : ∀ v ∈ tree, v.Plain)
    (hrenders : container.Renders (fun n => owner n ≠ none ∨ ¬ s.document.Has n)
      (fun n => owner n = some c) tree s.document container' d') :
    (s.withRendered c container' d').Reflects (claim s.document c owner)
      (lastAfter last c tree) E := by
  have hkeeps := h.keeps.withRendered hc hrenders
  have hnodes := h.keeps.sameNodes hc hrenders
  have hnode : container'.node = container.node := hrenders.2.1
  have hwithin := hrenders.2.2.2.1
  have hnew := Container.render_reflects hplain (h.keeps.has hc) (h.keeps.not_owned hc c)
    ne_none_of_eq_some (fun _ => .inr) h.keeps.owns.fresh (h.keeps.holds hc) (h.reflected hc)
    hrenders
  -- the nodes of another container are left alone
  have hother {c' : ContainerId} {k : Container} (hk : s.container? c' = some k) (hne : c' ≠ c) :
      k.Reflected d' (fun n => claim s.document c owner n = some c') ∧
        ∀ v ∈ k.tree, hosts d' v = hosts s.document v :=
    (h.reflected hk).within hwithin fun m hm has =>
      ⟨(claim_of_has has).trans hm, h.keeps.owned_apart hc hm has hne⟩
  refine ⟨hkeeps, ?reflected, fun m hm => hwithin.has m (h.had m hm), ?apart, ?known⟩
  case reflected =>
    intro c' k hk
    rw [container?_withRendered hc] at hk
    split at hk
    · rename_i heq
      obtain rfl := Option.some.inj hk
      intro v hv
      obtain ⟨hmirrored, hrising, -⟩ := hnew v hv
      rw [hnode]
      refine ⟨hmirrored, hrising.mono ?_ fun _ => id⟩
      intro m hm
      rw [heq]
      exact claim_eq_some hm
    · rename_i hne
      exact (hother hk hne).1
  case apart =>
    intro c' k hk
    obtain ⟨k₀, hk₀, hsame⟩ := hnodes.node hk
    rw [← hsame]
    exact h.apart hk₀
  case known =>
    intro c' k v hk hv m hm hE
    rw [container?_withRendered hc] at hk
    split at hk
    · obtain rfl := Option.some.inj hk
      exact (hnew v hv).known m hm (h.had m hE)
    · rename_i hne
      have hhosts : hosts d' v = hosts s.document v := (hother hk hne).2 v hv
      exact h.known hk hv m (hhosts ▸ hm) hE

/-- **Any render keeps trees and document mirrored.** -/
theorem Reflects.render (h : s.Reflects owner last E) (c : ContainerId) {tree : Option VNode}
    (hplain : ∀ v ∈ tree, v.Plain) :
    ∃ s' owner', s.render c tree = (.ok (), s') ∧ s'.Reflects owner' (lastAfter last c tree) E := by
  cases hc : s.container? c with
  | none =>
    exact ⟨s, owner, render_of_none hc, h.keeps.of_none hc, h.reflected, h.had, h.apart, h.known⟩
  | some container =>
    obtain ⟨container', d', hrenders⟩ := h.keeps.renders hc hplain
    exact ⟨_, _, render_of_some hc hrenders.1, h.withRendered hc hplain hrenders⟩

/-- Calls keep trees and document mirrored. -/
theorem Reflects.renderEach (calls : List (ContainerId × Option VNode))
    (h : s.Reflects owner last E) (hplain : ∀ call ∈ calls, ∀ v ∈ call.2, v.Plain) :
    ∃ s' owner', s.renderEach calls = .ok s' ∧
      s'.Reflects owner' (calls.foldl (fun last call => lastAfter last call.1 call.2) last) E := by
  induction calls generalizing s owner last with
  | nil => exact ⟨s, owner, rfl, h⟩
  | cons call rest ih =>
    obtain ⟨hcall, hrest⟩ := List.forall_mem_cons.1 hplain
    obtain ⟨s₁, owner₁, hrender, h₁⟩ := h.render call.1 hcall
    obtain ⟨s', owner', heach, h'⟩ := ih h₁ hrest
    refine ⟨s', owner', ?_, h'⟩
    rw [Stage.renderEach, hrender]
    exact heach

/-- Nothing is mirrored at first. -/
theorem Vacant.reflects (h : s.Vacant) :
    s.Reflects (fun _ => none) (fun _ => none) fun _ => False where
  keeps := h.keeps
  reflected hc v hv := absurd ((h.blank hc).symm.trans hv) (by simp)
  had _ := False.elim
  apart _ := id
  known _ _ _ _ := False.elim

/-- The nodes that trees know now may be the ones that are followed from now on. -/
theorem Reflects.follow (h : s.Reflects owner last E) :
    s.Reflects owner last fun m => ∃ c container, s.container? c = some container ∧
      m ∈ container.els := by
  have hels {c : ContainerId} {container : Container} (hc : s.container? c = some container)
      {m : NodeId} (hm : m ∈ container.els) :
      ∃ v, container.tree = some v ∧ m ∈ v.els ∧ m ∈ hosts s.document v := by
    cases hv : container.tree with
    | none =>
      rw [Container.els, Container.parts, hv] at hm
      exact absurd hm List.not_mem_nil
    | some v =>
      rw [Container.els, Container.parts, hv] at hm
      exact ⟨v, rfl, hm, (h.reflected hc v hv).1.els_sublist_hosts.subset hm⟩
  have howner {c : ContainerId} {container : Container} (hc : s.container? c = some container)
      {m : NodeId} (hm : m ∈ container.els) : owner m = some c ∧ s.document.Has m := by
    obtain ⟨v, hv, -, hhost⟩ := hels hc hm
    exact (h.reflected hc v hv).2.mem m hhost
  refine ⟨h.keeps, h.reflected, ?_, ?_, ?_⟩
  · rintro m ⟨c, container, hc, hm⟩
    exact (howner hc hm).2
  · rintro c container hc ⟨c', container', hc', hm⟩
    exact absurd ((h.keeps.free hc).symm.trans (howner hc' hm).1) (by simp)
  · rintro c container v hc hv m hm ⟨c', container', hc', hm'⟩
    -- a node has one owner, so the tree that knows it is this one
    have hown := ((h.reflected hc v hv).2.mem m hm).1
    obtain rfl : c = c' := Option.some.inj (hown.symm.trans (howner hc' hm').1)
    obtain rfl := Option.some.inj (hc.symm.trans hc')
    obtain ⟨v', hv', hknown, -⟩ := hels hc hm'
    obtain rfl := Option.some.inj (hv.symm.trans hv')
    exact hknown

/-- Where trees and document are mirrored, each container mirrors its tree. -/
theorem Reflects.mirrors (h : s.Reflects owner last E) (hc : s.container? c = some container) :
    container.Mirrors s.document ∧ container.tree.map VNode.clone = (last c).map VNode.clone := by
  have hholds := h.keeps.holds hc
  cases hlast : last c with
  | none =>
    rw [hlast] at hholds
    exact ⟨Container.mirrors_none hholds.1 hholds.2, by rw [hholds.1]⟩
  | some tree =>
    rw [hlast] at hholds
    obtain ⟨v, htree, hclone, -, hplaced, -⟩ := hholds
    obtain ⟨hmirrored, hrising⟩ := h.reflected hc v htree
    refine ⟨Container.mirrors_some htree hplaced.roots hmirrored hrising, ?_⟩
    rw [htree, Option.map_some, hclone, Option.map_some]

/-- A node that is followed and not known to the tree of a container is not reached from its
mount node. -/
theorem Reflects.not_reaches (h : s.Reflects owner last E)
    (hc : s.container? c = some container) {n : NodeId} (hE : E n) (hn : n ∉ container.els) :
    ¬ s.document.Reaches container.node n := by
  intro hreaches
  have hholds := h.keeps.holds hc
  have hroots : container.tree = none ∧ s.document.children container.node = [] ∨
      ∃ v, container.tree = some v ∧ s.document.children container.node = v.roots := by
    cases hlast : last c with
    | none =>
      rw [hlast] at hholds
      exact .inl hholds
    | some tree =>
      rw [hlast] at hholds
      obtain ⟨v, htree, -, -, hplaced, -⟩ := hholds
      exact .inr ⟨v, htree, hplaced.roots⟩
  rcases hroots with ⟨-, hempty⟩ | ⟨v, htree, hroots⟩
  · rcases Relation.ReflTransGen.cases_head hreaches with rfl | ⟨m, hm, -⟩
    · exact h.apart hc hE
    · rw [hempty] at hm
      exact List.not_mem_nil hm
  · rcases ((h.reflected hc v htree).1.reaches_iff hroots).1 hreaches with rfl | hhost
    · exact h.apart hc hE
    · refine hn ?_
      rw [Container.els, Container.parts, htree]
      exact h.known hc htree n hhost hE

/-- **Trees and document mirror each other by identity.**  Calls for any containers in any
order succeed.  After them each container caches a copy of its last tree and mirrors it, and
what a container's tree knew at some time and the last tree does not know is not reached
from the mount node. -/
theorem renderEach_mirrors (hvacant : s.Vacant) (calls later : List (ContainerId × Option VNode))
    (hplain : ∀ call ∈ calls ++ later, ∀ v ∈ call.2, v.Plain) :
    ∃ s₁ s₂, s.renderEach calls = .ok s₁ ∧ s₁.renderEach later = .ok s₂ ∧
      (∀ c container, s₂.container? c = some container →
        container.tree.map VNode.clone = (lastTree c (calls ++ later)).map VNode.clone ∧
          container.Mirrors s₂.document) ∧
      ∀ c container₁ c' container₂, s₁.container? c = some container₁ →
        s₂.container? c' = some container₂ → ∀ n ∈ container₁.els, n ∉ container₂.els →
          ¬ s₂.document.Reaches container₂.node n := by
  obtain ⟨hcalls, hlater⟩ := List.forall_mem_append.1 hplain
  obtain ⟨s₁, owner₁, heach₁, h₁⟩ := hvacant.reflects.renderEach calls hcalls
  obtain ⟨s₂, owner₂, heach₂, h₂⟩ := h₁.follow.renderEach later hlater
  refine ⟨s₁, s₂, heach₁, heach₂, ?_, ?_⟩
  · intro c container hc
    obtain ⟨hmirrors, htree⟩ := h₂.mirrors hc
    rw [← List.foldl_append] at htree
    exact ⟨htree, hmirrors⟩
  · intro c container₁ c' container₂ hc hc' n hn hnot
    exact h₂.not_reaches hc' ⟨c, container₁, hc, hn⟩ hnot

/-- A list with a nested fragment, and a text in the other container. -/
def listCalls : List (ContainerId × Option VNode) :=
  [(⟨0⟩, some (.h "ul" (.nodes [.h "li" (.text "a"), .fragment [.comment "b", .h "li" .none]]))),
    (⟨1⟩, some (.text "c"))]

/-- The list gets other items, and the text gives way to an element. -/
def itemCalls : List (ContainerId × Option VNode) :=
  [(⟨0⟩, some (.h "ul" (.nodes [.fragment [.text "d", .h "li" (.text "")]]))),
    (⟨1⟩, some (.h "p" (.text "e")))]

/-- Mirrored trees in two containers. -/
theorem renderEach_mirrors_twoContainers :
    twoContainers.Vacant ∧ (∀ call ∈ listCalls ++ itemCalls, ∀ v ∈ call.2, v.Plain) ∧
      ∃ s₁ s₂, twoContainers.renderEach listCalls = .ok s₁ ∧ s₁.renderEach itemCalls = .ok s₂ ∧
        (∀ c container, s₂.container? c = some container →
          container.tree.map VNode.clone =
              (lastTree c (listCalls ++ itemCalls)).map VNode.clone ∧
            container.Mirrors s₂.document) ∧
        ∀ c container₁ c' container₂, s₁.container? c = some container₁ →
          s₂.container? c' = some container₂ → ∀ n ∈ container₁.els, n ∉ container₂.els →
            ¬ s₂.document.Reaches container₂.node n := by
  have hplain : ∀ call ∈ listCalls ++ itemCalls, ∀ v ∈ call.2, v.Plain := by
    simp [listCalls, itemCalls, VNode.h, VNode.element, VNode.text, VNode.comment,
      VNode.fragment, VNode.new, VNode.withChildren, VNode.Plain, VNode.PlainIn,
      VNode.PlainEach, VKind.isComponent, Children.text?]
  exact ⟨twoContainers_vacant, hplain,
    renderEach_mirrors twoContainers_vacant listCalls itemCalls hplain⟩

end Stage
end View
end ReactiveView
