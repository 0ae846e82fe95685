/-
# Nodes that go

A node of the document holds its children, but not its parent.  When its last handle goes, a
node that is no child of another one goes as well, and nobody has it for an ancestor any more
(`Document.not_mem_ancestors_letGo`).  Apart from that nothing changes (`Document.node_letGo`):
what is shown is listed and goes on being shown (`Document.Shows.letGo`), and so every container
goes on showing its last tree (`Stage.Keeps.letGo`).
-/

import ReactiveView.Proofs.Rendering.Html

namespace ReactiveView
namespace View

variable {d : Document} {n m p : NodeId} {A : NodeId → Prop}

namespace Document

/-! ## Orphans -/

/-- A node that is not there has no parent. -/
theorem has_of_parent (h : d.parent n = some p) : d.Has n := by
  refine Decidable.byContradiction fun hnot => ?_
  rw [parent, node_of_not_has hnot] at h
  exact Option.some_ne_none p h.symm

/-- A node loses its parent link if it is to this parent. -/
theorem node_orphan (p : NodeId) (d : Document) (n m : NodeId) :
    (orphan p d n).node m =
      if n = m ∧ d.parent m = some p then { d.node m with parent := none } else d.node m := by
  unfold orphan
  by_cases hp : d.parent n = some p
  · rw [if_pos hp, setParent, node_modifyNode]
    by_cases hnm : n = m
    · subst hnm
      rw [if_pos ⟨rfl, has_of_parent hp⟩, if_pos ⟨rfl, hp⟩]
    · rw [if_neg fun h => hnm h.1, if_neg fun h => hnm h.1]
  · rw [if_neg hp, if_neg]
    rintro ⟨rfl, hp'⟩
    exact hp hp'

/-- Of several nodes those lose their parent that have `p` for it. -/
theorem node_foldl_orphan (p : NodeId) (nodes : List NodeId) (d : Document) (m : NodeId) :
    (nodes.foldl (orphan p) d).node m =
      if m ∈ nodes ∧ d.parent m = some p then { d.node m with parent := none } else d.node m := by
  induction nodes generalizing d with
  | nil => simp
  | cons first rest ih =>
    have hfirst := node_orphan p d first m
    rw [List.foldl_cons, ih, parent, hfirst]
    by_cases hp : d.parent m = some p
    · by_cases hm : first = m
      · simp [hm, hp]
      · have hparent : (d.node m).parent = some p := hp
        simp [hm, Ne.symm hm, hp, hparent]
    · have hparent : (d.node m).parent ≠ some p := hp
      simp [hp, hparent]

/-- Nothing but nodes changes when nodes lose their parent. -/
theorem rest_foldl_orphan (p : NodeId) (nodes : List NodeId) (d : Document) :
    (nodes.foldl (orphan p) d).nodes.size = d.nodes.size ∧
      (nodes.foldl (orphan p) d).listeners = d.listeners := by
  induction nodes generalizing d with
  | nil => exact ⟨rfl, rfl⟩
  | cons first rest ih =>
    obtain ⟨hsize, hlisteners⟩ := ih (orphan p d first)
    rw [List.foldl_cons, hsize, hlisteners, orphan]
    split
    · exact ⟨by simp [setParent, modifyNode], rfl⟩
    · exact ⟨rfl, rfl⟩

/-! ## What goes with a node -/

/-- A node that is listed stays. -/
theorem letGo_of_isListed (h : d.isListed n = true) : d.letGo n = d := if_pos h

/-- What is not listed is a child of no node. -/
theorem not_mem_children (h : d.isListed n = false) (m : NodeId) : n ∉ d.children m := by
  intro hmem
  have has : m.index < d.nodes.size := Decidable.byContradiction fun hnot => by
    rw [children, node_of_not_has hnot] at hmem
    exact List.not_mem_nil hmem
  have hnode : d.node m = d.nodes[m.index] := by
    simp only [node, Array.getD_eq_getD_getElem?, Array.getElem?_eq_getElem has, Option.getD_some]
  have hlisted : d.isListed n = true := by
    refine Array.any_eq_true.2 ⟨m.index, has, ?_⟩
    rw [children, hnode] at hmem
    exact List.contains_iff_mem.2 hmem
  exact absurd (hlisted.symm.trans h) (by simp)

/-- **What goes with a node that is not listed**: its children, and the links of those that had
it for a parent. -/
theorem node_letGo (h : d.isListed n = false) (m : NodeId) :
    (d.letGo n).node m =
      { data := (d.node m).data
        parent := if d.parent m = some n then none else d.parent m
        children := if m = n then [] else d.children m } := by
  have hletGo : d.letGo n =
      ((List.range d.nodes.size).map NodeId.mk).foldl (orphan n)
        (d.modifyChildren n fun _ => []) := if_neg (by simp [h])
  have hnode : (d.modifyChildren n fun _ => []).node m =
      { d.node m with children := if m = n then [] else d.children m } := by
    rw [modifyChildren, node_modifyNode]
    by_cases hnm : m = n
    · subst hnm
      by_cases has : d.Has m
      · simp [has]
      · have hempty : (d.node m).children = [] := by
          rw [node_of_not_has has]
          rfl
        rw [if_neg fun h => has h.2, if_pos rfl, ← hempty]
    · rw [if_neg fun h => hnm h.1.symm, if_neg hnm, children]
  have hparent : (d.modifyChildren n fun _ => []).parent m = d.parent m := by
    rw [parent, hnode, parent]
  rw [hletGo, node_foldl_orphan, hparent, hnode]
  by_cases hp : d.parent m = some n
  · have hmem : m ∈ (List.range d.nodes.size).map NodeId.mk :=
      List.mem_map.2 ⟨m.index, List.mem_range.2 (has_of_parent hp), rfl⟩
    rw [if_pos ⟨hmem, hp⟩, if_pos hp]
  · rw [if_neg fun h => hp h.2, if_neg hp, parent]

/-- The identity of a node that goes still stands for it. -/
theorem has_letGo (d : Document) (n m : NodeId) : (d.letGo n).Has m ↔ d.Has m := by
  unfold letGo Has
  split
  · exact Iff.rfl
  · rw [(rest_foldl_orphan ..).1]
    simp [modifyChildren, modifyNode]

/-- What it binds stays bound. -/
theorem listeners_letGo (d : Document) (n : NodeId) : (d.letGo n).listeners = d.listeners := by
  unfold letGo
  split
  · rfl
  · exact (rest_foldl_orphan ..).2

/-- What a node is does not change when another one goes, nor when it goes itself. -/
theorem data_letGo (d : Document) (n m : NodeId) :
    ((d.letGo n).node m).data = (d.node m).data := by
  cases h : d.isListed n with
  | true => rw [letGo_of_isListed h]
  | false => rw [node_letGo h]

/-- The other nodes keep their children. -/
theorem children_letGo (d : Document) (hne : m ≠ n) :
    (d.letGo n).children m = d.children m := by
  cases h : d.isListed n with
  | true => rw [letGo_of_isListed h]
  | false => rw [children, node_letGo h, if_neg hne]

/-- Other links to parents last. -/
theorem parent_letGo (h : d.parent m = some p) (hne : p ≠ n) :
    (d.letGo n).parent m = some p := by
  cases hlisted : d.isListed n with
  | true => rw [letGo_of_isListed hlisted, h]
  | false =>
    rw [parent, node_letGo hlisted, h, if_neg fun heq => hne (Option.some.inj heq)]

/-- **A node that has gone is nobody's ancestor**, so no event comes to it any more. -/
theorem not_mem_ancestors_letGo (h : d.isListed n = false) (m : NodeId) :
    n ∉ (d.letGo n).ancestors m := by
  have hchain (length : Nat) (m : NodeId) : n ∉ (d.letGo n).ancestorsTo length m := by
    induction length generalizing m with
    | zero => exact List.not_mem_nil
    | succ length ih =>
      have hparent : (d.letGo n).parent m ≠ some n := by
        rw [parent, node_letGo h]
        dsimp only
        split
        · exact (Option.some_ne_none n).symm
        · assumption
      rw [ancestorsTo]
      cases hp : (d.letGo n).parent m with
      | none => exact List.not_mem_nil
      | some q =>
        have hne : n ≠ q := fun heq => hparent (heq ▸ hp)
        exact List.not_mem_cons_of_ne_of_not_mem hne (ih q)
  exact hchain _ m

/-! ## What is shown -/

theorem look_letGo (d : Document) (n : NodeId) (e : Element) : (d.letGo n).look e = d.look e :=
  look_congr fun _ _ _ => by rw [listener, listeners_letGo, listener]

mutual

/-- What is shown by other nodes goes on being shown: their parts are listed. -/
theorem Shows.letGo (h : d.isListed n = false) : ∀ {m : NodeId} {s : Scene}, d.Shows A m s →
    m ≠ n → (d.letGo n).Shows A m s
  | m, _, .element (e := e) mem has data newer each, hne => by
    have hchildren := d.children_letGo hne
    rw [← look_letGo d n e]
    refine .element mem ((has_letGo d n m).2 has) ((data_letGo d n m).trans data) ?_ ?_
    · rwa [hchildren]
    · rw [hchildren]
      exact ShowsEach.letGo h each fun c hc heq => not_mem_children h m (heq ▸ hc)
  | m, _, .text mem has data, _ =>
    .text mem ((has_letGo d n m).2 has) ((data_letGo d n m).trans data)
  | m, _, .comment mem has data, _ =>
    .comment mem ((has_letGo d n m).2 has) ((data_letGo d n m).trans data)

/-- Scenes are shown as before when another node goes. -/
theorem ShowsEach.letGo (h : d.isListed n = false) : ∀ {nodes : List NodeId}
    {scenes : List Scene}, d.ShowsEach A nodes scenes → (∀ m ∈ nodes, m ≠ n) →
      (d.letGo n).ShowsEach A nodes scenes
  | _, _, .nil, _ => .nil
  | _, _, .cons head tail, hne =>
    .cons (Shows.letGo h head (hne _ List.mem_cons_self))
      (ShowsEach.letGo h tail fun m hm => hne m (List.mem_cons_of_mem _ hm))

end

/-- A mounted tree stays mounted. -/
theorem Placed.letGo {v : VNode} (h : d.isListed n = false) (hp : p ≠ n) (hplaced : d.Placed p v)
    (hshows : d.ShowsEach A (d.children p) v.scenes) : (d.letGo n).Placed p v := by
  have hchildren := d.children_letGo hp
  refine ⟨hplaced.mounted, hchildren.trans hplaced.roots,
    fun c hc => parent_letGo (hplaced.parents c hc) hp, ?_⟩
  intro tag el hkind hel
  obtain ⟨kind, props, children, el'⟩ := v
  obtain rfl : kind = .element tag := hkind
  obtain ⟨m, hm, hroots, -, -⟩ := VNode.placed_single hplaced hshows (by simp) rfl
  obtain rfl : m = el := Option.some.inj (hm.symm.trans hel)
  have hne : m ≠ n := by
    rintro rfl
    exact not_mem_children h p (hroots ▸ List.mem_singleton_self m)
  have hfilled := hplaced.filled tag m rfl hel
  cases children with
  | none => exact (d.children_letGo hne).trans hfilled
  | text content => trivial
  | nodes nodes =>
    obtain ⟨hmounted, hroots', hparents⟩ := hfilled
    exact ⟨hmounted, (d.children_letGo hne).trans hroots',
      fun c hc => parent_letGo (hparents c hc) hne⟩

end Document

/-- A container goes on showing its tree. -/
theorem Container.Holds.letGo {c : Container} {last : Option VNode} (h : d.isListed n = false)
    (hnode : c.node ≠ n) (hholds : c.Holds d A last) : c.Holds (d.letGo n) A last := by
  have hchildren := d.children_letGo hnode
  cases last with
  | none => exact ⟨hholds.1, hchildren.trans hholds.2⟩
  | some last =>
    obtain ⟨v, htree, hclone, hplain, hplaced, hshows⟩ := hholds
    have hscenes := VNode.scenes_of_clone hclone
    refine ⟨v, htree, hclone, hplain, hplaced.letGo h hnode (hscenes ▸ hshows), ?_⟩
    rw [hchildren]
    exact hshows.letGo h fun m hm heq => Document.not_mem_children h c.node (heq ▸ hm)

namespace Stage

variable {τ : Type} {s : Stage τ} {owner : NodeId → Option ContainerId}
  {last : ContainerId → Option VNode}

/-- A node goes that no container holds, or nothing happens. -/
theorem letGo_cases (s : Stage τ) (n : NodeId) :
    s.letGo n = s ∨ s.document.isListed n = false ∧
      (∀ {c container}, s.container? c = some container → container.node ≠ n) ∧
      s.letGo n = s.modifyDocument (·.letGo n) := by
  unfold letGo
  split
  · exact .inl rfl
  · rename_i hfree
    cases h : s.document.isListed n with
    | true =>
      refine .inl ?_
      rw [modifyDocument, Document.letGo_of_isListed h]
    | false =>
      refine .inr ⟨rfl, fun {c container} hc heq => hfree ?_, rfl⟩
      obtain ⟨hlt, hget⟩ := Array.getElem?_eq_some_iff.1 hc
      refine Array.any_eq_true.2 ⟨c.index, hlt, ?_⟩
      rw [hget, Container.held, heq]
      exact List.contains_iff_mem.2 List.mem_cons_self

/-- **Every container goes on showing its last tree** when a node goes. -/
theorem Keeps.letGo (h : s.Keeps owner last) (n : NodeId) : (s.letGo n).Keeps owner last := by
  rcases s.letGo_cases n with hsame | ⟨hlisted, hnode, hletGo⟩
  · rwa [hsame]
  have hbinds {m : NodeId} {key : String} {l : ListenerId}
      (hb : (s.document.letGo n).Binds m key l) : s.document.Binds m key l := by
    obtain ⟨e, hdata, hget⟩ := hb
    exact ⟨e, (Document.data_letGo s.document n m).symm.trans hdata, hget⟩
  rw [hletGo]
  refine ⟨fun hc => (Document.has_letGo s.document n _).2 (h.has hc), h.free, h.apart, h.newer,
    ?_, fun hc => (h.holds hc).letGo hlisted (hnode hc)⟩
  intro m key l hm hb
  obtain ⟨hlt, hunique⟩ := h.owns m key l hm (hbinds hb)
  refine ⟨?_, fun m' key' hm' hb' => hunique m' key' hm' (hbinds hb')⟩
  show l.index < (s.document.letGo n).listeners.size
  rwa [Document.listeners_letGo]

/-- **A container shows the same when a node goes**, be it its own. -/
theorem Holds.letGo {c : ContainerId} {tag : String} {last : Option VNode}
    (h : s.Holds c tag last) (n : NodeId) : (s.letGo n).Holds c tag last := by
  obtain ⟨owner, trees, hkeeps, hlast⟩ := h.keeps
  obtain ⟨k, hk, hdata⟩ := h.container
  have hkeeps' := hkeeps.letGo n
  rcases s.letGo_cases n with hsame | ⟨-, -, hletGo⟩
  · rwa [hsame]
  · rw [hletGo] at hkeeps' ⊢
    exact ⟨⟨owner, trees, hkeeps', hlast⟩, k, hk,
      (Document.data_letGo s.document n k.node).trans hdata⟩

end Stage
end View
end ReactiveView
