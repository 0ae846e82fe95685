/-
# Where nodes are

Three operations change the children of a node.  An insertion adds one, a text clears
them all and adds itself unless it is empty, and a node that is taken out leaves the
others (`Document.takeOut`).  Rendering puts them together to two things: it *clears* a
node (`Document.Clears`), and it *adds* new nodes that show some scenes
(`Document.Adds`).
-/

import ReactiveView.Proofs.Rendering.Frame

namespace ReactiveView
namespace View
namespace Document

variable {d d' d'' : Document} {n m p : NodeId} {S R : NodeId → Prop}

/-- The node has lost its children, and is as it was otherwise. -/
structure Clears (S : NodeId → Prop) (n : NodeId) (d d' : Document) : Prop where
  within : Within S (fun m => m = n ∨ m ∈ d.children n) d d'
  node : d'.node n = { d.node n with children := [] }
  has : ∀ m, d'.Has m ↔ d.Has m
  listeners : d'.listeners = d.listeners

/-- The node has got new children that show the scenes, and is as it was otherwise. -/
structure Adds (S : NodeId → Prop) (n : NodeId) (scenes : List Scene) (roots : List NodeId)
    (d d' : Document) : Prop where
  within : Within S (fun m => m = n ∨ ¬ d.Has m) d d'
  node : d'.node n = { d.node n with children := d.children n ++ roots }
  shows : d'.ShowsEach (fun m => ¬ d.Has m) roots scenes
  parents : ∀ c ∈ roots, d'.parent c = some n
  listener : d.Owns S → S n → ∀ key l, d.Binds n key l → d'.listener l = d.listener l

/-- A node without children is clear. -/
theorem Clears.refl (h : d.children n = []) : Clears S n d d :=
  ⟨.refl .., by rw [← h]; rfl, fun _ => Iff.rfl, rfl⟩

/-- A cleared node has no children. -/
theorem Clears.empty (h : Clears S n d d') : d'.children n = [] := by
  rw [children, h.node]

/-- A document adds nothing to itself. -/
theorem Adds.refl (S : NodeId → Prop) (n : NodeId) (d : Document) : Adds S n [] [] d d :=
  ⟨.refl .., by rw [List.append_nil]; rfl, .nil, fun _ h => absurd h List.not_mem_nil,
    fun _ _ _ _ _ => rfl⟩

/-- The node binds what it bound before. -/
theorem Adds.binds {scenes : List Scene} {roots : List NodeId} {key : String} {l : ListenerId}
    (h : Adds S n scenes roots d d') (hbinds : d.Binds n key l) : d'.Binds n key l := by
  obtain ⟨e, hdata, hl⟩ := hbinds
  exact ⟨e, by rw [h.node, hdata], hl⟩

/-- What is added first is there still when more is added. -/
theorem Adds.trans {scenes scenes' : List Scene} {roots roots' : List NodeId} (has : d.Has n)
    (hS : ∀ m, ¬ d.Has m → S m) (howns : d.Owns S) (h : Adds S n scenes roots d d')
    (h' : Adds S n scenes' roots' d' d'') :
    Adds S n (scenes ++ scenes') (roots ++ roots') d d'' := by
  have hfresh (m : NodeId) (hm : ¬ d'.Has m) : ¬ d.Has m := fun hd => hm (h.within.has m hd)
  have hold (m : NodeId) (hm : ¬ d.Has m) (hm' : d'.Has m) : ¬ (m = n ∨ ¬ d'.Has m) := by
    rintro (rfl | hnot)
    · exact hm has
    · exact hnot hm'
  refine ⟨?_, ?_, ?_, ?_, ?_⟩
  · refine h.within.trans (h'.within.mono fun m hm => hm.imp_right (hfresh m))
  · rw [h'.node, children, h.node, List.append_assoc]
  · refine .append ?_ ?_
    · exact ShowsEach.within h'.within (h.within.owns howns)
        (fun m hm hm' => ⟨hm, hS m hm, hold m hm hm'⟩) h.shows
    · exact h'.shows.mono hfresh
  · intro c hc
    rcases List.mem_append.1 hc with hc | hc
    · obtain ⟨hm, hm'⟩ := h.shows.mem hc
      rw [parent, h'.within.node c hm' (hold c hm hm')]
      exact h.parents c hc
    · exact h'.parents c hc
  · intro _ hSn key l hbinds
    exact (h'.listener (h.within.owns howns) hSn key l (h.binds hbinds)).trans
      (h.listener howns hSn key l hbinds)

/-! ## Insertion -/

/-- Inserting a node that has no parent at the end of another one. -/
theorem node_insert (hn : d.Has n) (hp : d.Has p) (hne : n ≠ p) (hparent : d.parent n = none)
    (m : NodeId) : (d.insert n p none).node m =
      if m = n then { d.node n with parent := some p }
      else if m = p then { d.node p with children := d.children p ++ [n] }
      else d.node m := by
  have hdetach : (d.record .insert).detach n = (d.record .insert).setParent n none := by
    have hparent' : (d.record .insert).parent n = none := hparent
    simp only [detach, hparent']
  rw [insert, hdetach, setParent, modifyChildren, setParent, node_modifyNode, node_modifyNode,
    node_modifyNode]
  simp only [has_modifyNode, has_record, hn, hp, and_true, node_record]
  by_cases hmn : m = n
  · subst hmn
    simp [hne.symm]
  · by_cases hmp : m = p
    · subst hmp
      simp [hmn, hne, children, insertBefore]
    · simp [Ne.symm hmn, Ne.symm hmp, hmn, hmp]

/-- Moving nodes about leaves listeners alone. -/
theorem listeners_insert (hparent : d.parent n = none) :
    (d.insert n p none).listeners = d.listeners := by
  have hparent' : (d.record .insert).parent n = none := hparent
  simp only [insert, detach, hparent']
  rfl

/-- A node without a parent is inserted within itself and its new parent. -/
theorem within_insert (hn : R n) (hp : R p) (hparent : d.parent n = none) :
    Within S R d (d.insert n p none) := by
  have hparent' : (d.record .insert).parent n = none := hparent
  simp only [insert, detach, hparent']
  exact ((within_record _).trans (within_setParent hn none)).trans
    ((within_modifyChildren hp _).trans (within_setParent hn (some p)))

/-! ## Texts -/

/-- Many parent links are cut one by one; each node loses its own and nothing else. -/
theorem node_foldl_setParent (nodes : List NodeId) (d : Document) (m : NodeId) :
    (nodes.foldl (fun d c => d.setParent c none) d).node m =
      if m ∈ nodes then { d.node m with parent := none } else d.node m := by
  induction nodes generalizing d with
  | nil => rfl
  | cons first rest ih =>
    rw [List.foldl_cons, ih, setParent, node_modifyNode]
    by_cases hm : m = first
    · subst hm
      by_cases has : d.Has m
      · simp [has]
      · simp only [has, and_false, if_false, node_of_not_has has, List.mem_cons_self, if_true]
        split <;> rfl
    · simp [hm, Ne.symm hm]

/-- No node is lost with them. -/
theorem has_foldl_setParent (nodes : List NodeId) (d : Document) (m : NodeId) :
    (nodes.foldl (fun d c => d.setParent c none) d).Has m ↔ d.Has m := by
  induction nodes generalizing d with
  | nil => exact Iff.rfl
  | cons first rest ih => rw [List.foldl_cons, ih, setParent, has_modifyNode]

/-- Nothing but nodes changes when nodes leave their parents. -/
theorem rest_foldl_setParent (nodes : List NodeId) (d : Document) :
    (nodes.foldl (fun d c => d.setParent c none) d).listeners = d.listeners ∧
      (nodes.foldl (fun d c => d.setParent c none) d).clock = d.clock ∧
      (nodes.foldl (fun d c => d.setParent c none) d).ops = d.ops := by
  induction nodes generalizing d with
  | nil => exact ⟨rfl, rfl, rfl⟩
  | cons first rest ih => exact ih _

/-- Cutting the links of nodes of a region stays within it. -/
theorem within_foldl_setParent (nodes : List NodeId) (d : Document) (hR : ∀ c ∈ nodes, R c) :
    Within S R d (nodes.foldl (fun d c => d.setParent c none) d) := by
  induction nodes generalizing d with
  | nil => exact .refl ..
  | cons first rest ih =>
    exact (within_setParent (hR first List.mem_cons_self) none).trans
      (ih _ fun c hc => hR c (List.mem_cons_of_mem _ hc))

/-- The document after all children of a node have left it. -/
def emptied (d : Document) (n : NodeId) (op : HostOp) : Document :=
  (d.children n).foldl (fun d c => d.setParent c none)
    ((d.record op).modifyChildren n fun _ => [])

/-- **Emptying a node clears it**, if it is not its own child. -/
theorem clears_emptied (has : d.Has n) (hself : n ∉ d.children n) (op : HostOp) :
    Clears S n d (d.emptied n op) where
  within := ((within_record op).trans (within_modifyChildren (.inl rfl) _)).trans
    (within_foldl_setParent _ _ fun _ => .inr)
  node := by
    rw [emptied, node_foldl_setParent, if_neg hself, modifyChildren, node_modifyNode,
      if_pos ⟨rfl, has⟩, node_record]
  has m := by rw [emptied, has_foldl_setParent, modifyChildren, has_modifyNode, has_record]
  listeners := (rest_foldl_setParent _ _).1

/-- A new text as the last child. -/
theorem adds_text (has : d.Has n) (content : String) :
    Adds S n [.text content] [(d.create (.text content)).1] d
      (((d.create (.text content)).2.setParent (d.create (.text content)).1
        (some n)).modifyChildren n fun children =>
          children ++ [(d.create (.text content)).1]) := by
  obtain ⟨c, hc⟩ : ∃ c, c = (d.create (.text content)).1 := ⟨_, rfl⟩
  have hnot : ¬ d.Has c := hc ▸ not_has_create d _
  have hne : n ≠ c := fun h => hnot (h ▸ has)
  have hhas (m : NodeId) : (d.create (.text content)).2.Has m ↔ m = c ∨ d.Has m := by
    rw [has_create, ← hc]
  rw [← hc]
  refine ⟨?_, ?_, .cons (.text hnot ?_ ?_) .nil, ?_, fun _ _ _ _ _ => rfl⟩
  · refine (within_create ?_).trans
      ((within_setParent (.inr hnot) _).trans (within_modifyChildren (.inl rfl) _))
    rintro e he
    exact absurd he (by simp)
  · simp [modifyChildren, setParent, node_modifyNode, node_create, hhas, has, hne, hne.symm, ← hc,
      children]
  · simp [modifyChildren, setParent, hhas]
  · simp [modifyChildren, setParent, node_modifyNode, node_create, hhas, hne, ← hc]
  · intro c' hc'
    obtain rfl := List.mem_singleton.1 hc'
    simp [parent, modifyChildren, setParent, node_modifyNode, node_create, hhas, hne, ← hc]

/-- The empty text clears the node. -/
theorem clears_setElementText (has : d.Has n) (hself : n ∉ d.children n) :
    Clears S n d (d.setElementText n "") :=
  clears_emptied has hself _

/-- **A text clears the node and is its only child**, unless it is empty. -/
theorem setElementText_spec (has : d.Has n) (hself : n ∉ d.children n) (content : String) :
    ∃ d₁ roots, Clears S n d d₁ ∧
      Adds S n (if content.isEmpty then [] else [.text content]) roots d₁
        (d.setElementText n content) := by
  have hclears := clears_emptied (S := S) has hself (.setElementText content)
  have heq : d.setElementText n content =
      if content.isEmpty then d.emptied n (.setElementText content)
      else
        (((d.emptied n (.setElementText content)).create (.text content)).2.setParent
          ((d.emptied n (.setElementText content)).create (.text content)).1
            (some n)).modifyChildren n fun children =>
              children ++ [((d.emptied n (.setElementText content)).create (.text content)).1] := by
    simp only [setElementText]
    rfl
  rw [heq]
  split
  · exact ⟨_, [], hclears, .refl ..⟩
  · exact ⟨_, _, hclears, adds_text ((hclears.has n).2 has) content⟩

/-! ## Taking out -/

/-- The node leaves its parent, if it has one. -/
def takeOut (d : Document) (n : NodeId) : Document :=
  match d.parent n with
  | some p => d.remove p n
  | none => d

/-- A removal is seen at the node that goes, which has no parent then, and at the list of the
parent. -/
theorem node_remove (hp : d.Has p) (hne : n ≠ p) (m : NodeId) : (d.remove p n).node m =
    if m = n then { d.node n with parent := none }
    else if m = p then { d.node p with children := (d.children p).filter (· ≠ n) }
    else d.node m := by
  rw [remove, modifyChildren, setParent, node_modifyNode, node_modifyNode]
  simp only [has_modifyNode, has_record, hp, and_true, node_record]
  by_cases hmn : m = n
  · subst hmn
    by_cases hm : d.Has m
    · simp [hm, hne.symm]
    · simp only [hm, and_false, if_false, hne.symm, if_true, node_of_not_has hm]
      rfl
  · by_cases hmp : m = p
    · subst hmp
      simp [hmn, Ne.symm hmn, children]
    · simp [Ne.symm hmn, Ne.symm hmp, hmn, hmp]

/-- The node that goes out of the list stays in the document. -/
theorem has_remove : (d.remove p n).Has m ↔ d.Has m := by
  simp [remove, setParent, modifyChildren]

/-- A removal stays within the two nodes. -/
theorem within_remove (hp : R p) (hn : R n) : Within S R d (d.remove p n) :=
  (within_record _).trans ((within_modifyChildren hp _).trans (within_setParent hn none))

/-- Nodes that are taken out go on binding what they bound. -/
theorem listeners_takeOut (nodes : List NodeId) (d : Document) :
    (nodes.foldl takeOut d).listeners = d.listeners := by
  induction nodes generalizing d with
  | nil => rfl
  | cons first rest ih =>
    rw [List.foldl_cons, ih, takeOut]
    split <;> rfl

/-- A child that is taken out leaves the other children; a node without a parent is taken
out already. -/
theorem takeOut_spec {c : NodeId} (has : d.Has n) (hne : n ≠ c)
    (hparent : d.parent c = some n ∨ d.parent c = none ∧ c ∉ d.children n) :
    Within S (fun m => m = n ∨ m = c) d (d.takeOut c) ∧
      (d.takeOut c).node n = { d.node n with children := (d.children n).filter (· ≠ c) } ∧
      (d.takeOut c).parent c = none ∧
      (∀ m, m ≠ n → m ≠ c → (d.takeOut c).node m = d.node m) ∧
      ∀ m, (d.takeOut c).Has m ↔ d.Has m := by
  rcases hparent with hsome | ⟨hnone, hnot⟩
  · have htake : d.takeOut c = d.remove n c := by
      unfold takeOut
      rw [hsome]
    have hnode := node_remove (d := d) has (Ne.symm hne)
    rw [htake]
    refine ⟨within_remove (.inl rfl) (.inr rfl), ?_, ?_, ?_, fun m => has_remove⟩
    · rw [hnode, if_neg hne, if_pos rfl]
    · rw [parent, hnode, if_pos rfl]
    · intro m hmn hmc
      rw [hnode, if_neg hmc, if_neg hmn]
  · have htake : d.takeOut c = d := by
      unfold takeOut
      rw [hnone]
    have hfilter : (d.children n).filter (· ≠ c) = d.children n := by
      rw [List.filter_eq_self]
      intro m hm
      exact decide_eq_true fun h => hnot (h ▸ hm)
    rw [htake]
    refine ⟨.refl .., ?_, hnone, fun _ _ _ => rfl, fun _ => Iff.rfl⟩
    rw [hfilter]
    rfl

/-- Nodes that leave a parent one after the other leave its other children. -/
theorem takeOut_each (nodes : List NodeId) (d : Document) (has : d.Has n) (hself : n ∉ nodes)
    (hparent : ∀ c ∈ nodes, d.parent c = some n ∨ d.parent c = none ∧ c ∉ d.children n) :
    Within S (fun m => m = n ∨ m ∈ nodes) d (nodes.foldl takeOut d) ∧
      (nodes.foldl takeOut d).node n =
        { d.node n with children := (d.children n).filter (· ∉ nodes) } ∧
      ∀ m, (nodes.foldl takeOut d).Has m ↔ d.Has m := by
  induction nodes generalizing d with
  | nil =>
    have hall : (d.children n).filter (· ∉ []) = d.children n := List.filter_eq_self.2 (by simp)
    exact ⟨.refl .., by rw [List.foldl_nil, hall]; rfl, fun _ => Iff.rfl⟩
  | cons c rest ih =>
    rw [List.mem_cons, not_or] at hself
    obtain ⟨hc, hself⟩ := hself
    obtain ⟨hwithin₁, hn₁, hgone, hother, hhas₁⟩ := takeOut_spec (S := S) has hc
      (hparent c List.mem_cons_self)
    have hkids : (d.takeOut c).children n = (d.children n).filter (· ≠ c) := by
      rw [children, hn₁]
    have hparent₁ : ∀ c' ∈ rest, (d.takeOut c).parent c' = some n ∨
        (d.takeOut c).parent c' = none ∧ c' ∉ (d.takeOut c).children n := by
      intro c' hc'
      rw [hkids, List.mem_filter, decide_eq_true_eq]
      -- A node that is listed twice has left by the time it is its turn again.
      by_cases hcc : c' = c
      · subst hcc
        exact .inr ⟨hgone, fun h => h.2 rfl⟩
      · have hsame : (d.takeOut c).parent c' = d.parent c' := by
          rw [parent, hother c' (fun h => hself (h ▸ hc')) hcc, parent]
        rw [hsame]
        refine (hparent c' (List.mem_cons_of_mem _ hc')).imp_right ?_
        rintro ⟨hnone, hnot⟩
        exact ⟨hnone, fun hmem => hnot hmem.1⟩
    obtain ⟨hwithin, hn, hhas⟩ := ih (d.takeOut c) ((hhas₁ n).2 has) hself hparent₁
    rw [List.foldl_cons]
    refine ⟨?_, ?_, fun m => (hhas m).trans (hhas₁ m)⟩
    · refine (hwithin₁.mono ?_).trans (hwithin.mono ?_)
      · rintro m (rfl | rfl)
        · exact .inl rfl
        · exact .inr List.mem_cons_self
      · rintro m (rfl | hm)
        · exact .inl rfl
        · exact .inr (List.mem_cons_of_mem _ hm)
    · have hfilter : ((d.children n).filter (· ≠ c)).filter (· ∉ rest) =
          (d.children n).filter (· ∉ c :: rest) := by
        rw [List.filter_filter]
        refine List.filter_congr ?_
        intro m _
        by_cases hm : m ∈ rest <;> simp [hm]
      rw [hn, hkids, hn₁, hfilter]

/-- **Taking all children out clears the node.** -/
theorem clears_takeOut {nodes : List NodeId} (has : d.Has n) (hself : n ∉ nodes)
    (hchildren : d.children n = nodes) (hparent : ∀ c ∈ nodes, d.parent c = some n) :
    Clears S n d (nodes.foldl takeOut d) := by
  obtain ⟨hwithin, hnode, hhas⟩ := takeOut_each (S := S) nodes d has hself fun c hc =>
    .inl (hparent c hc)
  refine ⟨?_, ?_, hhas, listeners_takeOut nodes d⟩
  · rw [hchildren]
    exact hwithin
  · rw [hnode, hchildren]
    simp

/-- To clear in two stages. -/
theorem Clears.trans (h : Clears S n d d') (h' : Clears S n d' d'') : Clears S n d d'' where
  within := h.within.trans (h'.within.mono fun m hm => by
    rw [h.empty] at hm
    exact .inl (hm.resolve_right List.not_mem_nil))
  node := by rw [h'.node, h.node]
  has m := (h'.has m).trans (h.has m)
  listeners := h'.listeners.trans h.listeners

/-! ## Clearing and adding -/

/-- New children in place of the old ones. -/
structure Replaces (S : NodeId → Prop) (n : NodeId) (scenes : List Scene) (roots : List NodeId)
    (d d' : Document) : Prop where
  within : Within S (fun m => m = n ∨ m ∈ d.children n ∨ ¬ d.Has m) d d'
  node : d'.node n = { d.node n with children := roots }
  shows : d'.ShowsEach (fun m => ¬ d.Has m) roots scenes
  parents : ∀ c ∈ roots, d'.parent c = some n
  listener : d.Owns S → S n → ∀ key l, d.Binds n key l → d'.listener l = d.listener l

/-- What the node has for children are the new roots. -/
theorem Replaces.roots {scenes : List Scene} {roots : List NodeId}
    (h : Replaces S n scenes roots d d') : d'.children n = roots := by
  rw [children, h.node]

/-- **To clear and then to add is to replace.** -/
theorem Clears.adds {scenes : List Scene} {roots : List NodeId} (h : Clears S n d d')
    (hadds : Adds S n scenes roots d' d'') : Replaces S n scenes roots d d'' := by
  have hregion : (fun m => ¬ d'.Has m) = fun m => ¬ d.Has m := by
    funext m
    rw [h.has m]
  refine ⟨?_, ?_, hregion ▸ hadds.shows, hadds.parents, ?_⟩
  · refine (h.within.mono fun m hm => hm.imp_right .inl).trans (hadds.within.mono ?_)
    intro m hm
    rw [h.has m] at hm
    exact hm.imp_right .inr
  · rw [hadds.node, children, h.node, List.nil_append]
  · intro howns hSn key l hbinds
    have hbinds' : d'.Binds n key l := by
      obtain ⟨e, hdata, hl⟩ := hbinds
      exact ⟨e, by rw [h.node, hdata], hl⟩
    rw [hadds.listener (h.within.owns howns) hSn key l hbinds', listener, listener, h.listeners]

/-- Without old children nothing is replaced. -/
theorem Replaces.adds {scenes : List Scene} {roots : List NodeId}
    (h : Replaces S n scenes roots d d') (hempty : d.children n = []) :
    Adds S n scenes roots d d' := by
  refine ⟨h.within.mono ?_, ?_, h.shows, h.parents, h.listener⟩
  · intro m hm
    rw [hempty] at hm
    exact hm.imp_right fun hm => hm.resolve_left List.not_mem_nil
  · rw [h.node, hempty, List.nil_append]

end Document
end View
end ReactiveView
