/-
# Taking a tree down

A fragment has no node of its own.  What leaves the document with a tree are therefore the nodes
of its *outermost* virtual nodes (`VNode.outermost`): those that are reached from the root
through fragments only, from the left to the right.

In a container after any renders these nodes are different and are all that the mount node has
for children.  So each is removed from it once, in order, whatever the removals before it have
changed, and nothing else is done (`Document.TakesDown`): the mount node is left empty, and a
removed node keeps what is below it, as that is linked by children that no removal touches
(`Document.treeTo_congr`).

The same removals stand before the mounting of a root of another kind
(`Stage.render_takes_down`).
-/

import ReactiveView.Proofs.Rendering.Reuse

namespace ReactiveView
namespace View

variable {d d' : Document} {n p : NodeId}

namespace VNode

/-! ## Outermost virtual nodes -/

mutual

/-- The elements, texts and comments that are reached from the root of a tree through fragments
only, from the left to the right. -/
def outermost : VNode → List VNode
  | mk kind props children el =>
    match kind with
    | .fragment => outermostIn children
    | _ => [mk kind props children el]

/-- The outermost virtual nodes among children. -/
def outermostIn : Children → List VNode
  | .none => []
  | .text _ => []
  | .nodes nodes => outermostEach nodes

/-- The outermost virtual nodes of several trees. -/
def outermostEach : List VNode → List VNode
  | [] => []
  | v :: rest => outermost v ++ outermostEach rest

end

/-- A node of its own is the outermost one. -/
theorem map_el_single {v : VNode} (h : v.el.isSome = true) :
    [v].map el = v.el.toList.map some := by
  obtain ⟨n, hn⟩ := Option.isSome_iff_exists.1 h
  simp [hn]

mutual

/-- The roots of a mounted tree are the nodes of its outermost virtual nodes. -/
theorem map_el_outermost : ∀ {v : VNode}, v.Mounted → v.outermost.map el = v.roots.map some
  | mk (.element _) _ _ _, h => map_el_single h
  | mk .text _ _ _, h => map_el_single h
  | mk .comment _ _ _, h => map_el_single h
  | mk .fragment _ .none _, _ => rfl
  | mk .fragment _ (.text _) _, _ => rfl
  | mk .fragment _ (.nodes _) _, h => map_el_outermostEach h
  | mk (.component _) _ _ _, h => h.elim

/-- The outermost virtual nodes of several trees know the roots, in order. -/
theorem map_el_outermostEach : ∀ {nodes : List VNode}, MountedEach nodes →
    (outermostEach nodes).map el = (rootsEach nodes).map some
  | [], _ => rfl
  | v :: rest, ⟨hv, hrest⟩ => by
    rw [outermostEach, rootsEach, List.map_append, List.map_append, map_el_outermost hv,
      map_el_outermostEach hrest]

end

end VNode

namespace Document

open VNode (hosts roots)

/-! ## Removals one after the other -/

/-- A tree goes by what its nodes are and which children they have. -/
theorem treeTo_congr (levels : Nat) (h : ∀ m, d.Reaches n m →
    (d'.node m).data = (d.node m).data ∧ d'.children m = d.children m) :
    d'.treeTo levels n = d.treeTo levels n := by
  induction levels generalizing n with
  | zero => rfl
  | succ levels ih =>
    obtain ⟨hdata, hchildren⟩ := h n .refl
    have hbelow : (d.children n).map (d'.treeTo levels) = (d.children n).map (d.treeTo levels) :=
      List.map_congr_left fun c hc => ih fun m hm => h m (.head hc hm)
    simp only [treeTo, hdata, hchildren, hbelow]

/-- A node that is taken out stays in the document. -/
theorem size_remove (d : Document) (p n : NodeId) :
    (d.remove p n).nodes.size = d.nodes.size := by
  simp [remove, setParent, modifyChildren, modifyNode, record]

/-- Removing several nodes leaves the number of nodes as it is. -/
theorem size_removeEach (ns : List NodeId) (d : Document) (p : NodeId) :
    (d.perform (ns.map (.remove p))).nodes.size = d.nodes.size := by
  induction ns generalizing d with
  | nil => rfl
  | cons c rest ih => exact (ih (d.remove p c)).trans (size_remove d p c)

/-- **Removals from a node** take the removed nodes their parent and the node these children, and
change nothing else. -/
theorem node_removeEach {ns : List NodeId} (has : d.Has p) (hnot : p ∉ ns) (m : NodeId) :
    (d.perform (ns.map (.remove p))).node m =
      if m ∈ ns then { d.node m with parent := none }
      else if m = p then { d.node p with children := (d.children p).filter (· ∉ ns) }
      else d.node m := by
  induction ns generalizing d with
  | nil =>
    have hall : (d.children p).filter (· ∉ []) = d.children p := List.filter_eq_self.2 (by simp)
    rw [hall]
    by_cases hm : m = p
    · subst hm
      simp [perform, children]
    · simp [perform, hm]
  | cons c rest ih =>
    rw [List.mem_cons, not_or] at hnot
    obtain ⟨hpc, hnot⟩ := hnot
    have hnode := node_remove has (Ne.symm hpc)
    have hself : (d.remove p c).node p =
        { d.node p with children := (d.children p).filter (· ≠ c) } := by
      rw [hnode, if_neg hpc, if_pos rfl]
    have hfilter : ((d.children p).filter (· ≠ c)).filter (· ∉ rest) =
        (d.children p).filter (· ∉ c :: rest) := by
      rw [List.filter_filter]
      refine List.filter_congr fun m _ => ?_
      by_cases hm : m ∈ rest <;> simp [hm]
    have hrest := ih (d := d.remove p c) (has_remove.2 has) hnot
    rw [children, hself, hfilter] at hrest
    refine hrest.trans ?_
    by_cases hmc : m = c
    · subst hmc
      simp [hnode, Ne.symm hpc]
    · by_cases hmp : m = p
      · subst hmp
        simp [hnot, hpc]
      · simp [hnode, hmc, hmp]

/-- The nodes are removed from `p`, one after the other, and nothing else is done; they were all
of its children. -/
structure TakesDown (p : NodeId) (ns : List NodeId) (d d' : Document) : Prop where
  performs : d' = d.perform (ns.map (.remove p))
  /-- What is recorded. -/
  log : d'.ops.toList = d.ops.toList ++ ns.map fun _ => .remove
  /-- Nothing is left. -/
  empty : d'.children p = []
  /-- What has left has no parent, -/
  parent : ∀ n ∈ ns, d'.parent n = none
  /-- and all that it had below it. -/
  tree : ∀ n ∈ ns, d'.tree n = d.tree n

/-- **A mirrored tree is taken down** by the removal of its roots. -/
theorem Mirrored.takesDown {A : NodeId → Prop} {v : VNode} (h : d.Mirrored p v)
    (hrising : d.Rising A (hosts d v)) (has : d.Has p) (hp : ¬ A p)
    (hchildren : d.children p = roots v) :
    TakesDown p (roots v) d (d.perform ((roots v).map (.remove p))) := by
  have hhosts : ∀ m ∈ hosts d v, m ≠ p := by
    rintro m hm rfl
    exact hp (hrising.mem m hm).1
  have hroots := (roots_sublist_hosts d v).subset
  have hnode := node_removeEach has fun hmem => hhosts p (hroots hmem) rfl
  have hkept : ∀ m ∈ hosts d v,
      ((d.perform ((roots v).map (.remove p))).node m).data = (d.node m).data ∧
        (d.perform ((roots v).map (.remove p))).children m = d.children m := by
    intro m hm
    rw [children, hnode m, if_neg (hhosts m hm)]
    split <;> exact ⟨rfl, rfl⟩
  refine ⟨rfl, ?log, ?empty, ?parent, ?tree⟩
  case log =>
    rw [ops_perform (by simp), Operation.recorded_map fun _ => rfl]
  case empty =>
    rw [children, hnode p, if_neg fun hmem => hhosts p (hroots hmem) rfl, if_pos rfl, hchildren]
    simp
  case parent =>
    intro n hn
    rw [parent, hnode n, if_pos hn]
  case tree =>
    intro n hn
    -- the children of hosts are hosts, so that no removal is from a node below `n`
    have hreached : ∀ m, d.Reaches n m → m ∈ hosts d v := by
      intro m hm
      induction hm with
      | refl => exact hroots hn
      | tail _ hchild ih => exact (h.linked _ ih).1.subset hchild
    rw [tree, tree, size_removeEach]
    exact treeTo_congr _ fun m hm => hkept m (hreached m hm)

end Document

open Document (Builds TakesDown)

namespace VNode

/-- A tree of another kind is mounted once the old one has left. -/
theorem patch_runs_of_kind_ne {S : NodeId → Prop} {old new : VNode} (hkind : new.kind ≠ old.kind)
    (hnew : new.component? = none) (hruns : Runs old.unmount d () d')
    (hS : ∀ m, ¬ d'.Has m → S m) :
    ∃ v' mounting, Runs (patch p (some old) new) d v' (d'.perform mounting) ∧
      v'.clone = new.clone ∧ Builds S p new.mountLog mounting := by
  obtain ⟨v', mounting, hmount, hclone, hbuilds⟩ := mount_performs new p d' hnew hS
  refine ⟨v', mounting, ?_, hclone, hbuilds⟩
  simp only [patch, ne_eq, Ne.symm hkind, not_false_eq_true, if_true]
  exact hruns.bind hmount

end VNode

/-! ## After any renders -/

namespace Stage

variable {τ : Type} {s : Stage τ} {c : ContainerId} {container : Container}

/-- **Taking a tree down removes exactly the nodes of its outermost virtual nodes.**  Take a
container after any renders that holds a tree.  To render nothing is to remove, one after the
other, the nodes of the outermost virtual nodes of the tree, which are different, and the
container holds no tree then.  To render a tree without components whose root is of another kind
is to remove the same nodes in the same way and then to mount the tree. -/
theorem render_takes_down (h : s.Reachable) (hc : s.container? c = some container) {old : VNode}
    (htree : container.tree = some old) :
    ∃ ns d', old.outermost.map VNode.el = ns.map some ∧ ns.Nodup ∧
      s.render c none = (.ok (), s.withRendered c ⟨container.node, none⟩ d') ∧
      TakesDown container.node ns s.document d' ∧
      ∀ new : VNode, new.component? = none → new.kind ≠ old.kind → ∃ v' mounting,
        s.render c (some new) = (.ok (),
          s.withRendered c ⟨container.node, some v'⟩ (d'.perform mounting)) ∧
        v'.clone = new.clone ∧
        Builds (fun m => ¬ s.document.Has m) container.node new.mountLog mounting ∧
        (d'.perform mounting).ops.toList =
          s.document.ops.toList ++ ((ns.map fun _ => .remove) ++ new.mountLog) := by
  obtain ⟨owner, last, hreflects⟩ := h.reflects
  obtain ⟨hmirrored, hrising⟩ := hreflects.reflected hc old htree
  have hplaced := hreflects.keeps.placed hc htree
  have hfree : ¬ owner container.node = some c := by
    rw [hreflects.keeps.free hc]
    exact (Option.some_ne_none c).symm
  have hdifferent : old.roots.Nodup :=
    (Document.roots_sublist_hosts s.document old).nodup hrising.nodup
  have htakes := hmirrored.takesDown hrising (hreflects.keeps.has hc) hfree hplaced.roots
  have hruns := VNode.unmount_runs old hplaced.mounted s.document
  rw [Document.foldl_takeOut_eq hdifferent hplaced.parents] at hruns
  refine ⟨old.roots, _, VNode.map_el_outermost hplaced.mounted, hdifferent,
    render_of_some hc (Container.render_none_of_runs htree hruns), htakes, ?_⟩
  intro new hnew hkind
  obtain ⟨v', mounting, hpatch, hclone, hbuilds⟩ :=
    VNode.patch_runs_of_kind_ne (p := container.node) hkind hnew hruns
      (Document.fresh_perform (fun _ => id) _)
  rw [← htree] at hpatch
  refine ⟨v', mounting, render_of_some hc (Container.render_some_of_runs hnew hpatch), hclone,
    hbuilds, ?_⟩
  rw [Document.ops_perform hbuilds.clearOps_not_mem, htakes.log, hbuilds.log, List.append_assoc]

/-- A text and a comment around an element, in nested fragments, two of them empty. -/
def nestedFragments : VNode :=
  .fragment [.fragment [], .text "a",
    .fragment [.h "p" (.nodes [.text "b", .fragment [.text "c"]]), .new .fragment none .none],
    .comment "d"]

/-- Three nodes are removed, and a paragraph can take their place. -/
theorem render_takes_down_nestedFragments :
    (twoContainers.render ⟨0⟩ (some nestedFragments)).2.Reachable ∧ ∃ container old,
      (twoContainers.render ⟨0⟩ (some nestedFragments)).2.container? ⟨0⟩ = some container ∧
      container.tree = some old ∧ ∃ ns d', old.outermost.map VNode.el = ns.map some ∧ ns.Nodup ∧
        ns.length = 3 ∧
        (twoContainers.render ⟨0⟩ (some nestedFragments)).2.render ⟨0⟩ none =
          (.ok (), (twoContainers.render ⟨0⟩ (some nestedFragments)).2.withRendered ⟨0⟩
            ⟨container.node, none⟩ d') ∧
        TakesDown container.node ns
          (twoContainers.render ⟨0⟩ (some nestedFragments)).2.document d' ∧
        oneText.component? = none ∧ oneText.kind ≠ old.kind ∧ ∃ v' mounting,
          (twoContainers.render ⟨0⟩ (some nestedFragments)).2.render ⟨0⟩ (some oneText) =
            (.ok (), (twoContainers.render ⟨0⟩ (some nestedFragments)).2.withRendered ⟨0⟩
              ⟨container.node, some v'⟩ (d'.perform mounting)) ∧
          v'.clone = oneText.clone ∧
          Builds
            (fun m => ¬ (twoContainers.render ⟨0⟩ (some nestedFragments)).2.document.Has m)
            container.node oneText.mountLog mounting ∧
          (d'.perform mounting).ops.toList =
            (twoContainers.render ⟨0⟩ (some nestedFragments)).2.document.ops.toList ++
              ((ns.map fun _ => .remove) ++ oneText.mountLog) := by
  have hreachable : (twoContainers.render ⟨0⟩ (some nestedFragments)).2.Reachable := by
    refine (Reachable.vacant twoContainers_vacant).render ⟨0⟩ (some nestedFragments) ?_
    rintro v ⟨rfl⟩ -
    simp [nestedFragments, VNode.h, VNode.element, VNode.text, VNode.comment, VNode.fragment,
      VNode.new, VNode.withChildren, VNode.Plain, VNode.PlainIn, VNode.PlainEach,
      VKind.isComponent, Children.text?]
  refine ⟨hreachable, _, _, rfl, rfl, ?_⟩
  obtain ⟨ns, d', houtermost, hdifferent, hnone, htakes, hnew⟩ :=
    render_takes_down hreachable (c := ⟨0⟩) rfl rfl
  have hcount : ns.length = 3 := by
    have hlength := congrArg List.length houtermost
    rw [List.length_map, List.length_map] at hlength
    exact hlength.symm.trans rfl
  have hkind : oneText.kind ≠ VKind.fragment := by decide
  exact ⟨ns, d', houtermost, hdifferent, hcount, hnone, htakes, rfl, hkind, hnew oneText rfl hkind⟩

end Stage
end View
end ReactiveView
