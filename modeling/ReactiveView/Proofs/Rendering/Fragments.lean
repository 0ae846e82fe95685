/-
# Fragments with any children

The children of a fragment may be nothing, a text or a list of nodes.  Mounting a fragment
looks for a list only, and so does taking it down; but a fragment that is patched over
another shows a text like an element does.  So a text is seen only if it comes second, and
then it stays when the fragment is taken down.

A tree without the texts of its fragments (`VNode.muted`) is mounted in the same way
(`VNode.mount_muted`) and taken down in the same way, and it is plain, so the document shows
what it describes.  Two fragments, one after the other in an empty node, give the HTML of the
second alone and leave the node empty, unless the second one has a text that is not empty
(`Container.fragment_after_fragment`).
-/

import ReactiveView.Proofs.Rendering.Html
import ReactiveView.Proofs.Rendering.Refusal

namespace ReactiveView
namespace View

variable {d d' d'' : Document} {p : NodeId} {S : NodeId → Prop} {u v : VNode}

/-- The children, if they are not a text. -/
def Children.textless : Children → Children
  | text _ => none
  | children => children

namespace VNode

open Document (Clears Filled Replaces)

/-! ## Without the texts of fragments -/

mutual

/-- The tree without the texts of its fragments. -/
def muted : VNode → VNode
  | mk kind props children el =>
    mk kind props (if kind = .fragment then (mutedIn children).textless else mutedIn children) el

/-- The children without the texts of fragments among them. -/
def mutedIn : Children → Children
  | .none => .none
  | .text content => .text content
  | .nodes nodes => .nodes (mutedEach nodes)

/-- Several trees without the texts of their fragments. -/
def mutedEach : List VNode → List VNode
  | [] => []
  | v :: rest => muted v :: mutedEach rest

end

/-- A fragment loses its text. -/
theorem muted_fragment (props : Option Props) (children : Children) (el : Option NodeId) :
    (mk .fragment props children el).muted =
      mk .fragment props (mutedIn children).textless el := by
  rw [muted, if_pos rfl]

/-- Any other node keeps it: that is what is seen of an element or a text. -/
theorem muted_of_ne {kind : VKind} (h : kind ≠ .fragment) (props : Option Props)
    (children : Children) (el : Option NodeId) :
    (mk kind props children el).muted = mk kind props (mutedIn children) el := by
  rw [muted, if_neg h]

/-- Muting goes into lists; a text that children are stays. -/
theorem text?_mutedIn (children : Children) : (mutedIn children).text? = children.text? := by
  cases children <;> rfl

/-- What has no text has none. -/
theorem text?_textless (children : Children) : children.textless.text? = none := by
  cases children <;> rfl

mutual

/-- What is left of a tree without components is plain. -/
theorem plain_muted : ∀ {v : VNode}, v.component? = none → v.muted.Plain
  | mk kind props children el, h => by
    obtain ⟨hkind, hchildren⟩ := component?_mk h
    have hplain : PlainIn (mutedIn children) := plainIn_mutedIn hchildren
    by_cases hfragment : kind = .fragment
    · subst hfragment
      rw [muted_fragment]
      refine ⟨rfl, fun _ => text?_textless _, ?_⟩
      cases children with
      | none | text => trivial
      | nodes nodes => exact hplain
    · rw [muted_of_ne hfragment]
      exact ⟨hkind, fun hk => absurd hk hfragment, hplain⟩

/-- Muted children without components are plain. -/
theorem plainIn_mutedIn : ∀ {children : Children}, componentIn? children = none →
    PlainIn (mutedIn children)
  | .none, _ => trivial
  | .text _, _ => trivial
  | .nodes _, h => plainEach_mutedEach h

/-- Several trees without components, muted, are plain. -/
theorem plainEach_mutedEach : ∀ {nodes : List VNode}, componentOf? nodes = none →
    PlainEach (mutedEach nodes)
  | [], _ => trivial
  | _ :: _, h => ⟨plain_muted (componentOf?_cons h).1, plainEach_mutedEach (componentOf?_cons h).2⟩

end

/-! ## Mounting, taking down and patching -/

/-- What an element is filled with may be muted before or after. -/
theorem mountWith_muted (p : NodeId) (tag : String) (props : Option Props)
    (fill : NodeId → Work Children) :
    muted <$> mountWith p tag props fill = mountWith p tag props fun n => mutedIn <$> fill n := by
  have hmuted (children : Children) (el : Option NodeId) :
      (mk (.element tag) props children el).muted = mk (.element tag) props (mutedIn children) el :=
    muted_of_ne (by simp) ..
  simp only [mountWith, map_eq_pure_bind, bind_assoc, pure_bind, hmuted]

/-- If the trees of a list may be muted before or after they are mounted, so may the list that
children are. -/
theorem mountNodes_muted {nodes : List VNode}
    (h : mutedEach <$> mountEach p nodes = mountEach p (mutedEach nodes)) :
    mutedIn <$> Children.nodes <$> mountEach p nodes =
      Children.nodes <$> mountEach p (mutedEach nodes) := by
  rw [← h, Functor.map_map, Functor.map_map]
  rfl

mutual

/-- **Mounting overlooks the texts of fragments.** -/
theorem mount_muted : ∀ (v : VNode) (p : NodeId), muted <$> mount p v = mount p v.muted
  | mk (.element tag) props children el, p => by
    rw [muted_of_ne (by simp), mount_element, mount_element, mountWith_muted]
    simp only [fill_muted children]
  | mk .text props children el, p => by
    rw [muted_of_ne (by simp), mount, mount, text?_mutedIn]
    rfl
  | mk .comment props children el, p => by
    rw [muted_of_ne (by simp), mount, mount, text?_mutedIn]
    rfl
  | mk .fragment props .none el, p => rfl
  | mk .fragment props (.text content) el, p => rfl
  | mk .fragment props (.nodes nodes) el, p => by
    have hmuted : (mk .fragment props (.nodes nodes) el).muted =
        mk .fragment props (.nodes (mutedEach nodes)) el := muted_fragment ..
    rw [hmuted, mount, mount, ← mountNodes_muted (mountEach_muted nodes p)]
    simp only [map_eq_pure_bind, bind_assoc, pure_bind, muted_fragment]
    rfl
  | mk (.component name) props children el, p => rfl

/-- Several trees may be muted before they are mounted or after. -/
theorem mountEach_muted : ∀ (nodes : List VNode) (p : NodeId),
    mutedEach <$> mountEach p nodes = mountEach p (mutedEach nodes)
  | [], p => rfl
  | v :: rest, p => by
    rw [mutedEach, mountEach, mountEach, ← mount_muted v p, ← mountEach_muted rest p]
    simp only [map_eq_pure_bind, bind_assoc, pure_bind]
    rfl

/-- Children may be muted before they are mounted or after. -/
theorem fill_muted : ∀ (children : Children) (n : NodeId),
    mutedIn <$> fill children n = fill (mutedIn children) n
  | .none, _ => rfl
  | .text _, _ => rfl
  | .nodes nodes, n => mountNodes_muted (mountEach_muted nodes n)

end

mutual

/-- Taking down overlooks the texts of fragments. -/
theorem unmount_muted : ∀ v : VNode, v.muted.unmount = v.unmount
  | mk (.element tag) props children el => by
    rw [muted_of_ne (by simp), unmount, unmount]
  | mk .text props children el => by
    rw [muted_of_ne (by simp), unmount, unmount]
  | mk .comment props children el => by
    rw [muted_of_ne (by simp), unmount, unmount]
  | mk .fragment props .none el => rfl
  | mk .fragment props (.text content) el => rfl
  | mk .fragment props (.nodes nodes) el => by
    rw [muted_fragment]
    exact unmountEach_muted nodes
  | mk (.component name) props children el => rfl

/-- Taking a list down does not look at texts either. -/
theorem unmountEach_muted : ∀ nodes : List VNode,
    unmountEach (mutedEach nodes) = unmountEach nodes
  | [] => rfl
  | v :: rest => by
    rw [mutedEach, unmountEach, unmountEach, unmount_muted v, unmountEach_muted rest]

end

/-- Patching children overlooks the texts of fragments among them, but not the text that
the children are. -/
theorem patchChildren_muted (p : NodeId) (old new : Children) :
    mutedIn <$> patchChildren p old new = patchChildren p (mutedIn old) (mutedIn new) := by
  have hold : unmountEach (mutedIn old).toList = unmountEach old.toList := by
    cases old with
    | none | text => rfl
    | nodes nodes => exact unmountEach_muted nodes
  unfold patchChildren
  rw [hold, map_bind]
  congr 1
  funext _
  cases new with
  | none => cases old <;> rfl
  | text content => cases old <;> rfl
  | nodes nodes =>
    have hmount := mountNodes_muted (mountEach_muted nodes p)
    cases old with
    | none | text => exact (map_bind _ _ _).trans (congrArg _ (funext fun _ => hmount))
    | nodes old => exact hmount

/-! ## A fragment in a node of its own -/

/-- The node got new children, which show the scenes, and the fragment `v` stands for them;
its own children may be a text. -/
structure Covers (S : NodeId → Prop) (p : NodeId) (text : Option String) (scenes : List Scene)
    (d : Document) (v : VNode) (d' : Document) : Prop where
  kind : v.kind = .fragment
  text : v.children.text? = text
  filled : d'.Filled p (mutedIn v.children)
  replaces : Replaces S p scenes (d'.children p) d d'

/-- A fragment that is mounted does not show its text. -/
theorem mount_covers (hkind : v.kind = .fragment) (hcomponent : v.component? = none)
    (has : d.Has p) (hempty : d.children p = []) (hS : ∀ m, ¬ d.Has m → S m)
    (howns : d.Owns S) :
    ∃ v' d', Runs (mount p v) d v' d' ∧ Covers S p v.children.text? v.muted.scenes d v' d' := by
  obtain ⟨kind, props, children, el⟩ := v
  obtain rfl : kind = .fragment := hkind
  have hblank : Replaces S p [] (d.children p) d d := by
    rw [hempty]
    exact (Clears.refl hempty).adds (.refl S p d)
  cases children with
  | none => exact ⟨mk .fragment props .none none, d, .pure _ d, rfl, rfl, hempty, hblank⟩
  | text content =>
    exact ⟨mk .fragment props (.text content) none, d, .pure _ d, rfl, rfl, trivial, hblank⟩
  | nodes nodes =>
    obtain ⟨-, hnodes⟩ := component?_mk hcomponent
    obtain ⟨children₁, roots, d', hmuted, hclone, hreplaces, hfilled⟩ :=
      mountEach_refills (plainEach_mutedEach hnodes) has hS howns (.refl hempty)
    rw [← mountNodes_muted (mountEach_muted nodes p)] at hmuted
    obtain ⟨children', hruns, rfl⟩ := hmuted.of_map
    have htext : children'.text? = none := by
      rw [← text?_mutedIn, text?_of_clone hclone]
      rfl
    exact ⟨mk .fragment props children' none, d', hruns.bind (.pure _ _), rfl, htext, hfilled,
      hreplaces.roots ▸ hreplaces⟩

/-- A fragment that is patched over another shows its text. -/
theorem patch_covers {old : VNode} (hold : old.kind = .fragment) (hkind : v.kind = .fragment)
    (hcomponent : v.component? = none) (has : d.Has p) (hself : p ∉ d.children p)
    (hfilled : d.Filled p (mutedIn old.children)) (hS : ∀ m, ¬ d.Has m → S m)
    (howns : d.Owns S) :
    ∃ v' d', Runs (patch p (some old) v) d v' d' ∧
      Covers S p v.children.text? (scenesIn (mutedIn v.children)) d v' d' := by
  obtain ⟨_, props₀, children₀, el₀⟩ := old
  obtain rfl := hold
  obtain ⟨_, props, children, el⟩ := v
  obtain rfl := hkind
  have hplain : PlainIn (mutedIn children) := plainIn_mutedIn (component?_mk hcomponent).2
  obtain ⟨children₁, roots, d', hmuted, hclone, hreplaces, hfilled'⟩ :=
    patchChildren_runs hplain has hfilled hself hS howns
  rw [← patchChildren_muted] at hmuted
  obtain ⟨children', hruns, rfl⟩ := hmuted.of_map
  have htext : children'.text? = children.text? := by
    rw [← text?_mutedIn, text?_of_clone hclone, text?_mutedIn]
  refine ⟨mk .fragment props children' el, d', ?_, rfl, htext, hfilled',
    hreplaces.roots ▸ hreplaces⟩
  simp only [patch, VNode.kind, ne_eq, not_true_eq_false, if_false]
  exact hruns.bind (.pure _ _)

namespace Covers

variable {text : Option String} {scenes : List Scene}

/-- A node is not among its own new children. -/
theorem not_mem (h : Covers S p text scenes d v d') (has : d.Has p) : p ∉ d'.children p :=
  fun hp => (h.replaces.shows.mem hp).1 has

/-- What is to be seen in the node are the scenes. -/
theorem content (h : Covers S p text scenes d v d') : d'.content p = scenes :=
  h.replaces.shows.content_eq

/-- Without scenes there are no children. -/
theorem empty (h : Covers S p text [] d v d') : d'.children p = [] := by
  have hshows := h.replaces.shows
  generalize d'.children p = nodes at hshows
  cases hshows
  rfl

/-- The fragment is taken down with its nodes, and a text stays. -/
theorem unmount (h : Covers S p text scenes d v d') (has : d.Has p) :
    ∃ d'', Runs v.unmount d' () d'' ∧ (text = none → d''.children p = []) ∧
      (text ≠ none → d'' = d') := by
  obtain ⟨kind, props, children, el⟩ := v
  obtain rfl : kind = .fragment := h.kind
  obtain rfl : children.text? = text := h.text
  cases children with
  | none => exact ⟨d', .pure () d', fun _ => h.filled, fun htext => absurd rfl htext⟩
  | text content =>
    exact ⟨d', .pure () d', fun htext => absurd htext (Option.some_ne_none content), fun _ => rfl⟩
  | nodes nodes =>
    obtain ⟨d'', hruns, hclears⟩ := unmountEach_clears (S := S)
      (h.replaces.within.has p has) h.filled (h.not_mem has)
    rw [unmountEach_muted] at hruns
    exact ⟨d'', hruns, fun _ => hclears.empty, fun htext => absurd rfl htext⟩

end Covers

/-- A fragment describes the same with and without a text, if that is empty. -/
theorem scenes_muted_of_content (hkind : v.kind = .fragment) (hcontent : v.content = "") :
    v.muted.scenes = scenesIn (mutedIn v.children) := by
  obtain ⟨_, props, children, el⟩ := v
  obtain rfl := hkind
  rw [muted_fragment]
  cases children with
  | none | nodes => rfl
  | text content =>
    obtain rfl : content = "" := hcontent
    rfl

/-- Of a fragment of a text nothing is left. -/
theorem scenes_muted_of_text (hkind : v.kind = .fragment) (htext : v.children.text? ≠ none) :
    v.muted.scenes = [] := by
  obtain ⟨_, props, children, el⟩ := v
  obtain rfl := hkind
  rw [muted_fragment]
  cases children with
  | none | nodes => exact absurd rfl htext
  | text content => rfl

/-- Content that is not empty is that of a text. -/
theorem children_of_content (hcontent : v.content ≠ "") :
    v.children.text? ≠ none ∧ scenesIn (mutedIn v.children) = [.text v.content] := by
  obtain ⟨kind, props, children, el⟩ := v
  cases children with
  | none | nodes => exact absurd rfl hcontent
  | text content =>
    have hne : content ≠ "" := hcontent
    refine ⟨Option.some_ne_none content, ?_⟩
    simp [mutedIn, scenesIn, VNode.content, VNode.children, Children.text?, hne]

end VNode

/-! ## HTML -/

/-- The HTML of a node with these data around what is to be seen inside. -/
def DomData.htmlAround (scenes : List Scene) : DomData → String
  | element e => DomTree.openTag e ++ Scene.htmlOf scenes ++ "</" ++ e.tag ++ ">"
  | text content => content
  | comment content => "<!--" ++ content ++ "-->"

/-- A node whose children are replaced gives the HTML of the new ones. -/
theorem Document.Replaces.html {scenes : List Scene} {roots : List NodeId}
    (h : Document.Replaces S p scenes roots d d') (has : d.Has p) :
    (d'.tree p).html = (d.node p).data.htmlAround scenes := by
  have has' : d'.Has p := h.within.has p has
  have hdata : (d'.node p).data = (d.node p).data := by rw [h.node]
  cases heq : (d.node p).data with
  | element e =>
    have hshows : d'.Shows (fun _ => True) p (.element (d'.look e) scenes) := by
      refine .element trivial has' (hdata.trans heq) ?_ ?_
      · intro c hc
        rw [h.roots] at hc
        exact has.lt_of_not_has (h.shows.mem hc).1
      · rw [h.roots]
        exact h.shows.mono fun _ _ => trivial
    rw [hshows.html]
    rfl
  | text content =>
    have hshows : d'.Shows (fun _ => True) p (.text content) :=
      .text trivial has' (hdata.trans heq)
    rw [hshows.html]
    rfl
  | comment content =>
    have hshows : d'.Shows (fun _ => True) p (.comment content) :=
      .comment trivial has' (hdata.trans heq)
    rw [hshows.html]
    rfl

/-! ## One fragment after the other -/

namespace Container

/-- The document after some renders, one after the other. -/
def renderEach (c : Container) (d : Document) : List (Option VNode) → Except RenderError Document
  | [] => .ok d
  | tree :: rest =>
    match c.render tree d with
    | (.ok (), c, d) => c.renderEach d rest
    | (.error error, _, _) => .error error

/-- A render that succeeds is followed by the others. -/
theorem renderEach_cons {c c' : Container} {tree : Option VNode} {rest : List (Option VNode)}
    (h : c.render tree d = (.ok (), c', d')) :
    c.renderEach d (tree :: rest) = c'.renderEach d' rest := by
  rw [renderEach, h]

/-- **Two fragments, one after the other, in a node with nothing in it.**  The children of
each may be anything without components.  Unless the second one has a text that is not empty,
the HTML is that of the second one alone, and rendering nothing then leaves the node empty.
Such a text is not seen if its fragment comes first, it is seen if its fragment comes
second, and then it is left behind when the fragment is taken down. -/
theorem fragment_after_fragment (has : d.Has p) (hempty : d.children p = [])
    (hu : u.kind = .fragment) (hplainu : u.component? = none)
    (hv : v.kind = .fragment) (hplainv : v.component? = none) :
    ∃ both alone bothGone aloneGone : Document,
      renderEach ⟨p, none⟩ d [some u, some v] = .ok both ∧
      renderEach ⟨p, none⟩ d [some v] = .ok alone ∧
      renderEach ⟨p, none⟩ d [some u, some v, none] = .ok bothGone ∧
      renderEach ⟨p, none⟩ d [some v, none] = .ok aloneGone ∧
      aloneGone.children p = [] ∧
      (v.content = "" → (both.tree p).html = (alone.tree p).html ∧ bothGone.children p = []) ∧
      (v.content ≠ "" → alone.content p = [] ∧ both.content p = [.text v.content] ∧
        bothGone.content p = [.text v.content]) := by
  have howns : d.Owns fun m => ¬ d.Has m := fun _ _ _ hm hbinds => absurd hbinds.has hm
  -- the second fragment alone
  obtain ⟨v₀, alone, hruns₀, halone⟩ :=
    VNode.mount_covers hv hplainv has hempty (fun _ => id) howns
  obtain ⟨aloneGone, hgone₀, hnodes₀, htext₀⟩ := halone.unmount has
  -- the second fragment after the first one
  obtain ⟨u₁, d₁, hruns₁, hfirst⟩ := VNode.mount_covers hu hplainu has hempty (fun _ => id) howns
  have hwithin := hfirst.replaces.within
  have has₁ : d₁.Has p := hwithin.has p has
  obtain ⟨v₂, both, hruns₂, hboth⟩ := VNode.patch_covers hfirst.kind hv hplainv has₁
    (hfirst.not_mem has) hfirst.filled (fun m hm h => hm (hwithin.has m h)) (hwithin.owns howns)
  obtain ⟨bothGone, hgone₂, hnodes₂, htext₂⟩ := hboth.unmount has₁
  have hrender₀ := render_some_of_runs (c := ⟨p, none⟩) hplainv hruns₀
  have hrender₁ := render_some_of_runs (c := ⟨p, none⟩) hplainu hruns₁
  have hrender₂ := render_some_of_runs (c := ⟨p, some u₁⟩) hplainv hruns₂
  have hrenderGone₀ := render_none_of_runs (c := ⟨p, some v₀⟩) rfl hgone₀
  have hrenderGone₂ := render_none_of_runs (c := ⟨p, some v₂⟩) rfl hgone₂
  refine ⟨both, alone, bothGone, aloneGone, ?_, ?_, ?_, ?_, ?_, ?_, ?_⟩
  · rw [renderEach_cons hrender₁, renderEach_cons hrender₂, renderEach]
  · rw [renderEach_cons hrender₀, renderEach]
  · rw [renderEach_cons hrender₁, renderEach_cons hrender₂, renderEach_cons hrenderGone₂,
      renderEach]
  · rw [renderEach_cons hrender₀, renderEach_cons hrenderGone₀, renderEach]
  · by_cases htext : v.children.text? = none
    · exact hnodes₀ htext
    · rw [VNode.scenes_muted_of_text hv htext] at halone
      rw [htext₀ htext, halone.empty]
  · intro hcontent
    have hscenes := VNode.scenes_muted_of_content hv hcontent
    constructor
    · rw [hboth.replaces.html has₁, halone.replaces.html has, hfirst.replaces.node, hscenes]
    · by_cases htext : v.children.text? = none
      · exact hnodes₂ htext
      · rw [← hscenes, VNode.scenes_muted_of_text hv htext] at hboth
        rw [htext₂ htext, hboth.empty]
  · intro hcontent
    obtain ⟨htext, hscenes⟩ := VNode.children_of_content hcontent
    rw [htext₂ htext, halone.content, hboth.content, VNode.scenes_muted_of_text hv htext, hscenes]
    exact ⟨rfl, rfl, rfl⟩

/-- A fragment of a text. -/
def ofText (content : String) : VNode := .new .fragment none (.text content)

/-- A list of nodes after a text. -/
theorem fragment_after_fragment_nodes :
    blank.Has ⟨0⟩ ∧ blank.children ⟨0⟩ = [] ∧ (ofText "a").kind = .fragment ∧
      (ofText "a").component? = none ∧
      (VNode.fragment [.h "p" (.text "b"), ofText "c"]).kind = .fragment ∧
      (VNode.fragment [.h "p" (.text "b"), ofText "c"]).component? = none ∧
      ∃ both alone : Document,
        renderEach ⟨⟨0⟩, none⟩ blank
          [some (ofText "a"), some (.fragment [.h "p" (.text "b"), ofText "c"])] = .ok both ∧
        renderEach ⟨⟨0⟩, none⟩ blank [some (.fragment [.h "p" (.text "b"), ofText "c"])] =
          .ok alone ∧
        (both.tree ⟨0⟩).html = (alone.tree ⟨0⟩).html := by
  have has : blank.Has ⟨0⟩ := Nat.zero_lt_one
  obtain ⟨both, alone, _, _, hboth, halone, -, -, -, hsame, -⟩ :=
    fragment_after_fragment (u := ofText "a") (v := .fragment [.h "p" (.text "b"), ofText "c"])
      has rfl rfl rfl rfl rfl
  exact ⟨has, rfl, rfl, rfl, rfl, rfl, both, alone, hboth, halone, (hsame rfl).1⟩

/-- The HTML of a new element after some renders. -/
def htmlAfter (trees : List (Option VNode)) : Except RenderError String :=
  (renderEach ⟨⟨0⟩, none⟩ blank trees).map fun d => (d.tree ⟨0⟩).html

/-- **A text is seen if its fragment comes second, and then it stays.** -/
theorem text_of_second_fragment_stays :
    htmlAfter [some (ofText "x")] = .ok "<div></div>" ∧
      htmlAfter [some (.fragment []), some (ofText "x")] = .ok "<div>x</div>" ∧
      htmlAfter [some (.fragment []), some (ofText "x"), none] = .ok "<div>x</div>" ∧
      ¬ ∀ u v : VNode, u.kind = .fragment → u.component? = none → v.kind = .fragment →
        v.component? = none → htmlAfter [some u, some v] = htmlAfter [some v] ∧
          htmlAfter [some u, some v, none] = .ok "<div></div>" := by
  have halone : htmlAfter [some (ofText "x")] = .ok "<div></div>" := rfl
  have hboth : htmlAfter [some (.fragment []), some (ofText "x")] = .ok "<div>x</div>" := rfl
  refine ⟨halone, hboth, rfl, fun hall => ?_⟩
  have hsame := (hall (.fragment []) (ofText "x") rfl rfl rfl rfl).1
  rw [halone, hboth] at hsame
  exact absurd (Except.ok.inj hsame) (by decide)

end Container
end View
end ReactiveView
