/-
# Trees can be recovered from their source

Two templates that compile compile to the same source exactly when they parse to the same
tree (`compile_eq_iff`).  So tags, nesting, order and texts are all in the source: no text
can pass for code, and no only child for a list of children.

The way back is taken in two steps.  The source tells the code (`Code.eq_of_printAt`), and
the code tells the tree (`Node.eq_of_renderCode`): an array stands for no node, so a single
code that is none is the only child.
-/

import ReactiveView.Proofs.Code.Unambiguous
import ReactiveView.Proofs.Markup.Lowered

namespace ReactiveView
namespace Markup

namespace Node

/-! ## The code of a tree is named -/

/-- The function that makes an element has a word for its name. -/
theorem isWord_h : Code.IsWord "h" := ⟨by simp, by simp [Code.isWordChar]⟩

/-- The name of the function that renders is a word. -/
theorem isWord_render : Code.IsWord "render" := ⟨by simp, by simp [Code.isWordChar]⟩

/-- Whether an only child or an array, what an element passes on is named. -/
theorem named_contentCode {codes : List Code} (h : Code.NamedEach codes) :
    (contentCode codes).Named := by
  match codes, h with
  | [], h => exact h
  | [only], h => exact h.1
  | first :: second :: rest, h => exact h

mutual

/-- **The code that stands for a bare node is named.** -/
theorem named_renderCode : ∀ node : Node, node.Bare → node.renderCode.Named
  | mk .root _ _, h => h.elim
  | mk (.text _) _ _, _ => trivial
  | mk (.element _) children _, h =>
    ⟨isWord_h, trivial, named_contentCode (named_renderEach children h.2.1), trivial⟩

/-- The codes of several nodes are. -/
theorem named_renderEach : ∀ nodes : List Node, BareEach nodes → Code.NamedEach (renderEach nodes)
  | [], _ => trivial
  | node :: rest, h => ⟨named_renderCode node h.1, named_renderEach rest h.2⟩

end

/-! ## The code of a tree tells the tree -/

/-- No node stands for an array. -/
theorem renderCode_ne_array (node : Node) (elements : List Code) :
    node.renderCode ≠ .array elements := by
  obtain ⟨_ | tag | content, children, code⟩ := node <;> simp [renderCode]

/-- What an element passes on tells the codes of its children. -/
theorem contentCode_injective {nodes nodes' : List Node}
    (h : contentCode (renderEach nodes) = contentCode (renderEach nodes')) :
    renderEach nodes = renderEach nodes' := by
  match nodes, nodes', h with
  | [only], [only'], h => exact congrArg (fun code => [code]) h
  | [only], [], h => exact absurd h (renderCode_ne_array only _)
  | [only], _ :: _ :: _, h => exact absurd h (renderCode_ne_array only _)
  | [], [only], h => exact absurd h.symm (renderCode_ne_array only _)
  | _ :: _ :: _, [only], h => exact absurd h.symm (renderCode_ne_array only _)
  | [], [], _ => rfl
  | [], _ :: _ :: _, h => exact Code.array.inj h
  | _ :: _ :: _, [], h => exact Code.array.inj h
  | _ :: _ :: _, _ :: _ :: _, h => exact Code.array.inj h

mutual

/-- **Bare nodes with the same code are the same.** -/
theorem eq_of_renderCode : ∀ a : Node, ∀ b : Node, a.Bare → b.Bare →
    a.renderCode = b.renderCode → a = b
  | mk .root _ _, _ => fun ha => ha.elim
  | _, mk .root _ _ => fun _ hb => hb.elim
  | mk (.text content) _ _, mk (.text content') _ _ => by
    intro ha hb h
    obtain ⟨rfl, rfl⟩ := ha
    obtain ⟨rfl, rfl⟩ := hb
    rw [Code.string.inj h]
  | mk (.element tag) children _, mk (.element tag') children' _ => by
    intro ha hb h
    obtain ⟨-, hchildren, rfl⟩ := ha
    obtain ⟨-, hchildren', rfl⟩ := hb
    obtain ⟨htag, hrest⟩ := List.cons.inj (Code.call.inj h).2
    have hcontent := (List.cons.inj hrest).1
    obtain rfl := Code.string.inj htag
    rw [eq_of_renderEach children children' hchildren hchildren' (contentCode_injective hcontent)]
  | mk (.text _) _ _, mk (.element _) _ _ => fun _ _ h => absurd h (by simp [renderCode])
  | mk (.element _) _ _, mk (.text _) _ _ => fun _ _ h => absurd h (by simp [renderCode])

/-- Lists of bare nodes are told by their codes. -/
theorem eq_of_renderEach : ∀ as : List Node, ∀ bs : List Node, BareEach as → BareEach bs →
    renderEach as = renderEach bs → as = bs
  | [], [] => fun _ _ _ => rfl
  | [], _ :: _ => fun _ _ h => absurd h (by simp [renderEach])
  | _ :: _, [] => fun _ _ h => absurd h (by simp [renderEach])
  | a :: as, b :: bs => by
    intro ha hb h
    obtain ⟨hfirst, hrest⟩ := List.cons.inj h
    rw [eq_of_renderCode a b ha.1 hb.1 hfirst, eq_of_renderEach as bs ha.2 hb.2 hrest]

end

end Node

/-- A template that compiles has a root with one child, and compiles to the source of that. -/
theorem of_compile_eq_ok {template source : String} (h : compile template = .ok source) :
    ∃ child, Node.parse template = .ok (.root [child]) ∧ child.Bare ∧
      source = (Code.function (.identifier "render") [] [.ret child.renderCode]).print := by
  cases hparse : Node.parse template with
  | error error =>
    simp only [compile, compileWith, hparse] at h
    exact absurd h (by simp)
  | ok tree =>
    obtain ⟨children, rfl, hbare⟩ := Node.bare_of_parse hparse
    rw [compile_of_parse hparse] at h
    rcases children with _ | ⟨child, _ | ⟨second, rest⟩⟩
    · exact absurd h (by simp [compiled])
    · exact ⟨child, rfl, hbare.1, (Except.ok.inj h).symm⟩
    · exact absurd h (by simp [compiled])

/-- **Compiling loses nothing of a tree.**  Templates that compile have the same source
exactly when they have the same tree. -/
theorem compile_eq_iff {s t source source' : String} (hs : compile s = .ok source)
    (ht : compile t = .ok source') : compile s = compile t ↔ Node.parse s = Node.parse t := by
  obtain ⟨child, hparse, hbare, rfl⟩ := of_compile_eq_ok hs
  obtain ⟨child', hparse', hbare', rfl⟩ := of_compile_eq_ok ht
  have hnamed {node : Node} (h : node.Bare) :
      (Code.function (.identifier "render") [] [.ret node.renderCode]).Named :=
    ⟨Node.isWord_render, trivial, Node.named_renderCode node h, trivial⟩
  constructor
  · intro h
    rw [hs, ht] at h
    have hcode := Code.eq_of_printAt (hnamed hbare) (hnamed hbare') (Except.ok.inj h)
    have hbody := Code.ret.inj (List.cons.inj (Code.function.inj hcode).2.2).1
    rw [hparse, hparse', Node.eq_of_renderCode child child' hbare hbare' hbody]
  · intro h
    rw [hparse, hparse'] at h
    have hchild : child = child' := (List.cons.inj (Node.mk.inj (Except.ok.inj h)).2.1).1
    rw [hs, ht, hchild]

/-- An element around two empty elements. -/
def emptyPair : String := "<p><b></b><i></i></p>"

/-- An element around a text that is written as the children of `emptyPair` are. -/
def pairAsText : String := "<p>[h('b', []), h('i', [])]</p>"

/-- The hypotheses of `compile_eq_iff` are met by a list of children and by the text that is
written like it, and their sources differ. -/
theorem compile_eq_iff_emptyPair :
    compile emptyPair =
        .ok "function render () \x7b\n  return h('p', [h('b', []), h('i', [])])\n\x7d" ∧
      compile pairAsText =
        .ok ("function render () \x7b\n  return " ++
          "h('p', '[h(\\'b\\', []), h(\\'i\\', [])]')\n\x7d") ∧
      compile emptyPair ≠ compile pairAsText := by
  have hpair : Node.parse emptyPair =
      .ok (.root [.element "p" [.element "b" [], .element "i" []]]) := rfl
  have htext : Node.parse pairAsText =
      .ok (.root [.element "p" [.text "[h('b', []), h('i', [])]"]]) := rfl
  have hsource : compile emptyPair =
      .ok "function render () \x7b\n  return h('p', [h('b', []), h('i', [])])\n\x7d" := by
    rw [compile_of_parse hpair]
    rfl
  have hsource' : compile pairAsText =
      .ok ("function render () \x7b\n  return " ++
        "h('p', '[h(\\'b\\', []), h(\\'i\\', [])]')\n\x7d") := by
    rw [compile_of_parse htext]
    rfl
  refine ⟨hsource, hsource', fun h => ?_⟩
  have hparse := (compile_eq_iff hsource hsource').1 h
  rw [hpair, htext] at hparse
  exact absurd hparse (by simp [Node.root, Node.element, Node.text])

end Markup
end ReactiveView
