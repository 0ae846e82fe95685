/-
# The source of a template

What a template compiles to is said by its tree alone (`Node.source`): a text is a literal in
single quotes, and an element a call of `h` with its tag and its one child, or the list of its
children in brackets.  The render function returns the only child of the root.

Compiling comes to just this, for every template (`compile_eq_source`); it fails where parsing
fails, and where the root has not one child.
-/

import ReactiveView.Proofs.Code.Literal
import ReactiveView.Proofs.Markup.Lowered

namespace ReactiveView
namespace Markup

namespace Node

mutual

/-- The source text of a node below the root. -/
def source : Node → String
  | mk .root _ _ => ""
  | mk (.text content) _ _ => Code.singleQuoted content
  | mk (.element tag) [only] _ => "h('" ++ tag ++ "', " ++ source only ++ ")"
  | mk (.element tag) children _ =>
    "h('" ++ tag ++ "', [" ++ ", ".intercalate (sourceEach children) ++ "])"

/-- The source texts of several nodes. -/
def sourceEach : List Node → List String
  | [] => []
  | node :: rest => source node :: sourceEach rest

end

end Node

namespace Token

/-- A name goes on with what it may begin with, and more. -/
theorem isNameChar_of_isNameStart {c : Char} (h : isNameStart c = true) : isNameChar c = true := by
  simp only [isNameStart] at h
  simp [isNameChar, Char.isAlphanum, h]

/-- All characters of a name are of this kind. -/
theorem IsName.isNameChar {name : String} (h : IsName name) :
    ∀ c ∈ name.toList, Token.isNameChar c = true := by
  unfold IsName at h
  split at h
  · exact h.elim
  · rename_i hlist
    rw [hlist]
    exact List.forall_mem_cons.2 ⟨isNameChar_of_isNameStart h.1, h.2⟩

/-- A name stands in a literal as it is. -/
theorem IsName.singleQuoted_eq {name : String} (h : IsName name) :
    Code.singleQuoted name = "'" ++ name ++ "'" := by
  have hplain : ∀ c ∈ name.toList, c ≠ '\'' ∧ c ≠ '\\' ∧ c ≠ '\n' := by
    intro c hc
    have hname := h.isNameChar c hc
    refine ⟨?_, ?_, ?_⟩ <;> rintro rfl <;> exact absurd hname (by decide)
  rw [Code.singleQuoted, Code.escaped_of_plain hplain, String.ofList_toList]

end Token

namespace Node

/-- The code of an element is written as a call of `h`. -/
theorem printAt_element (level : Nat) {tag : String} (h : Token.IsName tag) (content : Code) :
    Code.printAt level (.call (.identifier "h") [.string tag, content]) =
      "h('" ++ tag ++ "', " ++ Code.printAt level content ++ ")" := by
  have htag : Code.literal tag = "'" ++ tag ++ "'" := by
    rw [Code.literal_eq, h.singleQuoted_eq]
  rw [← String.toList_inj]
  simp [htag]

/-- The code of an element with other than one child is written with brackets. -/
theorem printAt_brackets (level : Nat) {tag : String} (h : Token.IsName tag)
    {codes : List Code} {sources : List String} (hsources : Code.printEach level codes = sources) :
    Code.printAt level (.call (.identifier "h") [.string tag, .array codes]) =
      "h('" ++ tag ++ "', [" ++ ", ".intercalate sources ++ "])" := by
  rw [printAt_element level h, Code.printAt_array, hsources, ← String.toList_inj]
  simp

mutual

/-- The code that stands for a bare node is written as the source of the node. -/
theorem printAt_renderCode : ∀ (level : Nat) (node : Node), node.Bare →
    Code.printAt level node.renderCode = node.source
  | _, mk .root _ _, h => h.elim
  | level, mk (.text content) _ _, _ => by
    rw [renderCode, Code.printAt_string, Code.literal_eq, source]
  | level, mk (.element tag) [] _, h => printAt_brackets level h.1 rfl
  | level, mk (.element tag) [only] _, h => by
    have honly := printAt_renderCode level only h.2.1.1
    rw [source, ← honly]
    exact printAt_element level h.1 only.renderCode
  | level, mk (.element tag) (first :: second :: rest) _, h =>
    have hfirst := printAt_renderCode level first h.2.1.1
    have hsecond := printAt_renderCode level second h.2.1.2.1
    have hrest := printEach_renderEach level rest h.2.1.2.2
    have hsources : Code.printEach level (renderEach (first :: second :: rest)) =
        sourceEach (first :: second :: rest) := by
      simp only [renderEach, Code.printEach_cons, sourceEach, hfirst, hsecond, hrest]
    printAt_brackets level h.1 hsources

/-- **Several bare nodes are printed as their sources.** -/
theorem printEach_renderEach : ∀ (level : Nat) (nodes : List Node), BareEach nodes →
    Code.printEach level (renderEach nodes) = sourceEach nodes
  | _, [], _ => rfl
  | level, node :: rest, h => by
    rw [renderEach, Code.printEach_cons, printAt_renderCode level node h.1,
      printEach_renderEach level rest h.2, sourceEach]

end

end Node

/-- The render function is written on three lines. -/
theorem print_render (body : Code) :
    (Code.function (.identifier "render") [] [.ret body]).print =
      "function render () \x7b\n  return " ++ Code.printAt 1 body ++ "\n\x7d" := by
  rw [Code.print, ← String.toList_inj]
  simp [Code.newline]

/-- **What a template compiles to.**  A template that does not parse fails with the error of
the parser, and one whose root has not exactly one child with the number of its children.
Every other template compiles to the function `render` that returns the source of the only
child. -/
theorem compile_eq_source (template : String) :
    compile template =
      match Node.parse template with
      | .error error => .error (.parse error)
      | .ok tree =>
        match tree.children with
        | [] => .error (.transform .emptyRoot)
        | [child] => .ok ("function render () \x7b\n  return " ++ child.source ++ "\n\x7d")
        | many => .error (.transform (.multipleRoots many.length)) := by
  cases hparse : Node.parse template with
  | error error => simp only [compile, compileWith, hparse]
  | ok tree =>
    obtain ⟨children, rfl, hbare⟩ := Node.bare_of_parse hparse
    rw [compile_of_parse hparse]
    rcases children with _ | ⟨child, _ | ⟨second, rest⟩⟩
    · rfl
    · rw [compiled, print_render, Node.printAt_renderCode 1 child hbare.1]
      rfl
    · rfl

end Markup
end ReactiveView
