/-
# Parsing is the inverse of printing

The parser accepts the templates whose tokens, blank texts aside, are the tokens of a root
over elements and texts, and it returns that root: `Node.parse_inverse_print`.

That it returns nothing else is an invariant of its stack: the tokens of the open elements
and of what is built, and the tokens still to be read, are the tokens of the tree
(`tokens_of_parseFrom`).  That it accepts every such root is an induction on the tree
(`parseFrom_tokens`).  Printed again a parsed tree has no blank texts, and it still has no
two texts side by side, because only texts were dropped (`Token.Separated.kept`).
-/

import ReactiveView.Proofs.Markup.Scanned

namespace ReactiveView
namespace Markup

/-! ## Tokens without blank texts -/

namespace Token

/-- The token is a text of white space alone. -/
def isBlank : Token → Bool
  | text content => Text.isBlank content
  | _ => false

/-- The tokens that leave a trace in the tree: all but the blank texts. -/
def kept (tokens : List Token) : List Token :=
  tokens.filter fun t => !t.isBlank

/-- No blank text is kept. -/
theorem not_isBlank_of_mem_kept {tokens : List Token} {t : Token} (h : t ∈ kept tokens) :
    t.isBlank = false := by
  simpa [kept] using (List.mem_filter.1 h).2

/-- Where there are no blank texts everything is kept. -/
theorem kept_eq_self {tokens : List Token} (h : ∀ t ∈ tokens, t.isBlank = false) :
    kept tokens = tokens :=
  List.filter_eq_self.2 fun t ht => by simp [h t ht]

/-- What is blank is a text. -/
theorem isText_of_isBlank {t : Token} (h : t.isBlank = true) : t.isText = true := by
  cases t with
  | text => rfl
  | openTag | closeTag => simp [isBlank] at h

/-- Where a tag comes first, it still does without the blank texts. -/
theorem head?_kept {tokens : List Token} (h : ∀ t ∈ tokens.head?, t.isText = false) :
    (kept tokens).head? = tokens.head? := by
  cases tokens with
  | nil => rfl
  | cons t rest =>
    have htag : t.isBlank = false := by
      by_contra hblank
      have htext := isText_of_isBlank (Bool.not_eq_false _ ▸ hblank)
      rw [h t rfl] at htext
      exact Bool.false_ne_true htext
    simp [kept, htag]

/-- Dropping the blank texts brings no two texts together. -/
theorem Separated.kept {tokens : List Token} (h : Separated tokens) :
    Separated (kept tokens) := by
  induction tokens with
  | nil => trivial
  | cons t rest ih =>
    obtain ⟨htouch, hrest⟩ := separated_cons.1 h
    by_cases hblank : t.isBlank = true
    · rw [Token.kept, List.filter_cons_of_neg (by simp [hblank])]
      exact ih hrest
    · rw [Token.kept, List.filter_cons_of_pos (by simp [hblank])]
      refine separated_cons.2 ⟨?_, ih hrest⟩
      rintro s hs ⟨htext, hstext⟩
      -- Behind a text comes a tag, and it is kept.
      have hhead : ∀ s ∈ rest.head?, s.isText = false := by
        intro s hs
        simpa [MayTouch, htext] using htouch s hs
      rw [← Token.kept, head?_kept hhead] at hs
      exact htouch s hs ⟨htext, hstext⟩

/-- **Leaving blank texts out keeps tokens well formed**: tags stay between the texts. -/
theorem WellFormed.kept {tokens : List Token} (h : WellFormed tokens) :
    WellFormed (kept tokens) :=
  ⟨fun t ht => h.1 t (List.mem_filter.1 ht).1, Separated.kept h.2⟩

end Token

namespace Node

/-! ## Content -/

mutual

/-- An element or a text without children; no node of it has code. -/
def Content : Node → Prop
  | mk .root _ _ => False
  | mk (.element _) children code => ContentEach children ∧ code = none
  | mk (.text _) children code => children = [] ∧ code = none

/-- All the nodes are content. -/
def ContentEach : List Node → Prop
  | [] => True
  | node :: rest => Content node ∧ ContentEach rest

end

mutual

/-- A bare node, which has no code, is content. -/
theorem Bare.content : {node : Node} → node.Bare → node.Content
  | mk .root _ _, h => h.elim
  | mk (.element _) _ _, ⟨_, hchildren, hcode⟩ => ⟨BareEach.contentEach hchildren, hcode⟩
  | mk (.text _) _ _, h => h

/-- Bare nodes are content. -/
theorem BareEach.contentEach : {nodes : List Node} → BareEach nodes → ContentEach nodes
  | [], _ => trivial
  | _ :: _, ⟨hnode, hrest⟩ => ⟨Bare.content hnode, BareEach.contentEach hrest⟩

end

/-- The tokens of a list of nodes are those of its parts. -/
theorem tokensEach_append (nodes more : List Node) :
    tokensEach (nodes ++ more) = tokensEach nodes ++ tokensEach more := by
  induction nodes with
  | nil => rfl
  | cons node rest ih => simp [tokensEach, ih]

/-! ## The tree has the tokens of the template -/

/-- The tokens of the open elements, innermost first, and of the finished nodes of the
innermost level, last first. -/
def tokensBehind : List Open → List Node → List Token
  | [], built => tokensEach built.reverse
  | e :: opens, built =>
    tokensBehind opens e.before ++ .openTag e.tag :: tokensEach built.reverse

/-- A finished node adds its tokens behind the others. -/
theorem tokensBehind_cons (opens : List Open) (built : List Node) (node : Node) :
    tokensBehind opens (node :: built) = tokensBehind opens built ++ node.tokens := by
  cases opens <;> simp [tokensBehind, tokensEach_append, tokensEach]

/-- The tokens behind the parser and those before it are the tokens of the tree. -/
theorem tokens_of_parseFrom {tokens : List Token} {opens : List Open} {built : List Node}
    {tree : Node} (h : parseFrom opens built tokens = .ok tree) :
    tree.tokens = tokensBehind opens built ++ Token.kept tokens := by
  induction tokens generalizing opens built with
  | nil =>
    cases opens with
    | nil =>
      obtain rfl := Except.ok.inj h
      simp [root, Node.tokens, tokensBehind, Token.kept]
    | cons e opens => exact absurd h (by simp [parseFrom])
  | cons token rest ih =>
    cases token with
    | openTag tag =>
      rw [parseFrom] at h
      rw [ih h]
      simp [tokensBehind, tokensEach, Token.kept, Token.isBlank]
    | text content =>
      rw [parseFrom] at h
      by_cases hblank : Text.isBlank content = true
      · rw [if_pos hblank] at h
        rw [ih h]
        simp [Token.kept, Token.isBlank, hblank]
      · rw [if_neg hblank] at h
        rw [ih h, tokensBehind_cons]
        simp [text, Node.tokens, tokensEach, Token.kept, Token.isBlank, hblank]
    | closeTag name =>
      cases opens with
      | nil => exact absurd h (by simp [parseFrom])
      | cons e opens =>
        rw [parseFrom] at h
        split at h
        · rename_i hname
          rw [ih h, tokensBehind_cons]
          simp [element, Node.tokens, tokensBehind, Token.kept, Token.isBlank, hname]
        · exact absurd h (by simp)

/-! ## Every tree is parsed -/

/-- Blank texts do not change what is parsed. -/
theorem parseFrom_kept (tokens : List Token) (opens : List Open) (built : List Node) :
    parseFrom opens built (Token.kept tokens) = parseFrom opens built tokens := by
  induction tokens generalizing opens built with
  | nil => rfl
  | cons token rest ih =>
    cases token with
    | openTag tag =>
      rw [parseFrom, ← ih]
      simp [Token.kept, Token.isBlank, parseFrom]
    | text content =>
      rw [parseFrom, ← ih]
      by_cases hblank : Text.isBlank content = true
      · simp [Token.kept, Token.isBlank, hblank]
      · simp [Token.kept, Token.isBlank, hblank, parseFrom]
    | closeTag name =>
      cases opens with
      | nil => rfl
      | cons e opens =>
        rw [parseFrom, ← ih]
        rfl

mutual

/-- The tokens of content without blank texts are parsed to it, whatever follows. -/
theorem parseFrom_tokens : {node : Node} → node.Content →
    (∀ t ∈ node.tokens, t.isBlank = false) →
    ∀ (opens : List Open) (built : List Node) (rest : List Token),
      parseFrom opens built (node.tokens ++ rest) = parseFrom opens (node :: built) rest
  | mk .root _ _, h, _, _, _, _ => h.elim
  | mk (.element tag) children code, ⟨hchildren, hcode⟩, hsolid, opens, built, rest => by
    have hsolid' : ∀ t ∈ tokensEach children, t.isBlank = false := by
      intro t ht
      exact hsolid t (by simp [Node.tokens, ht])
    subst hcode
    rw [Node.tokens, List.cons_append, List.append_assoc, parseFrom,
      parseFrom_tokensEach hchildren hsolid', List.singleton_append, parseFrom, if_pos rfl]
    simp [element]
  | mk (.text content) children code, ⟨hchildren, hcode⟩, hsolid, opens, built, rest => by
    have hcontent : Text.isBlank content = false := hsolid (.text content) (by simp [Node.tokens])
    subst hchildren hcode
    rw [Node.tokens, tokensEach, List.singleton_append, parseFrom, hcontent]
    rfl

/-- **The tokens of several nodes are parsed to these nodes**, on top of what was built
before. -/
theorem parseFrom_tokensEach : {nodes : List Node} → ContentEach nodes →
    (∀ t ∈ tokensEach nodes, t.isBlank = false) →
    ∀ (opens : List Open) (built : List Node) (rest : List Token),
      parseFrom opens built (tokensEach nodes ++ rest) =
        parseFrom opens (nodes.reverse ++ built) rest
  | [], _, _, _, _, _ => rfl
  | node :: nodes, ⟨hnode, hnodes⟩, hsolid, opens, built, rest => by
    obtain ⟨hsolid, hsolid'⟩ := List.forall_mem_append.1 hsolid
    rw [tokensEach, List.append_assoc, parseFrom_tokens hnode hsolid,
      parseFrom_tokensEach hnodes hsolid']
    simp

end

/-! ## The parser and the printer -/

/-- Parsing succeeds where scanning does and the rest of the way does. -/
theorem parse_eq_ok {template : String} {tree : Node} :
    parse template = .ok tree ↔
      ∃ tokens, Token.scan template = .ok tokens ∧ parseFrom [] [] tokens = .ok tree := by
  unfold parse
  cases Token.scan template with
  | error error => simp [bind, Except.bind]
  | ok tokens => simp [bind, Except.bind]

/-- What is parsed has the tokens of its template, blank texts aside. -/
theorem kept_eq_tokens_of_parse {template : String} {tree : Node}
    (h : parse template = .ok tree) :
    ∃ tokens, Token.scan template = .ok tokens ∧ Token.kept tokens = tree.tokens := by
  obtain ⟨tokens, hscan, htree⟩ := parse_eq_ok.1 h
  refine ⟨tokens, hscan, ?_⟩
  rw [tokens_of_parseFrom htree]
  rfl

/-- What is parsed is a root over elements and texts. -/
theorem content_of_parse {template : String} {tree : Node} (h : parse template = .ok tree) :
    ∃ children, tree = root children ∧ ContentEach children := by
  obtain ⟨children, htree, hchildren⟩ := bare_of_parse h
  exact ⟨children, htree, hchildren.contentEach⟩

/-- A template is parsed to the root over content that has its tokens. -/
theorem parse_root {template : String} {tokens : List Token} {children : List Node}
    (hscan : Token.scan template = .ok tokens)
    (htokens : Token.kept tokens = (root children).tokens) (hchildren : ContentEach children) :
    parse template = .ok (root children) := by
  refine parse_eq_ok.2 ⟨tokens, hscan, ?_⟩
  have hsolid : ∀ t ∈ tokensEach children, t.isBlank = false := by
    intro t ht
    have hkept : t ∈ Token.kept tokens := by
      rw [htokens]
      exact ht
    exact Token.not_isBlank_of_mem_kept hkept
  calc
    parseFrom [] [] tokens = parseFrom [] [] (Token.kept tokens) := (parseFrom_kept _ _ _).symm
    _ = parseFrom [] [] (tokensEach children ++ []) := by rw [htokens, List.append_nil]; rfl
    _ = parseFrom [] (children.reverse ++ []) [] := parseFrom_tokensEach hchildren hsolid _ _ _
    _ = .ok (root children) := by simp [parseFrom]

/-- The tokens of a parsed tree, printed, are parsed to it. -/
theorem parse_printAll_of_parse {template : String} {tree : Node}
    (h : parse template = .ok tree) : parse (Token.printAll tree.tokens) = .ok tree := by
  obtain ⟨tokens, hscan, htokens⟩ := kept_eq_tokens_of_parse h
  obtain ⟨children, rfl, hchildren⟩ := content_of_parse h
  have hformed : Token.WellFormed (root children).tokens := by
    rw [← htokens]
    exact (Token.wellFormed_of_scan hscan).kept
  have hkept : Token.kept (root children).tokens = (root children).tokens := by
    refine Token.kept_eq_self fun t ht => ?_
    rw [← htokens] at ht
    exact Token.not_isBlank_of_mem_kept ht
  exact parse_root (Token.scan_printAll hformed) hkept hchildren

/-- **Parsing is the inverse of printing.**  A template is parsed to a tree exactly if its
tokens without the blank texts are the tokens of the tree, and the tree is a root over
elements and texts, all without code.  The trees that some template is parsed to are those
that their own print is parsed to. -/
theorem parse_inverse_print (tree : Node) :
    (∀ template, parse template = .ok tree ↔
      (∃ tokens, Token.scan template = .ok tokens ∧ Token.kept tokens = tree.tokens) ∧
        ∃ children, tree = root children ∧ ContentEach children) ∧
    ((∃ template, parse template = .ok tree) ↔
      parse (Token.printAll tree.tokens) = .ok tree) := by
  refine ⟨fun template => ⟨fun h => ⟨kept_eq_tokens_of_parse h, content_of_parse h⟩, ?_⟩, ?_⟩
  · rintro ⟨⟨tokens, hscan, htokens⟩, children, rfl, hchildren⟩
    exact parse_root hscan htokens hchildren
  · constructor
    · rintro ⟨template, h⟩
      exact parse_printAll_of_parse h
    · intro h
      exact ⟨_, h⟩

end Node
end Markup
end ReactiveView
