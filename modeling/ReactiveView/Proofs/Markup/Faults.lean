/-
# What is wrong with a template

A template whose scan fails is refused for that, even if a close tag before the place is
already wrong.  Any other template is read tag by tag with a list of the open tags
(`Token.Moves`, `Token.Reads`), and what is wrong with it is the first close tag that closes
nothing or something else, or else the innermost of the tags that stay open
(`Token.Fault`).  The parser reports that and nothing else (`Node.parse_error_exact`).

One step has two lemmas: a token that moves the open tags moves the open elements alike
(`Node.parseFrom_move`), and at any other token the parser stops for the one fault that there
is (`Node.parseFrom_stuck`).

The open elements may also be kept on one stack, whose bottom frame belongs to no element
and collects the roots (`Frame`).  Then a close tag takes a frame off before it is looked
at, there may be no frame to put a finished element on, and the stack may end in a form that
stands for no template.  None of this comes about, because the stack always consists of
frames with tags above one without (`Frame.Upright`).
-/

import ReactiveView.Proofs.Markup.RoundTrip

namespace ReactiveView
namespace Markup

/-! ## Open tags -/

namespace Token

/-- What a token does to the open tags, innermost first; a close tag closes the innermost
one. -/
inductive Moves : List String → Token → List String → Prop
  | openTag {opens : List String} {tag : String} : Moves opens (.openTag tag) (tag :: opens)
  | text {opens : List String} {content : String} : Moves opens (.text content) opens
  | closeTag {opens : List String} {tag : String} : Moves (tag :: opens) (.closeTag tag) opens

/-- What several tokens, read from the left, do to the open tags. -/
inductive Reads : List String → List Token → List String → Prop
  | nil {opens : List String} : Reads opens [] opens
  | cons {opens opens' left : List String} {t : Token} {rest : List Token}
      (h : Moves opens t opens') (h' : Reads opens' rest left) : Reads opens (t :: rest) left

/-- What is wrong with tokens that are read with some tags open. -/
inductive Fault (opens : List String) (tokens : List Token) : ParseError → Prop
  /-- A close tag finds no tag open. -/
  | unexpectedClose {before after : List Token} {name : String}
      (htokens : tokens = before ++ .closeTag name :: after) (h : Reads opens before []) :
      Fault opens tokens (.unexpectedClose name)
  /-- A close tag finds another tag innermost. -/
  | mismatchedTag {before after : List Token} {tag name : String} {left : List String}
      (htokens : tokens = before ++ .closeTag name :: after)
      (h : Reads opens before (tag :: left)) (hne : tag ≠ name) :
      Fault opens tokens (.mismatchedTag tag name)
  /-- The tokens end with the tag innermost. -/
  | unclosedTag {tag : String} {left : List String} (h : Reads opens tokens (tag :: left)) :
      Fault opens tokens (.unclosedTag tag)

/-- A token moves the open tags in one way at most. -/
theorem Moves.unique {opens opens' opens'' : List String} {t : Token} (h : Moves opens t opens')
    (h' : Moves opens t opens'') : opens' = opens'' := by
  cases h <;> cases h' <;> rfl

/-- Without tokens the open tags stay. -/
theorem reads_nil_iff {opens left : List String} : Reads opens [] left ↔ opens = left := by
  constructor
  · rintro ⟨⟩
    rfl
  · rintro rfl
    exact .nil

/-- A token that moves the open tags is read, and then the rest. -/
theorem Moves.reads_cons_iff {opens opens' left : List String} {t : Token} {rest : List Token}
    (h : Moves opens t opens') : Reads opens (t :: rest) left ↔ Reads opens' rest left := by
  constructor
  · rintro (_ | ⟨h', hrest⟩)
    rwa [h.unique h']
  · exact .cons h

/-- A token that moves the open tags is not at fault: what is wrong comes behind it. -/
theorem Moves.fault_cons_iff {opens opens' : List String} {t : Token} {rest : List Token}
    {error : ParseError} (h : Moves opens t opens') :
    Fault opens (t :: rest) error ↔ Fault opens' rest error := by
  constructor
  · intro hfault
    cases hfault with
    | @unexpectedClose before after name htokens hreads =>
      cases before with
      | nil =>
        obtain ⟨rfl, -⟩ := List.cons.inj htokens
        obtain rfl := reads_nil_iff.1 hreads
        cases h
      | cons s before =>
        obtain ⟨rfl, hrest⟩ := List.cons.inj htokens
        exact .unexpectedClose hrest (h.reads_cons_iff.1 hreads)
    | @mismatchedTag before after tag name left htokens hreads hne =>
      cases before with
      | nil =>
        obtain ⟨rfl, -⟩ := List.cons.inj htokens
        obtain rfl := reads_nil_iff.1 hreads
        cases h
        exact absurd rfl hne
      | cons s before =>
        obtain ⟨rfl, hrest⟩ := List.cons.inj htokens
        exact .mismatchedTag hrest (h.reads_cons_iff.1 hreads) hne
    | unclosedTag hreads => exact .unclosedTag (h.reads_cons_iff.1 hreads)
  · intro hfault
    cases hfault with
    | unexpectedClose htokens hreads =>
      exact .unexpectedClose (congrArg (t :: ·) htokens) (.cons h hreads)
    | mismatchedTag htokens hreads hne =>
      exact .mismatchedTag (congrArg (t :: ·) htokens) (.cons h hreads) hne
    | unclosedTag hreads => exact .unclosedTag (.cons h hreads)

/-- A token that does not move the open tags is itself at fault. -/
theorem Fault.of_stuck {opens : List String} {t : Token} {rest : List Token} {error : ParseError}
    (hstuck : ∀ opens', ¬ Moves opens t opens') (h : Fault opens (t :: rest) error) :
    ∃ name, t = .closeTag name ∧
      (opens = [] ∧ error = .unexpectedClose name ∨
        ∃ tag left, opens = tag :: left ∧ error = .mismatchedTag tag name) := by
  have hfirst {before : List Token} {left : List String} (s : Token)
      (hreads : Reads opens (s :: before) left) : t ≠ s := by
    rintro rfl
    cases hreads with
    | cons hmoves _ => exact hstuck _ hmoves
  cases h with
  | @unexpectedClose before after name htokens hreads =>
    cases before with
    | nil =>
      exact ⟨name, (List.cons.inj htokens).1, .inl ⟨reads_nil_iff.1 hreads, rfl⟩⟩
    | cons s before => exact absurd (List.cons.inj htokens).1 (hfirst s hreads)
  | @mismatchedTag before after tag name left htokens hreads =>
    cases before with
    | nil =>
      exact ⟨name, (List.cons.inj htokens).1, .inr ⟨tag, left, reads_nil_iff.1 hreads, rfl⟩⟩
    | cons s before => exact absurd (List.cons.inj htokens).1 (hfirst s hreads)
  | unclosedTag hreads => exact absurd rfl (hfirst t hreads)

/-- At the end it is a fault that a tag is open, the innermost one. -/
theorem fault_nil_iff {opens : List String} {error : ParseError} :
    Fault opens [] error ↔ ∃ tag left, opens = tag :: left ∧ error = .unclosedTag tag := by
  constructor
  · intro h
    cases h with
    | unexpectedClose htokens | mismatchedTag htokens => exact absurd htokens (by simp)
    | @unclosedTag tag left hreads => exact ⟨tag, left, reads_nil_iff.1 hreads, rfl⟩
  · rintro ⟨tag, left, rfl, rfl⟩
    exact .unclosedTag .nil

end Token

/-! ## The parser -/

namespace Node

open Token (Fault Moves Reads)

variable {opens : List Open} {built : List Node} {tokens : List Token}

/-- A token that moves the open tags moves the open elements alike. -/
theorem parseFrom_move {t : Token} {left : List String} (h : Moves (opens.map Open.tag) t left)
    (built : List Node) (rest : List Token) :
    ∃ opens' built', opens'.map Open.tag = left ∧
      parseFrom opens built (t :: rest) = parseFrom opens' built' rest := by
  cases t with
  | openTag tag =>
    obtain rfl := h.unique .openTag
    exact ⟨⟨tag, built⟩ :: opens, [], rfl, by rw [parseFrom]⟩
  | text content =>
    obtain rfl := h.unique .text
    exact ⟨opens, _, rfl, by rw [parseFrom]⟩
  | closeTag name =>
    cases opens with
    | nil => cases h
    | cons e opens =>
      cases h
      exact ⟨opens, _, rfl, if_pos rfl⟩

/-- At a token that does not move the open tags the parser stops, for the one fault that
there is. -/
theorem parseFrom_stuck {t : Token} (h : ∀ left, ¬ Moves (opens.map Open.tag) t left)
    (built : List Node) (rest : List Token) :
    ∃ error, parseFrom opens built (t :: rest) = .error error ∧
      ∀ error', Fault (opens.map Open.tag) (t :: rest) error' ↔ error' = error := by
  cases t with
  | openTag tag => exact absurd .openTag (h _)
  | text content => exact absurd .text (h _)
  | closeTag name =>
    cases opens with
    | nil =>
      refine ⟨.unexpectedClose name, rfl, fun error' => ⟨fun hfault => ?_, ?_⟩⟩
      · obtain ⟨name', hname, ⟨-, herror⟩ | ⟨tag, left, hopens, -⟩⟩ := hfault.of_stuck h
        · rw [herror, Token.closeTag.inj hname]
        · exact absurd hopens (by simp)
      · rintro rfl
        exact .unexpectedClose (List.nil_append _).symm .nil
    | cons e opens =>
      have hne : e.tag ≠ name := by
        rintro rfl
        exact h _ .closeTag
      refine ⟨.mismatchedTag e.tag name, if_neg hne, fun error' => ⟨fun hfault => ?_, ?_⟩⟩
      · obtain ⟨name', hname, ⟨hopens, -⟩ | ⟨tag, left, hopens, herror⟩⟩ := hfault.of_stuck h
        · exact absurd hopens (by simp)
        · rw [herror, Token.closeTag.inj hname, (List.cons.inj hopens).1]
      · rintro rfl
        exact .mismatchedTag (List.nil_append _).symm .nil hne

/-- **The parser fails for what is wrong**, and for nothing else. -/
theorem parseFrom_error_iff {error : ParseError} :
    parseFrom opens built tokens = .error error ↔ Fault (opens.map Open.tag) tokens error := by
  induction tokens generalizing opens built with
  | nil =>
    rw [Token.fault_nil_iff]
    cases opens with
    | nil => simp [parseFrom]
    | cons e opens => simp [parseFrom, eq_comm]
  | cons t rest ih =>
    by_cases h : ∃ left, Moves (opens.map Open.tag) t left
    · obtain ⟨left, hmoves⟩ := h
      obtain ⟨opens', built', rfl, hparse⟩ := parseFrom_move hmoves built rest
      rw [hparse, ih, hmoves.fault_cons_iff]
    · obtain ⟨error', hparse, hfault⟩ := parseFrom_stuck (not_exists.1 h) built rest
      rw [hparse, hfault, Except.error.injEq, eq_comm]

/-- **The parser succeeds where every tag is closed**, and nowhere else. -/
theorem parseFrom_ok_iff :
    (∃ tree, parseFrom opens built tokens = .ok tree) ↔ Reads (opens.map Open.tag) tokens [] := by
  induction tokens generalizing opens built with
  | nil =>
    rw [Token.reads_nil_iff]
    cases opens <;> simp [parseFrom]
  | cons t rest ih =>
    by_cases h : ∃ left, Moves (opens.map Open.tag) t left
    · obtain ⟨left, hmoves⟩ := h
      obtain ⟨opens', built', rfl, hparse⟩ := parseFrom_move hmoves built rest
      rw [hparse, ih, hmoves.reads_cons_iff]
    · obtain ⟨error', hparse, -⟩ := parseFrom_stuck (not_exists.1 h) built rest
      have hnot : ¬ Reads (opens.map Open.tag) (t :: rest) [] := by
        rintro (_ | ⟨hmoves, -⟩)
        exact h ⟨_, hmoves⟩
      simp [hparse, hnot]

end Node

/-! ## One stack -/

/-- A level of the stack: the tag of an open element and its children so far; the bottom
level has no tag and collects the roots. -/
structure Frame where
  tag : Option String
  children : List Node

namespace Frame

/-- Puts a finished node on the innermost level; without a level it is lost. -/
def put (node : Node) : List Frame → List Frame
  | [] => []
  | frame :: below => ⟨frame.tag, frame.children ++ [node]⟩ :: below

/-- What a token does to the stack, innermost level first.  A close tag takes a level off,
whatever that is. -/
def read (stack : List Frame) : Token → Except ParseError (List Frame)
  | .openTag tag => .ok (⟨some tag, []⟩ :: stack)
  | .text content => .ok (if Text.isBlank content then stack else put (.text content) stack)
  | .closeTag name =>
    match stack with
    | ⟨some tag, children⟩ :: below =>
      if tag = name then .ok (put (.element tag children) below)
      else .error (.mismatchedTag tag name)
    | _ => .error (.unexpectedClose name)

/-- What the stack comes to at the end of the template. -/
def finish : List Frame → Except ParseError Node
  | [⟨none, roots⟩] => .ok (.root roots)
  | ⟨some tag, _⟩ :: _ => .error (.unclosedTag tag)
  | _ => .error .unexpectedEof

/-- The levels that stand for open elements and for what is built of the innermost one. -/
def levels : List Node.Open → List Node → List Frame
  | [], built => [⟨none, built.reverse⟩]
  | e :: opens, built => ⟨some e.tag, built.reverse⟩ :: levels opens e.before

/-- There are levels with tags, and one without below them. -/
def Upright (stack : List Frame) : Prop :=
  ∃ inner bottom, stack = inner ++ [bottom] ∧ (∀ frame ∈ inner, frame.tag.isSome = true) ∧
    bottom.tag = none

/-- The stack of a parser that has tags open stands upright. -/
theorem upright_levels (opens : List Node.Open) (built : List Node) :
    Upright (levels opens built) := by
  induction opens generalizing built with
  | nil => exact ⟨[], _, rfl, by simp, rfl⟩
  | cons e opens ih =>
    obtain ⟨inner, bottom, hlevels, hinner, hbottom⟩ := ih e.before
    refine ⟨⟨some e.tag, built.reverse⟩ :: inner, bottom, ?_, ?_, hbottom⟩
    · rw [levels, hlevels, List.cons_append]
    · exact List.forall_mem_cons.2 ⟨rfl, hinner⟩

/-- A finished node finds its place. -/
theorem put_levels (node : Node) (opens : List Node.Open) (built : List Node) :
    put node (levels opens built) = levels opens (node :: built) := by
  cases opens <;> simp [levels, put]

/-- The stack that is left is judged as the parser judges its open elements. -/
theorem finish_levels (opens : List Node.Open) (built : List Node) :
    finish (levels opens built) = Node.parseFrom opens built [] := by
  cases opens with
  | nil => rfl
  | cons e opens => cases opens <;> rfl

/-- The stack follows the parser: both go on with the next token, or stop at it with the same
error. -/
theorem read_levels (t : Token) (opens : List Node.Open) (built : List Node) :
    (∃ opens' built', read (levels opens built) t = .ok (levels opens' built') ∧
      ∀ rest, Node.parseFrom opens built (t :: rest) = Node.parseFrom opens' built' rest) ∨
    ∃ error, read (levels opens built) t = .error error ∧
      ∀ rest, Node.parseFrom opens built (t :: rest) = .error error := by
  cases t with
  | openTag tag => exact .inl ⟨⟨tag, built⟩ :: opens, [], rfl, fun rest => by rw [Node.parseFrom]⟩
  | text content =>
    refine .inl ⟨opens, if Text.isBlank content then built else .text content :: built, ?_,
      fun rest => by rw [Node.parseFrom]⟩
    rw [read, put_levels]
    split <;> rfl
  | closeTag name =>
    cases opens with
    | nil => exact .inr ⟨.unexpectedClose name, rfl, fun rest => rfl⟩
    | cons e opens =>
      by_cases htag : e.tag = name
      · refine .inl ⟨opens, .element e.tag built.reverse :: e.before, ?_, fun rest => if_pos htag⟩
        rw [← put_levels]
        exact if_pos htag
      · exact .inr ⟨.mismatchedTag e.tag name, if_neg htag, fun rest => if_neg htag⟩

/-- The bottom level before anything is read. -/
def bottom : Frame := ⟨none, []⟩

/-- Parses tokens on one stack. -/
def parse (tokens : List Token) : Except ParseError Node := do
  finish (← tokens.foldlM read [bottom])

/-- **Reading with one stack is parsing**, from every stage on. -/
theorem foldlM_read_levels (tokens : List Token) (opens : List Node.Open) (built : List Node) :
    (do finish (← tokens.foldlM read (levels opens built))) =
      Node.parseFrom opens built tokens := by
  induction tokens generalizing opens built with
  | nil => exact finish_levels opens built
  | cons t rest ih =>
    rw [List.foldlM_cons]
    obtain ⟨opens', built', hread, hparse⟩ | ⟨error, hread, hparse⟩ := read_levels t opens built
    · rw [hread, hparse, ← ih]
      rfl
    · rw [hread, hparse]
      rfl

/-- **On the way the stack stays upright.** -/
theorem upright_foldlM_read {tokens : List Token} {opens : List Node.Open} {built : List Node}
    {stack : List Frame} (h : tokens.foldlM read (levels opens built) = .ok stack) :
    Upright stack := by
  induction tokens generalizing opens built with
  | nil =>
    obtain rfl := Except.ok.inj h
    exact upright_levels opens built
  | cons t rest ih =>
    rw [List.foldlM_cons] at h
    obtain ⟨opens', built', hread, -⟩ | ⟨error, hread, -⟩ := read_levels t opens built
    · rw [hread] at h
      exact ih h
    · rw [hread] at h
      exact absurd h (by simp [bind, Except.bind])

end Frame

/-! ## The result -/

namespace Node

/-- **Errors of structure are exact.**  If the template has no tokens, parsing fails for that
reason.  Otherwise it fails for the first thing that is wrong with the tags, and succeeds if
there is none; the tokens of the tree are then those of the template without the blank
texts, so that no element is lost.  It never fails for an unexpected end.  On one stack the
outcome is the same, and every stack on the way is upright: there is always a level to put a
finished element on, and at the end there is a level. -/
theorem parse_error_exact (template : String) :
    match Token.scan template with
    | .error error => parse template = .error error
    | .ok tokens =>
      (∀ error, parse template = .error error ↔ Token.Fault [] tokens error) ∧
      ((∃ tree, parse template = .ok tree) ↔ Token.Reads [] tokens []) ∧
      parse template ≠ .error .unexpectedEof ∧
      (∀ tree, parse template = .ok tree → tree.tokens = Token.kept tokens) ∧
      Frame.parse tokens = parse template ∧
      ∀ before stack, before <+: tokens →
        before.foldlM Frame.read [Frame.bottom] = .ok stack → Frame.Upright stack := by
  cases hscan : Token.scan template with
  | error error => simp [parse, hscan, bind, Except.bind]
  | ok tokens =>
    have hparse : parse template = parseFrom [] [] tokens := by
      simp [parse, hscan, bind, Except.bind]
    have herror (error : ParseError) :
        parse template = .error error ↔ Token.Fault [] tokens error := by
      rw [hparse]
      exact parseFrom_error_iff
    refine ⟨herror, ?_, ?_, ?_, ?_, ?_⟩
    · rw [hparse]
      exact parseFrom_ok_iff
    · rw [Ne, herror]
      rintro ⟨⟩
    · intro tree htree
      obtain ⟨tokens', hscan', hkept⟩ := kept_eq_tokens_of_parse htree
      obtain rfl := Except.ok.inj (hscan.symm.trans hscan')
      exact hkept.symm
    · rw [hparse]
      exact Frame.foldlM_read_levels tokens [] []
    · intro before stack _ hstack
      have hlevels : before.foldlM Frame.read (Frame.levels [] []) = .ok stack := hstack
      exact Frame.upright_foldlM_read hlevels

end Node
end Markup
end ReactiveView
