/-
# The literals of a source

Read from the left, a source is letters, digits, brackets, commas and blanks, with string
literals between them (`Code.Literals`).  Characters carry texts (`Code.Carries`) if, wherever
they stand, just the literals of these texts are read from them.  Pieces that carry texts can
be put together, so the source of a node carries the texts of the node
(`Code.carries_chars`): no literal ends early, and none goes on into the code behind it.

For a template these texts are its tags and its texts in document order.  One exception is
left, a carriage return: a literal with one in it is none, and then the source cannot be read
at all.
-/

import ReactiveView.Proofs.Code.StringValue
import ReactiveView.Proofs.Markup.Recovery

namespace ReactiveView
namespace Code

/-! ## Reading a source -/

/-- A character that stands between literals: a word character, a blank, a line feed, a comma
or a bracket. -/
def isPlainCode (c : Char) : Bool :=
  isWordChar c || [' ', '\n', ',', '(', ')', '[', ']', '\x7b', '\x7d'].contains c

/-- The source can be read, and has these literals in order: what stands between the quotes,
and the string that it denotes. -/
inductive Literals : List Char → List (List Char × List Nat) → Prop
  | nil : Literals [] []
  | code {c : Char} {rest : List Char} {found : List (List Char × List Nat)}
      (hc : isPlainCode c = true) (h : Literals rest found) : Literals (c :: rest) found
  | literal {body rest : List Char} {value : List Nat} {found : List (List Char × List Nat)}
      (hbody : Spells body value) (h : Literals rest found) :
      Literals ('\'' :: (body ++ '\'' :: rest)) ((body, value) :: found)

/-- The literal of a text: the escaped text, which denotes the text. -/
def written (s : String) : List Char × List Nat :=
  (escaped s.toList, units s.toList)

/-- No text holds a carriage return. -/
def FreeOfReturns (texts : List String) : Prop :=
  ∀ s ∈ texts, '\r' ∉ s.toList

@[simp] theorem freeOfReturns_nil : FreeOfReturns [] := by simp [FreeOfReturns]

/-- Two lists of texts are free of carriage returns if each is. -/
theorem freeOfReturns_append {texts texts' : List String} :
    FreeOfReturns (texts ++ texts') ↔ FreeOfReturns texts ∧ FreeOfReturns texts' :=
  List.forall_mem_append

/-- Wherever the characters stand in a source, just the literals of these texts are read from
them, and then what follows is read. -/
def Carries (chars : List Char) (texts : List String) : Prop :=
  ∀ (rest : List Char) (found : List (List Char × List Nat)), Literals (chars ++ rest) found ↔
    FreeOfReturns texts ∧ ∃ later, Literals rest later ∧ found = texts.map written ++ later

/-- Nothing carries no text. -/
theorem carries_nil : Carries [] [] := by
  intro rest found
  simp

/-- **Pieces are put together**: the texts of the first are read, and then those of the
second. -/
theorem Carries.append {chars chars' : List Char} {texts texts' : List String}
    (h : Carries chars texts) (h' : Carries chars' texts') :
    Carries (chars ++ chars') (texts ++ texts') := by
  intro rest found
  rw [List.append_assoc, h, freeOfReturns_append]
  constructor
  · rintro ⟨hfree, later, hlater, rfl⟩
    obtain ⟨hfree', later', hrest, rfl⟩ := (h' rest later).1 hlater
    exact ⟨⟨hfree, hfree'⟩, later', hrest, by rw [List.map_append, List.append_assoc]⟩
  · rintro ⟨⟨hfree, hfree'⟩, later', hrest, rfl⟩
    exact ⟨hfree, _, (h' rest _).2 ⟨hfree', later', hrest, rfl⟩,
      by rw [List.map_append, List.append_assoc]⟩

/-- Plain code carries no text. -/
theorem carries_plain {chars : List Char} (h : chars.all isPlainCode = true) :
    Carries chars [] := by
  have hone {c : Char} (hc : isPlainCode c = true) : Carries [c] [] := by
    intro rest found
    simp only [List.singleton_append, freeOfReturns_nil, true_and, List.map_nil, List.nil_append,
      exists_eq_right']
    constructor
    · intro h
      cases h with
      | code _ h => exact h
      | literal => exact absurd hc (by decide)
    · exact .code hc
  induction chars with
  | nil => exact carries_nil
  | cons c chars ih =>
    rw [List.all_cons, Bool.and_eq_true] at h
    exact (hone h.1).append (ih h.2)

/-- A printed literal carries its text. -/
theorem carries_literal (level : Nat) (s : String) : Carries (chars level (string s)) [s] := by
  intro rest found
  simp only [chars_string, List.cons_append, List.append_assoc, List.nil_append, List.map_cons,
    List.map_nil]
  constructor
  · intro h
    generalize hsource : '\'' :: (escaped s.toList ++ '\'' :: rest) = source at h
    cases h with
    | nil => exact absurd hsource (by simp)
    | code hc _ =>
      obtain ⟨rfl, -⟩ := List.cons.inj hsource
      exact absurd hc (by decide)
    | literal hbody h =>
      obtain ⟨rfl, rfl, hreturn, rfl⟩ := spells_of_append hbody (List.cons.inj hsource).2.symm
      exact ⟨by simpa [FreeOfReturns] using hreturn, _, h, rfl⟩
  · rintro ⟨hfree, later, hlater, rfl⟩
    exact .literal (spells_escaped (hfree s (List.mem_singleton.2 rfl))) hlater

/-- What carries texts, read to its end. -/
theorem Carries.literals_iff {chars : List Char} {texts : List String} (h : Carries chars texts)
    (found : List (List Char × List Nat)) :
    Literals chars found ↔ FreeOfReturns texts ∧ found = texts.map written := by
  have hnil {later : List (List Char × List Nat)} : Literals [] later ↔ later = [] := by
    constructor
    · rintro ⟨⟩
      rfl
    · rintro rfl
      exact .nil
  simpa [hnil] using h [] found

/-! ## The source of a node -/

mutual

/-- The texts of the string literals of a node, in order. -/
def texts : Code → List String
  | function id params body => texts id ++ textsEach params ++ textsEach body
  | ret value => texts value
  | call callee arguments => texts callee ++ textsEach arguments
  | array elements => textsEach elements
  | string value => [value]
  | identifier _ => []

/-- The texts of the string literals of several nodes, in order. -/
def textsEach : List Code → List String
  | [] => []
  | code :: rest => texts code ++ textsEach rest

end

/-- Words are code between literals. -/
theorem isPlainCode_of_isWordChar {c : Char} (h : isWordChar c = true) : isPlainCode c = true := by
  simp [isPlainCode, h]

/-- An identifier carries no text. -/
theorem carries_identifier {code : Code} (h : code.IsIdentifier) (level : Nat) :
    Carries (chars level code) code.texts := by
  obtain ⟨name, rfl, hname⟩ := isIdentifier_iff.1 h
  exact carries_plain (List.all_eq_true.2 fun c hc => isPlainCode_of_isWordChar (hname.2 c hc))

/-- A new line and its blanks carry none. -/
theorem carries_newline (level : Nat) : Carries (newline level).toList [] := by
  refine carries_plain (List.all_eq_true.2 fun c hc => ?_)
  induction level with
  | zero =>
    obtain rfl : c = '\n' := by simpa [newline] using hc
    rfl
  | succ level ih =>
    rw [toList_newline_succ] at hc
    rcases List.mem_append.1 hc with hc | hc
    · exact ih hc
    · obtain rfl : c = ' ' := by simpa using hc
      rfl

/-- A comma carries no text. -/
theorem carries_comma : Carries [',', ' '] [] := carries_plain (by decide)

mutual

/-- **The source of a node carries the texts of the node.** -/
theorem carries_chars : ∀ (code : Code) (level : Nat), code.Named →
    Carries (chars level code) code.texts
  | string value, level, _ => carries_literal level value
  | identifier name, level, h =>
    carries_identifier (show (identifier name).IsIdentifier from h) level
  | array elements, level, h => by
    have helements := carries_each elements level carries_comma h
    have hopen : Carries ['['] [] := carries_plain (by decide)
    have hclose : Carries [']'] [] := carries_plain (by decide)
    simpa [texts] using hopen.append (helements.append hclose)
  | call callee arguments, level, h => by
    have hcallee := carries_identifier h.1 level
    have harguments := carries_each arguments level carries_comma h.2
    have hopen : Carries ['('] [] := carries_plain (by decide)
    have hclose : Carries [')'] [] := carries_plain (by decide)
    simpa [texts] using hcallee.append (hopen.append (harguments.append hclose))
  | ret value, level, h => by
    have hvalue := carries_chars value level h
    have hreturn : Carries ("return".toList ++ [' ']) [] := carries_plain (by decide)
    simpa [texts] using hreturn.append hvalue
  | function id params body, level, h => by
    have hid := carries_identifier h.1 level
    have hparams := carries_each params level carries_comma h.2.1
    have hbody := carries_each body (level + 1) (carries_newline (level + 1)) h.2.2
    have hfunction : Carries ("function".toList ++ [' ']) [] := carries_plain (by decide)
    have hopen : Carries [' ', '('] [] := carries_plain (by decide)
    have hbrace : Carries [')', ' ', '\x7b'] [] := carries_plain (by decide)
    have hclose : Carries ['\x7d'] [] := carries_plain (by decide)
    have hhead := hfunction.append (hid.append (hopen.append (hparams.append hbrace)))
    have hlines := (carries_newline (level + 1)).append
      (hbody.append ((carries_newline level).append hclose))
    simpa [texts] using hhead.append hlines

/-- A list carries the texts of its nodes, if what separates them carries none. -/
theorem carries_each : ∀ (codes : List Code) (level : Nat) {sep : List Char}, Carries sep [] →
    NamedEach codes → Carries (charsEach level sep codes) (textsEach codes)
  | [], _, _, _, _ => carries_nil
  | code :: rest, level, _, hsep, h =>
    (carries_chars code level h.1).append (carries_later rest level hsep h.2)

/-- What follows the first node of a list carries the texts of those nodes. -/
theorem carries_later : ∀ (codes : List Code) (level : Nat) {sep : List Char}, Carries sep [] →
    NamedEach codes → Carries (charsLater level sep codes) (textsEach codes)
  | [], _, _, _, _ => carries_nil
  | code :: rest, level, _, hsep, h =>
    (hsep.append (carries_chars code level h.1)).append (carries_later rest level hsep h.2)

end

end Code

namespace Markup

namespace Node

mutual

/-- The tags and texts of a node, in document order. -/
def words : Node → List String
  | mk .root children _ => wordsEach children
  | mk (.element tag) children _ => tag :: wordsEach children
  | mk (.text content) children _ => content :: wordsEach children

/-- The tags and texts of several nodes, in document order. -/
def wordsEach : List Node → List String
  | [] => []
  | node :: rest => words node ++ wordsEach rest

end

/-- The literals in what an element passes on are those of its children. -/
theorem texts_contentCode (codes : List Code) :
    (contentCode codes).texts = Code.textsEach codes := by
  match codes with
  | [] => rfl
  | [only] => exact (List.append_nil _).symm
  | _ :: _ :: _ => rfl

mutual

/-- The literals in the code of a bare node are its tags and texts. -/
theorem texts_renderCode : ∀ node : Node, node.Bare → node.renderCode.texts = node.words
  | mk .root _ _, h => h.elim
  | mk (.text _) children _, h => by
    obtain ⟨rfl, -⟩ := h
    rfl
  | mk (.element tag) children _, h => by
    have hcontent : (contentCode (renderEach children)).texts = wordsEach children := by
      rw [texts_contentCode, texts_renderEach children h.2.1]
    simp [renderCode, words, Code.texts, Code.textsEach, hcontent]

/-- The code that stands for several nodes has their tags and texts for its literals. -/
theorem texts_renderEach : ∀ nodes : List Node, BareEach nodes →
    Code.textsEach (renderEach nodes) = wordsEach nodes
  | [], _ => rfl
  | node :: rest, h => by
    rw [renderEach, Code.textsEach, texts_renderCode node h.1, texts_renderEach rest h.2, wordsEach]

end

end Node

/-- **String literals denote their texts.**  A printed string literal is one literal of the
grammar exactly if its text is free of carriage returns, and then denotes the text.  And the
source of a template that compiles can be read exactly if the tags and texts of the template
are free of them; its literals are then those of the tags and texts in document order, each
ends where it was closed, and each denotes its tag or text. -/
theorem literals_denote_texts (s template source : String) :
    (∀ value, Code.IsLiteral (Code.string s).print value ↔
      '\r' ∉ s.toList ∧ value = Code.units s.toList) ∧
    (compile template = .ok source →
      ∃ child, Node.parse template = .ok (.root [child]) ∧
        ∀ found, Code.Literals source.toList found ↔
          Code.FreeOfReturns child.words ∧ found = child.words.map Code.written) := by
  refine ⟨Code.isLiteral_literal_iff s, fun hcompile => ?_⟩
  obtain ⟨child, hparse, hbare, rfl⟩ := of_compile_eq_ok hcompile
  have hnamed : (Code.function (.identifier "render") [] [.ret child.renderCode]).Named :=
    ⟨Node.isWord_render, trivial, Node.named_renderCode child hbare, trivial⟩
  have htexts : (Code.function (.identifier "render") [] [.ret child.renderCode]).texts =
      child.words := by
    simp [Code.texts, Code.textsEach, Node.texts_renderCode child hbare]
  refine ⟨child, hparse, fun found => ?_⟩
  rw [← htexts]
  exact (Code.carries_chars _ 0 hnamed).literals_iff found

/-- A template with a quote and a backslash in its text. -/
def quotedTemplate : String := "<p>it's \\</p>"

/-- The hypothesis of `literals_denote_texts` is met by `quotedTemplate`: its source is read
with two literals, the tag and the text. -/
theorem literals_denote_texts_quoted :
    compile quotedTemplate = .ok "function render () \x7b\n  return h('p', 'it\\'s \\\\')\n\x7d" ∧
      Code.Literals "function render () \x7b\n  return h('p', 'it\\'s \\\\')\n\x7d".toList
        [(['p'], [0x70]), ("it\\'s \\\\".toList, [0x69, 0x74, 0x27, 0x73, 0x20, 0x5C])] := by
  have hparsed : Node.parse quotedTemplate =
      .ok (.root [.element "p" [.text "it's \\"]]) := rfl
  have hsource : compile quotedTemplate =
      .ok "function render () \x7b\n  return h('p', 'it\\'s \\\\')\n\x7d" := by
    rw [compile_of_parse hparsed]
    rfl
  obtain ⟨child, hparse, hliterals⟩ := (literals_denote_texts "" quotedTemplate _).2 hsource
  have hchild : child = .element "p" [.text "it's \\"] := by
    rw [hparsed] at hparse
    exact (List.cons.inj (Node.mk.inj (Except.ok.inj hparse)).2.1).1.symm
  subst hchild
  exact ⟨hsource, (hliterals _).2 ⟨by simp [Code.FreeOfReturns, Node.words, Node.wordsEach,
    Node.element, Node.text], rfl⟩⟩

/-- A literal of one carriage return is printed with the carriage return as it is, and is none:
no string is denoted by it. -/
theorem carriage_return_spoils_literal :
    (Code.string "\r").print = "'\r'" ∧
      ¬ ∃ value, Code.IsLiteral (Code.string "\r").print value := by
  refine ⟨rfl, ?_⟩
  rintro ⟨value, h⟩
  exact ((Code.isLiteral_literal_iff "\r" value).1 h).1 (by decide)

end Markup
end ReactiveView
