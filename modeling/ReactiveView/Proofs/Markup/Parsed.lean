/-
# What a parsed tree is made of

The scanner delivers lexemes (`Token.isLexeme_of_scan`): in every state, what it has read so
far is the beginning of a name or of a text (`State.Sound`).  From lexemes the parser makes
a root without code whose children are *bare* (`Node.bare_of_parse`): elements with names
for tags, and texts without children, all of them without code (`Node.Bare`).
-/

import ReactiveView.Markup.Parse

namespace ReactiveView
namespace Markup

/-! ## The scanner -/

namespace Token

/-- A name may begin. -/
theorem isName_toString {c : Char} (h : isNameStart c = true) : IsName c.toString := by
  simp [IsName, h]

/-- A name may go on with a character of names. -/
theorem IsName.push {name : String} {c : Char} (h : IsName name) (hc : isNameChar c = true) :
    IsName (name.push c) := by
  unfold IsName at h ⊢
  rw [String.toList_push]
  cases hlist : name.toList with
  | nil =>
    rw [hlist] at h
    exact h.elim
  | cons first rest =>
    rw [hlist] at h
    obtain ⟨hfirst, hrest⟩ := h
    refine ⟨hfirst, ?_⟩
    intro d hd
    rcases List.mem_append.1 hd with hd | hd
    · exact hrest d hd
    · rw [List.mem_singleton.1 hd]
      exact hc

/-- What has been read is the beginning of a lexeme, which may end here. -/
def State.Sound : State → Prop
  | openName read => IsName read
  | inText read => IsLexeme (text read)
  | closeName read => IsName read
  | _ => True

/-- A text may begin with any character but one. -/
theorem isLexeme_text_toString {c : Char} (h : c ≠ '<') : IsLexeme (text c.toString) := by
  refine ⟨?_, by simp [Ne.symm h]⟩
  intro hempty
  have hlist := congrArg String.toList hempty
  simp at hlist

/-- A text goes on with any character but `<`. -/
theorem isLexeme_text_push {read : String} {c : Char} (h : IsLexeme (text read)) (hc : c ≠ '<') :
    IsLexeme (text (read.push c)) := by
  refine ⟨?_, by simp [h.2, Ne.symm hc]⟩
  intro hempty
  have hlist := congrArg String.toList hempty
  simp at hlist

/-- The moves of the scanner: one character leads from a state to a state and may complete a
token. -/
inductive State.Step : State → Char → State → Option Token → Prop where
  | openTag : Step outside '<' opened none
  | startText {c : Char} (hc : c ≠ '<') : Step outside c (inText c.toString) none
  | slash : Step opened '/' closing none
  | startOpen {c : Char} (hc : isNameStart c = true) : Step opened c (openName c.toString) none
  | endOpen {read : String} : Step (openName read) '>' outside (some (Token.openTag read))
  | moreOpen {read : String} {c : Char} (hc : isNameChar c = true) :
      Step (openName read) c (openName (read.push c)) none
  | endText {read : String} : Step (inText read) '<' opened (some (text read))
  | moreText {read : String} {c : Char} (hc : c ≠ '<') :
      Step (inText read) c (inText (read.push c)) none
  | startClose {c : Char} (hc : isNameStart c = true) :
      Step closing c (closeName c.toString) none
  | endClose {read : String} : Step (closeName read) '>' outside (some (closeTag read))
  | moreClose {read : String} {c : Char} (hc : isNameChar c = true) :
      Step (closeName read) c (closeName (read.push c)) none

/-- No name begins with `/`, so a close tag is not taken for an open one. -/
theorem not_isNameStart_slash : isNameStart '/' = false := by decide

/-- No name contains `>`, so a name ends where its tag is closed. -/
theorem not_isNameChar_gt : isNameChar '>' = false := by decide

/-- The scanner makes its moves and no others. -/
theorem State.next_eq_some_iff {state state' : State} {c : Char} {token : Option Token} :
    state.next c = some (state', token) ↔ State.Step state c state' token := by
  constructor
  · intro h
    cases state <;> simp only [State.next] at h <;> split at h
    all_goals grind [State.Step]
  · rintro (_ | hc | _ | hc | _ | hc | _ | hc | hc | _ | hc) <;> simp only [State.next]
    all_goals grind [not_isNameStart_slash, not_isNameChar_gt]

/-- One character leads from a sound state to a sound one, and completes lexemes. -/
theorem State.Sound.next {state state' : State} {c : Char} {token : Option Token}
    (h : state.Sound) (hnext : state.next c = some (state', token)) :
    state'.Sound ∧ ∀ t ∈ token, IsLexeme t := by
  have hsome {t : Token} (ht : IsLexeme t) : ∀ t' ∈ some t, IsLexeme t' := by
    rintro t' ht'
    rw [← Option.some.inj ht']
    exact ht
  cases State.next_eq_some_iff.1 hnext with
  | openTag | slash => exact ⟨trivial, by simp⟩
  | startText hc => exact ⟨isLexeme_text_toString hc, by simp⟩
  | startOpen hc | startClose hc => exact ⟨isName_toString hc, by simp⟩
  | moreOpen hc | moreClose hc => exact ⟨IsName.push h hc, by simp⟩
  | moreText hc => exact ⟨isLexeme_text_push h hc, by simp⟩
  | endOpen | endText | endClose => exact ⟨trivial, hsome h⟩

/-- At the end of the template a sound state completes a lexeme. -/
theorem State.Sound.finish {state : State} {last : Option Token} (h : state.Sound)
    (hfinish : state.finish = some last) : ∀ t ∈ last, IsLexeme t := by
  cases state with
  | outside =>
    obtain rfl := Option.some.inj hfinish
    exact fun t ht => absurd ht (by simp)
  | inText read =>
    obtain rfl := Option.some.inj hfinish
    rintro t ht
    rw [← Option.some.inj ht]
    exact h
  | _ => exact absurd hfinish (by simp [State.finish])

/-- **All tokens of a scan are lexemes**, those that were behind the scanner and those that it
adds. -/
theorem isLexeme_of_scanFrom {chars : List Char} {state : State} {offset : Nat}
    {before tokens : List Token} (hstate : state.Sound) (hbefore : ∀ t ∈ before, IsLexeme t)
    (h : scanFrom state offset before chars = .ok tokens) : ∀ t ∈ tokens, IsLexeme t := by
  have happend {token : Option Token} {before : List Token} (htoken : ∀ t ∈ token, IsLexeme t)
      (hbefore : ∀ t ∈ before, IsLexeme t) : ∀ t ∈ token.toList ++ before, IsLexeme t := by
    intro t ht
    rcases List.mem_append.1 ht with ht | ht
    · exact htoken t (Option.mem_toList.1 ht)
    · exact hbefore t ht
  induction chars generalizing state offset before with
  | nil =>
    rw [scanFrom] at h
    split at h
    · rename_i last hlast
      obtain rfl := Except.ok.inj h
      intro t ht
      exact happend (hstate.finish hlast) hbefore t (List.mem_reverse.1 ht)
    · exact absurd h (by simp)
  | cons c rest ih =>
    rw [scanFrom] at h
    split at h
    · rename_i state' token hnext
      obtain ⟨hstate', htoken⟩ := hstate.next hnext
      exact ih hstate' (happend htoken hbefore) h
    · exact absurd h (by simp)

/-- **The scanner delivers lexemes.** -/
theorem isLexeme_of_scan {template : String} {tokens : List Token}
    (h : scan template = .ok tokens) : ∀ t ∈ tokens, IsLexeme t := by
  have houtside : State.outside.Sound := trivial
  exact isLexeme_of_scanFrom houtside (fun _ ht => absurd ht List.not_mem_nil) h

end Token

/-! ## The parser -/

namespace Node

mutual

/-- An element with a name for its tag or a text without children; no node of it has
code. -/
def Bare : Node → Prop
  | mk .root _ _ => False
  | mk (.element tag) children code => Token.IsName tag ∧ BareEach children ∧ code = none
  | mk (.text _) children code => children = [] ∧ code = none

/-- All the nodes are bare. -/
def BareEach : List Node → Prop
  | [] => True
  | node :: rest => Bare node ∧ BareEach rest

end

/-- To be bare is a matter of each node. -/
theorem bareEach_iff {nodes : List Node} : BareEach nodes ↔ ∀ node ∈ nodes, node.Bare := by
  induction nodes with
  | nil => simp [BareEach]
  | cons node rest ih => simp [BareEach, ih]

/-- An open element has a name, and its earlier siblings are bare. -/
structure Open.Bare (e : Open) : Prop where
  tag : Token.IsName e.tag
  before : ∀ node ∈ e.before, node.Bare

/-- Lexemes become bare nodes. -/
theorem bare_of_parseFrom {tokens : List Token} {opens : List Open} {built : List Node}
    {tree : Node} (htokens : ∀ t ∈ tokens, t.IsLexeme) (hopens : ∀ e ∈ opens, e.Bare)
    (hbuilt : ∀ node ∈ built, node.Bare) (h : parseFrom opens built tokens = .ok tree) :
    ∃ children, tree = root children ∧ BareEach children := by
  induction tokens generalizing opens built with
  | nil =>
    cases opens with
    | nil =>
      obtain rfl := Except.ok.inj h
      refine ⟨built.reverse, rfl, bareEach_iff.2 ?_⟩
      exact fun node hnode => hbuilt node (List.mem_reverse.1 hnode)
    | cons e opens => exact absurd h (by simp [parseFrom])
  | cons token rest ih =>
    obtain ⟨htoken, hrest⟩ := List.forall_mem_cons.1 htokens
    cases token with
    | openTag tag =>
      rw [parseFrom] at h
      refine ih hrest ?_ (fun _ hnode => absurd hnode List.not_mem_nil) h
      exact List.forall_mem_cons.2 ⟨⟨htoken, hbuilt⟩, hopens⟩
    | text content =>
      rw [parseFrom] at h
      refine ih hrest hopens ?_ h
      split
      · exact hbuilt
      · exact List.forall_mem_cons.2 ⟨⟨rfl, rfl⟩, hbuilt⟩
    | closeTag name =>
      cases opens with
      | nil => exact absurd h (by simp [parseFrom])
      | cons e opens =>
        obtain ⟨he, hopens⟩ := List.forall_mem_cons.1 hopens
        rw [parseFrom] at h
        split at h
        · have helement : (element e.tag built.reverse).Bare := by
            refine ⟨he.tag, bareEach_iff.2 ?_, rfl⟩
            exact fun node hnode => hbuilt node (List.mem_reverse.1 hnode)
          exact ih hrest hopens (List.forall_mem_cons.2 ⟨helement, he.before⟩) h
        · exact absurd h (by simp)

/-- **A parsed tree is a root over bare nodes.** -/
theorem bare_of_parse {template : String} {tree : Node} (h : parse template = .ok tree) :
    ∃ children, tree = root children ∧ BareEach children := by
  unfold parse at h
  cases hscan : Token.scan template with
  | error error =>
    rw [hscan] at h
    exact absurd h (by simp [bind, Except.bind])
  | ok tokens =>
    rw [hscan] at h
    exact bare_of_parseFrom (Token.isLexeme_of_scan hscan) (fun _ he => absurd he List.not_mem_nil)
      (fun _ hnode => absurd hnode List.not_mem_nil) h

end Node
end Markup
end ReactiveView
