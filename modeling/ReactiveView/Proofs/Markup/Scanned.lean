/-
# Scanning is the inverse of printing

A template has one token list, and a token list that is well formed has one template:
`Token.scan_eq_ok_iff`.

The scanner loses nothing: the tokens behind it, printed, and what it has read since
(`State.pending`) are what it has read of the template.  It sets no two texts side by side,
since behind a text it stands behind a `<`, and only a tag leads out of there
(`State.Apart`).  In the other direction a lexeme is read back whatever follows, except that
a text must be followed by a `<` or by nothing (`scanFrom_print`).
-/

import Mathlib.Data.List.Chain
import ReactiveView.Proofs.Markup.Parsed

namespace ReactiveView
namespace Markup
namespace Token

/-! ## Printed tokens -/

/-- Tokens are printed one after the other. -/
theorem toList_printAll (tokens : List Token) :
    (printAll tokens).toList = tokens.flatMap fun t => t.print.toList := by
  simp [printAll, String.toList_join, List.flatMap_map]

/-- Token lists that print the same characters print the same template. -/
theorem printAll_eq_iff {tokens : List Token} {template : String} :
    printAll tokens = template ↔
      (tokens.flatMap fun t => t.print.toList) = template.toList := by
  rw [← String.toList_inj, toList_printAll]

/-! ## Separated tokens -/

/-- Two tokens may stand side by side: one of them is a tag. -/
def MayTouch (s t : Token) : Prop :=
  ¬ (s.isText = true ∧ t.isText = true)

/-- Tokens are separated if every two neighbours may touch. -/
theorem separated_iff {tokens : List Token} : Separated tokens ↔ tokens.IsChain MayTouch := by
  induction tokens with
  | nil => simp [Separated]
  | cons s rest ih =>
    cases rest with
    | nil => simp [Separated]
    | cons t rest => simp [Separated, ih, List.isChain_cons_cons, MayTouch]

/-- The first token is looked at with the second. -/
theorem separated_cons {t : Token} {tokens : List Token} :
    Separated (t :: tokens) ↔ (∀ s ∈ tokens.head?, t.MayTouch s) ∧ Separated tokens := by
  rw [separated_iff, separated_iff, List.isChain_cons]

/-- Tokens are separated from whichever end they are read. -/
theorem separated_reverse {tokens : List Token} :
    Separated tokens.reverse ↔ Separated tokens := by
  have hswap : (fun s t => MayTouch t s) = MayTouch := by
    funext s t
    simp only [MayTouch, and_comm]
  rw [separated_iff, separated_iff, List.isChain_reverse]
  exact iff_of_eq (congrArg (List.IsChain · tokens) hswap)

/-! ## The scanner loses nothing -/

/-- What the scanner has read since the last token. -/
def State.pending : State → List Char
  | outside => []
  | opened => ['<']
  | openName read => '<' :: read.toList
  | inText read => read.toList
  | closing => ['<', '/']
  | closeName read => '<' :: '/' :: read.toList

/-- What is pending and the next character are the token completed and what is pending
then. -/
theorem State.Step.pending {state state' : State} {c : Char} {token : Option Token}
    (h : State.Step state c state' token) :
    state.pending ++ [c] = (token.toList.flatMap fun t => t.print.toList) ++ state'.pending := by
  cases h <;> simp [State.pending, print]

/-- At the end what is pending is the last token. -/
theorem State.pending_of_finish {state : State} {last : Option Token}
    (h : state.finish = some last) :
    state.pending = last.toList.flatMap fun t => t.print.toList := by
  cases state with
  | outside =>
    obtain rfl := Option.some.inj h
    rfl
  | inText read =>
    obtain rfl := Option.some.inj h
    simp [State.pending, print]
  | _ => exact absurd h (by simp [State.finish])

/-- **The scanner loses nothing.** Its tokens, printed, are those that were behind it, what it
had read since, and the rest of the template. -/
theorem printed_of_scanFrom {chars : List Char} {state : State} {offset : Nat}
    {before tokens : List Token} (h : scanFrom state offset before chars = .ok tokens) :
    (tokens.flatMap fun t => t.print.toList) =
      (before.reverse.flatMap fun t => t.print.toList) ++ (state.pending ++ chars) := by
  have htokens (token : Option Token) : token.toList.reverse = token.toList := by
    cases token <;> rfl
  induction chars generalizing state offset before with
  | nil =>
    rw [scanFrom] at h
    split at h
    · rename_i last hlast
      obtain rfl := Except.ok.inj h
      rw [State.pending_of_finish hlast, List.reverse_append, List.flatMap_append, htokens,
        List.append_nil]
    · exact absurd h (by simp)
  | cons c rest ih =>
    rw [scanFrom] at h
    split at h
    · rename_i state' token hnext
      have hpending := (State.next_eq_some_iff.1 hnext).pending
      rw [ih h, List.reverse_append, List.flatMap_append, htokens, List.append_assoc,
        ← List.append_assoc _ state'.pending, ← hpending, List.append_assoc,
        List.singleton_append]
    · exact absurd h (by simp)

/-! ## No two texts side by side -/

/-- The tokens behind the scanner, last first: no two texts side by side, and where a text
may begin or has begun the last one is a tag. -/
def State.Apart (state : State) (before : List Token) : Prop :=
  Separated before ∧
    match state with
    | outside | inText _ => ∀ t ∈ before.head?, t.isText = false
    | _ => True

/-- One character keeps texts apart. -/
theorem State.Apart.step {state state' : State} {c : Char} {token : Option Token}
    {before : List Token} (h : state.Apart before) (hstep : State.Step state c state' token) :
    state'.Apart (token.toList ++ before) := by
  obtain ⟨hbefore, hhead⟩ := h
  cases hstep with
  | openTag | slash | startOpen | moreOpen | startClose | moreClose => exact ⟨hbefore, trivial⟩
  | startText | moreText => exact ⟨hbefore, hhead⟩
  | endText =>
    refine ⟨separated_cons.2 ⟨?_, hbefore⟩, trivial⟩
    rintro s hs ⟨-, htext⟩
    simp [hhead s hs] at htext
  | endOpen | endClose =>
    refine ⟨separated_cons.2 ⟨?_, hbefore⟩, by simp [isText]⟩
    rintro s - ⟨htext, -⟩
    simp [isText] at htext

/-- The end of the template keeps texts apart. -/
theorem State.Apart.finish {state : State} {before : List Token} {last : Option Token}
    (h : state.Apart before) (hfinish : state.finish = some last) :
    Separated (last.toList ++ before) := by
  cases state with
  | outside =>
    obtain rfl := Option.some.inj hfinish
    exact h.1
  | inText read =>
    obtain rfl := Option.some.inj hfinish
    refine separated_cons.2 ⟨?_, h.1⟩
    rintro s hs ⟨-, htext⟩
    simp [h.2 s hs] at htext
  | _ => exact absurd hfinish (by simp [State.finish])

/-- **The scanner sets no two texts side by side.** -/
theorem separated_of_scanFrom {chars : List Char} {state : State} {offset : Nat}
    {before tokens : List Token} (hbefore : state.Apart before)
    (h : scanFrom state offset before chars = .ok tokens) : Separated tokens := by
  induction chars generalizing state offset before with
  | nil =>
    rw [scanFrom] at h
    split at h
    · rename_i last hlast
      obtain rfl := Except.ok.inj h
      exact separated_reverse.2 (hbefore.finish hlast)
    · exact absurd h (by simp)
  | cons c rest ih =>
    rw [scanFrom] at h
    split at h
    · rename_i state' token hnext
      exact ih (hbefore.step (State.next_eq_some_iff.1 hnext)) h
    · exact absurd h (by simp)

/-- The tokens of a template print the template. -/
theorem printAll_of_scan {template : String} {tokens : List Token}
    (h : scan template = .ok tokens) : printAll tokens = template :=
  printAll_eq_iff.2 (printed_of_scanFrom h)

/-- The tokens of a template are well formed. -/
theorem wellFormed_of_scan {template : String} {tokens : List Token}
    (h : scan template = .ok tokens) : WellFormed tokens := by
  have hstart : State.outside.Apart [] := ⟨trivial, by simp⟩
  exact ⟨isLexeme_of_scan h, separated_of_scanFrom hstart h⟩

/-! ## Printed tokens are read back -/

/-- One move of the scanner. -/
theorem scanFrom_step {state state' : State} {c : Char} {token : Option Token}
    (h : State.Step state c state' token) (offset : Nat) (before : List Token)
    (rest : List Char) :
    scanFrom state offset before (c :: rest) =
      scanFrom state' (offset + c.utf8Size) (token.toList ++ before) rest := by
  rw [scanFrom, State.next_eq_some_iff.2 h]

/-- A run of characters is read where each of them only prolongs what has been read. -/
theorem scanFrom_prolong {inside : String → State} {more : List Char}
    (hmore : ∀ c ∈ more, ∀ read, State.Step (inside read) c (inside (read.push c)) none)
    (read : String) (offset : Nat) (before : List Token) (rest : List Char) :
    ∃ offset', scanFrom (inside read) offset before (more ++ rest) =
      scanFrom (inside (read ++ String.ofList more)) offset' before rest := by
  induction more generalizing read offset with
  | nil => exact ⟨offset, by simp⟩
  | cons c more ih =>
    obtain ⟨hc, hmore⟩ := List.forall_mem_cons.1 hmore
    obtain ⟨offset', hrest⟩ := ih hmore (read.push c) (offset + c.utf8Size)
    have hread : read.push c ++ String.ofList more = read ++ String.ofList (c :: more) := by
      rw [← String.toList_inj]
      simp
    rw [List.cons_append, scanFrom_step (hc read), ← hread]
    exact ⟨offset', hrest⟩

/-- A lexeme begins with one character and is prolonged by the others. -/
theorem eq_toString_append {s : String} {c : Char} {more : List Char}
    (h : s.toList = c :: more) : c.toString ++ String.ofList more = s := by
  rw [← String.toList_inj]
  simp [h]

/-- A name is read up to its `>`, in an open tag or in a close tag. -/
theorem scanFrom_name {start : State} {inside : String → State} (done : String → Token)
    {name : String} (hname : IsName name)
    (hfirst : ∀ c, isNameStart c = true → State.Step start c (inside c.toString) none)
    (hmore : ∀ c, isNameChar c = true →
      ∀ read, State.Step (inside read) c (inside (read.push c)) none)
    (hdone : State.Step (inside name) '>' .outside (some (done name)))
    (offset : Nat) (before : List Token) (rest : List Char) :
    ∃ offset', scanFrom start offset before (name.toList ++ '>' :: rest) =
      scanFrom .outside offset' (done name :: before) rest := by
  unfold IsName at hname
  cases hlist : name.toList with
  | nil =>
    rw [hlist] at hname
    exact hname.elim
  | cons c more =>
    rw [hlist] at hname
    obtain ⟨hc, hall⟩ := hname
    obtain ⟨offset', hrest⟩ := scanFrom_prolong (fun d hd => hmore d (hall d hd)) c.toString
      (offset + c.utf8Size) before ('>' :: rest)
    rw [List.cons_append, scanFrom_step (hfirst c hc)]
    refine ⟨offset' + '>'.utf8Size, hrest.trans ?_⟩
    rw [eq_toString_append hlist, scanFrom_step hdone]
    rfl

/-- A text is read up to a `<` or to the end. -/
theorem scanFrom_text {content : String} (hcontent : IsLexeme (text content)) (offset : Nat)
    (before : List Token) {rest : List Char} (hrest : ∀ c ∈ rest.head?, c = '<') :
    ∃ offset', scanFrom .outside offset before (content.toList ++ rest) =
      scanFrom .outside offset' (text content :: before) rest := by
  obtain ⟨hne, hall⟩ := hcontent
  cases hlist : content.toList with
  | nil => exact absurd (String.toList_inj.1 hlist) hne
  | cons c more =>
    rw [hlist] at hall
    obtain ⟨hc, hmore⟩ := not_or.1 (List.mem_cons.not.1 hall)
    have hstep : ∀ d ∈ more, ∀ read, State.Step (.inText read) d (.inText (read.push d)) none := by
      intro d hd read
      refine .moreText ?_
      rintro rfl
      exact hmore hd
    obtain ⟨offset', hread⟩ := scanFrom_prolong hstep c.toString (offset + c.utf8Size) before rest
    rw [List.cons_append, scanFrom_step (.startText (Ne.symm hc))]
    refine ⟨offset', hread.trans ?_⟩
    rw [eq_toString_append hlist]
    -- Behind a text the scanner sees the end or a `<`, as it does between lexemes.
    cases rest with
    | nil => rfl
    | cons d rest =>
      obtain rfl := hrest d rfl
      rw [scanFrom_step .endText, scanFrom_step .openTag]
      rfl

/-- A lexeme is read back, a text where a `<` follows or nothing. -/
theorem scanFrom_print {t : Token} (ht : t.IsLexeme) (offset : Nat) (before : List Token)
    {rest : List Char} (hrest : t.isText = true → ∀ c ∈ rest.head?, c = '<') :
    ∃ offset', scanFrom .outside offset before (t.print.toList ++ rest) =
      scanFrom .outside offset' (t :: before) rest := by
  cases t with
  | openTag name =>
    have hname := scanFrom_name openTag ht (fun _ => .startOpen)
      (fun _ hc _ => .moreOpen hc) .endOpen (offset + '<'.utf8Size) before rest
    simpa [print, scanFrom_step .openTag] using hname
  | text content => exact scanFrom_text ht offset before (hrest rfl)
  | closeTag name =>
    have hname := scanFrom_name closeTag ht (fun _ => .startClose)
      (fun _ hc _ => .moreClose hc) .endClose (offset + '<'.utf8Size + '/'.utf8Size) before rest
    simpa [print, scanFrom_step .openTag, scanFrom_step .slash] using hname

/-- A tag begins with `<`. -/
theorem head?_print_of_tag {t : Token} (h : t.isText = false) :
    t.print.toList.head? = some '<' := by
  cases t with
  | openTag | closeTag => simp [print]
  | text => simp [isText] at h

/-- **Well-formed tokens are scanned back**, whatever tokens are behind the scanner already. -/
theorem scanFrom_printed {tokens : List Token} (h : WellFormed tokens) (offset : Nat)
    (before : List Token) :
    scanFrom .outside offset before (tokens.flatMap fun t => t.print.toList) =
      .ok (before.reverse ++ tokens) := by
  induction tokens generalizing offset before with
  | nil => simp [scanFrom, State.finish]
  | cons t rest ih =>
    obtain ⟨hlexeme, hrest⟩ := List.forall_mem_cons.1 h.1
    obtain ⟨htouch, hseparated⟩ := separated_cons.1 h.2
    have hhead : t.isText = true →
        ∀ c ∈ (rest.flatMap fun t => t.print.toList).head?, c = '<' := by
      intro htext c hc
      cases rest with
      | nil => simp at hc
      | cons s rest =>
        have hs : s.isText = false := by
          have := htouch s rfl
          simpa [MayTouch, htext] using this
        simpa [head?_print_of_tag hs, eq_comm] using hc
    obtain ⟨offset', hread⟩ := scanFrom_print hlexeme offset before hhead
    rw [List.flatMap_cons, hread, ih ⟨hrest, hseparated⟩]
    simp

/-- Well-formed tokens are read back from their template. -/
theorem scan_printAll {tokens : List Token} (h : WellFormed tokens) :
    scan (printAll tokens) = .ok tokens := by
  unfold scan
  rw [toList_printAll]
  exact scanFrom_printed h 0 []

/-- **Scanning is the inverse of printing.**  The tokens of a template are the one
well-formed list that prints it. -/
theorem scan_eq_ok_iff {template : String} {tokens : List Token} :
    scan template = .ok tokens ↔ printAll tokens = template ∧ WellFormed tokens := by
  constructor
  · intro h
    exact ⟨printAll_of_scan h, wellFormed_of_scan h⟩
  · rintro ⟨rfl, h⟩
    exact scan_printAll h

end Token
end Markup
end ReactiveView
