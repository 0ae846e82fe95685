/-
# Where scanning fails

A scanner that stops at the first character with no place need not stop at the first one
that spoils the template: it might have run into a state from which no template can be
completed, and notice later.  This one does not.  From every state some template is
completed (`State.exists_completion`), so the beginnings of templates are what the scanner
reads without stopping (`exists_accepts_append_iff`), and the character at which it stops is
the first one that no template goes on with.

The moves of the scanner without the tokens are `State.after`, and each of the three ways in
which scanning ends is read off the state that it comes to (`scanFrom_ok_iff`,
`scanFrom_unexpectedChar_iff`, `scanFrom_unexpectedEof_iff`).  Together they say where an
error points (`scan_error_iff`).
-/

import ReactiveView.Proofs.Markup.Parsed

namespace ReactiveView
namespace Markup
namespace Token

/-! ## The states that are come to -/

/-- The state after some characters, if all of them have a place. -/
def State.after : State → List Char → Option State
  | state, [] => some state
  | state, c :: rest => (state.next c).bind fun (state', _) => state'.after rest

/-- The template may end here. -/
def State.MayEnd (state : State) : Prop :=
  state.finish.isSome = true

/-- The scanner moves character by character. -/
theorem State.after_cons (state : State) (c : Char) (rest : List Char) :
    state.after (c :: rest) = (state.next c).bind fun (state', _) => state'.after rest := rfl

/-- The scanner may be stopped anywhere and go on from there. -/
theorem State.after_append (state : State) (chars rest : List Char) :
    state.after (chars ++ rest) = (state.after chars).bind fun state' => state'.after rest := by
  induction chars generalizing state with
  | nil => rfl
  | cons c chars ih =>
    rw [List.cons_append, after_cons, after_cons]
    cases state.next c with
    | none => rfl
    | some move => exact ih move.1

/-! ## The three ways in which scanning ends -/

section Endings

variable {state : State} {offset : Nat} {before : List Token} {chars : List Char}

/-- A scan succeeds exactly if the moves lead to a state in which it may end. -/
theorem scanFrom_ok_iff :
    (∃ tokens, scanFrom state offset before chars = .ok tokens) ↔
      ∃ state', state.after chars = some state' ∧ state'.MayEnd := by
  induction chars generalizing state offset before with
  | nil =>
    rw [scanFrom, State.after]
    cases h : state.finish <;> simp [State.MayEnd, h]
  | cons c rest ih =>
    rw [scanFrom, State.after_cons]
    cases state.next c with
    | none => simp
    | some move => exact ih

/-- It comes to an unexpected end exactly if they lead to another state. -/
theorem scanFrom_unexpectedEof_iff :
    scanFrom state offset before chars = .error .unexpectedEof ↔
      ∃ state', state.after chars = some state' ∧ ¬ state'.MayEnd := by
  induction chars generalizing state offset before with
  | nil =>
    rw [scanFrom, State.after]
    cases h : state.finish <;> simp [State.MayEnd, h]
  | cons c rest ih =>
    rw [scanFrom, State.after_cons]
    cases state.next c with
    | none => simp
    | some move => exact ih

/-- Offsets count bytes, so a character counts for its length in them. -/
theorem utf8ByteSize_ofList_cons (c : Char) (rest : List Char) :
    (String.ofList (c :: rest)).utf8ByteSize = c.utf8Size + (String.ofList rest).utf8ByteSize := by
  rw [← List.singleton_append, String.ofList_append, String.utf8ByteSize_append]
  simp

/-- The offset of a character is the number of bytes before it. -/
theorem scanFrom_unexpectedChar_iff {c : Char} {n : Nat} :
    scanFrom state offset before chars = .error (.unexpectedChar c n) ↔
      ∃ p q state', chars = p ++ c :: q ∧ offset + (String.ofList p).utf8ByteSize = n ∧
        state.after p = some state' ∧ state'.next c = none := by
  induction chars generalizing state offset before with
  | nil =>
    rw [scanFrom]
    cases state.finish <;> simp
  | cons d rest ih =>
    rw [scanFrom]
    constructor
    · intro h
      split at h
      · rename_i state₁ token hnext
        obtain ⟨p, q, state', rfl, hoffset, hafter, hstuck⟩ := ih.1 h
        refine ⟨d :: p, q, state', rfl, ?_, ?_, hstuck⟩
        · rw [← hoffset, utf8ByteSize_ofList_cons, Nat.add_assoc]
        · rw [State.after_cons, hnext]
          exact hafter
      · rename_i hnext
        obtain ⟨rfl, rfl⟩ := ParseError.unexpectedChar.inj (Except.error.inj h)
        exact ⟨[], rest, state, rfl, rfl, rfl, hnext⟩
    · rintro ⟨p, q, state', hchars, hoffset, hafter, hstuck⟩
      cases p with
      | nil =>
        obtain ⟨rfl, rfl⟩ := List.cons.inj hchars
        obtain rfl := Option.some.inj hafter
        rw [hstuck, ← hoffset]
        rfl
      | cons e p =>
        obtain ⟨rfl, rfl⟩ := List.cons.inj hchars
        rw [State.after_cons] at hafter
        obtain ⟨⟨state₁, token⟩, hnext, hafter⟩ := Option.bind_eq_some_iff.1 hafter
        rw [hnext]
        refine ih.2 ⟨p, q, state', rfl, ?_, hafter, hstuck⟩
        rw [← hoffset, utf8ByteSize_ofList_cons, Nat.add_assoc]

end Endings

/-! ## Completions -/

/-- **From every state some template is completed.** -/
theorem State.exists_completion (state : State) :
    ∃ rest state', state.after rest = some state' ∧ state'.MayEnd := by
  cases state with
  | outside => exact ⟨[], outside, rfl, rfl⟩
  | opened => exact ⟨['a', '>'], outside, rfl, rfl⟩
  | openName read => exact ⟨['>'], outside, rfl, rfl⟩
  | inText read => exact ⟨[], inText read, rfl, rfl⟩
  | closing => exact ⟨['a', '>'], outside, rfl, rfl⟩
  | closeName read => exact ⟨['>'], outside, rfl, rfl⟩

/-- The template has tokens. -/
def Accepts (template : String) : Prop :=
  ∃ tokens, scan template = .ok tokens

/-- A template is accepted exactly if the moves from outside lead to a state in which a scan may
end. -/
theorem accepts_iff {template : String} :
    Accepts template ↔
      ∃ state, State.outside.after template.toList = some state ∧ state.MayEnd :=
  scanFrom_ok_iff

/-- **The beginnings of templates are what the scanner reads without stopping.** -/
theorem exists_accepts_append_iff {p : String} :
    (∃ r, Accepts (p ++ r)) ↔ ∃ state, State.outside.after p.toList = some state := by
  constructor
  · rintro ⟨r, h⟩
    obtain ⟨state, hafter, -⟩ := accepts_iff.1 h
    rw [String.toList_append, State.after_append] at hafter
    obtain ⟨state', hp, -⟩ := Option.bind_eq_some_iff.1 hafter
    exact ⟨state', hp⟩
  · rintro ⟨state, hp⟩
    obtain ⟨rest, state', hafter, hend⟩ := state.exists_completion
    refine ⟨String.ofList rest, accepts_iff.2 ⟨state', ?_, hend⟩⟩
    rw [String.toList_append, String.toList_ofList, State.after_append, hp]
    exact hafter

/-- Behind the beginning of a template, a character that has no place spoils it, and no
other does. -/
theorem not_exists_accepts_iff {p : String} {state : State} {c : Char}
    (hp : State.outside.after p.toList = some state) :
    (¬ ∃ r, Accepts (p ++ c.toString ++ r)) ↔ state.next c = none := by
  have hpush : State.outside.after (p ++ c.toString).toList = (state.next c).map Prod.fst := by
    rw [String.toList_append, State.after_append, hp]
    simp only [Option.bind_some, Char.toString, String.toList_singleton, State.after_cons]
    cases state.next c <;> rfl
  rw [exists_accepts_append_iff, hpush]
  cases state.next c <;> simp

/-! ## Errors -/

/-- **An error points at the first character that spoils the template.**  Scanning stops at
a character `c` at an offset exactly if the template is `p`, then `c`, then something, where
`p` has as many bytes as the offset says and is the beginning of a template, and `p` with `c`
is not.  It runs into the end exactly if the template has no tokens but is the beginning of
one that has. -/
theorem scan_error_iff (template : String) :
    (∀ c offset, scan template = .error (.unexpectedChar c offset) ↔
      ∃ p q, template = p ++ c.toString ++ q ∧ p.utf8ByteSize = offset ∧
        (∃ r, Accepts (p ++ r)) ∧ ¬ ∃ r, Accepts (p ++ c.toString ++ r)) ∧
    (scan template = .error .unexpectedEof ↔
      ¬ Accepts template ∧ ∃ r, r ≠ "" ∧ Accepts (template ++ r)) := by
  refine ⟨fun c offset => ?_, ?_⟩
  · rw [scan, scanFrom_unexpectedChar_iff]
    constructor
    · rintro ⟨p, q, state, htemplate, hoffset, hafter, hstuck⟩
      have hp : State.outside.after (String.ofList p).toList = some state := by
        rwa [String.toList_ofList]
      refine ⟨String.ofList p, String.ofList q, ?_, by simpa using hoffset,
        exists_accepts_append_iff.2 ⟨state, hp⟩, (not_exists_accepts_iff hp).2 hstuck⟩
      rw [← String.toList_inj, htemplate]
      simp
    · rintro ⟨p, q, rfl, rfl, hbeginning, hspoilt⟩
      obtain ⟨state, hp⟩ := exists_accepts_append_iff.1 hbeginning
      have hstuck : state.next c = none := (not_exists_accepts_iff hp).1 hspoilt
      exact ⟨p.toList, q.toList, state, by simp, by simp, hp, hstuck⟩
  · rw [scan, scanFrom_unexpectedEof_iff]
    constructor
    · rintro ⟨state, hafter, hend⟩
      have hnot : ¬ Accepts template := by
        rintro haccepts
        obtain ⟨state', hafter', hend'⟩ := accepts_iff.1 haccepts
        obtain rfl := Option.some.inj (hafter.symm.trans hafter')
        exact hend hend'
      obtain ⟨r, hr⟩ := exists_accepts_append_iff.2 ⟨state, hafter⟩
      refine ⟨hnot, r, ?_, hr⟩
      rintro rfl
      exact hnot (by rwa [String.append_empty] at hr)
    · rintro ⟨hnot, r, -, hr⟩
      obtain ⟨state, hafter⟩ := exists_accepts_append_iff.1 ⟨r, hr⟩
      exact ⟨state, hafter, fun hend => hnot (accepts_iff.2 ⟨state, hafter, hend⟩)⟩

/-- Offsets count bytes, and the letter has two. -/
example : scan "é<a!" = .error (.unexpectedChar '!' 4) := rfl

end Token
end Markup
end ReactiveView
