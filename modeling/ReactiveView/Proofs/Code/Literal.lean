/-
# String literals

Between its quotes a literal holds the text with three characters escaped (`Code.escaped`):
the quote and the backslash get a backslash before them, and the line feed becomes `\n`.  A
reader that undoes the escapes and stops at the first quote that stands alone
(`Code.readLiteral`) gives the text back and stops at the end of the literal, whatever
follows it (`Code.readLiteral_escaped`).
-/

import ReactiveView.Code

namespace ReactiveView
namespace Code

/-- Characters as they stand between the quotes of a literal. -/
def escaped : List Char → List Char
  | [] => []
  | '\'' :: rest => '\\' :: '\'' :: escaped rest
  | '\\' :: rest => '\\' :: '\\' :: escaped rest
  | '\n' :: rest => '\\' :: 'n' :: escaped rest
  | c :: rest => c :: escaped rest

/-- A text in single quotes. -/
def singleQuoted (s : String) : String :=
  "'" ++ String.ofList (escaped s.toList) ++ "'"

/-- Reads a literal from behind its opening quote: the text, and what follows the closing
quote; nothing if there is none. -/
def readLiteral : List Char → Option (List Char × List Char)
  | [] => none
  | '\'' :: rest => some ([], rest)
  | '\\' :: 'n' :: rest => (readLiteral rest).map fun (text, rest) => ('\n' :: text, rest)
  | '\\' :: c :: rest => (readLiteral rest).map fun (text, rest) => (c :: text, rest)
  | c :: rest => (readLiteral rest).map fun (text, rest) => (c :: text, rest)

/-- A text is escaped character by character. -/
theorem escaped_cons (c : Char) (rest : List Char) :
    escaped (c :: rest) = (escapeChar c).toList ++ escaped rest := by
  rw [escapeChar]
  split
  · rename_i h
    rw [h]
    rfl
  · split
    · rename_i h
      rw [h]
      rfl
    · split
      · rename_i h
        rw [h]
        rfl
      · rw [escaped] <;> simp_all

/-- **A literal is the escaped text in quotes.** -/
theorem literal_eq (s : String) : literal s = singleQuoted s := by
  have hescaped (chars : List Char) :
      String.join (chars.map escapeChar) = String.ofList (escaped chars) := by
    induction chars with
    | nil => rfl
    | cons c rest ih =>
      rw [List.map_cons, String.join_cons, ih, escaped_cons, String.ofList_append,
        String.ofList_toList]
  rw [literal, hescaped, singleQuoted]

/-- Characters that need no escape are written as they are. -/
theorem escaped_of_plain {chars : List Char}
    (h : ∀ c ∈ chars, c ≠ '\'' ∧ c ≠ '\\' ∧ c ≠ '\n') : escaped chars = chars := by
  induction chars with
  | nil => rfl
  | cons c rest ih =>
    obtain ⟨⟨hquote, hbackslash, hfeed⟩, hrest⟩ := List.forall_mem_cons.1 h
    rw [escaped, ih hrest] <;> assumption

/-- **Reading gives the text back and stops at the end of the literal.** -/
theorem readLiteral_escaped (chars rest : List Char) :
    readLiteral (escaped chars ++ '\'' :: rest) = some (chars, rest) := by
  fun_induction escaped chars with
  | case1 => rfl
  | case2 later ih => simp [readLiteral, ih]
  | case3 later ih => simp [readLiteral, ih]
  | case4 later ih => simp [readLiteral, ih]
  | case5 c later hquote hbackslash hfeed ih =>
    rw [List.cons_append, readLiteral, ih] <;> simp_all

end Code
end ReactiveView
