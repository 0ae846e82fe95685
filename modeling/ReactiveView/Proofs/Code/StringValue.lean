/-
# What a string literal denotes

The ECMAScript grammar of what stands between single quotes (`Code.Spells`), with the string
that it denotes, a list of UTF-16 code units.  Escapes of one character, hexadecimal and code
point escapes, the null escape and line continuations are all in it; octal escapes are not,
as in strict code.

Read by this grammar, a printed literal denotes its text and ends at the quote that was
printed last (`Code.spells_of_append`), unless there is a carriage return in the text.  That
is printed as it is, and no literal goes over it.
-/

import ReactiveView.Proofs.Code.Literal

namespace ReactiveView
namespace Code

/-! ## The grammar -/

/-- The UTF-16 code units of a code point: itself or a surrogate pair. -/
def unitsAt (point : Nat) : List Nat :=
  if point < 0x10000 then [point]
  else [0xD800 + (point - 0x10000) / 0x400, 0xDC00 + (point - 0x10000) % 0x400]

/-- The UTF-16 code units of a text. -/
def units (text : List Char) : List Nat :=
  text.flatMap fun c => unitsAt c.toNat

/-- A line feed, a carriage return, a line separator or a paragraph separator. -/
def isLineEnd (c : Char) : Bool :=
  c == '\n' || c == '\r' || c == '\u2028' || c == '\u2029'

/-- What a character stands for behind a backslash, if it makes an escape by itself. -/
def escapeUnit? : Char → Option Nat
  | '\'' => some 0x27
  | '"' => some 0x22
  | '\\' => some 0x5C
  | 'b' => some 0x08
  | 't' => some 0x09
  | 'n' => some 0x0A
  | 'v' => some 0x0B
  | 'f' => some 0x0C
  | 'r' => some 0x0D
  | _ => none

/-- The character begins no escape: behind a backslash it stands for itself. -/
def isInert (c : Char) : Bool :=
  (escapeUnit? c).isNone && !c.isDigit && c != 'x' && c != 'u' && !isLineEnd c

/-- The value of a hexadecimal digit. -/
def hexDigit? (c : Char) : Option Nat :=
  if c.isDigit then some (c.toNat - '0'.toNat)
  else if 'a' ≤ c ∧ c ≤ 'f' then some (c.toNat - 'a'.toNat + 10)
  else if 'A' ≤ c ∧ c ≤ 'F' then some (c.toNat - 'A'.toNat + 10)
  else none

/-- The number that hexadecimal digits write. -/
def hexValue? (digits : List Char) : Option Nat :=
  digits.foldlM (fun n c => (16 * n + ·) <$> hexDigit? c) 0

/-- The characters may stand between single quotes, and denote the string of these code
units. -/
inductive Spells : List Char → List Nat → Prop
  | nil : Spells [] []
  /-- A character other than the quote, the backslash, a line feed and a carriage return
  stands for itself. -/
  | plain {c : Char} {rest : List Char} {value : List Nat} (hquote : c ≠ '\'')
      (hbackslash : c ≠ '\\') (hfeed : c ≠ '\n') (hreturn : c ≠ '\r') (h : Spells rest value) :
      Spells (c :: rest) (unitsAt c.toNat ++ value)
  /-- An escape of one character. -/
  | escape {c : Char} {unit : Nat} {rest : List Char} {value : List Nat}
      (hunit : escapeUnit? c = some unit) (h : Spells rest value) :
      Spells ('\\' :: c :: rest) (unit :: value)
  /-- A backslash that changes nothing. -/
  | inert {c : Char} {rest : List Char} {value : List Nat} (hinert : isInert c = true)
      (h : Spells rest value) : Spells ('\\' :: c :: rest) (unitsAt c.toNat ++ value)
  /-- The null escape, with no digit behind it. -/
  | null {rest : List Char} {value : List Nat} (hdigit : ∀ c ∈ rest.head?, c.isDigit = false)
      (h : Spells rest value) : Spells ('\\' :: '0' :: rest) (0 :: value)
  /-- A code unit in two hexadecimal digits. -/
  | hex {a b : Char} {unit : Nat} {rest : List Char} {value : List Nat}
      (hunit : hexValue? [a, b] = some unit) (h : Spells rest value) :
      Spells ('\\' :: 'x' :: a :: b :: rest) (unit :: value)
  /-- A code unit in four hexadecimal digits. -/
  | unicode {a b c d : Char} {unit : Nat} {rest : List Char} {value : List Nat}
      (hunit : hexValue? [a, b, c, d] = some unit) (h : Spells rest value) :
      Spells ('\\' :: 'u' :: a :: b :: c :: d :: rest) (unit :: value)
  /-- A code point in braces. -/
  | codePoint {digits : List Char} {point : Nat} {rest : List Char} {value : List Nat}
      (hdigits : digits ≠ []) (hpoint : hexValue? digits = some point)
      (hbound : point ≤ 0x10FFFF) (h : Spells rest value) :
      Spells ('\\' :: 'u' :: '\x7b' :: (digits ++ '\x7d' :: rest)) (unitsAt point ++ value)
  /-- A line continuation stands for nothing. -/
  | continuation {c : Char} {rest : List Char} {value : List Nat} (hend : isLineEnd c = true)
      (h : Spells rest value) : Spells ('\\' :: c :: rest) value
  /-- A line continuation over a carriage return and a line feed. -/
  | continuationPair {rest : List Char} {value : List Nat} (h : Spells rest value) :
      Spells ('\\' :: '\r' :: '\n' :: rest) value

/-- The text is one string literal in single quotes and denotes the string of these code
units. -/
def IsLiteral (text : String) (value : List Nat) : Prop :=
  ∃ body, text.toList = '\'' :: (body ++ ['\'']) ∧ Spells body value

/-! ## Reading from the left -/

/-- **No literal has a bare quote or an end of line in it.** -/
theorem Spells.ne_of_cons {c : Char} {rest : List Char} {value : List Nat}
    (h : Spells (c :: rest) value) : c ≠ '\'' ∧ c ≠ '\n' ∧ c ≠ '\r' := by
  cases h with
  | plain hquote _ hfeed hreturn _ => exact ⟨hquote, hfeed, hreturn⟩
  | _ => decide

/-- The empty literal denotes the empty string. -/
theorem spells_nil_iff {value : List Nat} : Spells [] value ↔ value = [] := by
  constructor
  · rintro ⟨⟩
    rfl
  · rintro rfl
    exact .nil

/-- A backslash alone escapes nothing. -/
theorem not_spells_backslash {value : List Nat} : ¬ Spells ['\\'] value := by
  intro h
  cases h with
  | plain _ hbackslash _ _ _ => exact hbackslash rfl

/-- A character that is not the backslash stands for itself. -/
theorem Spells.of_plain {c : Char} {rest : List Char} {value : List Nat}
    (h : Spells (c :: rest) value) (hc : c ≠ '\\') :
    ∃ later, Spells rest later ∧ value = unitsAt c.toNat ++ later := by
  cases h with
  | plain _ _ _ _ h => exact ⟨_, h, rfl⟩
  | _ => exact absurd rfl hc

/-- A character that makes an escape by itself makes no other behind a backslash. -/
theorem Spells.of_escape {c : Char} {unit : Nat} {rest : List Char} {value : List Nat}
    (h : Spells ('\\' :: c :: rest) value) (hc : escapeUnit? c = some unit) :
    ∃ later, Spells rest later ∧ value = unit :: later := by
  have hnone {d : Char} (hd : escapeUnit? d = none) : c ≠ d := by
    rintro rfl
    rw [hd] at hc
    exact absurd hc (by simp)
  cases h with
  | plain _ hbackslash _ _ _ => exact absurd rfl hbackslash
  | escape hunit h => exact ⟨_, h, by rw [Option.some.inj (hunit.symm.trans hc)]⟩
  | inert hinert _ => exact absurd hinert (by simp [isInert, hc])
  | continuation hend _ =>
    have hc : c = '\n' ∨ c = '\r' ∨ c = '\u2028' ∨ c = '\u2029' := by
      simpa [isLineEnd, or_assoc] using hend
    rcases hc with rfl | rfl | rfl | rfl <;> exact absurd rfl (hnone rfl)
  | null => exact absurd rfl (hnone rfl)
  | hex => exact absurd rfl (hnone rfl)
  | unicode => exact absurd rfl (hnone rfl)
  | codePoint => exact absurd rfl (hnone rfl)
  | continuationPair => exact absurd rfl (hnone rfl)

/-! ## Printed literals -/

@[simp] theorem units_nil : units [] = [] := rfl

@[simp] theorem units_cons (c : Char) (text : List Char) :
    units (c :: text) = unitsAt c.toNat ++ units text := rfl

/-- The escaped text denotes the text. -/
theorem spells_escaped {text : List Char} (h : '\r' ∉ text) :
    Spells (escaped text) (units text) := by
  fun_induction escaped text with
  | case1 => exact .nil
  | case2 later ih => exact .escape rfl (ih (List.not_mem_of_not_mem_cons h))
  | case3 later ih => exact .escape rfl (ih (List.not_mem_of_not_mem_cons h))
  | case4 later ih => exact .escape rfl (ih (List.not_mem_of_not_mem_cons h))
  | case5 c later hquote hbackslash hfeed ih =>
    exact .plain hquote hbackslash hfeed (Ne.symm (List.ne_of_not_mem_cons h))
      (ih (List.not_mem_of_not_mem_cons h))

/-- What is read from an escape that the printer wrote: the escape, then the rest. -/
theorem Spells.of_printed_escape {c : Char} {unit : Nat} {body rest more : List Char}
    {value : List Nat} (h : Spells body value) (hc : escapeUnit? c = some unit)
    (heq : body ++ '\'' :: more = '\\' :: c :: rest) :
    ∃ body' later, body = '\\' :: c :: body' ∧ body' ++ '\'' :: more = rest ∧
      Spells body' later ∧ value = unit :: later := by
  rcases body with _ | ⟨a, _ | ⟨b, body⟩⟩
  · exact absurd (List.cons.inj heq).1 (by decide)
  · obtain rfl : a = '\\' := (List.cons.inj heq).1
    exact absurd h not_spells_backslash
  · simp only [List.cons_append, List.cons.injEq] at heq
    obtain ⟨rfl, rfl, heq⟩ := heq
    obtain ⟨later, hlater, hvalue⟩ := h.of_escape hc
    exact ⟨body, later, rfl, heq, hlater, hvalue⟩

/-- **A printed literal is read as its text and ends where it was closed.**  Whatever follows
it, the only way to read it is up to the quote that was printed last, and there is none if
the text holds a carriage return. -/
theorem spells_of_append {text body rest more : List Char} {value : List Nat}
    (h : Spells body value) (heq : body ++ '\'' :: more = escaped text ++ '\'' :: rest) :
    body = escaped text ∧ more = rest ∧ '\r' ∉ text ∧ value = units text := by
  -- The three escapes that are printed are all read in this way.
  have hescape {c : Char} {unit : Nat} {later body : List Char} {value : List Nat}
      (ih : ∀ {body : List Char} {value : List Nat}, Spells body value →
        body ++ '\'' :: more = escaped later ++ '\'' :: rest →
        body = escaped later ∧ more = rest ∧ '\r' ∉ later ∧ value = units later)
      (h : Spells body value) (hc : escapeUnit? c = some unit)
      (heq : body ++ '\'' :: more = '\\' :: c :: (escaped later ++ '\'' :: rest)) :
      body = '\\' :: c :: escaped later ∧ more = rest ∧ '\r' ∉ later ∧
        value = unit :: units later := by
    obtain ⟨body', value', rfl, heq', h', rfl⟩ := h.of_printed_escape hc heq
    obtain ⟨rfl, hmore, hreturn, rfl⟩ := ih h' heq'
    exact ⟨rfl, hmore, hreturn, rfl⟩
  fun_induction escaped text generalizing body value with
  | case1 =>
    rcases body with _ | ⟨c, body⟩
    · exact ⟨rfl, (List.cons.inj heq).2, by simp, spells_nil_iff.1 h⟩
    · exact absurd (List.cons.inj heq).1 h.ne_of_cons.1
  | case2 later ih =>
    obtain ⟨hbody, hmore, hreturn, hvalue⟩ := hescape ih h rfl heq
    exact ⟨hbody, hmore, by simpa using hreturn, hvalue⟩
  | case3 later ih =>
    obtain ⟨hbody, hmore, hreturn, hvalue⟩ := hescape ih h rfl heq
    exact ⟨hbody, hmore, by simpa using hreturn, hvalue⟩
  | case4 later ih =>
    obtain ⟨hbody, hmore, hreturn, hvalue⟩ := hescape ih h rfl heq
    exact ⟨hbody, hmore, by simpa using hreturn, hvalue⟩
  | case5 c later hquote hbackslash hfeed ih =>
    rcases body with _ | ⟨d, body⟩
    · exact absurd (List.cons.inj heq).1.symm hquote
    · obtain ⟨rfl, htail⟩ := List.cons.inj heq
      obtain ⟨value', h', rfl⟩ := h.of_plain hbackslash
      obtain ⟨rfl, hmore, hreturn, rfl⟩ := ih h' htail
      exact ⟨rfl, hmore, List.not_mem_cons_of_ne_of_not_mem h.ne_of_cons.2.2.symm hreturn, rfl⟩

/-- A printed literal is a literal exactly if there is no carriage return in the text, and
denotes the text. -/
theorem isLiteral_literal_iff (s : String) (value : List Nat) :
    IsLiteral (literal s) value ↔ '\r' ∉ s.toList ∧ value = units s.toList := by
  have hliteral : (literal s).toList = '\'' :: (escaped s.toList ++ ['\'']) := by
    simp [literal_eq, singleQuoted]
  constructor
  · rintro ⟨body, htext, h⟩
    rw [hliteral] at htext
    exact (spells_of_append h (List.cons.inj htext).2.symm).2.2
  · rintro ⟨hreturn, rfl⟩
    exact ⟨escaped s.toList, hliteral, spells_escaped hreturn⟩

end Code
end ReactiveView
