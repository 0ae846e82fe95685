/-
# Source texts are unambiguous

No two nodes have one source text (`Code.print_eq_iff`), as long as names are names
(`Code.Named`): the callees of calls and the names of functions are identifiers, and
identifiers are words.

The statement that an induction carries is about beginnings of texts (`Code.eq_of_append`):
where two nodes are written, each followed by something at which a node may end
(`Code.Stops`), the nodes are the same and so is what follows.  The first characters tell
the shape of a node (`Code.shapeAt`).  Words end where word characters end, literals where
they are closed, and lists at their closing bracket, which no node and no separator begins
with (`Code.Delimits`).  The statements of a function are such a list too: the new line that
closes it is less deep than those between statements.
-/

import ReactiveView.Code.Tagged
import ReactiveView.Proofs.Code.Literal

namespace ReactiveView
namespace Code

/-! ## Names -/

/-- A character of an identifier: an ASCII letter or digit, `_` or `$`. -/
def isWordChar (c : Char) : Bool :=
  c.isAlphanum || c == '_' || c == '$'

/-- A name that an identifier may have. -/
def IsWord (name : String) : Prop :=
  name ≠ "" ∧ ∀ c ∈ name.toList, isWordChar c = true

/-- The node is an identifier with a proper name. -/
def IsIdentifier : Code → Prop
  | identifier name => IsWord name
  | _ => False

mutual

/-- Identifiers have proper names, and what is called or declared is an identifier. -/
def Named : Code → Prop
  | function id params body => IsIdentifier id ∧ NamedEach params ∧ NamedEach body
  | ret value => Named value
  | call callee arguments => IsIdentifier callee ∧ NamedEach arguments
  | array elements => NamedEach elements
  | string _ => True
  | identifier name => IsWord name

/-- All the nodes are named. -/
def NamedEach : List Code → Prop
  | [] => True
  | code :: rest => Named code ∧ NamedEach rest

end

/-- To be an identifier is to have a word for a name. -/
theorem isIdentifier_iff {code : Code} :
    code.IsIdentifier ↔ ∃ name, code = identifier name ∧ IsWord name := by
  cases code <;> simp [IsIdentifier]

/-! ## Characters -/

/-- The characters of a node at a level. -/
def chars (level : Nat) (code : Code) : List Char :=
  (printAt level code).toList

/-- The characters of the later nodes of a list, each behind a separator. -/
def charsLater (level : Nat) (sep : List Char) (codes : List Code) : List Char :=
  codes.flatMap fun code => sep ++ chars level code

/-- The characters of the nodes of a list, with a separator between them. -/
def charsEach (level : Nat) (sep : List Char) : List Code → List Char
  | [] => []
  | code :: rest => chars level code ++ charsLater level sep rest

/-- The printer puts separators between the texts of the nodes; on characters this is
`charsEach`. -/
theorem toList_intercalate (level : Nat) (sep : String) (codes : List Code) :
    (sep.intercalate (printEach level codes)).toList = charsEach level sep.toList codes := by
  have hlater (first : String) (rest : List Code) :
      (sep.intercalate (first :: printEach level rest)).toList =
        first.toList ++ charsLater level sep.toList rest := by
    induction rest generalizing first with
    | nil => simp [charsLater]
    | cons code rest ih =>
      rw [printEach_cons, String.intercalate_cons_cons, String.toList_append,
        String.toList_append, ih]
      simp [charsLater, chars]
  cases codes with
  | nil => simp [charsEach]
  | cons code rest => exact hlater _ _

/-- A new line begins with a line feed. -/
theorem toList_newline (level : Nat) : ∃ rest, (newline level).toList = '\n' :: rest :=
  ⟨(String.join (List.replicate level "  ")).toList, by rw [newline, String.toList_append]; rfl⟩

/-- One level deeper, a new line is longer. -/
theorem toList_newline_succ (level : Nat) :
    (newline (level + 1)).toList = (newline level).toList ++ [' ', ' '] := by
  simp [newline, List.replicate_succ']

@[simp] theorem chars_string (level : Nat) (value : String) :
    chars level (string value) = '\'' :: (escaped value.toList ++ ['\'']) := by
  simp [chars, literal_eq, singleQuoted]

@[simp] theorem chars_identifier (level : Nat) (name : String) :
    chars level (identifier name) = name.toList := rfl

@[simp] theorem chars_array (level : Nat) (elements : List Code) :
    chars level (array elements) = '[' :: (charsEach level [',', ' '] elements ++ [']']) := by
  simp only [chars, printAt_array, String.toList_append, toList_intercalate]
  rfl

@[simp] theorem chars_call (level : Nat) (callee : Code) (arguments : List Code) :
    chars level (call callee arguments) =
      chars level callee ++ '(' :: (charsEach level [',', ' '] arguments ++ [')']) := by
  simp only [chars, printAt_call, String.toList_append, toList_intercalate]
  simp

@[simp] theorem chars_ret (level : Nat) (value : Code) :
    chars level (ret value) = "return".toList ++ ' ' :: chars level value := by
  simp [chars]

@[simp] theorem chars_function (level : Nat) (id : Code) (params body : List Code) :
    chars level (function id params body) =
      "function".toList ++ ' ' :: (chars level id ++ ' ' :: '(' ::
        (charsEach level [',', ' '] params ++ ')' :: ' ' :: '\x7b' ::
          ((newline (level + 1)).toList ++
            (charsEach (level + 1) (newline (level + 1)).toList body ++
              ((newline level).toList ++ ['\x7d']))))) := by
  simp only [chars, printAt_function, String.toList_append, toList_intercalate]
  simp

/-! ## Ends -/

/-- A character that stands behind a node: a comma, a closing bracket or a line feed. -/
def isStop (c : Char) : Bool :=
  c == ',' || c == ')' || c == ']' || c == '\n'

/-- A node may end before these characters. -/
def Stops (rest : List Char) : Prop :=
  ∀ c ∈ rest.head?, isStop c = true

/-- A node may end where the text ends. -/
theorem stops_nil : Stops [] := fun _ h => absurd h (by simp)

theorem stops_cons {c : Char} {rest : List Char} (h : isStop c = true) : Stops (c :: rest) := by
  rintro d hd
  rw [← Option.some.inj hd]
  exact h

/-- There are four characters at which a node may end. -/
theorem eq_of_isStop {c : Char} (h : isStop c = true) :
    c = ',' ∨ c = ')' ∨ c = ']' ∨ c = '\n' := by
  simpa [isStop, or_assoc] using h

/-- A word cannot go on where a node may end. -/
theorem Stops.not_word {rest : List Char} (h : Stops rest) :
    ∀ c ∈ rest.head?, isWordChar c = false := by
  intro c hc
  rcases eq_of_isStop (h c hc) with rfl | rfl | rfl | rfl <;> decide

/-- No word character is among those at which a node may end. -/
theorem isStop_of_isWordChar {c : Char} (h : isWordChar c = true) : isStop c = false := by
  refine Bool.eq_false_iff.2 fun hstop => ?_
  rcases eq_of_isStop hstop with rfl | rfl | rfl | rfl <;> exact absurd h (by decide)

/-- A word of word characters ends where no word character follows. -/
theorem takeWhile_word {word rest : List Char} (h : ∀ c ∈ word, isWordChar c = true)
    (hrest : ∀ c ∈ rest.head?, isWordChar c = false) :
    (word ++ rest).takeWhile isWordChar = word ∧ (word ++ rest).dropWhile isWordChar = rest := by
  rw [List.takeWhile_append_of_pos h, List.dropWhile_append_of_pos h]
  cases rest with
  | nil => simp
  | cons c rest => simp [hrest c rfl]

/-- **Two words that end are the same word**, and the same follows. -/
theorem word_unique {word word' rest rest' : List Char} (h : ∀ c ∈ word, isWordChar c = true)
    (h' : ∀ c ∈ word', isWordChar c = true) (hrest : ∀ c ∈ rest.head?, isWordChar c = false)
    (hrest' : ∀ c ∈ rest'.head?, isWordChar c = false) (heq : word ++ rest = word' ++ rest') :
    word = word' ∧ rest = rest' := by
  obtain ⟨htake, hdrop⟩ := takeWhile_word h hrest
  obtain ⟨htake', hdrop'⟩ := takeWhile_word h' hrest'
  rw [heq] at htake hdrop
  exact ⟨htake.symm.trans htake', hdrop.symm.trans hdrop'⟩

/-- The first node of a list begins with no character that ends one. -/
theorem head_chars {code : Code} (h : code.Named) (level : Nat) :
    ∃ c rest, chars level code = c :: rest ∧ isStop c = false := by
  have hword {name : String} (h : IsWord name) :
      ∃ c rest, name.toList = c :: rest ∧ isStop c = false := by
    cases hlist : name.toList with
    | nil => exact absurd (String.toList_eq_nil_iff.1 hlist) h.1
    | cons c rest =>
      exact ⟨c, rest, rfl, isStop_of_isWordChar (h.2 c (by rw [hlist]; exact List.mem_cons_self))⟩
  cases code with
  | function id params body => exact ⟨'f', _, by rw [chars_function]; rfl, by decide⟩
  | ret value => exact ⟨'r', _, by rw [chars_ret]; rfl, by decide⟩
  | call callee arguments =>
    obtain ⟨name, rfl, hname⟩ := isIdentifier_iff.1 h.1
    obtain ⟨c, rest, hlist, hc⟩ := hword hname
    exact ⟨c, _, by rw [chars_call, chars_identifier, hlist]; rfl, hc⟩
  | array elements => exact ⟨'[', _, chars_array _ _, by decide⟩
  | string value => exact ⟨'\'', _, chars_string _ _, by decide⟩
  | identifier name => exact hword h

/-! ## Shapes -/

/-- The shape of a node that begins with a word, by what follows the word. -/
def shapeAfter (word : List Char) : List Char → Shape
  | '(' :: _ => .call
  | ' ' :: _ => if word = "return".toList then .ret else .function
  | _ => .identifier

/-- The shape of the node that these characters begin with. -/
def shapeAt (chars : List Char) : Shape :=
  if chars.head? = some '\'' then .string
  else if chars.head? = some '[' then .array
  else shapeAfter (chars.takeWhile isWordChar) (chars.dropWhile isWordChar)

/-- Behind a word the shape is told by what follows. -/
theorem shapeAt_word {word rest : List Char} (hne : word ≠ [])
    (hword : ∀ c ∈ word, isWordChar c = true)
    (hrest : ∀ c ∈ rest.head?, isWordChar c = false) :
    shapeAt (word ++ rest) = shapeAfter word rest := by
  obtain ⟨htake, hdrop⟩ := takeWhile_word hword hrest
  obtain ⟨c, more, rfl⟩ := List.exists_cons_of_ne_nil hne
  have hc : isWordChar c = true := hword c List.mem_cons_self
  have hquote : c ≠ '\'' := by
    rintro rfl
    exact absurd hc (by decide)
  have hbracket : c ≠ '[' := by
    rintro rfl
    exact absurd hc (by decide)
  rw [shapeAt, htake, hdrop]
  simp [hquote, hbracket]

/-- A word that a node may end behind is an identifier, whatever word it is. -/
theorem shapeAfter_of_stops {word rest : List Char} (h : Stops rest) :
    shapeAfter word rest = .identifier := by
  cases rest with
  | nil => rfl
  | cons c rest => rcases eq_of_isStop (h c rfl) with rfl | rfl | rfl | rfl <;> rfl

/-- The first characters tell the shape. -/
theorem shapeAt_chars {code : Code} (h : code.Named) (level : Nat) {rest : List Char}
    (hrest : Stops rest) : shapeAt (chars level code ++ rest) = code.shape := by
  have hblank (more : List Char) : ∀ c ∈ (' ' :: more).head?, isWordChar c = false := by
    rintro c hc
    rw [← Option.some.inj hc]
    decide
  cases code with
  | string value =>
    rw [chars_string, List.cons_append]
    rfl
  | array elements =>
    rw [chars_array, List.cons_append]
    rfl
  | identifier name =>
    have hne : name.toList ≠ [] := fun hnil => h.1 (String.toList_eq_nil_iff.1 hnil)
    rw [chars_identifier, shapeAt_word hne h.2 hrest.not_word, shapeAfter_of_stops hrest, shape]
  | call callee arguments =>
    obtain ⟨name, rfl, hname⟩ := isIdentifier_iff.1 h.1
    have hne : name.toList ≠ [] := fun hnil => hname.1 (String.toList_eq_nil_iff.1 hnil)
    rw [chars_call, chars_identifier, List.append_assoc, List.cons_append,
      shapeAt_word hne hname.2 (by rintro c hc; rw [← Option.some.inj hc]; decide)]
    rfl
  | ret value =>
    rw [chars_ret, List.append_assoc, List.cons_append,
      shapeAt_word (by simp) (by simp [isWordChar]) (hblank _)]
    rfl
  | function id params body =>
    rw [chars_function, List.append_assoc, List.cons_append,
      shapeAt_word (by simp) (by simp [isWordChar]) (hblank _)]
    rfl

/-! ## Lists -/

/-- The separator and the end of a list: both begin with a character at which a node may
end, and neither is taken for the other. -/
structure Delimits (sep close : List Char) : Prop where
  sepStops : ∃ c rest, sep = c :: rest ∧ isStop c = true
  closeStops : ∃ c rest, close = c :: rest ∧ isStop c = true
  apart : ∀ more more', sep ++ more ≠ close ++ more'

/-- Lists between brackets: the comma separates, and the bracket that closes is another
character. -/
theorem delimits_bracket {bracket : Char} (h : isStop bracket = true) (hcomma : bracket ≠ ',') :
    Delimits [',', ' '] [bracket] where
  sepStops := ⟨',', [' '], rfl, rfl⟩
  closeStops := ⟨bracket, [], rfl, h⟩
  apart _ _ heq := hcomma (List.cons.inj heq).1.symm

/-- Statements are separated by a new line that is deeper than the one behind them. -/
theorem delimits_newline (level : Nat) :
    Delimits (newline (level + 1)).toList ((newline level).toList ++ ['\x7d']) where
  sepStops := by
    obtain ⟨rest, hrest⟩ := toList_newline (level + 1)
    exact ⟨'\n', rest, hrest, rfl⟩
  closeStops := by
    obtain ⟨rest, hrest⟩ := toList_newline level
    exact ⟨'\n', rest ++ ['\x7d'], by rw [hrest]; rfl, rfl⟩
  apart _ _ heq := by
    rw [toList_newline_succ, List.append_assoc, List.append_assoc] at heq
    have hblank := List.append_cancel_left heq
    exact absurd (List.cons.inj hblank).1 (by decide)

/-- A node may end before the end of its list. -/
theorem Delimits.stops_close {sep close : List Char} (h : Delimits sep close) (rest : List Char) :
    Stops (close ++ rest) := by
  obtain ⟨c, more, rfl, hc⟩ := h.closeStops
  exact stops_cons hc

/-- A node of a list ends where the later ones or the end of the list begin. -/
theorem Delimits.stops_later {sep close : List Char} (h : Delimits sep close) (level : Nat)
    (codes : List Code) (rest : List Char) :
    Stops (charsLater level sep codes ++ (close ++ rest)) := by
  cases codes with
  | nil => exact h.stops_close rest
  | cons code codes =>
    obtain ⟨c, more, rfl, hc⟩ := h.sepStops
    exact stops_cons hc

/-- The end of a list is not taken for its first node. -/
theorem Delimits.ne_chars {sep close : List Char} (h : Delimits sep close) {code : Code}
    (hcode : code.Named) (level : Nat) (more more' : List Char) :
    close ++ more ≠ chars level code ++ more' := by
  obtain ⟨c, rest, rfl, hc⟩ := h.closeStops
  obtain ⟨d, rest', hchars, hd⟩ := head_chars hcode level
  rw [hchars]
  intro heq
  obtain rfl : c = d := (List.cons.inj heq).1
  exact absurd (hc.symm.trans hd) (by decide)

/-! ## Nodes -/

/-- Nodes that begin one text have one shape. -/
theorem shape_eq {a b : Code} {level : Nat} {rest rest' : List Char} (ha : a.Named) (hb : b.Named)
    (hrest : Stops rest) (hrest' : Stops rest')
    (heq : chars level a ++ rest = chars level b ++ rest') : a.shape = b.shape := by
  rw [← shapeAt_chars ha level hrest, ← shapeAt_chars hb level hrest', heq]

/-- Two identifiers with a blank or an opening bracket behind them are the same. -/
theorem identifier_unique {a b : Code} (ha : a.IsIdentifier) (hb : b.IsIdentifier) (level : Nat)
    {c : Char} {rest rest' : List Char} (hc : isWordChar c = false)
    (heq : chars level a ++ c :: rest = chars level b ++ c :: rest') : a = b ∧ rest = rest' := by
  obtain ⟨name, rfl, hname⟩ := isIdentifier_iff.1 ha
  obtain ⟨name', rfl, hname'⟩ := isIdentifier_iff.1 hb
  have hstop (more : List Char) : ∀ d ∈ (c :: more).head?, isWordChar d = false := by
    rintro d hd
    rw [← Option.some.inj hd]
    exact hc
  obtain ⟨hnames, hrest⟩ := word_unique hname.2 hname'.2 (hstop rest) (hstop rest') heq
  exact ⟨by rw [String.toList_inj.1 hnames], (List.cons.inj hrest).2⟩

/-- Two literals are the same, whatever is behind them. -/
theorem literal_unique {value value' : String} {level : Nat} {rest rest' : List Char}
    (heq : chars level (.string value) ++ rest = chars level (.string value') ++ rest') :
    value = value' ∧ rest = rest' := by
  simp only [chars_string, List.cons_append, List.append_assoc] at heq
  have hescaped : escaped value.toList ++ '\'' :: rest = escaped value'.toList ++ '\'' :: rest' :=
    (List.cons.inj heq).2
  have hread := readLiteral_escaped value.toList rest
  rw [hescaped, readLiteral_escaped value'.toList rest'] at hread
  obtain ⟨hvalues, hrests⟩ := Prod.mk.inj (Option.some.inj hread)
  exact ⟨(String.toList_inj.1 hvalues).symm, hrests.symm⟩

mutual

/-- **Where two nodes are written, they are the same**, and so is what follows them. -/
theorem eq_of_append : ∀ a : Code, ∀ (b : Code) (level : Nat) (rest rest' : List Char),
    a.Named → b.Named → Stops rest → Stops rest' →
    chars level a ++ rest = chars level b ++ rest' → a = b ∧ rest = rest'
  | string value => by
    intro b level rest rest' ha hb hrest hrest' heq
    -- The first characters tell the shape, so only a node of the same shape is left to look at.
    have hshape := shape_eq ha hb hrest hrest' heq
    cases b with
    | string value' =>
      obtain ⟨rfl, hrests⟩ := literal_unique heq
      exact ⟨rfl, hrests⟩
    | _ => exact absurd hshape (by simp [shape])
  | identifier name => by
    intro b level rest rest' ha hb hrest hrest' heq
    have hshape := shape_eq ha hb hrest hrest' heq
    cases b with
    | identifier name' =>
      obtain ⟨hnames, hrests⟩ := word_unique ha.2 hb.2 hrest.not_word hrest'.not_word heq
      exact ⟨by rw [String.toList_inj.1 hnames], hrests⟩
    | _ => exact absurd hshape (by simp [shape])
  | array elements => by
    intro b level rest rest' ha hb hrest hrest' heq
    have hshape := shape_eq ha hb hrest hrest' heq
    cases b with
    | array elements' =>
      rw [chars_array, chars_array, List.cons_append, List.cons_append, List.append_assoc,
        List.append_assoc] at heq
      obtain ⟨rfl, hrests⟩ := eq_of_append_each elements elements' level _ _ rest rest' ha hb
        (delimits_bracket rfl (by decide)) (List.cons.inj heq).2
      exact ⟨rfl, hrests⟩
    | _ => exact absurd hshape (by simp [shape])
  | call callee arguments => by
    intro b level rest rest' ha hb hrest hrest' heq
    have hshape := shape_eq ha hb hrest hrest' heq
    cases b with
    | call callee' arguments' =>
      simp only [chars_call, List.append_assoc, List.cons_append] at heq
      obtain ⟨rfl, hlist⟩ := identifier_unique ha.1 hb.1 level rfl heq
      obtain ⟨rfl, hrests⟩ := eq_of_append_each arguments arguments' level _ [')'] rest rest' ha.2
        hb.2 (delimits_bracket rfl (by decide)) hlist
      exact ⟨rfl, hrests⟩
    | _ => exact absurd hshape (by simp [shape])
  | ret value => by
    intro b level rest rest' ha hb hrest hrest' heq
    have hshape := shape_eq ha hb hrest hrest' heq
    cases b with
    | ret value' =>
      simp only [chars_ret, List.append_assoc, List.cons_append] at heq
      have hvalues := (List.cons.inj (List.append_cancel_left heq)).2
      obtain ⟨rfl, hrests⟩ := eq_of_append value value' level rest rest' ha hb hrest hrest' hvalues
      exact ⟨rfl, hrests⟩
    | _ => exact absurd hshape (by simp [shape])
  | function id params body => by
    intro b level rest rest' ha hb hrest hrest' heq
    have hshape := shape_eq ha hb hrest hrest' heq
    cases b with
    | function id' params' body' =>
      obtain ⟨hid, hparams, hbody⟩ := ha
      obtain ⟨hid', hparams', hbody'⟩ := hb
      simp only [chars_function, List.append_assoc, List.cons_append] at heq
      have hids := (List.cons.inj (List.append_cancel_left heq)).2
      obtain ⟨rfl, hlist⟩ := identifier_unique hid hid' level rfl hids
      obtain ⟨rfl, hlines⟩ := eq_of_append_each params params' level _ [')'] _ _ hparams hparams'
        (delimits_bracket rfl (by decide)) (List.cons.inj hlist).2
      have hstatements := List.append_cancel_left (List.cons.inj (List.cons.inj hlines).2).2
      -- The statements end with a new line that is less deep than those between them.
      have hclose (more : List Char) : (newline level).toList ++ '\x7d' :: ([] ++ more) =
          ((newline level).toList ++ ['\x7d']) ++ more := by simp
      rw [hclose, hclose] at hstatements
      obtain ⟨rfl, hrests⟩ := eq_of_append_each body body' (level + 1) _ _ rest rest' hbody hbody'
        (delimits_newline level) hstatements
      exact ⟨rfl, hrests⟩
    | _ => exact absurd hshape (by simp [shape])

/-- **Lists are told apart**, with what follows their end: node by node, from the first on. -/
theorem eq_of_append_each : ∀ as bs : List Code, ∀ (level : Nat)
    (sep close rest rest' : List Char), NamedEach as → NamedEach bs → Delimits sep close →
    charsEach level sep as ++ (close ++ rest) = charsEach level sep bs ++ (close ++ rest') →
    as = bs ∧ rest = rest'
  | [], [] => fun _ _ _ _ _ _ _ _ heq => ⟨rfl, List.append_cancel_left heq⟩
  | [], b :: bs => by
    intro level sep close rest rest' _ hb hdelimits heq
    rw [charsEach, charsEach, List.append_assoc] at heq
    exact absurd heq (hdelimits.ne_chars hb.1 level _ _)
  | a :: as, [] => by
    intro level sep close rest rest' ha _ hdelimits heq
    rw [charsEach, charsEach, List.append_assoc] at heq
    exact absurd heq.symm (hdelimits.ne_chars ha.1 level _ _)
  | a :: as, b :: bs => by
    intro level sep close rest rest' ha hb hdelimits heq
    rw [charsEach, charsEach, List.append_assoc, List.append_assoc] at heq
    obtain ⟨rfl, hlater⟩ := eq_of_append a b level _ _ ha.1 hb.1
      (hdelimits.stops_later level as rest) (hdelimits.stops_later level bs rest') heq
    obtain ⟨rfl, hrest⟩ := eq_of_append_later as bs level sep close rest rest' ha.2 hb.2 hdelimits
      hlater
    exact ⟨rfl, hrest⟩

/-- Behind the first node of a list each is preceded by a separator, which shows that the list
goes on. -/
theorem eq_of_append_later : ∀ as bs : List Code, ∀ (level : Nat)
    (sep close rest rest' : List Char), NamedEach as → NamedEach bs → Delimits sep close →
    charsLater level sep as ++ (close ++ rest) = charsLater level sep bs ++ (close ++ rest') →
    as = bs ∧ rest = rest'
  | [], [] => fun _ _ _ _ _ _ _ _ heq => ⟨rfl, List.append_cancel_left heq⟩
  | [], b :: bs => by
    intro level sep close rest rest' _ hb hdelimits heq
    exact absurd heq.symm (by simpa [charsLater] using hdelimits.apart _ _)
  | a :: as, [] => by
    intro level sep close rest rest' ha _ hdelimits heq
    exact absurd heq (by simpa [charsLater] using hdelimits.apart _ _)
  | a :: as, b :: bs => by
    intro level sep close rest rest' ha hb hdelimits heq
    simp only [charsLater, List.flatMap_cons, List.append_assoc] at heq
    have hfirst := List.append_cancel_left heq
    obtain ⟨rfl, hlater⟩ := eq_of_append a b level _ _ ha.1 hb.1
      (hdelimits.stops_later level as rest) (hdelimits.stops_later level bs rest') hfirst
    obtain ⟨rfl, hrest⟩ := eq_of_append_later as bs level sep close rest rest' ha.2 hb.2 hdelimits
      hlater
    exact ⟨rfl, hrest⟩

end

/-- **Different nodes have different source texts.** -/
theorem eq_of_printAt {a b : Code} (ha : a.Named) (hb : b.Named) {level : Nat}
    (h : printAt level a = printAt level b) : a = b := by
  have hchars : chars level a ++ [] = chars level b ++ [] := by rw [chars, chars, h]
  exact (eq_of_append a b level [] [] ha hb stops_nil stops_nil hchars).1

/-- **Source texts are unambiguous**: nodes with proper names are written alike only if they
are the same node. -/
theorem print_eq_iff {a b : Code} (ha : a.Named) (hb : b.Named) : a.print = b.print ↔ a = b := by
  constructor
  · exact eq_of_printAt ha hb
  · rintro rfl
    rfl

/-- A function with a function among its arguments; that one has the statements `inner`. -/
def outer (inner : List Code) : Code :=
  .function (.identifier "f") [.identifier "x"]
    [.call (.identifier "g") [.function (.identifier "$_1") [] inner, .array []],
      .ret (.string "'\n  \x7d")]

/-- An empty body, and a body that is a literal of what closes an empty one. -/
theorem print_eq_iff_emptyBody :
    (outer []).Named ∧ (outer [.string "\n  \x7d"]).Named ∧
      (outer []).print ≠ (outer [.string "\n  \x7d"]).print := by
  have hnamed : (outer []).Named ∧ (outer [.string "\n  \x7d"]).Named := by
    simp [outer, Named, NamedEach, IsIdentifier, IsWord, isWordChar]
  refine ⟨hnamed.1, hnamed.2, ?_⟩
  rw [Ne, print_eq_iff hnamed.1 hnamed.2]
  simp [outer]

end Code
end ReactiveView
