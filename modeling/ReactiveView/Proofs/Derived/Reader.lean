/-
# Bodies that only read

The getter of a computed value, and the body of an effect that is there to watch, only read.
What such a body does is a tree (`Reader`): it ends with a value, or it reads something and
goes on by the answer.  In a given world it makes a list of reads (`Reader.trace`) and ends
with a value (`Reader.value`), and it does the same as long as what it read holds the same
(`Reader.congr`).

The body of an effect that keeps a computed value is a reader that stores its value at the end
(`Derivation`).

Cells are compared before they are written, and the two zeros are equal.  So a value that is
kept may be the other zero than the one that was to be stored (`Value.Twin`), and all the
others are the same.
-/

import ReactiveView.Proofs.Live.Template

namespace ReactiveView
namespace Reactive

variable {σ : Type}

/-! ## The two zeros -/

namespace Value

/-- The value is a zero, of whichever sign. -/
def IsZero (a : Value) : Prop := ∃ x, a = .number x ∧ (x == 0) = true

/-- The values are the same, or both are zeros. -/
def Twin (a b : Value) : Prop := a = b ∨ a.IsZero ∧ b.IsZero

variable {a b c : Value}

/-- Every value is its own twin. -/
theorem Twin.refl (a : Value) : a.Twin a := .inl rfl

/-- Twins are twins of each other. -/
theorem Twin.symm (h : a.Twin b) : b.Twin a := h.imp Eq.symm And.symm

/-- Twins of one value are twins: there are two zeros and no more. -/
theorem Twin.trans (h : a.Twin b) (h' : b.Twin c) : a.Twin c := by
  rcases h with rfl | ⟨ha, hb⟩
  · exact h'
  · rcases h' with rfl | ⟨-, hc⟩
    · exact .inr ⟨ha, hb⟩
    · exact .inr ⟨ha, hc⟩

/-- A zero is read as it is. -/
theorem IsZero.wrap (h : a.IsZero) : a.wrap.IsZero := by
  obtain ⟨x, rfl, hx⟩ := h
  exact ⟨x, rfl, hx⟩

/-- A zero is stored as it is. -/
theorem IsZero.raw (h : a.IsZero) : a.raw.IsZero := by
  obtain ⟨x, rfl, hx⟩ := h
  exact ⟨x, rfl, hx⟩

/-- Twins are read as twins. -/
theorem Twin.wrap (h : a.Twin b) : a.wrap.Twin b.wrap :=
  h.imp (congrArg Value.wrap) fun hzero => ⟨hzero.1.wrap, hzero.2.wrap⟩

/-- Twins are stored as twins. -/
theorem Twin.raw (h : a.Twin b) : a.raw.Twin b.raw :=
  h.imp (congrArg Value.raw) fun hzero => ⟨hzero.1.raw, hzero.2.raw⟩

/-- Zeros are equal, so twins that are not equal are the same: the undefined number. -/
theorem Twin.eq_of_beq_eq_false (h : a.Twin b) (hdiffers : (a == b) = false) : a = b := by
  rcases h with rfl | ⟨⟨x, rfl, hx⟩, ⟨y, rfl, hy⟩⟩
  · rfl
  · have hsame : (number x == number y) = true := Number.beq_of_beq_zero hx hy
    exact absurd (hsame.symm.trans hdiffers) (by simp)

/-- **Equal values are twins.** -/
theorem twin_of_beq (h : (a == b) = true) : a.Twin b := by
  have hsame : same a b = true := h
  cases a <;> cases b
  case number.number x y =>
    rcases Number.eq_or_zero_of_beq hsame with rfl | ⟨hx, hy⟩
    · exact .refl _
    · exact .inr ⟨⟨x, rfl, hx⟩, ⟨y, rfl, hy⟩⟩
  case bool.bool => exact .inl (congrArg bool (eq_of_beq hsame))
  case text.text => exact .inl (congrArg text (eq_of_beq hsame))
  case object.object => exact .inl (congrArg object (eq_of_beq hsame))
  case reactive.reactive => exact .inl (congrArg reactive (eq_of_beq hsame))
  all_goals first | exact .refl _ | exact absurd hsame Bool.false_ne_true

end Value

/-! ## Readers -/

/-- A read and its answer. -/
structure Reading where
  op : Op
  answer : op.Answer

/-- A body that only reads. -/
inductive Reader where
  /-- Ends with a value. -/
  | gives (value : Value)
  /-- Reads, and goes on by the answer. -/
  | reads (op : Op) (recorded : op.entry?.isSome = true) (next : op.Answer → Reader)

namespace Reader

/-- The reads that the body makes in a world, with their answers, in order. -/
def trace (w : World σ) : Reader → List Reading
  | gives _ => []
  | reads op _ next => ⟨op, (w.answer op).1⟩ :: (next (w.answer op).1).trace w

/-- The entries that the body reads in a world. -/
def entries (w : World σ) : Reader → List Entry
  | gives _ => []
  | reads op _ next => op.entry?.toList ++ (next (w.answer op).1).entries w

/-- The value that the body ends with in a world. -/
def value (w : World σ) : Reader → Value
  | gives value => value
  | reads op _ next => (next (w.answer op).1).value w

/-- The body reads the cell, whatever answers lead it there. -/
def Mentions (c : CellId) : Reader → Prop
  | gives _ => False
  | reads op _ next => (∃ x ∈ op.entry?, x.target = .cell c) ∨ ∃ answer, (next answer).Mentions c

/-- The body as a program that goes on from its value. -/
def andThen (f : Value → Program σ) : Reader → Program σ
  | gives value => f value
  | reads op _ next => .op op fun answer => (next answer).andThen f

/-- The body as a program. -/
def program (reader : Reader) : Program σ := reader.andThen .ret

variable {w w' : World σ} {c : CellId} {x : Entry}

/-- **A body does the same as long as what it read holds the same.** -/
theorem congr (reader : Reader) (h : ∀ x ∈ reader.entries w, w'.content x = w.content x) :
    reader.trace w' = reader.trace w ∧ reader.entries w' = reader.entries w ∧
      reader.value w' = reader.value w := by
  induction reader with
  | gives value => exact ⟨rfl, rfl, rfl⟩
  | reads op recorded next ih =>
    obtain ⟨x, hx⟩ := Option.isSome_iff_exists.1 recorded
    have hanswer : (w'.answer op).1 = (w.answer op).1 := by
      refine View.answer_congr hx (h x ?_)
      rw [entries, hx]
      exact List.mem_append_left _ (List.mem_singleton_self x)
    obtain ⟨htrace, hentries, hvalue⟩ := ih (w.answer op).1 fun y hy => h y (by
      rw [entries]
      exact List.mem_append_right _ hy)
    simp only [trace, entries, value, hanswer, htrace, hentries, hvalue, and_self]

/-- What the body reads in some world it mentions. -/
theorem mentions_of_mem_entries {reader : Reader} (h : x ∈ reader.entries w)
    (hx : x.target = .cell c) : reader.Mentions c := by
  induction reader with
  | gives value => exact absurd h List.not_mem_nil
  | reads op recorded next ih =>
    rcases List.mem_append.1 h with h | h
    · exact .inl ⟨x, Option.mem_toList.1 h, hx⟩
    · exact .inr ⟨_, ih _ h⟩

/-- To bind a program behind a body is to go on from its value. -/
theorem bind_program (reader : Reader) (f : Value → Program σ) :
    reader.program.bind f = reader.andThen f := by
  induction reader with
  | gives value => rfl
  | reads op recorded next ih => exact congrArg (Program.op op) (funext ih)

end Reader

/-! ## Derivations -/

/-- The body of an effect that only reads, and then perhaps stores what it ends with in a cell
of its own. -/
structure Derivation where
  reader : Reader
  cell? : Option CellId

namespace Derivation

/-- What is done with the value. -/
def finish (cell? : Option CellId) (value : Value) : Program σ :=
  match cell? with
  | none => .ret value
  | some c => .write (.store c value) fun _ => .done

/-- The body as a program. -/
def program (d : Derivation) : Program σ := d.reader.andThen (finish d.cell?)

/-- **What a body does tells the body**, and what becomes of its value. -/
theorem eq_of_andThen {reader reader' : Reader} {cell? cell?' : Option CellId}
    (h : reader.andThen (finish (σ := σ) cell?) = reader'.andThen (finish cell?')) :
    reader = reader' ∧ cell? = cell?' := by
  induction reader generalizing reader' with
  | gives value =>
    cases reader' with
    | gives value' => cases cell? <;> cases cell?' <;> simp_all [Reader.andThen, finish]
    | reads op' recorded' next' => cases cell? <;> simp [Reader.andThen, finish] at h
  | reads op recorded next ih =>
    cases reader' with
    | gives value' => cases cell?' <;> simp [Reader.andThen, finish] at h
    | reads op' recorded' next' =>
      obtain ⟨rfl, hnext⟩ := Program.op.inj h
      have heach (answer : op.Answer) := ih answer (congrFun (eq_of_heq hnext) answer)
      have hnonempty : Nonempty op.Answer := by
        cases op <;> first | exact ⟨default⟩ | exact absurd recorded (by simp [Op.entry?])
      obtain ⟨answer⟩ := hnonempty
      refine ⟨?_, (heach answer).2⟩
      rw [funext fun answer => (heach answer).1]

/-- A body is one derivation at most. -/
theorem eq_of_program {d d' : Derivation} (h : d.program (σ := σ) = d'.program) : d = d' := by
  obtain ⟨reader, cell?⟩ := d
  obtain ⟨reader', cell?'⟩ := d'
  obtain ⟨rfl, rfl⟩ := eq_of_andThen h
  rfl

end Derivation

/-! ## Readers that do not tell the two zeros apart -/

/-- The answers are the same, or both are zeros. -/
def Op.Twins : (op : Op) → op.Answer → op.Answer → Prop
  | .get .., a, b => Value.Twin a b
  | .load _, a, b => Value.Twin a b
  | _, a, b => a = b

/-- Given answers that differ in zeros only, the bodies read the same and end with the same, up
to zeros again. -/
inductive Reader.Alike : Reader → Reader → Prop
  | gives {a b : Value} (h : a.Twin b) : Alike (.gives a) (.gives b)
  | reads {op : Op} {recorded recorded' : op.entry?.isSome = true}
      {next next' : op.Answer → Reader}
      (h : ∀ a b, op.Twins a b → Alike (next a) (next' b)) :
      Alike (.reads op recorded next) (.reads op recorded' next')

variable {w w' : World σ}

/-- In worlds that hold the same up to zeros, reads give the same up to zeros. -/
theorem Op.twins_answer {op : Op} (recorded : op.entry?.isSome = true)
    (hobjects : ∀ o, w'.table o = w.table o)
    (hcells : ∀ c, (∃ x ∈ op.entry?, x.target = .cell c) → (w.cell c).Twin (w'.cell c)) :
    op.Twins (w.answer op).1 (w'.answer op).1 := by
  cases op with
  | get o name =>
    refine .inl ?_
    simp only [World.answer, World.property, hobjects]
  | has o name => exact congrArg (KeyTable.contains · name) (hobjects o).symm
  | keys o => exact congrArg KeyTable.keys (hobjects o).symm
  | load c => exact (hcells c ⟨_, rfl, rfl⟩).wrap
  | track entry => rfl
  | _ => exact absurd recorded (by simp [Op.entry?])

/-- **Bodies that do not tell zeros apart** read the same in worlds that differ in zeros only,
and end with twins. -/
theorem Reader.Alike.twin {reader reader' : Reader} (h : reader.Alike reader')
    (hobjects : ∀ o, w'.table o = w.table o)
    (hcells : ∀ c, reader.Mentions c → (w.cell c).Twin (w'.cell c)) :
    reader.entries w = reader'.entries w' ∧ (reader.value w).Twin (reader'.value w') := by
  induction h with
  | gives h => exact ⟨rfl, h⟩
  | @reads op recorded recorded' next next' h ih =>
    have hanswer : op.Twins (w.answer op).1 (w'.answer op).1 :=
      Op.twins_answer recorded hobjects fun c hc => hcells c (.inl hc)
    obtain ⟨hentries, hvalue⟩ := ih _ _ hanswer fun c hc => hcells c (.inr ⟨_, hc⟩)
    exact ⟨congrArg (op.entry?.toList ++ ·) hentries, hvalue⟩

end Reactive
end ReactiveView
