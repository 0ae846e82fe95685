/-
# Runs of the machine

A run begins in an empty world and goes on by single steps of the machine; when an
operation is over, by a value or by a failure, the next one begins (`Machine.Next`,
`Machine.IsRun`).  Programs are any programs, so they may use an identity of what has ended:
a target can be tracked and triggered after its last handle has gone.  The states of all runs
are the *reachable* ones, the middle of a body or of an unwinding included
(`Machine.Reachable`).

What one step does to the world is said once, in `Machine.turns_of_step?`: the active effect
reads an entry, or there are changes of few kinds (`World.Alters`), and then perhaps one run of
an effect begins.  What these keep, every run keeps (`World.Kept`, `Machine.Next.keeps`).
-/

import Mathlib.Data.Nat.Init
import Mathlib.Logic.Relation
import ReactiveView.Reactive.Machine

namespace ReactiveView
namespace Reactive

open Relation (ReflTransGen)

variable {σ : Type}

namespace World

variable {w w' : World σ}

/-- The target was there once and is not there any more. -/
def Ended (w : World σ) : Target → Prop
  | .object o => o ∈ w.gone
  | .cell c => c.index < w.cells.size ∧ w.cell? c = none

instance (w : World σ) : DecidablePred w.Ended
  | .object _ => inferInstanceAs (Decidable (_ ∈ _))
  | .cell _ => inferInstanceAs (Decidable (_ ∧ _))

/-- What is there has not ended. -/
theorem Has.not_ended {target : Target} (h : w.Has target) : ¬ w.Ended target := by
  cases target with
  | object o => exact h.2
  | cell c =>
    rintro ⟨-, hnone⟩
    simp [Has, hnone] at h

/-- A cell that is there was made. -/
theorem lt_size_of_isSome {c : CellId} (h : (w.cell? c).isSome = true) :
    c.index < w.cells.size :=
  Nat.lt_of_not_le fun hge => by simp [cell?, Array.getElem?_eq_none hge] at h

/-- One of the changes of which steps are made, as far as effects, registrations and the life of
targets are concerned. -/
inductive Alters : World σ → World σ → Prop
  /-- At most more targets are there. -/
  | rest {w w' : World σ} (registry : w'.registry = w.registry) (effects : w'.effects = w.effects)
      (has : ∀ target, w.Has target → w'.Has target)
      (ended : ∀ target, w.Ended target → w'.Ended target) : Alters w w'
  | stops {w : World σ} (id : EffectId) : Alters w (w.stop id)
  | creates {w : World σ} (body : Program σ) :
      Alters w { w with effects := (w.effects.insert ⟨body, []⟩).2 }
  /-- The last handle of a target goes. -/
  | ends {w : World σ} (target : Target) (has : w.Has target) : Alters w (w.endTarget target)

/-- The same objects, cells, registrations and effects. -/
theorem Alters.same (objects : w'.objects = w.objects) (gone : w'.gone = w.gone)
    (cells : w'.cells = w.cells) (registry : w'.registry = w.registry)
    (effects : w'.effects = w.effects) : Alters w w' :=
  .rest registry effects
    (fun target => by cases target <;> simp [Has, cell?, objects, gone, cells])
    (fun target => by cases target <;> simp [Ended, cell?, gone, cells])

/-! ## The operations -/

/-- Writing a property brings no object to life and takes none away. -/
@[simp] theorem has_setTable (o : ObjectId) (table : KeyTable Value) (target : Target) :
    (w.setTable o table).Has target ↔ w.Has target := by
  cases target <;> simp [Has, setTable, cell?]

/-- Another table for an object changes nothing that a registration depends on. -/
theorem alters_setTable (o : ObjectId) (table : KeyTable Value) : Alters w (w.setTable o table) :=
  .rest rfl rfl (fun target => (has_setTable o table target).2) fun target => by
    cases target <;> exact id

/-- A cell that is there holds what was stored last. -/
theorem cell?_setCell_self {c : CellId} (h : (w.cell? c).isSome = true)
    (content : Option Value) : (w.setCell c content).cell? c = content := by
  have hlt := lt_size_of_isSome h
  simp [cell?, setCell, hlt]

/-- Writing a cell leaves the others. -/
theorem cell?_setCell_ne (w : World σ) {c c' : CellId} (content : Option Value) (h : c ≠ c') :
    (w.setCell c content).cell? c' = w.cell? c' := by
  obtain ⟨i⟩ := c
  obtain ⟨i'⟩ := c'
  have hi : i ≠ i' := fun hi => h (by rw [hi])
  simp only [cell?, setCell, Array.getElem?_setIfInBounds_ne hi]

/-- A cell that takes another value is as much there as before. -/
theorem alters_setCell {c : CellId} {old : Value} (h : w.cell? c = some old) (value : Value) :
    Alters w (w.setCell c (some value)) := by
  have hsize : (w.setCell c (some value)).cells.size = w.cells.size := Array.size_setIfInBounds
  refine .rest rfl rfl (fun target => ?_) (fun target => ?_) <;> cases target with
  | object o => exact id
  | cell c' =>
    by_cases hc : c = c'
    · subst hc
      have hself := cell?_setCell_self (w := w) (c := c) (by rw [h]; rfl) (some value)
      simp [Has, Ended, h, hself]
    · simp only [Has, Ended, hsize, w.cell?_setCell_ne _ hc]
      exact id

/-- A new cell changes no other. -/
theorem cell?_push {c : CellId} (content : Option Value) (h : c.index ≠ w.cells.size) :
    cell? { w with cells := w.cells.push content } c = w.cell? c := by
  simp only [cell?, Array.getElem?_push, h, if_false]

/-- A new cell is one target more, and no other comes or goes with it. -/
theorem alters_pushCell (value : Value) :
    Alters w { w with cells := w.cells.push (some value) } := by
  refine .rest rfl rfl (fun target => ?_) (fun target => ?_) <;> cases target with
  | object o => exact id
  | cell c =>
    by_cases hlt : c.index < w.cells.size
    · simp only [Has, Ended, cell?_push _ (Nat.ne_of_lt hlt), Array.size_push]
      grind
    · simp [Has, Ended, cell?, hlt]

/-- A new object is one target more as well. -/
theorem alters_pushObject (table : KeyTable Value) :
    Alters w { w with objects := w.objects.push table } := by
  refine .rest rfl rfl (fun target => ?_) (fun target => ?_) <;> cases target with
  | object o =>
    simp only [Has, Ended, Array.size_push]
    grind
  | cell c => exact id

/-- A write that changes something changes one object or one cell that is there. -/
theorem write_cases {write : Write} {entries : List Entry}
    (h : w.write write = some (w', entries)) :
    (∃ o table, w' = w.setTable o table) ∨
      ∃ c old value, w.cell? c = some old ∧ w' = w.setCell c (some value) := by
  cases wrote_of_write h with
  | set o | delete o => exact .inl ⟨o, _, rfl⟩
  | store c value held => exact .inr ⟨c, _, _, held, rfl⟩

/-- **A write alters** at most the content of one target; whom it notifies is left to the
machine. -/
theorem alters_write {write : Write} {entries : List Entry}
    (h : w.write write = some (w', entries)) : Alters w w' := by
  rcases write_cases h with ⟨o, table, rfl⟩ | ⟨c, old, value, hold, rfl⟩
  · exact alters_setTable o table
  · exact alters_setCell hold value

/-- Only a target that is there ends. -/
theorem finish_cases (w : World σ) (target : Target) (held : Bool) :
    w.finish target held = w ∨ w.Has target ∧ w.finish target held = w.endTarget target := by
  unfold finish
  split
  · rename_i hends
    exact .inr ⟨hends.1, rfl⟩
  · exact .inl rfl

/-- Letting a handle go ends its target, if it was the last one, or does nothing. -/
theorem alters_finish (target : Target) (held : Bool) : Alters w (w.finish target held) := by
  rcases w.finish_cases target held with h | ⟨has, h⟩ <;> rw [h]
  · exact .same rfl rfl rfl rfl rfl
  · exact .ends target has

/-- **Every operation alters the world at most once**: it makes a target, changes an object
behind its wrapper, stops an effect, or lets a handle go. -/
theorem alters_answer (op : Op) : Alters w (w.answer op).2 := by
  cases op
  case newObject table => exact alters_pushObject table
  case insert => exact alters_setTable _ _
  case remove => exact alters_setTable _ _
  case newCell value => exact alters_pushCell value.raw
  case endCell c => exact alters_finish (.cell c) _
  case letGo o atHand => exact alters_finish (.object o) _
  case stop id => exact .stops id
  all_goals exact .same rfl rfl rfl rfl rfl

/-- Tracking changes nothing, or it registers the active effect, which is live and was not
registered. -/
theorem track_cases (w : World σ) (entry : Entry) :
    w.track entry = w ∨ ∃ id,
      (w.active = some id ∧ w.isLive id = true ∧ id ∉ w.registry.observers entry) ∧
      w.track entry =
        { w with
          registry := w.registry.register id entry
          effects := w.effects.modify id fun e => { e with entries := entry :: e.entries } } := by
  unfold track register
  split
  · rename_i id hactive
    split
    · rename_i hlive
      split
      · exact .inl rfl
      · rename_i hnew
        exact .inr ⟨id, ⟨hactive, hlive, hnew⟩, rfl⟩
    · exact .inl rfl
  · exact .inl rfl

/-- Tracking is about registrations only: the same targets are there. -/
@[simp] theorem has_track (entry : Entry) (target : Target) :
    (w.track entry).Has target ↔ w.Has target := by
  rcases w.track_cases entry with h | ⟨id, -, h⟩
  · rw [h]
  · rw [h]
    cases target <;> exact Iff.rfl

/-- For the same reason the same targets have ended. -/
@[simp] theorem ended_track (entry : Entry) (target : Target) :
    (w.track entry).Ended target ↔ w.Ended target := by
  rcases w.track_cases entry with h | ⟨id, -, h⟩
  · rw [h]
  · rw [h]
    cases target <;> exact Iff.rfl

/-- A target whose last handle goes has ended. -/
theorem ended_endTarget {target : Target} (has : w.Has target) :
    (w.endTarget target).Ended target := by
  cases target with
  | object o => exact List.mem_cons_self
  | cell c =>
    have hlt := lt_size_of_isSome has
    simp [Ended, endTarget, setCell, cell?, hlt]

/-- The other cells are as they were. -/
theorem cell?_endTarget_ne {target : Target} {c : CellId} (h : target ≠ .cell c) :
    (w.endTarget target).cell? c = w.cell? c := by
  cases target with
  | object o => rfl
  | cell c' => exact w.cell?_setCell_ne none fun hc => h (by rw [hc])

/-- What is there after another target has ended was there before, and the other way round. -/
theorem has_endTarget_iff {target other : Target} (h : other ≠ target) :
    (w.endTarget target).Has other ↔ w.Has other := by
  cases other with
  | cell c =>
    simp only [Has, cell?_endTarget_ne h.symm]
  | object o =>
    cases target with
    | cell c => exact Iff.rfl
    | object o' =>
      have hne : o ≠ o' := fun ho => h (by rw [ho])
      simp [Has, endTarget, hne]

/-- Whether another target has ended is not changed. -/
theorem ended_endTarget_iff {target other : Target} (h : other ≠ target) :
    (w.endTarget target).Ended other ↔ w.Ended other := by
  cases other with
  | cell c =>
    have hsize : (w.endTarget target).cells.size = w.cells.size := by
      cases target <;> simp [endTarget, setCell]
    simp only [Ended, cell?_endTarget_ne h.symm, hsize]
  | object o =>
    cases target with
    | cell c => exact Iff.rfl
    | object o' =>
      have hne : o ≠ o' := fun ho => h (by rw [ho])
      simp [Ended, endTarget, hne]

/-- What has ended is forgotten by the registry, for all its keys at once. -/
@[simp] theorem registry_endTarget (target : Target) :
    (w.endTarget target).registry = w.registry.forget target := by
  cases target <;> rfl

/-- The lists of the effects are not looked at when a target ends, so an entry of it stays noted
there. -/
@[simp] theorem effects_endTarget (target : Target) :
    (w.endTarget target).effects = w.effects := by
  cases target <;> rfl

/-- What ends takes registrations and the content of a cell away, and nothing else. -/
theorem finish_eq (w : World σ) (target : Target) (held : Bool) :
    ∃ gone cells registry, w.finish target held = { w with gone, cells, registry } := by
  rcases w.finish_cases target held with h | ⟨-, h⟩ <;> rw [h]
  · exact ⟨_, _, _, rfl⟩
  · cases target <;> exact ⟨_, _, _, rfl⟩

/-- A recorded read tracks what it reads and changes nothing else. -/
theorem perform_of_entry {op : Op} {entry : Entry} (h : op.entry? = some entry) :
    (w.perform op).2 = w.track entry := by
  unfold perform
  rw [h]
  cases op <;> first | rfl | exact absurd h (by simp [Op.entry?])

/-- Any other operation answers. -/
theorem perform_of_entry_none {op : Op} (h : op.entry? = none) : w.perform op = w.answer op := by
  unfold perform
  rw [h]

/-- Taking what a scope owns leaves targets and registrations. -/
theorem alters_takeOwned (s : ScopeId) : Alters w (w.takeOwned s).2.2 := by
  unfold takeOwned
  split <;> exact .same rfl rfl rfl rfl rfl

/-- Giving back a handle of a scope leaves targets and registrations. -/
theorem alters_giveBack (s : ScopeId) : Alters w (w.giveBack s).2 := by
  unfold giveBack
  split <;> exact .same rfl rfl rfl rfl rfl

/-- An effect is made in two changes: it takes its place in the arena, then the current scope
owns it. -/
theorem alters_newEffect (body : Program σ) : ReflTransGen Alters w (w.newEffect body).2 := by
  refine .tail (.single (.creates body)) ?_
  unfold newEffect
  simp only
  split <;> exact .same rfl rfl rfl rfl rfl

/-! ## The stack of observers -/

/-- None of the operations below touches the stack of active observers; only the beginning and
the end of a run do. -/
@[simp] theorem observers_track (entry : Entry) : (w.track entry).observers = w.observers := by
  rcases w.track_cases entry with h | ⟨id, -, h⟩ <;> rw [h]

@[simp] theorem observers_stop (id : EffectId) : (w.stop id).observers = w.observers := by
  unfold stop
  split <;> rfl

/-- What ends with a handle is a target; effects, scopes and the stack are as before. -/
@[simp] theorem effects_finish (target : Target) (held : Bool) :
    (w.finish target held).effects = w.effects := by
  obtain ⟨_, _, _, h⟩ := w.finish_eq target held
  rw [h]

@[simp] theorem scopes_finish (target : Target) (held : Bool) :
    (w.finish target held).scopes = w.scopes := by
  obtain ⟨_, _, _, h⟩ := w.finish_eq target held
  rw [h]

@[simp] theorem observers_finish (target : Target) (held : Bool) :
    (w.finish target held).observers = w.observers := by
  obtain ⟨_, _, _, h⟩ := w.finish_eq target held
  rw [h]

@[simp] theorem observers_answer (op : Op) : (w.answer op).2.observers = w.observers := by
  cases op
  case stop id => exact observers_stop id
  case endCell c => exact observers_finish _ _
  case letGo o atHand => exact observers_finish _ _
  all_goals rfl

@[simp] theorem observers_perform (op : Op) : (w.perform op).2.observers = w.observers := by
  unfold perform
  rw [observers_answer]
  split
  · exact observers_track _
  · rfl

theorem observers_write {write : Write} {entries : List Entry}
    (h : w.write write = some (w', entries)) : w'.observers = w.observers := by
  rcases write_cases h with ⟨o, table, rfl⟩ | ⟨c, old, value, -, rfl⟩ <;> rfl

@[simp] theorem observers_takeOwned (s : ScopeId) :
    (w.takeOwned s).2.2.observers = w.observers := by
  unfold takeOwned
  split <;> rfl

theorem observers_giveBack (w : World σ) (s : ScopeId) :
    (w.giveBack s).2.observers = w.observers := by
  unfold giveBack
  split <;> rfl

@[simp] theorem observers_newEffect (body : Program σ) :
    (w.newEffect body).2.observers = w.observers := by
  unfold newEffect
  simp only
  split <;> rfl

/-- **How a run begins**: the effect leaves every entry that it noted and becomes the active
one. -/
theorem beginRun_eq_some_iff {id : EffectId} {body : Program σ} :
    w.beginRun id = some (body, w') ↔
      ∃ effect, w.effects.get? id = some effect ∧ effect.body = body ∧
        { w with
          effects := w.effects.modify id fun effect => { effect with entries := [] }
          registry := w.registry.unregisterAll id effect.entries
          observers := some id :: w.observers } = w' := by
  unfold beginRun
  cases w.effects.get? id with
  | none => simp
  | some effect => simp [Prod.ext_iff]

/-- **A run begins on top of the stack.** -/
theorem observers_beginRun {id : EffectId} {body : Program σ}
    (h : w.beginRun id = some (body, w')) : w'.observers = some id :: w.observers := by
  obtain ⟨_, -, rfl, rfl⟩ := beginRun_eq_some_iff.1 h
  rfl

/-- Nothing comes or ends when a run begins. -/
theorem has_beginRun {id : EffectId} {body : Program σ} (h : w.beginRun id = some (body, w'))
    (target : Target) : w'.Has target ↔ w.Has target := by
  obtain ⟨_, -, rfl, rfl⟩ := beginRun_eq_some_iff.1 h
  cases target <;> exact Iff.rfl

/-- The clearing of its entries, with which a run begins, ends no target. -/
theorem ended_beginRun {id : EffectId} {body : Program σ} (h : w.beginRun id = some (body, w'))
    (target : Target) : w'.Ended target ↔ w.Ended target := by
  obtain ⟨_, -, rfl, rfl⟩ := beginRun_eq_some_iff.1 h
  cases target <;> exact Iff.rfl

/-! ## Steps -/

/-- What a step does that reads nothing: some changes, then perhaps the beginning of one run. -/
def Turns (w w' : World σ) : Prop :=
  ∃ w₁, ReflTransGen Alters w w₁ ∧ (w' = w₁ ∨
    w₁.observers = w.observers ∧ ∃ id body, w₁.beginRun id = some (body, w'))

/-- Changes without a run behind them are a turn. -/
theorem Turns.of_path (h : ReflTransGen Alters w w') : Turns w w' := ⟨w', h, .inl rfl⟩

/-- Nor does it take any change: a step that leaves targets, registrations and effects alone is
a turn too. -/
theorem Turns.of_same (objects : w'.objects = w.objects) (gone : w'.gone = w.gone)
    (cells : w'.cells = w.cells) (registry : w'.registry = w.registry)
    (effects : w'.effects = w.effects) : Turns w w' :=
  .of_path (.single (.same objects gone cells registry effects))

/-- What changes keep and the beginning of a run keeps, a step keeps that reads nothing. -/
theorem Turns.keeps {P : World σ → Prop} (halters : ∀ w w', Alters w w' → P w → P w')
    (hbegins : ∀ w w' id body, w.beginRun id = some (body, w') → P w → P w')
    (h : Turns w w') (hw : P w) : P w' := by
  obtain ⟨w₁, hpath, hend⟩ := h
  have hw₁ : P w₁ := by
    clear hend
    induction hpath with
    | refl => exact hw
    | tail _ halter ih => exact halters _ _ halter ih
  rcases hend with rfl | ⟨-, id, body, hbegin⟩
  · exact hw₁
  · exact hbegins _ _ id body hbegin hw₁

/-- The property is kept by every change of effects and registrations. -/
structure Kept (P : World σ → Prop) : Prop where
  rest : ∀ {w w' : World σ}, w'.registry = w.registry → w'.effects = w.effects →
    (∀ target, w.Has target → w'.Has target) →
    (∀ target, w.Ended target → w'.Ended target) → P w → P w'
  track : ∀ {w : World σ} (entry : Entry), P w → P (w.track entry)
  stop : ∀ {w : World σ} (id : EffectId), P w → P (w.stop id)
  create : ∀ {w : World σ} (body : Program σ), P w →
    P { w with effects := (w.effects.insert ⟨body, []⟩).2 }
  ends : ∀ {w : World σ} (target : Target), w.Has target → P w → P (w.endTarget target)
  beginRun : ∀ {w w' : World σ} {id : EffectId} {body : Program σ},
    w.beginRun id = some (body, w') → P w → P w'

namespace Kept

variable {P : World σ → Prop}

/-- What is kept survives every change that alters the world. -/
theorem alters (hP : Kept P) (h : Alters w w') (hw : P w) : P w' := by
  cases h with
  | rest registry effects has ended => exact hP.rest registry effects has ended hw
  | stops id => exact hP.stop id hw
  | creates body => exact hP.create body hw
  | ends target has => exact hP.ends target has hw

/-- So do all the changes of a turn and the run that begins after them. -/
theorem turns (hP : Kept P) (h : Turns w w') (hw : P w) : P w' :=
  h.keeps (fun _ _ => hP.alters) (fun _ _ _ _ => hP.beginRun) hw

end Kept

/-- To stop an effect ends no target. -/
@[simp] theorem has_stop (id : EffectId) (target : Target) :
    (w.stop id).Has target ↔ w.Has target := by
  unfold World.stop
  split
  · cases target <;> exact Iff.rfl
  · exact Iff.rfl

/-- To stop an effect brings no target back. -/
@[simp] theorem ended_stop (id : EffectId) (target : Target) :
    (w.stop id).Ended target ↔ w.Ended target := by
  unfold World.stop
  split
  · cases target <;> exact Iff.rfl
  · exact Iff.rfl

/-- **A target that has ended stays so.** -/
theorem kept_ended (target : Target) : Kept fun w : World σ => w.Ended target where
  rest _ _ _ ended h := ended target h
  track entry h := (ended_track entry target).2 h
  stop id h := (ended_stop id target).2 h
  create _ h := by cases target <;> exact h
  ends other has h := by
    refine (ended_endTarget_iff ?_).2 h
    rintro rfl
    exact has.not_ended h
  beginRun hbegin h := (ended_beginRun hbegin target).2 h

/-- A target that was made is there until it ends. -/
theorem kept_made (target : Target) :
    Kept fun w : World σ => w.Has target ∨ w.Ended target where
  rest _ _ has ended h := h.imp (has target) (ended target)
  track entry h := h.imp (has_track entry target).2 (ended_track entry target).2
  stop id h := h.imp (has_stop id target).2 (ended_stop id target).2
  create _ h := by cases target <;> exact h
  ends other has h := by
    by_cases hother : target = other
    · subst hother
      exact .inr (ended_endTarget has)
    · exact h.imp (has_endTarget_iff hother).2 (ended_endTarget_iff hother).2
  beginRun hbegin h := h.imp (has_beginRun hbegin target).2 (ended_beginRun hbegin target).2

end World

namespace Machine

variable {m m' : Machine σ}

open World (Alters Turns)

/-- An effect whose turn has come begins its run, or it is running or dead and is passed
over. -/
theorem runEffect_turns {w₀ w : World σ} (h : ReflTransGen Alters w₀ w)
    (hobservers : w.observers = w₀.observers) (id : EffectId) (frames : List (Frame σ)) :
    Turns w₀ (runEffect w id frames).world := by
  unfold runEffect
  cases hbegin : w.beginRun id with
  | none => exact .of_path h
  | some begun => exact ⟨w, h, .inr ⟨hobservers, id, begun.1, hbegin⟩⟩

/-- A program that does not begin with a recorded read. -/
theorem exec_turns (w : World σ) (frames : List (Frame σ)) (program : Program σ)
    (h : ∀ op next, program = .op op next → op.entry? = none) :
    Turns w (exec w frames program).world := by
  cases program with
  | op op next =>
    simp only [exec, World.perform_of_entry_none (h op next rfl)]
    exact .of_path (.single (World.alters_answer op))
  | write write next =>
    simp only [exec]
    cases hw : w.write write with
    | none => exact .of_path .refl
    | some done => exact .of_path (.single (World.alters_write hw))
  | effect body next =>
    exact runEffect_turns (World.alters_newEffect body) (World.observers_newEffect body) _ _
  | rerun id next => exact runEffect_turns .refl rfl _ _
  | inScope s body next => exact .of_same rfl rfl rfl rfl rfl
  | dispose s next =>
    have hhold : Alters w (w.hold s) := .same rfl rfl rfl rfl rfl
    exact .of_path (.tail (.single hhold) (World.alters_takeOwned s))
  | call callback argument next =>
    simp only [exec]
    split <;> exact .of_path .refl
  | _ => exact .of_same rfl rfl rfl rfl rfl

/-- When a value comes back to a frame, the frame may release what it owns, but it begins no run
except that of the next observer of a pass. -/
theorem resume_turns (w : World σ) (value : Value) (frames : List (Frame σ)) (frame : Frame σ) :
    Turns w (resume w value frames frame).world := by
  cases frame with
  | notify now later =>
    cases now with
    | nil => cases later <;> exact .of_path .refl
    | cons id now =>
      simp only [resume]
      split
      · exact .of_path .refl
      · exact runEffect_turns .refl rfl _ _
  | disposing scopes cleanups =>
    cases scopes with
    | cons child scopes => exact .of_path (.single (World.alters_takeOwned child))
    | nil =>
      rcases cleanups with _ | ⟨_ | _, cleanups⟩
      · exact .of_path .refl
      · exact .of_path (.single (.stops _))
      · exact .of_path .refl
  | release s =>
    simp only [resume]
    have hback := World.alters_giveBack (w := w) s
    split <;> rename_i w' heq <;> rw [heq] at hback
    · exact .of_path (.tail (.single hback) (World.alters_takeOwned s))
    · exact .of_path (.single hback)
  | _ => exact .of_same rfl rfl rfl rfl rfl

/-- A failure on its way up drops frames; what they hold is released as on the way of a
value. -/
theorem unwind_turns (w : World σ) (message : String) (frames : List (Frame σ)) (frame : Frame σ)
    (h : unwind w message frames frame = some m') : Turns w m'.world := by
  cases frame with
  | release s =>
    simp only [unwind] at h
    have hback := World.alters_giveBack (w := w) s
    split at h <;> rename_i w' heq <;> rw [heq] at hback <;> obtain rfl := Option.some.inj h
    · exact .of_path (.tail (.single hback) (World.alters_takeOwned s))
    · exact .of_path (.single hback)
  | rethrow message => exact absurd h (by simp [unwind])
  | _ =>
    obtain rfl := Option.some.inj h
    exact .of_same rfl rfl rfl rfl rfl

/-- The entry that the step to come reads, if the read is recorded. -/
def read? (m : Machine σ) : Option Entry :=
  match m.focus with
  | .run (.op op _) => op.entry?
  | _ => none

/-- The active effect is `e`, which is live, and it is about to read the entry. -/
def Reads (m : Machine σ) (e : EffectId) (x : Entry) : Prop :=
  m.world.active = some e ∧ m.world.isLive e = true ∧ m.read? = some x

/-- **What one step does to the world**, as far as effects, registrations and the life of
targets are concerned: it tracks what it reads, or it reads nothing. -/
theorem turns_of_step? (h : m.step? = some m') :
    (∃ entry, m.read? = some entry ∧ m'.world = m.world.track entry) ∨
      m.read? = none ∧ Turns m.world m'.world := by
  cases steps_of_step? h with
  | exec w frames program =>
    cases hread : read? ⟨w, .run program, frames⟩ with
    | none =>
      refine .inr ⟨rfl, exec_turns w frames program ?_⟩
      rintro op next rfl
      exact hread
    | some entry =>
      cases program with
      | op op next => exact .inl ⟨entry, rfl, World.perform_of_entry hread⟩
      | _ => exact absurd hread (by simp [read?])
  | resume w value frames frame => exact .inr ⟨rfl, resume_turns w value frames frame⟩
  | unwind w message frames frame unwinds =>
    exact .inr ⟨rfl, unwind_turns w message frames frame unwinds⟩

/-! ## Runs -/

/-- One state follows another: by a step, or because an operation is over and the
next one begins. -/
inductive Next : Machine σ → Machine σ → Prop
  | step {m m' : Machine σ} (step : m.step? = some m') : Next m m'
  | begin (w : World σ) (value : Value) (program : Program σ) :
      Next ⟨w, .value value, []⟩ ⟨w, .run program, []⟩
  | recover (w : World σ) (message : String) (program : Program σ) :
      Next ⟨w, .throwing message, []⟩ ⟨w, .run program, []⟩

namespace Next

/-- **One step is a read of the active effect, or a turn**; which of the two, the state before
tells. -/
theorem turns (h : Next m m') :
    (∃ entry, m.read? = some entry ∧ m'.world = m.world.track entry) ∨
      m.read? = none ∧ Turns m.world m'.world := by
  cases h with
  | step step => exact turns_of_step? step
  | begin | recover => exact .inr ⟨rfl, .of_path .refl⟩

/-- What changes keep, one more state keeps. -/
theorem keeps {P : World σ → Prop} (hP : World.Kept P) (h : Next m m') (hm : P m.world) :
    P m'.world := by
  rcases h.turns with ⟨entry, -, hworld⟩ | ⟨-, hturns⟩
  · exact hworld ▸ hP.track entry hm
  · exact hP.turns hturns hm

end Next

/-- The state at the beginning, before the first operation. -/
def start (host : σ) : Machine σ := ⟨.start host, .value .undefined, []⟩

/-- The state occurs in some run. -/
def Reachable (m : Machine σ) : Prop := ∃ host, ReflTransGen Next (start host) m

/-- What holds at the beginning and is kept by changes holds in every reachable state. -/
theorem Reachable.keeps {P : World σ → Prop} (hP : World.Kept P) (hstart : ∀ host, P (.start host))
    (hm : m.Reachable) : P m.world := by
  obtain ⟨host, hrun⟩ := hm
  induction hrun with
  | refl => exact hstart host
  | tail _ hnext ih => exact hnext.keeps hP ih

/-- The first `n + 1` states of a run. -/
structure IsRun (t : Nat → Machine σ) (n : Nat) : Prop where
  start : ∃ host, t 0 = .start host
  next : ∀ k < n, Next (t k) (t (k + 1))

namespace IsRun

variable {t : Nat → Machine σ} {i j n : Nat}

/-- The states of a run are reachable. -/
theorem reachable (h : IsRun t n) (hj : j ≤ n) : (t j).Reachable := by
  obtain ⟨host, hhost⟩ := h.start
  refine ⟨host, ?_⟩
  induction j with
  | zero => exact hhost ▸ .refl
  | succ j ih => exact .tail (ih (Nat.le_of_succ_le hj)) (h.next j hj)

/-- What changes keep holds from some state of a run on. -/
theorem keeps {P : World σ → Prop} (h : IsRun t n) (hP : World.Kept P) (hij : i ≤ j) (hj : j ≤ n)
    (hi : P (t i).world) : P (t j).world := by
  induction j, hij using Nat.le_induction with
  | base => exact hi
  | succ j hij ih => exact (h.next j hj).keeps hP (ih (Nat.le_of_succ_le hj))

end IsRun

/-! ## The run of one operation -/

/-- The states of the run of one operation, from the beginning. -/
def states (host : σ) (program : Program σ) : Nat → Machine σ
  | 0 => start host
  | 1 => ⟨.start host, .run program, []⟩
  | n + 2 => (states host program (n + 1)).step?.getD (states host program (n + 1))

/-- There is a step to come. -/
def GoesOn (m : Machine σ) : Prop := m.step?.isSome = true

instance (m : Machine σ) : Decidable m.GoesOn := inferInstanceAs (Decidable (_ = true))

/-- Each state is followed by the next, as long as the machine goes on. -/
theorem next_states {host : σ} {program : Program σ} :
    ∀ n, (0 < n → (states host program n).GoesOn) →
      Next (states host program n) (states host program (n + 1))
  | 0, _ => .begin _ _ program
  | n + 1, h => by
    obtain ⟨m', hm'⟩ := Option.isSome_iff_exists.1 (h (Nat.succ_pos n))
    have hstate : states host program (n + 2) = m' := by rw [states, hm']; rfl
    rw [hstate]
    exact .step hm'

/-- As long as there is a step to come, the states are those of a run. -/
theorem isRun_states {host : σ} {program : Program σ} {n : Nat}
    (h : ∀ i < n, 0 < i → (states host program i).GoesOn) : IsRun (states host program) n :=
  ⟨⟨host, rfl⟩, fun k hk => next_states k (h k hk)⟩

/-- As far as a run goes on, all its states are reachable. -/
theorem reachable_states {host : σ} {program : Program σ} (n : Nat)
    (h : ∀ i < n, 0 < i → (states host program i).GoesOn) :
    (states host program n).Reachable :=
  (isRun_states h).reachable (Nat.le_refl n)

end Machine
end Reactive
end ReactiveView
