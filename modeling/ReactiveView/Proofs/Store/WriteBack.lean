/-
# Writing back what was read

A read through a wrapper answers references wrapped, and a write takes the wrapper off before
it compares.  So writing back what was read changes nothing if what is stored is neither a
wrapper nor the undefined number (`World.write_set_property_eq_none_iff`), and for a cell the
same holds of what it stores (`World.write_store_cell_eq_none_iff`).

Cells never store a wrapper, since every way to fill them takes it off.  A property does only
if it was put there with its wrapper by an object that was made with it, or by an insertion
that tells nobody (`Machine.storesWrapper`); both store values as they are.  Hence the law
holds of every cell and of every property that was not filled in such a way
(`writing_back_changes_nothing`), and it fails of the others
(`wrapper_is_not_written_back`).
-/

import ReactiveView.Proofs.Effects.Stopping
import ReactiveView.Proofs.Number

namespace ReactiveView

/-- A number is equal to itself unless it is the undefined one. -/
theorem Number.beq_self (x : Float) : (x == x) = !x.isNaN := by
  show (x.toModel.unpack.compare x.toModel.unpack == some .eq) = !x.toModel.unpack.isNaN
  cases x.toModel.unpack with
  | notANumber => rfl
  | infinity s => cases s <;> rfl
  | zero s => rfl
  | finite s m e hm =>
    have hsame : (compare e e).then (compare m m) = .eq := by
      simp only [Std.ReflCmp.compare_self, Ordering.then_eq]
    cases s with
    | positive =>
      show (some ((compare e e).then (compare m m)) == some .eq) = true
      rw [hsame]
      rfl
    | negative =>
      show (some ((compare e e).then (compare m m)).swap == some .eq) = true
      rw [hsame]
      rfl

namespace Reactive

variable {σ : Type}

/-! ## Values -/

namespace Value

/-- The value is the undefined number. -/
def isNaN : Value → Bool
  | number x => x.isNaN
  | _ => false

/-- What is left without its wrapper is no wrapper. -/
theorem isReactive_raw (value : Value) : value.raw.isReactive = false := by
  cases value <;> rfl

/-- A value equals what is written when it is read and written back, unless it is a wrapper
or the undefined number. -/
theorem beq_raw_wrap (value : Value) :
    (value == value.wrap.raw) = true ↔ value.isReactive = false ∧ value.isNaN = false := by
  show value.same value.wrap.raw = true ↔ _
  cases value with
  | number x => simp [wrap, raw, same, isReactive, isNaN, Number.beq_self]
  | _ => simp [wrap, raw, same, isReactive, isNaN]

end Value

namespace Program

/-- Reads a property and writes it back. -/
def writeBack (o : ObjectId) (name : String) (next : Bool → Program σ) : Program σ :=
  .op (.get o name) fun value => .write (.set o name value) next

/-- Reads a cell, unrecorded, and writes it back. -/
def writeBackCell (c : CellId) (next : Bool → Program σ) : Program σ :=
  .op (.peek c) fun value => .write (.store c value) next

end Program

namespace World

variable {w w' : World σ}

/-! ## One write -/

/-- **A property that is written back changes nothing** exactly if it holds no wrapper and not
the undefined number. -/
theorem write_set_property_eq_none_iff (w : World σ) (o : ObjectId) (name : String) :
    w.write (.set o name (w.property o name).wrap) = none ↔
      (w.property o name).isReactive = false ∧ (w.property o name).isNaN = false := by
  rw [← Value.beq_raw_wrap]
  simp only [World.write]
  split <;> simp_all

/-- A cell does not change when its own value is written back, if that is raw and no NaN. -/
theorem write_store_cell_eq_none_iff (w : World σ) (c : CellId) :
    w.write (.store c (w.cell c).wrap) = none ↔
      (w.cell c).isReactive = false ∧ (w.cell c).isNaN = false := by
  rw [← Value.beq_raw_wrap]
  cases hcell : w.cell? c with
  | none => simp [World.write, cell, hcell, Value.beq_raw_wrap, Value.isReactive, Value.isNaN]
  | some old =>
    simp only [World.write, cell, hcell, Option.getD_some]
    split <;> simp_all

/-! ## What is stored -/

/-- Another table for an object is seen at its own properties. -/
theorem property_setTable (w : World σ) (o : ObjectId) (table : KeyTable Value) (o' : ObjectId)
    (name : String) :
    (w.setTable o table).property o' name = w.property o' name ∨
      o = o' ∧ (w.setTable o table).property o' name = (table.get? name).getD .undefined := by
  simp only [property, table_setTable]
  split
  · rename_i h
    exact .inr ⟨h.1, rfl⟩
  · exact .inl rfl

/-- What is inserted under a name is found there and nowhere else. -/
theorem property_insert (w : World σ) (o : ObjectId) (name : String) (value : Value)
    (o' : ObjectId) (name' : String) :
    (w.setTable o ((w.table o).insert name value)).property o' name' = w.property o' name' ∨
      o = o' ∧ name = name' ∧
        (w.setTable o ((w.table o).insert name value)).property o' name' = value := by
  rcases w.property_setTable o ((w.table o).insert name value) o' name' with hsame | ⟨rfl, hvalue⟩
  · exact .inl hsame
  · rw [hvalue, KeyTable.get?_insert]
    split
    · rename_i hname
      exact .inr ⟨rfl, hname, rfl⟩
    · exact .inl rfl

/-- What is taken away reads as undefined. -/
theorem property_erase (w : World σ) (o : ObjectId) (name : String) (o' : ObjectId)
    (name' : String) :
    (w.setTable o ((w.table o).erase name)).property o' name' = w.property o' name' ∨
      (w.setTable o ((w.table o).erase name)).property o' name' = .undefined := by
  rcases w.property_setTable o ((w.table o).erase name) o' name' with hsame | ⟨rfl, hvalue⟩
  · exact .inl hsame
  · rw [hvalue, KeyTable.get?_erase]
    split
    · exact .inr rfl
    · exact .inl rfl

/-- Each cell has its own content. -/
theorem cell_setCell (w : World σ) (c : CellId) (content : Option Value) (c' : CellId) :
    (w.setCell c content).cell c' = w.cell c' ∨
      (w.setCell c content).cell c' = content.getD .undefined := by
  simp only [cell, cell?, setCell, Array.getElem?_setIfInBounds]
  split
  · split
    · exact .inr rfl
    · simp_all
  · exact .inl rfl

/-- An object that has ended keeps its properties, if it is read by its identity. -/
theorem property_finish (w : World σ) (target : Target) (held : Bool) (o : ObjectId)
    (name : String) : (w.finish target held).property o name = w.property o name := by
  obtain ⟨_, _, _, h⟩ := w.finish_eq target held
  rw [h]
  rfl

/-- A cell that ends holds nothing any more, and the others hold what they held. -/
theorem cell_finish (w : World σ) (target : Target) (held : Bool) (c : CellId) :
    (w.finish target held).cell c = w.cell c ∨ (w.finish target held).cell c = .undefined := by
  rcases w.finish_cases target held with h | ⟨-, h⟩ <;> rw [h]
  · exact .inl rfl
  · cases target with
    | object o => exact .inl rfl
    | cell c' => exact w.cell_setCell c' none c

/-- What a write stores at a property or in a cell is no wrapper. -/
theorem property_write {write : Write} {entries : List Entry}
    (h : w.write write = some (w', entries)) (o : ObjectId) (name : String) :
    w'.property o name = w.property o name ∨ (w'.property o name).isReactive = false := by
  cases wrote_of_write h with
  | set o' name' value =>
    refine (w.property_insert o' name' value.raw o name).imp_right fun hvalue => ?_
    rw [hvalue.2.2]
    exact value.isReactive_raw
  | delete o' name' =>
    exact (w.property_erase o' name' o name).imp_right fun hvalue => congrArg _ hvalue
  | store => exact .inl rfl

/-- A write stores a value without its wrapper in a cell. -/
theorem cell_write {write : Write} {entries : List Entry}
    (h : w.write write = some (w', entries)) (c : CellId) :
    w'.cell c = w.cell c ∨ (w'.cell c).isReactive = false := by
  cases wrote_of_write h with
  | store c' value =>
    refine (w.cell_setCell c' (some value.raw) c).imp_right fun hvalue => ?_
    rw [hvalue]
    exact value.isReactive_raw
  | set | delete => exact .inl rfl

end World

namespace Machine

variable {m m' : Machine σ}

/-- What a step stores: nothing, what an operation stores, or what a write stores. -/
inductive Stores (m m' : Machine σ) : Prop
  | nothing (objects : m'.world.objects = m.world.objects)
      (cells : m'.world.cells = m.world.cells)
  | answer (op : Op) (next : op.Answer → Program σ) (focus : m.focus = .run (.op op next))
      (world : m'.world = (m.world.answer op).2)
  | write (write : Write) (entries : List Entry)
      (written : m.world.write write = some (m'.world, entries))

/-- The beginning of a run stores nothing. -/
theorem runEffect_stores (w : World σ) (id : EffectId) (frames : List (Frame σ)) :
    (runEffect w id frames).world.objects = w.objects ∧
      (runEffect w id frames).world.cells = w.cells := by
  unfold runEffect World.beginRun
  cases w.effects.get? id <;> exact ⟨rfl, rfl⟩

/-- Neither does the beginning of a disposal. -/
theorem disposeOwned_stores (w : World σ) (s : ScopeId) (frames : List (Frame σ)) :
    (disposeOwned w s frames).world.objects = w.objects ∧
      (disposeOwned w s frames).world.cells = w.cells := by
  unfold disposeOwned World.takeOwned
  cases w.scopes[s.index]? <;> exact ⟨rfl, rfl⟩

/-- Giving a handle back stores nothing. -/
theorem giveBack_stores {w w' : World σ} {s : ScopeId} {last : Bool}
    (h : w.giveBack s = (last, w')) : w'.objects = w.objects ∧ w'.cells = w.cells := by
  unfold World.giveBack at h
  split at h <;> obtain ⟨-, rfl⟩ := Prod.mk.inj h <;> exact ⟨rfl, rfl⟩

/-- What the first step of a program stores is said by its command. -/
theorem exec_stores (w : World σ) (frames : List (Frame σ)) (program : Program σ) :
    Stores ⟨w, .run program, frames⟩ (exec w frames program) := by
  cases program with
  | op op next =>
    cases hentry : op.entry? with
    | some entry =>
      have hworld : (exec w frames (.op op next)).world = w.track entry :=
        World.perform_of_entry hentry
      rcases w.track_cases entry with htrack | ⟨id, -, htrack⟩ <;> rw [htrack] at hworld
      · exact .nothing (by rw [hworld]) (by rw [hworld])
      · exact .nothing (by rw [hworld]) (by rw [hworld])
    | none =>
      refine .answer op next rfl ?_
      simp only [exec, World.perform, hentry]
  | write write next =>
    simp only [exec]
    split
    · rename_i w' entries hwrite
      exact .write write entries hwrite
    · exact .nothing rfl rfl
  | effect body next =>
    have hnew : (w.newEffect body).2.objects = w.objects ∧
        (w.newEffect body).2.cells = w.cells := by
      unfold World.newEffect
      simp only
      split <;> exact ⟨rfl, rfl⟩
    obtain ⟨hobjects, hcells⟩ := runEffect_stores (w.newEffect body).2 (w.newEffect body).1
      (.bind (fun _ => next (w.newEffect body).1) :: frames)
    exact .nothing (hobjects.trans hnew.1) (hcells.trans hnew.2)
  | rerun id next =>
    obtain ⟨hobjects, hcells⟩ := runEffect_stores w id (.bind (fun _ => next) :: frames)
    exact .nothing hobjects hcells
  | dispose s next =>
    obtain ⟨hobjects, hcells⟩ := disposeOwned_stores (w.hold s) s
      (.release s :: .bind (fun _ => next) :: frames)
    exact .nothing hobjects hcells
  | call callback argument next =>
    simp only [exec]
    split <;> exact .nothing rfl rfl
  | _ => exact .nothing rfl rfl

/-- A value that comes back to a frame is not stored by the machine. -/
theorem resume_stores (w : World σ) (value : Value) (frames : List (Frame σ))
    (frame : Frame σ) :
    Stores ⟨w, .value value, frame :: frames⟩ (resume w value frames frame) := by
  cases frame with
  | notify now later =>
    rcases now with _ | ⟨id, now⟩
    · cases later <;> exact .nothing rfl rfl
    · simp only [resume]
      split
      · exact .nothing rfl rfl
      · obtain ⟨hobjects, hcells⟩ := runEffect_stores w id (.notify now later :: frames)
        exact .nothing hobjects hcells
  | disposing scopes cleanups =>
    rcases scopes with _ | ⟨child, scopes⟩
    · rcases cleanups with _ | ⟨id | body, cleanups⟩
      · exact .nothing rfl rfl
      · refine .nothing ?_ ?_ <;> simp only [resume, World.stop] <;> split <;> rfl
      · exact .nothing rfl rfl
    · obtain ⟨hobjects, hcells⟩ := disposeOwned_stores w child
        (.release child :: .disposing scopes cleanups :: frames)
      exact .nothing hobjects hcells
  | release s =>
    simp only [resume]
    split <;> rename_i w' hback <;> obtain ⟨hobjects, hcells⟩ := giveBack_stores hback
    · obtain ⟨hobjects', hcells'⟩ := disposeOwned_stores w' s
        (.bind (fun _ => .ret value) :: frames)
      exact .nothing (hobjects'.trans hobjects) (hcells'.trans hcells)
    · exact .nothing hobjects hcells
  | _ => exact .nothing rfl rfl

/-- A failure stores nothing. -/
theorem unwind_stores {w : World σ} {message : String} {frames : List (Frame σ)}
    {frame : Frame σ} (h : unwind w message frames frame = some m') :
    Stores ⟨w, .throwing message, frame :: frames⟩ m' := by
  cases frame with
  | release s =>
    simp only [unwind] at h
    split at h <;> rename_i w' hback <;> obtain ⟨hobjects, hcells⟩ := giveBack_stores hback <;>
      obtain rfl := Option.some.inj h
    · obtain ⟨hobjects', hcells'⟩ := disposeOwned_stores w' s (.rethrow message :: frames)
      exact .nothing (hobjects'.trans hobjects) (hcells'.trans hcells)
    · exact .nothing hobjects hcells
  | rethrow message => exact absurd h (by simp [unwind])
  | _ =>
    obtain rfl := Option.some.inj h
    exact .nothing rfl rfl

/-- **What one step stores.** -/
theorem step_stores (h : m.step? = some m') : Stores m m' := by
  cases steps_of_step? h with
  | exec w frames program => exact exec_stores w frames program
  | resume w value frames frame => exact resume_stores w value frames frame
  | unwind w message frames frame unwinds => exact unwind_stores unwinds

/-- Every step stores in one of the three ways. -/
theorem Next.stores (h : Next m m') : Stores m m' := by
  cases h with
  | step step => exact step_stores step
  | begin | recover => exact .nothing rfl rfl

/-! ## Wrappers that are stored -/

/-- The step to come stores a wrapper as it is at this property: it makes the object with it,
or inserts it, telling nobody. -/
def storesWrapper (m : Machine σ) (o : ObjectId) (name : String) : Bool :=
  match m.focus with
  | .run (.op (.newObject table) _) =>
    o.index == m.world.objects.size && ((table.get? name).getD .undefined).isReactive
  | .run (.op (.insert o' name' value) _) => o' == o && name' == name && value.isReactive
  | _ => false

/-- Cells are filled with what is no wrapper. -/
theorem Stores.cell (h : Stores m m') {c : CellId} (hcell : (m.world.cell c).isReactive = false) :
    (m'.world.cell c).isReactive = false := by
  cases h with
  | nothing objects cells =>
    rw [World.cell, World.cell?, cells]
    exact hcell
  | answer op next focus world =>
    rw [world]
    cases op
    case newCell value =>
      simp only [World.answer, World.cell, World.cell?, Array.getElem?_push]
      split
      · exact value.isReactive_raw
      · exact hcell
    case endCell | letGo =>
      rcases m.world.cell_finish _ _ c with hsame | hnone
      · exact (congrArg Value.isReactive hsame).trans hcell
      · exact congrArg Value.isReactive hnone
    case stop id =>
      simp only [World.answer, World.stop]
      split <;> exact hcell
    all_goals exact hcell
  | write write entries written =>
    rcases World.cell_write written c with hsame | hraw
    · rw [hsame, hcell]
    · exact hraw

/-- A property gets a wrapper only as it is. -/
theorem Stores.property (h : Stores m m') {o : ObjectId} {name : String}
    (hproperty : (m.world.property o name).isReactive = false)
    (hnot : m.storesWrapper o name = false) :
    (m'.world.property o name).isReactive = false := by
  cases h with
  | nothing objects cells =>
    rw [World.property, World.table, objects]
    exact hproperty
  | answer op next focus world =>
    rw [world]
    unfold storesWrapper at hnot
    rw [focus] at hnot
    cases op
    case newObject table =>
      simp only [World.answer, World.property, World.table, Array.getD_eq_getD_getElem?,
        Array.getElem?_push] at hproperty ⊢
      split
      · rename_i hindex
        rw [Option.getD_some]
        -- A property of the object that is made now holds what it is made with.
        simpa [hindex] using hnot
      · exact hproperty
    case insert o' name' value =>
      rcases m.world.property_insert o' name' value o name with hsame | ⟨rfl, rfl, hvalue⟩
      · exact (congrArg Value.isReactive hsame).trans hproperty
      · exact (congrArg Value.isReactive hvalue).trans (by simpa using hnot)
    case remove o' name' =>
      rcases m.world.property_erase o' name' o name with hsame | hnone
      · exact (congrArg Value.isReactive hsame).trans hproperty
      · exact congrArg Value.isReactive hnone
    case stop id =>
      simp only [World.answer, World.stop]
      split <;> exact hproperty
    case endCell | letGo =>
      simp only [World.answer, World.property_finish]
      exact hproperty
    all_goals exact hproperty
  | write write entries written =>
    rcases World.property_write written o name with hsame | hraw
    · rw [hsame, hproperty]
    · exact hraw

namespace IsRun

variable {t : Nat → Machine σ} {k n : Nat}

/-- No cell of a run stores a wrapper. -/
theorem cell_not_reactive (hrun : IsRun t n) (hk : k ≤ n) (c : CellId) :
    ((t k).world.cell c).isReactive = false := by
  induction k with
  | zero =>
    obtain ⟨host, hstart⟩ := hrun.start
    rw [hstart]
    rfl
  | succ k ih => exact (hrun.next k hk).stores.cell (ih (Nat.le_of_succ_le hk))

/-- A property of a run stores no wrapper, unless one was stored there as it is. -/
theorem property_not_reactive (hrun : IsRun t n) (hk : k ≤ n) {o : ObjectId} {name : String}
    (hnot : ∀ j < k, (t j).storesWrapper o name = false) :
    ((t k).world.property o name).isReactive = false := by
  induction k with
  | zero =>
    obtain ⟨host, hstart⟩ := hrun.start
    rw [hstart]
    rfl
  | succ k ih =>
    exact (hrun.next k hk).stores.property
      (ih (Nat.le_of_succ_le hk) fun j hj => hnot j (Nat.lt_succ_of_lt hj))
      (hnot k (Nat.lt_succ_self k))

end IsRun

/-! ## Two steps -/

/-- Two steps; nothing if the machine stops before. -/
def twoSteps (m : Machine σ) : Option (Machine σ) := m.step?.bind step?

/-- A property that is read and written back changes nothing exactly if it stores neither a
wrapper nor the undefined number. -/
theorem writeBack_iff (w : World σ) (o : ObjectId) (name : String) (next : Bool → Program σ)
    (frames : List (Frame σ)) :
    twoSteps ⟨w, .run (.writeBack o name next), frames⟩ =
        some ⟨w.track (.property o name), .run (next false), frames⟩ ↔
      (w.property o name).isReactive = false ∧ (w.property o name).isNaN = false := by
  have hproperty : (w.track (.property o name)).property o name = w.property o name := by
    rcases w.track_cases (.property o name) with h | ⟨id, -, h⟩ <;> rw [h]
    rfl
  have hsteps : twoSteps ⟨w, .run (.writeBack o name next), frames⟩ =
      some (exec (w.track (.property o name)) frames
        (.write (.set o name ((w.track (.property o name)).property o name).wrap) next)) := rfl
  rw [hsteps, Option.some_inj, ← hproperty, ← World.write_set_property_eq_none_iff]
  simp only [exec]
  constructor
  · intro h
    split at h
    · exact absurd (congrArg Machine.focus h) (by simp)
    · assumption
  · intro h
    rw [h]

/-- A cell that is read and written back changes nothing exactly if it stores neither a
wrapper nor the undefined number. -/
theorem writeBackCell_iff (w : World σ) (c : CellId) (next : Bool → Program σ)
    (frames : List (Frame σ)) :
    twoSteps ⟨w, .run (.writeBackCell c next), frames⟩ = some ⟨w, .run (next false), frames⟩ ↔
      (w.cell c).isReactive = false ∧ (w.cell c).isNaN = false := by
  have hsteps : twoSteps ⟨w, .run (.writeBackCell c next), frames⟩ =
      some (exec w frames (.write (.store c (w.cell c).wrap) next)) := rfl
  rw [hsteps, Option.some_inj, ← World.write_store_cell_eq_none_iff]
  simp only [exec]
  constructor
  · intro h
    split at h
    · exact absurd (congrArg Machine.focus h) (by simp)
    · assumption
  · intro h
    rw [h]

end Machine

open Machine

/-- **Writing back what was read.**  Take any state of a run of any programs.  Reading a
property and writing the answer back, present or absent, takes two steps in which nothing is
stored, no effect is started and the write answers that nothing changed, exactly if the
property stores neither a wrapper nor the undefined number; the read is tracked like any
other.  It stores no wrapper unless one was put there as it is.  And for a cell that is read
unrecorded the same holds, unless it stores the undefined number. -/
theorem writing_back_changes_nothing {t : Nat → Machine σ} {k n : Nat} (hrun : IsRun t n)
    (hk : k ≤ n) (o : ObjectId) (name : String) (c : CellId) :
    (∀ next frames,
      twoSteps ⟨(t k).world, .run (.writeBack o name next), frames⟩ =
          some ⟨(t k).world.track (.property o name), .run (next false), frames⟩ ↔
        ((t k).world.property o name).isReactive = false ∧
          ((t k).world.property o name).isNaN = false) ∧
    (((t k).world.track (.property o name)).objects = (t k).world.objects ∧
      ((t k).world.track (.property o name)).cells = (t k).world.cells) ∧
    ((∀ j < k, (t j).storesWrapper o name = false) →
      ((t k).world.property o name).isReactive = false) ∧
    ∀ next frames,
      twoSteps ⟨(t k).world, .run (.writeBackCell c next), frames⟩ =
          some ⟨(t k).world, .run (next false), frames⟩ ↔
        ((t k).world.cell c).isNaN = false := by
  refine ⟨fun next frames => writeBack_iff _ o name next frames, ?store,
    hrun.property_not_reactive hk, ?cell⟩
  case store =>
    rcases (t k).world.track_cases (.property o name) with h | ⟨id, -, h⟩ <;> rw [h] <;>
      exact ⟨rfl, rfl⟩
  case cell =>
    intro next frames
    rw [writeBackCell_iff, hrun.cell_not_reactive hk c]
    exact and_iff_right rfl

/-- An object is written to a property of another one, through its wrapper, and then the
property is written back. -/
def storesRaw : Program Unit :=
  .op (.newObject .empty) fun a => .op (.newObject .empty) fun o =>
    .write (.set o "k" (.reactive a)) fun _ => .writeBack o "k" fun changed => .ret (.bool changed)

/-- The hypotheses of `writing_back_changes_nothing` are met by the run of `storesRaw`, in the
state in which the property is about to be written back: nothing changes. -/
theorem writing_back_changes_nothing_storesRaw :
    (∀ j < 8, (Machine.states () storesRaw j).storesWrapper ⟨1⟩ "k" = false) ∧
      (Machine.states () storesRaw 8).world.property ⟨1⟩ "k" = .object ⟨0⟩ ∧
      (Machine.states () storesRaw 10).focus = .run (.ret (.bool false)) := by
  have hgoes : ∀ j < 8, 0 < j → (Machine.states () storesRaw j).GoesOn := by decide
  have hrun : IsRun (Machine.states () storesRaw) 8 :=
    Machine.isRun_states hgoes
  have hraw : ∀ j < 8, (Machine.states () storesRaw j).storesWrapper ⟨1⟩ "k" = false := by decide
  obtain ⟨hiff, -, hnot, -⟩ :=
    writing_back_changes_nothing hrun (Nat.le_refl 8) ⟨1⟩ "k" ⟨0⟩
  have htwo := (hiff (fun changed => .ret (.bool changed)) []).2 ⟨hnot hraw, rfl⟩
  have hstates : twoSteps ⟨(Machine.states () storesRaw 8).world,
      .run (.writeBack ⟨1⟩ "k" fun changed => .ret (.bool changed)), []⟩ =
        some (Machine.states () storesRaw 10) := rfl
  rw [hstates] at htwo
  exact ⟨hraw, rfl, congrArg Machine.focus (Option.some.inj htwo)⟩

/-- An object is made with the wrapper of another one at a property, and the property is
written back. -/
def storesWrapped : Program Unit :=
  .op (.newObject .empty) fun a => .op (.newObject (.ofList [("k", .reactive a)])) fun o =>
    .writeBack o "k" fun changed => .ret (.bool changed)

/-- **A wrapper that was stored as it is, is not written back.**  In the run of
`storesWrapped` the write answers that something changed, so it is not true of every property
that stores no undefined number that writing it back changes nothing. -/
theorem wrapper_is_not_written_back :
    (Machine.states () storesWrapped 10).focus = .value (.bool true) ∧
      ¬ ∀ (t : Nat → Machine Unit) (k n : Nat), IsRun t n → k ≤ n →
        ∀ o name, ((t k).world.property o name).isNaN = false → ∀ next frames,
          twoSteps ⟨(t k).world, .run (.writeBack o name next), frames⟩ =
            some ⟨(t k).world.track (.property o name), .run (next false), frames⟩ := by
  refine ⟨rfl, fun hall => ?_⟩
  have hgoes : ∀ j < 3, 0 < j → (Machine.states () storesWrapped j).GoesOn := by decide
  have hrun : IsRun (Machine.states () storesWrapped) 3 :=
    Machine.isRun_states hgoes
  have hwrapper : ((Machine.states () storesWrapped 3).world.property ⟨1⟩ "k").isReactive = true :=
    rfl
  have hnone := (writeBack_iff _ _ _ _ _).1
    (hall _ 3 3 hrun (Nat.le_refl 3) ⟨1⟩ "k" rfl (fun _ => .done) [])
  exact absurd (hwrapper.symm.trans hnone.1) (by simp)

end Reactive
end ReactiveView
