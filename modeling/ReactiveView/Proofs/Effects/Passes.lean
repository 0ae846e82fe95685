/-
# Passes over observers

A write runs the observers of what it changes in one or two passes: those at the entry that is
written, and then, if a key came or went, those at the key set of the object.  Each pass goes
over the observers as they are listed when it begins.  Every one of them leaves the entry when
its run begins and comes back when it reads again, perhaps at other entries, so the lists that
are gone over change all the time.

While bodies only read (`Program.OnlyReads`) nobody is stopped, nobody is running when its turn
comes, and every run comes to an end.  So a pass runs exactly the list that it began with
(`Machine.notify_now_runs`), in ascending order (`Machine.Reachable.ascending`) and each once,
whatever is registered meanwhile; and the second pass begins with the list that the first one
has left.  `write_runs_observers` puts the two together.
-/

import ReactiveView.Proofs.Derived.Proper
import ReactiveView.Proofs.KeyTable
import ReactiveView.Proofs.Live.Endings

namespace ReactiveView
namespace Reactive

variable {σ : Type}

/-! ## The order of observers -/

namespace EffectId

variable {a b c : EffectId}

/-- The order of age is transitive. -/
theorem before_trans (h : a.before b = true) (h' : b.before c = true) : a.before c = true := by
  simp only [before, Bool.or_eq_true, Bool.and_eq_true, decide_eq_true_eq, beq_iff_eq] at *
  omega

/-- The order of age is total. -/
theorem before_of_not_before (hne : a ≠ b) (h : a.before b = false) : b.before a = true := by
  obtain ⟨i, g⟩ := a
  obtain ⟨j, g'⟩ := b
  simp only [ne_eq, mk.injEq, before, Bool.or_eq_false_iff, Bool.and_eq_false_iff,
    decide_eq_false_iff_not, Bool.or_eq_true, Bool.and_eq_true, decide_eq_true_eq,
    beq_iff_eq, beq_eq_false_iff_ne] at *
  omega

/-- The order of age is irreflexive. -/
theorem before_irrefl (a : EffectId) : a.before a = false := by simp [before]

end EffectId

/-- The effects stand in ascending order. -/
def Ascending (ids : List EffectId) : Prop := ids.Pairwise fun a b => a.before b = true

/-- Nobody stands twice in an ascending list. -/
theorem Ascending.nodup {ids : List EffectId} (h : Ascending ids) : ids.Nodup :=
  h.imp fun {a b} hab => by
    rintro rfl
    rw [EffectId.before_irrefl] at hab
    exact absurd hab (by simp)

namespace Registry

variable {ids : List EffectId} {id : EffectId}

/-- A new observer is put at its place in the order, not at the end. -/
theorem ascending_insertId (h : Ascending ids) : Ascending (insertId id ids) := by
  induction ids with
  | nil => exact List.pairwise_singleton _ _
  | cons first rest ih =>
    obtain ⟨hfirst, hrest⟩ := List.pairwise_cons.1 h
    unfold insertId
    split
    · exact h
    · rename_i hne
      split
      · rename_i hbefore
        refine List.pairwise_cons.2 ⟨fun b hb => ?_, h⟩
        rcases List.mem_cons.1 hb with rfl | hb
        · exact hbefore
        · exact EffectId.before_trans hbefore (hfirst b hb)
      · rename_i hbefore
        refine List.pairwise_cons.2 ⟨fun b hb => ?_, ih hrest⟩
        rcases mem_insertId.1 hb with rfl | hb
        · exact EffectId.before_of_not_before hne (by simpa using hbefore)
        · exact hfirst b hb

/-- Leaving entries takes an effect out of lists and leaves their order. -/
theorem sublist_unregisterAll (registry : Registry) (id : EffectId) (entries : List Entry)
    (x : Entry) :
    ((registry.unregisterAll id entries).observers x).Sublist (registry.observers x) := by
  induction entries generalizing registry with
  | nil => exact List.Sublist.refl _
  | cons first rest ih =>
    refine (ih (registry.unregister id first)).trans ?_
    rw [unregister, observers_update]
    split
    · exact List.filter_sublist
    · exact List.Sublist.refl _

end Registry

namespace World

variable {w w' w'' : World σ} {id : EffectId} {x : Entry}

/-- Every entry lists its observers in ascending order. -/
def Sorted (w : World σ) : Prop := ∀ x, Ascending (w.registry.observers x)

/-- Leaving somebody out keeps the order. -/
theorem Sorted.of_sublist (h : w.Sorted)
    (hsublist : ∀ x, (w'.registry.observers x).Sublist (w.registry.observers x)) : w'.Sorted :=
  fun x => (h x).sublist (hsublist x)

/-- The order is that of the registrations alone. -/
theorem Sorted.of_same (h : w.Sorted) (registry : w'.registry = w.registry) : w'.Sorted := by
  unfold Sorted
  rw [registry]
  exact h

/-- **Every change keeps the lists of observers in order**: tracking inserts in order, the
others leave out. -/
theorem kept_sorted : Kept fun w : World σ => w.Sorted where
  rest registry _ _ _ h := h.of_same registry
  track entry h := by
    intro x
    rcases track_cases _ entry with htrack | ⟨id, -, htrack⟩ <;> rw [htrack]
    · exact h x
    · simp only [Registry.register, Registry.observers_update]
      split
      · exact Registry.ascending_insertId (h _)
      · exact h x
  stop id h := h.of_sublist fun x => by
    unfold World.stop
    split
    · exact Registry.sublist_unregisterAll _ id _ x
    · exact List.Sublist.refl _
  create _ h := h
  ends target _ h := h.of_sublist fun x => by
    rw [registry_endTarget, Registry.observers_forget]
    split
    · exact List.nil_sublist _
    · exact List.Sublist.refl _
  beginRun hbegin h := h.of_sublist fun x => by
    obtain ⟨_, -, rfl, rfl⟩ := beginRun_eq_some_iff.1 hbegin
    exact Registry.sublist_unregisterAll _ _ _ x

/-- Every observer is live, and every list of observers ascends. -/
def Listed (w : World σ) : Prop := w.Noted ∧ w.Sorted

/-- Both parts look at registrations and effects alone. -/
theorem Listed.of_same (h : w.Listed) (registry : w'.registry = w.registry)
    (effects : w'.effects = w.effects) : w'.Listed :=
  ⟨h.1.of_same registry effects, h.2.of_same registry⟩

/-- Everyone stays noted once and in order, whatever a step does. -/
theorem kept_listed : Kept fun w : World σ => w.Listed where
  rest registry effects _ _ h := h.of_same registry effects
  track entry h := ⟨kept_noted.track entry h.1, kept_sorted.track entry h.2⟩
  stop id h := ⟨kept_noted.stop id h.1, kept_sorted.stop id h.2⟩
  create body h := ⟨kept_noted.create body h.1, kept_sorted.create body h.2⟩
  ends target has h := ⟨kept_noted.ends target has h.1, kept_sorted.ends target has h.2⟩
  beginRun hbegin h := ⟨kept_noted.beginRun hbegin h.1, kept_sorted.beginRun hbegin h.2⟩

end World

/-- In every reachable state the observers of an entry are live and stand in ascending order. -/
theorem Machine.Reachable.listed {m : Machine σ} (hm : m.Reachable) : m.world.Listed :=
  hm.keeps World.kept_listed fun host => ⟨World.noted_start host, fun _ => List.Pairwise.nil⟩

/-! ## Runs begun -/

namespace Machine

variable {m m' m'' : Machine σ} {ids ids' : List EffectId}

/-- The machine comes from the one state to the other, and these are the effects whose bodies it
begins to run on the way, in order. -/
inductive Begins : Machine σ → List EffectId → Machine σ → Prop
  | refl (m : Machine σ) : Begins m [] m
  /-- A step in which no run begins. -/
  | quiet {m m' m'' : Machine σ} {ids : List EffectId} (step : m.step? = some m')
      (quiet : ∀ e, ¬ Starts m m' e) (rest : Begins m' ids m'') : Begins m ids m''
  | run {m m' m'' : Machine σ} {e : EffectId} {ids : List EffectId} (step : m.step? = some m')
      (starts : Starts m m' e) (rest : Begins m' ids m'') : Begins m (e :: ids) m''

/-- The runs of two stretches, one after the other. -/
theorem Begins.trans (h : Begins m ids m') (h' : Begins m' ids' m'') :
    Begins m (ids ++ ids') m'' := by
  induction h with
  | refl => exact h'
  | quiet step quiet _ ih => exact .quiet step quiet (ih h')
  | run step starts _ ih => exact .run step starts (ih h')

/-- No run begins in a step that does not make the stack of observers higher. -/
theorem Begins.of_le (hstep : m.step? = some m')
    (hobservers : m'.world.observers.length ≤ m.world.observers.length)
    (h : Begins m' ids m'') : Begins m ids m'' := by
  refine .quiet hstep (fun e hstart => ?_) h
  rw [hstart, List.length_cons] at hobservers
  exact absurd hobservers (Nat.not_succ_le_self _)

end Machine

/-! ## Bodies that only read -/

/-- The operation looks at the world and changes nothing in it. -/
def Op.looks : Op → Bool
  | newObject _ | insert .. | remove .. | newCell _ | endCell _ | letGo .. | stop _ | newScope
  | newChild _ | hold _ => false
  | _ => true

/-- The program reads, recorded or not, and returns.  It may also look at the host state and
change that, so it can keep what it has read. -/
inductive Program.OnlyReads : Program σ → Prop
  | ret (value : Value) : OnlyReads (.ret value)
  | op (op : Op) (next : op.Answer → Program σ) (looks : op.looks = true)
      (hnext : ∀ a, OnlyReads (next a)) : OnlyReads (.op op next)
  | readHost (next : σ → Program σ) (hnext : ∀ s, OnlyReads (next s)) : OnlyReads (.readHost next)
  | changeHost (change : σ → σ) (next : Program σ) (hnext : OnlyReads next) :
      OnlyReads (.changeHost change next)
  | untracked (body : Program σ) (next : Value → Program σ) (hbody : OnlyReads body)
      (hnext : ∀ v, OnlyReads (next v)) : OnlyReads (.untracked body next)

namespace World

variable {w w' w'' : World σ} {id : EffectId}

/-- Between the worlds there was only reading: registrations and the host state may have
changed. -/
structure Rereads (w w' : World σ) : Prop where
  objects : w'.objects = w.objects
  cells : w'.cells = w.cells
  observers : w'.observers = w.observers
  body : ∀ id, w'.body? id = w.body? id
  listed : w.Listed → w'.Listed

/-- Who does nothing rereads nothing. -/
theorem Rereads.refl (w : World σ) : Rereads w w := ⟨rfl, rfl, rfl, fun _ => rfl, id⟩

/-- Rereading goes on: the relation compares with the world at the beginning. -/
theorem Rereads.trans (h : Rereads w w') (h' : Rereads w' w'') : Rereads w w'' where
  objects := h'.objects.trans h.objects
  cells := h'.cells.trans h.cells
  observers := h'.observers.trans h.observers
  body id := (h'.body id).trans (h.body id)
  listed hw := h'.listed (h.listed hw)

/-- An operation that only looks leaves the world. -/
theorem answer_of_looks {op : Op} (h : op.looks = true) : (w.answer op).2 = w := by
  cases op <;> first | rfl | exact absurd h (by simp [Op.looks])

/-- A tracked read adds a registration and changes no store. -/
theorem rereads_track (entry : Entry) : Rereads w (w.track entry) where
  objects := by rcases w.track_cases entry with h | ⟨id, -, h⟩ <;> rw [h]
  cells := by rcases w.track_cases entry with h | ⟨id, -, h⟩ <;> rw [h]
  observers := observers_track entry
  body := body?_track entry
  listed := kept_listed.track entry

/-- So an operation that looks, tracked or not, is a rereading. -/
theorem rereads_perform {op : Op} (h : op.looks = true) : Rereads w (w.perform op).2 := by
  unfold perform
  rw [answer_of_looks h]
  split
  · exact rereads_track _
  · exact .refl w

/-- A run is begun, its body only reads, and the run is over. -/
theorem Rereads.of_run {body : Program σ} (hbegin : w.beginRun id = some (body, w'))
    (h : Rereads w' w'') : Rereads w { w'' with observers := w''.observers.tail } := by
  have hlisted : w.Listed → World.Listed { w'' with observers := w''.observers.tail } :=
    fun hw => (h.listed (kept_listed.beginRun hbegin hw)).of_same rfl rfl
  have hobservers : w''.observers.tail = w.observers := by
    rw [h.observers, observers_beginRun hbegin, List.tail_cons]
  obtain ⟨effect, heffect, rfl, rfl⟩ := beginRun_eq_some_iff.1 hbegin
  exact ⟨h.objects, h.cells, hobservers,
    fun id' => (h.body id').trans (body?_modify (fun _ => []) rfl id'), hlisted⟩

end World

open Machine (Begins Starts)

/-- **A program that only reads** comes to its end, begins no run, and leaves everything but
registrations and the host state. -/
theorem Program.OnlyReads.returns {program : Program σ} (h : program.OnlyReads) (w : World σ)
    (frames : List (Frame σ)) : ∃ w' value,
    Begins ⟨w, .run program, frames⟩ [] ⟨w', .value value, frames⟩ ∧ World.Rereads w w' := by
  induction h generalizing w frames with
  | ret value => exact ⟨w, value, .of_le rfl (Nat.le_refl _) (.refl _), .refl w⟩
  | op op next looks _ ih =>
    have hperform := World.rereads_perform (w := w) looks
    obtain ⟨w', value, hbegins, hw'⟩ := ih (w.perform op).1 (w.perform op).2 frames
    exact ⟨w', value, .of_le rfl (Nat.le_of_eq (congrArg _ hperform.observers)) hbegins,
      hperform.trans hw'⟩
  | readHost next _ ih =>
    obtain ⟨w', value, hbegins, hw'⟩ := ih w.host w frames
    exact ⟨w', value, .of_le rfl (Nat.le_refl _) hbegins, hw'⟩
  | changeHost change next _ ih =>
    obtain ⟨w', value, hbegins, hw'⟩ := ih { w with host := change w.host } frames
    have hchange : World.Rereads w { w with host := change w.host } :=
      ⟨rfl, rfl, rfl, fun _ => rfl, fun hw => hw.of_same rfl rfl⟩
    exact ⟨w', value, .of_le rfl (Nat.le_refl _) hbegins, hchange.trans hw'⟩
  | untracked body next _ _ ihbody ihnext =>
    obtain ⟨w₁, value₁, hbody, hw₁⟩ := ihbody { w with observers := none :: w.observers }
      (.leave :: .bind next :: frames)
    have hback : World.Rereads w { w₁ with observers := w₁.observers.tail } :=
      ⟨hw₁.objects, hw₁.cells, by simp only [hw₁.observers, List.tail_cons], hw₁.body,
        fun hw => (hw₁.listed (hw.of_same rfl rfl)).of_same rfl rfl⟩
    obtain ⟨w₂, value₂, hnext, hw₂⟩ := ihnext value₁ { w₁ with observers := w₁.observers.tail }
      frames
    refine ⟨w₂, value₂, .quiet rfl (fun e hstart => ?_) (hbody.trans
      (.of_le rfl (w₁.observers.tail_sublist.length_le) (.of_le rfl (Nat.le_refl _) hnext))),
      hback.trans hw₂⟩
    exact absurd (List.cons.inj hstart).1 (by simp)

/-! ## One pass -/

namespace World

variable {w w' : World σ}

/-- All bodies only read. -/
def ReadOnly (w : World σ) : Prop := ∀ id body, w.body? id = some body → body.OnlyReads

/-- The bodies are the same ones afterwards. -/
theorem ReadOnly.rereads (h : w.ReadOnly) (hw' : Rereads w w') : w'.ReadOnly :=
  fun id body hbody => h id body ((hw'.body id).symm.trans hbody)

/-- Nobody comes to life or dies while programs reread. -/
theorem Rereads.isLive (h : Rereads w w') (id : EffectId) : w'.isLive id = w.isLive id := by
  rw [Bool.eq_iff_iff, isLive_iff_body, isLive_iff_body, h.body]

/-- Nobody begins to run, or stops running, in a stretch that only rereads. -/
theorem Rereads.isRunning (h : Rereads w w') (id : EffectId) :
    w'.isRunning id = w.isRunning id := by
  rw [World.isRunning, World.isRunning, h.observers]

end World

namespace Machine

/-- **A pass runs the observers that it has before it**, in their order, whatever they
register anew. -/
theorem notify_now_runs (now : List EffectId) {w : World σ} (value : Value) (later : List Entry)
    (frames : List (Frame σ)) (hreads : w.ReadOnly) (hlive : ∀ id ∈ now, w.isLive id = true)
    (hidle : ∀ id, w.isRunning id = false) : ∃ w' value',
    Begins ⟨w, .value value, .notify now later :: frames⟩ now
      ⟨w', .value value', .notify [] later :: frames⟩ ∧ World.Rereads w w' := by
  induction now generalizing w value with
  | nil => exact ⟨w, value, .refl _, .refl w⟩
  | cons id now ih =>
    obtain ⟨hid, hnow⟩ := List.forall_mem_cons.1 hlive
    obtain ⟨body, w₁, hbegin⟩ := World.beginRun_of_isLive hid
    have hstep : step? ⟨w, .value value, .notify (id :: now) later :: frames⟩ =
        some ⟨w₁, .run body, .leave :: .notify now later :: frames⟩ := by
      simp [step?, resume, hidle id, runEffect, hbegin]
    obtain ⟨w₂, value₂, hrun, hw₂⟩ := (hreads id body (World.body?_of_beginRun hbegin)).returns w₁
      (.leave :: .notify now later :: frames)
    have hw₃ := World.Rereads.of_run hbegin hw₂
    obtain ⟨w', value', hrest, hw'⟩ := ih value₂ (hreads.rereads hw₃)
      (fun id' h => (hw₃.isLive id').trans (hnow id' h))
      (fun id' => (hw₃.isRunning id').trans (hidle id'))
    refine ⟨w', value', .run hstep (World.observers_beginRun hbegin) ?_, hw₃.trans hw'⟩
    exact hrun.trans (.of_le rfl w₂.observers.tail_sublist.length_le hrest)

/-- A pass over an entry runs those who observe it when the pass begins. -/
theorem notify_entry_runs (x : Entry) {w : World σ} (value : Value) (later : List Entry)
    (frames : List (Frame σ)) (hlisted : w.Listed) (hreads : w.ReadOnly)
    (hidle : ∀ id, w.isRunning id = false) : ∃ w' value',
    Begins ⟨w, .value value, .notify [] (x :: later) :: frames⟩ (w.registry.observers x)
      ⟨w', .value value', .notify [] later :: frames⟩ ∧ World.Rereads w w' := by
  obtain ⟨w', value', hbegins, hw'⟩ := notify_now_runs (w.registry.observers x) value later frames
    hreads (fun id hmem => hlisted.1.isLive hmem) hidle
  exact ⟨w', value', .of_le rfl (Nat.le_refl _) hbegins, hw'⟩

end Machine

/-! ## Writes -/

namespace Write

/-- The entry that is written. -/
def entry : Write → Entry
  | set o name _ => .property o name
  | delete o name => .property o name
  | store c _ => .cell c

/-- The object that is written. -/
def object? : Write → Option ObjectId
  | set o _ _ => some o
  | delete o _ => some o
  | store _ _ => none

end Write

namespace World

variable {w w' : World σ}

/-- The key set of the object that is written, if the worlds differ in it. -/
def changedKeys (w w' : World σ) (write : Write) : List Entry :=
  match write.object? with
  | some o => if (w.table o).keys = (w'.table o).keys then [] else [.keySet o]
  | none => []

/-- What is written to an object that was made is found there. -/
theorem table_setTable_self {o : ObjectId} (made : o.index < w.objects.size)
    (table : KeyTable Value) : (w.setTable o table).table o = table := by
  rw [table_setTable, if_pos ⟨rfl, made⟩]

/-- **Whom a write tells**: the observers of the entry, and then those of the key set exactly if
a key came or went. -/
theorem entries_write {write : Write} {entries : List Entry}
    (h : w.write write = some (w', entries))
    (made : ∀ o ∈ write.object?, o.index < w.objects.size) :
    entries = write.entry :: w.changedKeys w' write := by
  cases wrote_of_write h with
  | set o name value =>
    have hself := table_setTable_self (made o rfl) ((w.table o).insert name value.raw)
    by_cases hold : (w.table o).contains name = true
    · have hsame := KeyTable.keys_insert_of_contains value.raw hold
      simp [Write.entry, changedKeys, Write.object?, hself, hold, hsame]
    · have hnew : name ∈ ((w.table o).insert name value.raw).keys :=
        KeyTable.mem_keys_iff.2 (by simp [KeyTable.contains])
      have hkeys : (w.table o).keys ≠ ((w.table o).insert name value.raw).keys := by
        intro hkeys
        rw [← hkeys] at hnew
        exact hold (KeyTable.mem_keys_iff.1 hnew)
      simp [Write.entry, changedKeys, Write.object?, hself, hold, hkeys]
  | delete o name held =>
    have hself := table_setTable_self (made o rfl) ((w.table o).erase name)
    have hgone : name ∉ ((w.table o).erase name).keys := fun hmem => by
      simpa [KeyTable.contains] using KeyTable.mem_keys_iff.1 hmem
    have hkeys : (w.table o).keys ≠ ((w.table o).erase name).keys := by
      intro hkeys
      rw [← hkeys] at hgone
      exact hgone (KeyTable.mem_keys_iff.2 held)
    simp [Write.entry, changedKeys, Write.object?, hself, hkeys]
  | store => rfl

end World

/-- The pass over the key set, where that was changed, is the last one of a write. -/
theorem Machine.notify_changedKeys_runs {w w' w₁ : World σ} (write : Write) (value : Value)
    (next : Value → Program σ) (frames : List (Frame σ)) (hlisted : w₁.Listed)
    (hreads : w₁.ReadOnly) (hidle : ∀ id, w₁.isRunning id = false) : ∃ w₂ value',
    Begins ⟨w₁, .value value, .notify [] (w.changedKeys w' write) :: .bind next :: frames⟩
        ((w.changedKeys w' write).flatMap w₁.registry.observers) ⟨w₂, .run (next value'), frames⟩ ∧
      Ascending ((w.changedKeys w' write).flatMap w₁.registry.observers) ∧
      World.Rereads w₁ w₂ := by
  have hends (w : World σ) (value : Value) :
      Begins ⟨w, .value value, .notify [] [] :: .bind next :: frames⟩ []
        ⟨w, .run (next value), frames⟩ :=
    .of_le rfl (Nat.le_refl _) (.of_le rfl (Nat.le_refl _) (.refl _))
  have hnone := And.intro (hends w₁ value)
    (And.intro (List.Pairwise.nil : Ascending []) (World.Rereads.refl w₁))
  unfold World.changedKeys
  split
  · rename_i o _
    split
    · exact ⟨w₁, value, hnone⟩
    · obtain ⟨w₂, value₂, hbegins, hw₂⟩ := notify_entry_runs (.keySet o) value []
        (.bind next :: frames) hlisted hreads hidle
      have hboth := hbegins.trans (hends w₂ value₂)
      simp only [List.append_nil] at hboth
      simp only [List.flatMap_cons, List.flatMap_nil, List.append_nil]
      exact ⟨w₂, value₂, hboth, hlisted.2 _, hw₂⟩
  · exact ⟨w₁, value, hnone⟩

open Machine (step?)

/-- **Which bodies a write runs, and how often.**  Take a reachable state in which no body is
running, all bodies only read, and something is about to be written.  A write that reports no
change does nothing at all.  Any other write runs the bodies of those who observe the entry
before it, then, exactly if a key came or went, of those who observe the key set after the first
pass; each pass in ascending order and nobody twice in it; and it changes nothing else than what
is written, registrations and the host state. -/
theorem write_runs_observers {w : World σ} {write : Write} {next : Bool → Program σ}
    {frames : List (Frame σ)} (hm : Machine.Reachable ⟨w, .run (.write write next), frames⟩)
    (hidle : ∀ id, w.isRunning id = false) (hreads : w.ReadOnly)
    (made : ∀ o ∈ write.object?, o.index < w.objects.size) :
    (w.write write = none →
      step? ⟨w, .run (.write write next), frames⟩ = some ⟨w, .run (next false), frames⟩) ∧
    ∀ w' entries, w.write write = some (w', entries) → ∃ w₁ w₂ value,
      Begins ⟨w, .run (.write write next), frames⟩ (w.registry.observers write.entry)
        ⟨w₁, .value value,
          .notify [] (w.changedKeys w' write) :: .bind (fun _ => next true) :: frames⟩ ∧
      Begins
        ⟨w₁, .value value,
          .notify [] (w.changedKeys w' write) :: .bind (fun _ => next true) :: frames⟩
        ((w.changedKeys w' write).flatMap w₁.registry.observers)
        ⟨w₂, .run (next true), frames⟩ ∧
      (Ascending (w.registry.observers write.entry) ∧
        (w.registry.observers write.entry).Nodup) ∧
      (Ascending ((w.changedKeys w' write).flatMap w₁.registry.observers) ∧
        ((w.changedKeys w' write).flatMap w₁.registry.observers).Nodup) ∧
      World.Rereads w' w₂ := by
  constructor
  · intro hnone
    simp only [step?, Machine.exec, hnone]
  · intro w' entries hwrite
    obtain rfl := World.entries_write hwrite made
    have hregistry := World.registry_write hwrite
    have heffects := World.effects_write hwrite
    have hobservers := World.observers_write hwrite
    have hlisted' : w'.Listed := hm.listed.of_same hregistry heffects
    have hreads' : w'.ReadOnly := fun id body hbody =>
      hreads id body ((World.body?_of_effects heffects id).symm.trans hbody)
    have hidle' (id : EffectId) : w'.isRunning id = false := by
      rw [World.isRunning, hobservers]
      exact hidle id
    obtain ⟨w₁, value, hfirst, hw₁⟩ := Machine.notify_entry_runs write.entry .undefined
      (w.changedKeys w' write) (.bind (fun _ => next true) :: frames) hlisted' hreads' hidle'
    -- A write registers nobody, so the first pass has those before it who were registered before.
    rw [hregistry] at hfirst
    have hstart : step? ⟨w, .run (.write write next), frames⟩ = some ⟨w', .value .undefined,
        .notify [] (write.entry :: w.changedKeys w' write) :: .bind (fun _ => next true) ::
          frames⟩ := by
      simp only [step?, Machine.exec, hwrite]
    obtain ⟨w₂, _, hsecond, hascending, hw₂⟩ := Machine.notify_changedKeys_runs write value
      (fun _ => next true) frames (hw₁.listed hlisted') (hreads'.rereads hw₁)
      (fun id => (hw₁.isRunning id).trans (hidle' id))
    exact ⟨w₁, w₂, value, .of_le hstart (Nat.le_of_eq (congrArg _ hobservers)) hfirst, hsecond,
      ⟨hm.listed.2 _, (hm.listed.2 _).nodup⟩, ⟨hascending, hascending.nodup⟩, hw₁.trans hw₂⟩

/-- Reads the keys of an object and notes that it ran. -/
def watchesKeys (o : ObjectId) : Program (List Nat) :=
  .op (.keys o) fun _ => .changeHost (· ++ [0]) .done

/-- Reads a property of an object, and its keys once the property is there, and notes that it
ran. -/
def watchesKeysLater (o : ObjectId) : Program (List Nat) :=
  .op (.get o "a") fun value =>
    if value.isNullish then .changeHost (· ++ [1]) .done
    else .op (.keys o) fun _ => .changeHost (· ++ [1]) .done

/-- Listing the keys is a read, and so a program that only reads. -/
theorem watchesKeys_onlyReads (o : ObjectId) : (watchesKeys o).OnlyReads :=
  .op _ _ rfl fun _ => .changeHost _ _ (.ret _)

/-- It reads a flag first, and goes on to the keys when that is set. -/
theorem watchesKeysLater_onlyReads (o : ObjectId) : (watchesKeysLater o).OnlyReads := by
  refine .op _ _ rfl fun value => ?_
  split
  · exact .changeHost _ _ (.ret _)
  · exact .op _ _ rfl fun _ => .changeHost _ _ (.ret _)

/-- An object with both observers, and the property comes. -/
def keysLater : Program (List Nat) :=
  .op (.newObject .empty) fun o =>
    .effect (watchesKeys o) fun _ => .effect (watchesKeysLater o) fun _ =>
      .write (.set o "a" (.bool true)) fun _ => .done

/-- Both bodies are of this kind when the write comes. -/
theorem keysLater_readOnly : (Machine.states [] keysLater 14).world.ReadOnly := by
  have heffects : (Machine.states [] keysLater 14).world.effects =
      ⟨#[⟨0, some ⟨watchesKeys ⟨0⟩, [.keySet ⟨0⟩]⟩⟩,
        ⟨0, some ⟨watchesKeysLater ⟨0⟩, [.property ⟨0⟩ "a"]⟩⟩], []⟩ := rfl
  intro id body hbody
  obtain ⟨effect, heffect, rfl⟩ := Option.map_eq_some_iff.1 hbody
  rw [heffects, Arena.get?_eq_some_iff] at heffect
  obtain ⟨_ | _ | index, generation⟩ := id
  · cases heffect
    exact watchesKeys_onlyReads ⟨0⟩
  · cases heffect
    exact watchesKeysLater_onlyReads ⟨0⟩
  · cases heffect

/-- The write that ends `keysLater` is made in state 14.  It runs the observer of the property,
which reads the keys for the first time and so joins those that the second pass runs. -/
theorem write_runs_observers_keysLater : ∃ w₁ w₂ value,
    Begins (Machine.states [] keysLater 14) [⟨1, 0⟩]
      ⟨w₁, .value value, [.notify [] [.keySet ⟨0⟩], .bind fun _ => .done]⟩ ∧
    Begins ⟨w₁, .value value, [.notify [] [.keySet ⟨0⟩], .bind fun _ => .done]⟩
      (w₁.registry.observers (.keySet ⟨0⟩)) ⟨w₂, .run .done, []⟩ ∧
    Ascending (w₁.registry.observers (.keySet ⟨0⟩)) ∧
      (w₁.registry.observers (.keySet ⟨0⟩)).Nodup := by
  have hgoes : ∀ i < 14, 0 < i → (Machine.states [] keysLater i).GoesOn := by decide
  have hstate (m : Machine (List Nat))
      (hfocus : m.focus = .run (.write (.set ⟨0⟩ "a" (.bool true)) fun _ => .done))
      (hframes : m.frames = []) :
      m = ⟨m.world, .run (.write (.set ⟨0⟩ "a" (.bool true)) fun _ => .done), []⟩ := by
    rw [← hfocus, ← hframes]
  have hwrites := hstate (Machine.states [] keysLater 14) rfl rfl
  have hm := Machine.reachable_states 14 hgoes
  rw [hwrites] at hm
  have hobservers : (Machine.states [] keysLater 14).world.registry.observers
      (.property ⟨0⟩ "a") = [⟨1, 0⟩] := by decide
  have made : 0 < (Machine.states [] keysLater 14).world.objects.size := by decide
  obtain ⟨⟨w', told⟩, hwrite⟩ := Option.isSome_iff_exists.1 (show
    ((Machine.states [] keysLater 14).world.write (.set ⟨0⟩ "a" (.bool true))).isSome = true
      by decide)
  have hkeys : (Machine.states [] keysLater 14).world.changedKeys w'
      (.set ⟨0⟩ "a" (.bool true)) = [.keySet ⟨0⟩] := by
    cases hwrite
    decide
  obtain ⟨w₁, w₂, value, hfirst, hsecond, -, hascending, -⟩ :=
    (write_runs_observers hm (fun id => rfl) keysLater_readOnly
      (fun o ho => Option.some.inj ho ▸ made)).2 w' told hwrite
  simp only [hkeys, List.flatMap_cons, List.flatMap_nil, List.append_nil] at hsecond hascending
  rw [← hwrites, Write.entry, hobservers, hkeys] at hfirst
  exact ⟨w₁, w₂, value, hfirst, hsecond, hascending⟩

/-- The runs in order: the first ones of both, then the observer of the property, then both. -/
example : (Machine.states [] keysLater 37).world.host = [0, 1, 1, 0, 1] := by decide

end Reactive
end ReactiveView
