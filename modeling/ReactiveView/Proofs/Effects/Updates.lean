/-
# No update is lost

An effect that read an entry hears of every later change of it, by a run of its own
that begins after the change.  There is one exception: an effect whose body is running
is passed over, so that it does not call itself.

The statement is about whole runs of the machine (`no_lost_update`).  From the read
on, two things hold until the next run of the effect begins.  The effect *watches* the
entry, which means it is live and registered there (`World.Watches`).  And a change that
it was not running for is *pending*: some frame of a trigger under way still has the
effect, or the entry, before it (`Frame.Pending`).  At the end of an operation no such
frame is left.
-/

import ReactiveView.Proofs.Effects.Agreement
import ReactiveView.Proofs.KeyTable

namespace ReactiveView
namespace Reactive

variable {σ : Type}

/-- What can be read at an entry. -/
inductive Content where
  /-- The value there, if there is one. -/
  | value (value : Option Value)
  /-- The keys of an object. -/
  | keys (list : List String)

namespace World

variable {w w' : World σ} {e : EffectId} {x : Entry}

/-- What can be read at an entry now. -/
def content (w : World σ) : Entry → Content
  | ⟨.object o, .property name⟩ => .value ((w.table o).get? name)
  | ⟨.object o, .iterate⟩ => .keys (w.table o).keys
  | ⟨.cell c, .property name⟩ => .value (if name = "value" then w.cell? c else none)
  | ⟨.cell _, .iterate⟩ => .keys []

/-! ## Changes of what is stored -/

/-- What can be read is in objects and cells. -/
theorem content_congr (objects : w'.objects = w.objects) (cells : w'.cells = w.cells)
    (x : Entry) : w'.content x = w.content x := by
  obtain ⟨_ | _, _ | _⟩ := x <;> simp [content, table, cell?, objects, cells]

/-- A table is exchanged at one object, if that was made. -/
theorem table_setTable (w : World σ) (o : ObjectId) (table : KeyTable Value) (o' : ObjectId) :
    (w.setTable o table).table o' =
      if o = o' ∧ o.index < w.objects.size then table else w.table o' := by
  obtain ⟨i⟩ := o
  obtain ⟨i'⟩ := o'
  simp only [World.table, setTable, Array.getD_eq_getD_getElem?, ObjectId.mk.injEq]
  by_cases hi : i = i'
  · subst hi
    by_cases hlt : i < w.objects.size
    · simp [hlt]
    · simp [hlt]
  · simp [hi, Array.getElem?_setIfInBounds_ne hi]

/-- A change of one object shows where a value or the keys of that object change. -/
theorem content_setTable {o : ObjectId} {table : KeyTable Value}
    (hget : ∀ name, x = .property o name → table.get? name = (w.table o).get? name)
    (hkeys : x = .keySet o → table.keys = (w.table o).keys) :
    (w.setTable o table).content x = w.content x := by
  rcases x with ⟨o' | c, name | _⟩
  · simp only [content, table_setTable]
    split
    · rename_i ho
      obtain ⟨rfl, -⟩ := ho
      rw [hget name rfl]
    · rfl
  · simp only [content, table_setTable]
    split
    · rename_i ho
      obtain ⟨rfl, -⟩ := ho
      rw [hkeys rfl]
    · rfl
  · rfl
  · rfl

/-- A change of one cell shows at the entry of that cell. -/
theorem content_setCell {c : CellId} (content : Option Value) (h : x ≠ .cell c) :
    (w.setCell c content).content x = w.content x := by
  rcases x with ⟨o | c', name | _⟩
  · rfl
  · rfl
  · simp only [World.content]
    split
    · rename_i hname
      have hne : c ≠ c' := by
        rintro rfl
        exact h (by rw [hname, Entry.cell])
      rw [w.cell?_setCell_ne _ hne]
    · rfl
  · rfl

/-- **A write tells of every entry that it changes.** -/
theorem mem_of_content_write {write : Write} {entries : List Entry}
    (h : w.write write = some (w', entries)) (hx : w'.content x ≠ w.content x) :
    x ∈ entries := by
  refine Decidable.byContradiction ?_
  intro hnot
  apply hx
  cases wrote_of_write h with
  | set o name value =>
    refine content_setTable ?_ ?_
    · rintro name' rfl
      have hne : name ≠ name' := by
        rintro rfl
        exact hnot List.mem_cons_self
      rw [KeyTable.get?_insert, if_neg hne]
    · rintro rfl
      have hcontains : (w.table o).contains name = true := by
        refine Decidable.byContradiction ?_
        intro hnew
        rw [if_neg hnew] at hnot
        exact hnot (List.mem_cons_of_mem _ List.mem_cons_self)
      exact KeyTable.keys_insert_of_contains _ hcontains
  | delete o name =>
    refine content_setTable ?_ ?_
    · rintro name' rfl
      have hne : name ≠ name' := by
        rintro rfl
        exact hnot List.mem_cons_self
      rw [KeyTable.get?_erase, if_neg hne]
    · rintro rfl
      exact absurd (List.mem_cons_of_mem _ List.mem_cons_self) hnot
  | store c value =>
    refine content_setCell _ ?_
    rintro rfl
    exact hnot List.mem_cons_self

/-- A stop changes who hears of an entry, not what is there. -/
theorem content_stop (id : EffectId) : (w.stop id).content x = w.content x := by
  unfold stop
  split
  · exact content_congr rfl rfl x
  · rfl

/-- A new object shows at its own entries. -/
theorem content_pushObject (table : KeyTable Value) (h : x.target ≠ .object ⟨w.objects.size⟩) :
    content { w with objects := w.objects.push table } x = w.content x := by
  rcases x with ⟨o | c, name | _⟩
  all_goals try rfl
  all_goals
    have hne : o.index ≠ w.objects.size := fun ho => h (congrArg Target.object (by rw [← ho]))
    simp only [content, World.table, Array.getD_eq_getD_getElem?, Array.getElem?_push, hne,
      if_false]

/-- A new cell shows at its own entries. -/
theorem content_pushCell (content : Option Value) (h : x.target ≠ .cell ⟨w.cells.size⟩) :
    World.content { w with cells := w.cells.push content } x = w.content x := by
  rcases x with ⟨o | c, name | _⟩
  all_goals try rfl
  have hne : c.index ≠ w.cells.size := fun hc => h (congrArg Target.cell (by rw [← hc]))
  simp only [World.content, cell?_push content hne]

/-- What is there is not what is made next. -/
theorem Has.ne_new {target : Target} (has : w.Has target) :
    target ≠ .object ⟨w.objects.size⟩ ∧ target ≠ .cell ⟨w.cells.size⟩ := by
  refine ⟨?_, ?_⟩ <;> rintro rfl
  · exact Nat.lt_irrefl _ has.1
  · exact Nat.lt_irrefl _ (lt_size_of_isSome has)

/-- What ends takes away what can be read at itself. -/
theorem content_endTarget {target : Target} (h : x.target ≠ target) :
    (w.endTarget target).content x = w.content x := by
  rcases x with ⟨o | c, name | _⟩
  · cases target <;> rfl
  · cases target <;> rfl
  · simp only [content, cell?_endTarget_ne (Ne.symm h)]
  · rfl

/-- Ending a target leaves what is stored at the others as it is. -/
theorem content_finish {target : Target} {held : Bool}
    (hend : ¬ (w.finish target held).Ended x.target) :
    (w.finish target held).content x = w.content x := by
  rcases w.finish_cases target held with h | ⟨has, h⟩ <;> rw [h] at hend ⊢
  exact content_endTarget fun hx => hend (hx.symm ▸ ended_endTarget has)

/-- An operation leaves what is stored as it is, except that it may end a target, and
that it may change an object behind its wrapper. -/
theorem content_answer {op : Op} (hinsert : ∀ o name value, op ≠ .insert o name value)
    (hremove : ∀ o name, op ≠ .remove o name) (has : w.Has x.target)
    (hend : ¬ (w.answer op).2.Ended x.target) : (w.answer op).2.content x = w.content x := by
  cases op
  case insert o name value => exact absurd rfl (hinsert o name value)
  case remove o name => exact absurd rfl (hremove o name)
  case newObject table => exact content_pushObject table has.ne_new.1
  case newCell value => exact content_pushCell (some value.raw) has.ne_new.2
  case endCell | letGo => exact content_finish hend
  case stop id => exact content_stop id
  all_goals exact content_congr rfl rfl x

/-- A tracked read changes nothing that can be read. -/
theorem content_track (entry : Entry) : (w.track entry).content x = w.content x := by
  rcases w.track_cases entry with h | ⟨id, -, h⟩ <;> rw [h]
  exact content_congr rfl rfl x

/-- **Operations leave what can be read as it is**, unless they change an object behind its
wrapper or end what is read. -/
theorem content_perform {op : Op} (hinsert : ∀ o name value, op ≠ .insert o name value)
    (hremove : ∀ o name, op ≠ .remove o name) (has : w.Has x.target)
    (hend : ¬ (w.perform op).2.Ended x.target) : (w.perform op).2.content x = w.content x := by
  unfold perform at hend ⊢
  cases hentry : op.entry? with
  | none =>
    simp only [hentry] at hend ⊢
    exact content_answer hinsert hremove has hend
  | some entry =>
    simp only [hentry] at hend ⊢
    exact (content_answer hinsert hremove ((has_track entry _).2 has) hend).trans
      (content_track entry)

/-- Scopes hold nothing that can be read. -/
theorem content_takeOwned (s : ScopeId) : (w.takeOwned s).2.2.content x = w.content x := by
  unfold takeOwned
  split
  · exact content_congr rfl rfl x
  · rfl

theorem content_giveBack (s : ScopeId) : (w.giveBack s).2.content x = w.content x := by
  unfold giveBack
  split
  · exact content_congr rfl rfl x
  · rfl

/-- A new effect changes nothing that can be read. -/
theorem content_newEffect (body : Program σ) :
    (w.newEffect body).2.content x = w.content x := by
  unfold newEffect
  simp only
  split <;> exact content_congr rfl rfl x

/-- The content is as it was when a run begins. -/
theorem content_beginRun {id : EffectId} {body : Program σ}
    (h : w.beginRun id = some (body, w')) : w'.content x = w.content x := by
  obtain ⟨_, -, rfl, rfl⟩ := beginRun_eq_some_iff.1 h
  exact content_congr rfl rfl x

/-! ## Watching -/

/-- The effect is live and registered at the entry. -/
structure Watches (w : World σ) (e : EffectId) (x : Entry) : Prop where
  live : w.isLive e = true
  registered : e ∈ w.registry.observers x

/-- The identity of a stopped effect stays spent. -/
theorem kept_spent : Kept fun w : World σ => w.effects.Spent e where
  rest _ effects _ _ hspent := effects ▸ hspent
  track {w} entry hspent := by
    rcases w.track_cases entry with h | ⟨id, -, h⟩ <;> rw [h]
    · exact hspent
    · exact hspent.modify _ _
  stop id hspent := by
    unfold World.stop
    split
    · exact hspent.remove _
    · exact hspent
  create body hspent := hspent.insert _
  ends target _ hspent := (effects_endTarget target).symm ▸ hspent
  beginRun hbegin hspent := by
    obtain ⟨_, -, rfl, rfl⟩ := beginRun_eq_some_iff.1 hbegin
    exact hspent.modify _ _

/-- The effect was stopped, or what the entry belongs to has ended. -/
def Gone (w : World σ) (e : EffectId) (x : Entry) : Prop :=
  w.effects.Spent e ∨ w.Ended x.target

/-- What is gone does not come back. -/
theorem kept_gone : Kept fun w : World σ => w.Gone e x where
  rest registry effects has ended h :=
    h.imp (kept_spent.rest registry effects has ended) (ended x.target)
  track entry h := h.imp (kept_spent.track entry) ((kept_ended x.target).track entry)
  stop id h := h.imp (kept_spent.stop id) ((kept_ended x.target).stop id)
  create body h := h.imp (kept_spent.create body) ((kept_ended x.target).create body)
  ends target has h := h.imp (kept_spent.ends target has) ((kept_ended x.target).ends target has)
  beginRun hbegin h :=
    h.imp (kept_spent.beginRun hbegin) ((kept_ended x.target).beginRun hbegin)

/-- A live effect watches what it reads. -/
theorem watches_track (hactive : w.active = some e) (hlive : w.isLive e = true) :
    (w.track x).Watches e x := by
  have htrack : w.track x = w.register e x := by
    simp only [track, hactive, hlive, if_true]
  obtain ⟨effect, heffect⟩ := Arena.contains_eq_true_iff.1 hlive
  refine ⟨?_, ?_⟩ <;> rw [htrack, register] <;> split
  · exact hlive
  · simp [isLive, Arena.contains, Arena.get?_modify, heffect]
  · assumption
  · simp [Registry.register]

/-- A watching effect watches on, whatever is read. -/
theorem Watches.track (h : w.Watches e x) (entry : Entry) : (w.track entry).Watches e x := by
  obtain ⟨effect, heffect⟩ := Arena.contains_eq_true_iff.1 h.live
  rcases w.track_cases entry with htrack | ⟨id, -, htrack⟩
  · exact htrack.symm ▸ h
  · rw [htrack]
    constructor
    · simp only [isLive, Arena.contains, Arena.get?_modify]
      split
      · rename_i hid
        rw [← hid, heffect]
        rfl
      · rw [heffect]
        rfl
    · rw [Registry.register, Registry.observers_update]
      split
      · exact Registry.mem_insertId.2 (.inr h.registered)
      · exact h.registered

/-- A watching effect goes on watching until it or what it watches is gone. -/
theorem Watches.alters (h : w.Watches e x) (htidy : w.effects.Tidy) (halters : Alters w w') :
    w'.Watches e x ∨ w'.Gone e x := by
  obtain ⟨effect, heffect⟩ := Arena.contains_eq_true_iff.1 h.live
  cases halters with
  | rest registry effects has ended =>
    refine .inl ⟨?_, registry ▸ h.registered⟩
    rw [isLive, effects]
    exact h.live
  | stops id =>
    by_cases hid : id = e
    · subst hid
      refine .inr (.inl ?_)
      rw [World.stop, heffect]
      exact Arena.spent_remove h.live
    · refine .inl ?_
      unfold World.stop
      split
      · refine ⟨?_, ?_⟩
        · simp [isLive, Arena.contains, Arena.get?_remove, Ne.symm hid, heffect]
        · exact (Registry.mem_observers_unregisterAll _ _).2
            ⟨h.registered, fun hmem => hid hmem.1.symm⟩
      · exact h
  | creates body =>
    refine .inl ⟨?_, h.registered⟩
    have hne : e ≠ (w.effects.insert ⟨body, []⟩).1 := by
      intro he
      rw [he, htidy.get?_insert_fst] at heffect
      exact absurd heffect (by simp)
    simp [isLive, Arena.contains, htidy.get?_insert, hne, heffect]
  | ends target has =>
    by_cases htarget : x.target = target
    · exact .inr (.inr (htarget.symm ▸ ended_endTarget has))
    · refine .inl ⟨?_, ?_⟩
      · rw [isLive, effects_endTarget]
        exact h.live
      · rw [registry_endTarget, Registry.observers_forget, if_neg htarget]
        exact h.registered

/-- The run of another effect clears its own registrations only. -/
theorem Watches.beginRun {id : EffectId} {body : Program σ} (h : w.Watches e x) (hne : id ≠ e)
    (hbegin : w.beginRun id = some (body, w')) : w'.Watches e x := by
  obtain ⟨_, -, rfl, rfl⟩ := beginRun_eq_some_iff.1 hbegin
  refine ⟨?_, ?_⟩
  · simp only [isLive, Arena.contains, Arena.get?_modify, Ne.symm hne, if_false]
    exact h.live
  · exact (Registry.mem_observers_unregisterAll _ _).2
      ⟨h.registered, fun hmem => hne hmem.1.symm⟩

/-- A watching effect watches on after a step that reads nothing, unless it or what it watches
is gone, or its next run has begun. -/
theorem Watches.turns (h : w.Watches e x) (hagrees : w.Agrees) (hturns : Turns w w') :
    w'.Watches e x ∨ w'.Gone e x ∨ w'.observers = some e :: w.observers := by
  obtain ⟨w₁, hpath, hend⟩ := hturns
  have hpath₁ : w₁.Agrees ∧ (w₁.Watches e x ∨ w₁.Gone e x) := by
    clear hend
    induction hpath with
    | refl => exact ⟨hagrees, .inl h⟩
    | tail _ halters ih =>
      obtain ⟨hagrees', hwatches | hgone⟩ := ih
      · exact ⟨kept_agrees.alters halters hagrees', hwatches.alters hagrees'.tidy halters⟩
      · exact ⟨kept_agrees.alters halters hagrees', .inr (kept_gone.alters halters hgone)⟩
  rcases hend with rfl | ⟨hobservers, id, body, hbegin⟩
  · exact hpath₁.2.imp id .inl
  · rcases hpath₁.2 with hwatches | hgone
    · by_cases hid : id = e
      · refine .inr (.inr ?_)
        subst hid
        rw [observers_beginRun hbegin, hobservers]
      · exact .inl (hwatches.beginRun hid hbegin)
    · exact .inr (.inl (kept_gone.beginRun hbegin hgone))

end World

/-! ## Pending changes -/

namespace Machine

open World (Turns)

variable {m m' : Machine σ} {e : EffectId} {x : Entry}

/-- Some trigger under way still has the effect or the entry before it, and will not
pass the effect over: its body does not run outside the trigger. -/
def Pending (e : EffectId) (x : Entry) : List (Option EffectId) → List (Frame σ) → Prop
  | _, [] => False
  | observers, .leave :: frames => Pending e x observers.tail frames
  | observers, .notify now later :: frames =>
    (some e ∉ observers ∧ (e ∈ now ∨ x ∈ later)) ∨ Pending e x observers frames
  | observers, _ :: frames => Pending e x observers frames

/-- No trigger is under way. -/
def Settled (m : Machine σ) : Prop := ∀ now later, Frame.notify now later ∉ m.frames

/-- Where no trigger is under way, nothing is pending. -/
theorem Settled.not_pending (h : m.Settled) (observers : List (Option EffectId)) :
    ¬ Pending e x observers m.frames := by
  obtain ⟨w, focus, frames⟩ := m
  simp only [Settled] at h ⊢
  induction frames generalizing observers with
  | nil => exact id
  | cons frame frames ih =>
    have hframes := fun now later hmem => h now later (List.mem_cons_of_mem _ hmem)
    cases frame with
    | notify now later => exact absurd (List.mem_cons_self ..) (h now later)
    | _ => exact ih _ hframes

/-- The state is one of an operation that does not fail and that changes no object
behind its wrapper. -/
def Regular (m : Machine σ) : Prop :=
  match m.focus with
  | .throwing _ => False
  | .run (.op (.insert ..) _) => False
  | .run (.op (.remove ..) _) => False
  | _ => True

instance (m : Machine σ) : Decidable m.Regular := by
  unfold Regular
  split <;> infer_instance

/-- Between the states a run of the effect begins. -/
def Starts (m m' : Machine σ) (e : EffectId) : Prop :=
  m'.world.observers = some e :: m.world.observers

instance (m m' : Machine σ) (e : EffectId) : Decidable (Starts m m' e) :=
  inferInstanceAs (Decidable (_ = _))

/-- An effect that is passed over or run leaves what is pending below it; its own run has a
frame that takes it off the stack again. -/
theorem pending_runEffect {w : World σ} {id : EffectId} {frames : List (Frame σ)}
    (h : Pending e x w.observers frames) :
    Pending e x (runEffect w id frames).world.observers (runEffect w id frames).frames := by
  unfold runEffect
  split
  · rename_i body w' hbegin
    rw [World.observers_beginRun hbegin]
    exact h
  · exact h

/-- A disposal goes on top of what is pending. -/
theorem pending_disposeOwned {w : World σ} {s : ScopeId} {frames : List (Frame σ)}
    (h : Pending e x w.observers frames) :
    Pending e x (disposeOwned w s frames).world.observers (disposeOwned w s frames).frames := by
  unfold disposeOwned
  rw [World.observers_takeOwned]
  exact h

/-- A program goes on inside the triggers under way. -/
theorem pending_exec {w : World σ} {frames : List (Frame σ)} (program : Program σ)
    (h : Pending e x w.observers frames) :
    Pending e x (exec w frames program).world.observers (exec w frames program).frames := by
  cases program with
  | op op next =>
    simp only [exec, World.observers_perform]
    exact h
  | write write next =>
    simp only [exec]
    split
    · rename_i w' entries hwrite
      rw [World.observers_write hwrite]
      exact .inr h
    · exact h
  | trigger entry next => exact .inr h
  | effect body next =>
    refine pending_runEffect ?_
    rw [World.observers_newEffect]
    exact h
  | rerun id next => exact pending_runEffect h
  | dispose s next => exact pending_disposeOwned h
  | call callback argument next =>
    simp only [exec]
    split <;> exact h
  | _ => exact h

/-- **A pending change stays pending**, until the next run of the effect begins. -/
theorem pending_resume {w : World σ} {frames : List (Frame σ)} (value : Value) (frame : Frame σ)
    (hwatches : w.Watches e x) (h : Pending e x w.observers (frame :: frames)) :
    Pending e x (resume w value frames frame).world.observers
        (resume w value frames frame).frames ∨
      (resume w value frames frame).world.observers = some e :: w.observers := by
  cases frame with
  | notify now later =>
    cases now with
    | nil =>
      cases later with
      | nil =>
        refine .inl (h.resolve_left ?_)
        rintro ⟨-, hmem | hmem⟩ <;> exact absurd hmem List.not_mem_nil
      | cons entry later =>
        refine .inl (h.imp_left ?_)
        rintro ⟨hoff, hmem | hmem⟩
        · exact absurd hmem List.not_mem_nil
        · refine ⟨hoff, ?_⟩
          rcases List.mem_cons.1 hmem with rfl | hmem
          -- The pass turns to the entry, and the effect is among those who are registered there.
          · exact .inl hwatches.registered
          · exact .inr hmem
    | cons id now =>
      simp only [resume]
      -- It is the turn of the effect itself, or it is still to come.
      by_cases hid : some e ∉ w.observers ∧ e = id
      · obtain ⟨hoff, rfl⟩ := hid
        obtain ⟨effect, heffect⟩ := Arena.contains_eq_true_iff.1 hwatches.live
        refine .inr ?_
        simp [World.isRunning, hoff, runEffect, World.beginRun, heffect]
      · have hrest : Pending e x w.observers (.notify now later :: frames) := by
          refine h.imp_left ?_
          rintro ⟨hoff, hmem | hmem⟩
          · exact ⟨hoff, .inl ((List.mem_cons.1 hmem).resolve_left fun he => hid ⟨hoff, he⟩)⟩
          · exact ⟨hoff, .inr hmem⟩
        refine .inl ?_
        split
        · exact hrest
        · exact pending_runEffect hrest
  | disposing scopes cleanups =>
    refine .inl ?_
    cases scopes with
    | cons child scopes => exact pending_disposeOwned h
    | nil =>
      rcases cleanups with _ | ⟨id | body, cleanups⟩
      · exact h
      · simp only [resume, World.observers_stop]
        exact h
      · exact h
  | release s =>
    refine .inl ?_
    simp only [resume]
    have hback := World.observers_giveBack w s
    split <;> rename_i w' heq <;> rw [heq] at hback
    · refine pending_disposeOwned ?_
      rw [hback]
      exact h
    · simp only
      rw [hback]
      exact h
  | _ => exact .inl h

/-- **A change stays pending until the run begins**: no step that does not fail takes the effect
off a pass in any other way. -/
theorem Regular.pending_step (hm : m.Regular) (hwatches : m.world.Watches e x)
    (hstep : m.step? = some m') (h : Pending e x m.world.observers m.frames) :
    Pending e x m'.world.observers m'.frames ∨ Starts m m' e := by
  cases steps_of_step? hstep with
  | exec w frames program => exact .inl (pending_exec program h)
  | resume w value frames frame => exact pending_resume value frame hwatches h
  | unwind => exact hm.elim

/-! ## Changes of content -/

/-- The beginning of a run is no change of content. -/
theorem content_runEffect {w w₀ : World σ} (id : EffectId) (frames : List (Frame σ))
    (h : w.content x = w₀.content x) : (runEffect w id frames).world.content x = w₀.content x := by
  unfold runEffect
  split
  · rename_i body w' hbegin
    exact (World.content_beginRun hbegin).trans h
  · exact h

/-- Nor is a value that comes back, whatever is disposed then. -/
theorem content_resume (w : World σ) (value : Value) (frames : List (Frame σ))
    (frame : Frame σ) : (resume w value frames frame).world.content x = w.content x := by
  cases frame with
  | notify now later =>
    cases now with
    | nil => cases later <;> rfl
    | cons id now =>
      simp only [resume]
      split
      · rfl
      · exact content_runEffect _ _ rfl
  | disposing scopes cleanups =>
    cases scopes with
    | cons child scopes => exact World.content_takeOwned child
    | nil =>
      rcases cleanups with _ | ⟨id | body, cleanups⟩
      · rfl
      · exact World.content_stop id
      · rfl
  | release s =>
    simp only [resume]
    have hback := World.content_giveBack (w := w) (x := x) s
    split <;> rename_i w' heq <;> rw [heq] at hback
    · exact (World.content_takeOwned s).trans hback
    · exact hback
  | _ => exact World.content_congr rfl rfl x

/-- **Only a write changes what can be read**, and it tells of all that it changes. -/
theorem Regular.content_step (hm : m.Regular) (has : m.world.Has x.target)
    (hstep : m.step? = some m') (hend : ¬ m'.world.Ended x.target)
    (hx : m'.world.content x ≠ m.world.content x) :
    ∃ entries next, x ∈ entries ∧ m'.world.observers = m.world.observers ∧
      m'.frames = .notify [] entries :: .bind next :: m.frames := by
  cases steps_of_step? hstep with
  | unwind => exact hm.elim
  | resume w value frames frame => exact absurd (content_resume w value frames frame) hx
  | exec w frames program =>
    cases program with
    | write write next =>
      simp only [exec] at hx ⊢
      split at hx
      · rename_i w' entries hwrite
        exact ⟨entries, _, World.mem_of_content_write hwrite hx, World.observers_write hwrite, rfl⟩
      · exact absurd rfl hx
    | op op next =>
      refine absurd ?_ hx
      refine World.content_perform ?_ ?_ has hend
      · rintro o name value rfl
        exact hm
      · rintro o name rfl
        exact hm
    | effect body next => exact absurd (content_runEffect _ _ (World.content_newEffect body)) hx
    | rerun id next => exact absurd (content_runEffect _ _ rfl) hx
    | dispose s next => exact absurd (World.content_takeOwned s) hx
    | call callback argument next =>
      refine absurd ?_ hx
      simp only [exec]
      split <;> rfl
    | _ => exact absurd (World.content_congr rfl rfl x) hx

/-! ## Along a run -/

namespace Next

/-- The same along a run, where the next operation begins with nothing pending. -/
theorem pending (hnext : Next m m') (hm : m.Regular) (hwatches : m.world.Watches e x)
    (h : Pending e x m.world.observers m.frames) :
    Pending e x m'.world.observers m'.frames ∨ Starts m m' e := by
  cases hnext with
  | step step => exact hm.pending_step hwatches step h
  | begin | recover => exact h.elim

/-- A change is made while the effect is running, or it is pending. -/
theorem running_or_pending (hnext : Next m m') (hm : m.Regular)
    (has : m.world.Has x.target) (hend : ¬ m'.world.Ended x.target)
    (hx : m'.world.content x ≠ m.world.content x) :
    m.world.isRunning e = true ∨ Pending e x m'.world.observers m'.frames := by
  cases hnext with
  | begin | recover => exact absurd rfl hx
  | step step =>
    obtain ⟨entries, next, hmem, hobservers, hframes⟩ := hm.content_step has step hend hx
    rw [hobservers, hframes, World.isRunning, List.contains_iff_mem]
    by_cases hrunning : some e ∈ m.world.observers
    · exact .inl hrunning
    · exact .inr (.inl ⟨hrunning, .inr hmem⟩)

/-- **A watching effect watches on**, unless it or what it watches is gone, or its next run has
begun. -/
theorem watches (hnext : Next m m') (hagrees : m.world.Agrees) (h : m.world.Watches e x) :
    m'.world.Watches e x ∨ m'.world.Gone e x ∨ Starts m m' e := by
  rcases hnext.turns with ⟨entry, -, hworld⟩ | ⟨-, hturns⟩
  · exact .inl (hworld ▸ h.track entry)
  · exact h.turns hagrees hturns

end Next

/-- A recorded read makes the effect watch the entry, and changes nothing else. -/
theorem Reads.next (h : m.Reads e x) (hnext : Next m m') :
    m'.world.Watches e x ∧ m'.world.content x = m.world.content x := by
  obtain ⟨hactive, hlive, hread⟩ := h
  rcases hnext.turns with ⟨entry, hentry, hworld⟩ | ⟨hnone, -⟩
  · obtain rfl := Option.some.inj (hentry.symm.trans hread)
    rw [hworld]
    exact ⟨World.watches_track hactive hlive, World.content_track _⟩
  · exact absurd (hnone.symm.trans hread) (by simp)

end Machine

open Machine

/-- **No update is lost.**  Take a run that from some state on is without failures and
changes objects and cells by writes alone, and a later state of it in which no trigger is
under way, such as the end of any operation.  Take a live effect and an entry that it read
since its last run began, of a target that was there then and is there now.  Then every change
of the entry since that read was made while the effect was running itself; in particular, if it
never ran meanwhile, the entry is what it read. -/
theorem no_lost_update {t : Nat → Machine σ} {i n : Nat} {e : EffectId} {x : Entry}
    (hrun : IsRun t n) (hregular : ∀ k, i ≤ k → k ≤ n → (t k).Regular)
    (hsettled : (t n).Settled) (hread : (t i).Reads e x) (hthere : (t i).world.Has x.target)
    (hlast : ∀ k, i ≤ k → k < n → ¬ Starts (t k) (t (k + 1)) e)
    (hlive : (t n).world.isLive e = true) (has : (t n).world.Has x.target) :
    ∀ k, i ≤ k → k < n → (t (k + 1)).world.content x ≠ (t k).world.content x →
      (t k).world.isRunning e = true := by
  have hstays : ∀ k ≤ n, ¬ (t k).world.Gone e x := by
    intro k hk hgone
    rcases hrun.keeps World.kept_gone hk (Nat.le_refl n) hgone with hspent | hended
    · rw [World.isLive, Arena.contains, hspent.get?] at hlive
      exact absurd hlive (by simp)
    · exact has.not_ended hended
  have hthere' : ∀ k, i ≤ k → k ≤ n → (t k).world.Has x.target := by
    intro k hik hk
    exact (hrun.keeps (World.kept_made x.target) hik hk (.inl hthere)).resolve_right
      fun hended => hstays k hk (.inr hended)
  -- the two sides of the invariant, from the state after the read on
  have hinv : ∀ k, i < k → k ≤ n → (t k).world.Watches e x ∧
      ∀ j, i ≤ j → j < k → (t (j + 1)).world.content x ≠ (t j).world.content x →
        (t j).world.isRunning e = true ∨ Pending e x (t k).world.observers (t k).frames := by
    intro k hik
    induction k, hik using Nat.le_induction with
    | base =>
      intro hk
      obtain ⟨hwatches, hsame⟩ := hread.next (hrun.next i hk)
      refine ⟨hwatches, ?_⟩
      intro j hij hji hchange
      obtain rfl := Nat.le_antisymm hij (Nat.le_of_lt_succ hji)
      exact absurd hsame hchange
    | succ k hik ih =>
      intro hk
      have hk' := Nat.le_of_succ_le hk
      obtain ⟨hwatches, hpending⟩ := ih hk'
      have hnext := hrun.next k hk
      have hm := hregular k (Nat.le_of_lt hik) hk'
      have hstart := hlast k (Nat.le_of_lt hik) hk
      constructor
      · rcases hnext.watches (hrun.reachable hk').agrees hwatches with h | h | h
        · exact h
        · exact absurd h (hstays _ hk)
        · exact absurd h hstart
      · intro j hij hjk hchange
        rcases Nat.lt_succ_iff_lt_or_eq.1 hjk with hjk | rfl
        · rcases hpending j hij hjk hchange with h | h
          · exact .inl h
          · exact .inr ((hnext.pending hm hwatches h).resolve_right hstart)
        · exact hnext.running_or_pending hm (hthere' _ hij hk')
            (fun hended => hstays _ hk (.inr hended)) hchange
  intro k hik hkn hchange
  obtain ⟨-, hpending⟩ := hinv n (Nat.lt_of_le_of_lt hik hkn) (Nat.le_refl n)
  exact (hpending k hik hkn hchange).resolve_right (hsettled.not_pending _)

/-- An effect that reads a cell and then writes it. -/
def feedsItself : Program Unit :=
  .op (.newCell .null) fun c =>
    .effect (.op (.load c) fun _ => .write (.store c (.bool true)) fun _ => .done) fun _ => .done

/-- The hypotheses of `no_lost_update` are met by the run of `feedsItself`: its effect
reads the cell in state 3 and does not see the change that it makes in state 4. -/
theorem no_lost_update_feedsItself :
    (Machine.states () feedsItself 4).world.isRunning ⟨0, 0⟩ = true := by
  have hgoes : ∀ k < 12, 0 < k → (Machine.states () feedsItself k).GoesOn := by decide
  have hrun : IsRun (Machine.states () feedsItself) 12 := Machine.isRun_states hgoes
  have hregular : ∀ k ≤ 12, (Machine.states () feedsItself k).Regular := by decide
  have hsettled : (Machine.states () feedsItself 12).Settled := fun _ _ => List.not_mem_nil
  have hread : (Machine.states () feedsItself 3).Reads ⟨0, 0⟩ (.cell ⟨0⟩) :=
    ⟨by decide, by decide, rfl⟩
  have hlast : ∀ k < 12, 3 ≤ k → ¬ Starts (Machine.states () feedsItself k)
      (Machine.states () feedsItself (k + 1)) ⟨0, 0⟩ := by decide
  refine no_lost_update hrun (fun k _ hk => hregular k hk) hsettled hread (by decide)
    (fun k h3 hk => hlast k hk h3) (by decide) (by decide) 4 (by decide) (by decide) ?_
  intro h
  cases h

end Reactive
end ReactiveView
