/-
# Runs that record what effects read

The machine keeps where effects are registered, and not what they have read.  Here a record is
kept beside it (`Recorded`): for every effect the recorded reads that it has made since its
latest run began, with their answers, in order.  The machine does not see the record.

A *chronicle* is a world with such a record, between two steps (`Chronicle`).
-/

import ReactiveView.Proofs.Derived.Reader
import ReactiveView.Proofs.Live.Endings

namespace ReactiveView
namespace Reactive

open Relation (ReflTransGen)

variable {σ : Type}

/-- What an effect reads in the step to come. -/
def Machine.reading (m : Machine σ) (e : EffectId) : List Reading :=
  match m.focus with
  | .run (.op op _) =>
    if op.entry?.isSome = true ∧ m.world.active = some e ∧ m.world.isLive e = true then
      [⟨op, (m.world.perform op).1⟩]
    else []
  | _ => []

/-- A state of the machine, and what every effect has read since its latest run began. -/
structure Recorded (σ : Type) where
  machine : Machine σ
  logs : EffectId → List Reading

/-- A world, and what every effect has read since its latest run began. -/
structure Chronicle (σ : Type) where
  world : World σ
  logs : EffectId → List Reading

namespace Recorded

open Machine (Starts)

variable {r r' r'' : Recorded σ}

/-- The record goes on to the next state: it is begun anew for an effect whose run begins. -/
def follow (r : Recorded σ) (m : Machine σ) : Recorded σ :=
  ⟨m, fun e => if Starts r.machine m e then [] else r.logs e ++ r.machine.reading e⟩

/-- One step of the machine. -/
def step? (r : Recorded σ) : Option (Recorded σ) := r.machine.step?.map r.follow

/-- Some steps lead from the one state to the other. -/
def Leads (r r' : Recorded σ) : Prop := ReflTransGen (fun r r' => r.step? = some r') r r'

/-- A recorded machine leads to itself, in no step. -/
theorem Leads.refl (r : Recorded σ) : Leads r r := ReflTransGen.refl

/-- What leads on leads there in any number of stretches. -/
theorem Leads.trans (h : Leads r r') (h' : Leads r' r'') : Leads r r'' := ReflTransGen.trans h h'

/-- A step may be put in front of those that follow it. -/
theorem Leads.step (hstep : r.step? = some r') (h : Leads r' r'') : Leads r r'' :=
  ReflTransGen.head hstep h

/-- Where the machine comes to an end does not depend on the way. -/
theorem Leads.unique (h : Leads r r') (h' : Leads r r'') (hend : r'.step? = none)
    (hend' : r''.step? = none) : r' = r'' := by
  have hfixed {a b : Recorded σ} (hleads : Leads a b) (hnone : a.step? = none) : a = b := by
    rcases ReflTransGen.cases_head hleads with rfl | ⟨c, hstep, -⟩
    · rfl
    · exact absurd (hnone.symm.trans hstep) (by simp)
  rcases ReflTransGen.total_of_right_unique
    (fun _ _ _ hb hc => Option.some.inj (hb.symm.trans hc)) h h' with hle | hle
  · exact hfixed hle hend
  · exact (hfixed hle hend').symm

/-- The state after so many steps, or the last one. -/
def run : (count : Nat) → Recorded σ → Recorded σ
  | 0, r => r
  | count + 1, r =>
    match r.step? with
    | some r => run count r
    | none => r

/-- A run of so many steps leads to its last state. -/
theorem leads_run (count : Nat) (r : Recorded σ) : Leads r (r.run count) := by
  induction count generalizing r with
  | zero => exact .refl r
  | succ count ih =>
    rw [run]
    split
    · rename_i r' hstep
      exact .step hstep (ih r')
    · exact .refl r

/-- The machine does the same without a record. -/
theorem Leads.machine (h : Leads r r') : Machine.Leads r.machine r'.machine := by
  induction h with
  | refl => exact .refl _
  | tail _ hstep ih =>
    obtain ⟨m, hm, rfl⟩ := Option.map_eq_some_iff.1 hstep
    exact ih.tail hm

end Recorded

namespace Chronicle

open Recorded (Leads)

variable {s : Chronicle σ} {r : Recorded σ} {w' : World σ} {frames : List (Frame σ)}

/-- The machine has a program before it. -/
def runs (s : Chronicle σ) (program : Program σ) (frames : List (Frame σ)) : Recorded σ :=
  ⟨⟨s.world, .run program, frames⟩, s.logs⟩

/-- The machine has a value for the innermost frame. -/
def gives (s : Chronicle σ) (value : Value) (frames : List (Frame σ)) : Recorded σ :=
  ⟨⟨s.world, .value value, frames⟩, s.logs⟩

/-- The run of an effect has begun: its record is begun anew. -/
def begun (s : Chronicle σ) (id : EffectId) (w : World σ) : Chronicle σ :=
  ⟨w, fun e => if e = id then [] else s.logs e⟩

/-- A step in which nothing is read and no run begins leaves the record as it is. -/
theorem leads_of_quiet {m m' : Machine σ} {logs : EffectId → List Reading}
    (h : Leads ⟨m', logs⟩ r) (hstep : m.step? = some m') (hread : ∀ e, m.reading e = [])
    (hobservers : m'.world.observers.length ≤ m.world.observers.length) :
    Leads ⟨m, logs⟩ r := by
  refine .step ?_ h
  have hnone (e : EffectId) : ¬ Machine.Starts m m' e := by
    intro hstart
    rw [hstart, List.length_cons] at hobservers
    exact absurd hobservers (Nat.not_succ_le_self _)
  simp only [Recorded.step?, hstep, Option.map_some, Recorded.follow, hread, hnone, if_false,
    List.append_nil]

/-- A step in which a run of an effect begins. -/
theorem leads_of_begins {m m' : Machine σ} {logs : EffectId → List Reading} {id : EffectId}
    (h : Leads ⟨m', fun e => if e = id then [] else logs e⟩ r) (hstep : m.step? = some m')
    (hread : ∀ e, m.reading e = [])
    (hobservers : m'.world.observers = some id :: m.world.observers) : Leads ⟨m, logs⟩ r := by
  refine .step ?_ h
  have hstarts (e : EffectId) : Machine.Starts m m' e ↔ e = id := by
    rw [Machine.Starts, hobservers]
    exact ⟨fun hcons => (Option.some.inj (List.cons.inj hcons).1).symm, fun he => by rw [he]⟩
  simp only [Recorded.step?, hstep, Option.map_some, Recorded.follow, hread, hstarts,
    List.append_nil]

/-- What the machine ends with does not depend on the way. -/
theorem eq_of_leads {s' : Chronicle σ} {value value' : Value} (h : Leads r (s.gives value []))
    (h' : Leads r (s'.gives value' [])) : s = s' := by
  have hend := h.unique h' rfl rfl
  simp only [gives, Recorded.mk.injEq, Machine.mk.injEq] at hend
  obtain ⟨⟨hworld, -, -⟩, hlogs⟩ := hend
  cases s
  cases s'
  simp only at hworld hlogs
  rw [hworld, hlogs]

/-! ## Single steps -/

/-- A program that is done gives its value. -/
theorem leads_ret {value : Value} (h : Leads (s.gives value frames) r) :
    Leads (s.runs (.ret value) frames) r :=
  leads_of_quiet h rfl (fun _ => rfl) (Nat.le_refl _)

/-- A value goes to what is bound behind it. -/
theorem leads_bind {value : Value} {next : Value → Program σ}
    (h : Leads (s.runs (next value) frames) r) :
    Leads (s.gives value (.bind next :: frames)) r :=
  leads_of_quiet h rfl (fun _ => rfl) (Nat.le_refl _)

/-- A value leaves the run of an effect, which is taken off the stack. -/
theorem leads_leave {value : Value}
    (h : Leads (gives ⟨{ s.world with observers := s.world.observers.tail }, s.logs⟩ value
      frames) r) :
    Leads (s.gives value (.leave :: frames)) r :=
  leads_of_quiet h rfl (fun _ => rfl) (s.world.observers.tail_sublist.length_le)

/-- A write that changes nothing. -/
theorem leads_write_none {write : Write} {next : Bool → Program σ}
    (hwrite : s.world.write write = none) (h : Leads (s.runs (next false) frames) r) :
    Leads (s.runs (.write write next) frames) r := by
  refine leads_of_quiet h ?_ (fun _ => rfl) (Nat.le_refl _)
  simp only [Machine.step?, Machine.exec, hwrite]

/-- A write that changes something begins a pass. -/
theorem leads_write_some {write : Write} {next : Bool → Program σ} {entries : List Entry}
    (hwrite : s.world.write write = some (w', entries))
    (h : Leads (gives ⟨w', s.logs⟩ .undefined
      (.notify [] entries :: .bind (fun _ => next true) :: frames)) r) :
    Leads (s.runs (.write write next) frames) r := by
  refine leads_of_quiet h ?_ (fun _ => rfl) (Nat.le_of_eq ?_)
  · simp only [Machine.step?, Machine.exec, hwrite]
  · exact congrArg List.length (World.observers_write hwrite)

/-- A pass comes to its next entry. -/
theorem leads_notify_entry {value : Value} {x : Entry} {later : List Entry}
    (h : Leads (s.gives value (.notify (s.world.registry.observers x) later :: frames)) r) :
    Leads (s.gives value (.notify [] (x :: later) :: frames)) r :=
  leads_of_quiet h rfl (fun _ => rfl) (Nat.le_refl _)

/-- A pass is over. -/
theorem leads_notify_done {value : Value} (h : Leads (s.gives value frames) r) :
    Leads (s.gives value (.notify [] [] :: frames)) r :=
  leads_of_quiet h rfl (fun _ => rfl) (Nat.le_refl _)

/-- A pass comes to an effect whose body is running. -/
theorem leads_notify_running {value : Value} {id : EffectId} {now : List EffectId}
    {later : List Entry} (hrunning : s.world.isRunning id = true)
    (h : Leads (s.gives value (.notify now later :: frames)) r) :
    Leads (s.gives value (.notify (id :: now) later :: frames)) r := by
  refine leads_of_quiet h ?_ (fun _ => rfl) (Nat.le_refl _)
  simp [Machine.step?, Machine.resume, hrunning]

/-- A pass comes to a stopped effect. -/
theorem leads_notify_stopped {value : Value} {id : EffectId} {now : List EffectId}
    {later : List Entry} (hbegin : s.world.beginRun id = none)
    (hoff : s.world.isRunning id = false)
    (h : Leads (s.gives .undefined (.notify now later :: frames)) r) :
    Leads (s.gives value (.notify (id :: now) later :: frames)) r := by
  refine leads_of_quiet h ?_ (fun _ => rfl) (Nat.le_refl _)
  simp [Machine.step?, Machine.resume, Machine.runEffect, hoff, hbegin]

/-- A pass comes to a live effect whose body is not running. -/
theorem leads_notify_run {value : Value} {id : EffectId} {now : List EffectId}
    {later : List Entry} {body : Program σ} (hbegin : s.world.beginRun id = some (body, w'))
    (hoff : s.world.isRunning id = false)
    (h : Leads ((s.begun id w').runs body (.leave :: .notify now later :: frames)) r) :
    Leads (s.gives value (.notify (id :: now) later :: frames)) r := by
  refine leads_of_begins h ?_ (fun _ => rfl) (World.observers_beginRun hbegin)
  simp [Machine.step?, Machine.resume, Machine.runEffect, hoff, hbegin, begun]

/-- A live effect is run by name. -/
theorem leads_rerun {id : EffectId} {next : Program σ} {body : Program σ}
    (hbegin : s.world.beginRun id = some (body, w'))
    (h : Leads ((s.begun id w').runs body (.leave :: .bind (fun _ => next) :: frames)) r) :
    Leads (s.runs (.rerun id next) frames) r := by
  refine leads_of_begins h ?_ (fun _ => rfl) (World.observers_beginRun hbegin)
  simp only [Machine.step?, Machine.exec, Machine.runEffect, hbegin, begun]

/-- A stopped effect does nothing when it is run by name. -/
theorem leads_rerun_stopped {id : EffectId} {next : Program σ}
    (hbegin : s.world.beginRun id = none) (h : Leads (s.runs next frames) r) :
    Leads (s.runs (.rerun id next) frames) r := by
  have hbind : Leads (s.gives .undefined (.bind (fun _ => next) :: frames)) r := leads_bind h
  refine leads_of_quiet hbind ?_ (fun _ => rfl) (Nat.le_refl _)
  simp only [Machine.step?, Machine.exec, Machine.runEffect, hbegin]

/-- A new effect begins its first run. -/
theorem leads_effect {body : Program σ} {next : EffectId → Program σ}
    (hbegin : (s.world.newEffect body).2.beginRun (s.world.newEffect body).1 = some (body, w'))
    (h : Leads ((s.begun (s.world.newEffect body).1 w').runs body
      (.leave :: .bind (fun _ => next (s.world.newEffect body).1) :: frames)) r) :
    Leads (s.runs (.effect body next) frames) r := by
  refine leads_of_begins h ?_ (fun _ => rfl) ?_
  · simp only [Machine.step?, Machine.exec, Machine.runEffect, hbegin, begun]
  · exact (World.observers_beginRun hbegin).trans
      (congrArg (some _ :: ·) (World.observers_newEffect body))

/-- An operation that reads nothing. -/
theorem leads_op {op : Op} {next : op.Answer → Program σ} (hentry : op.entry? = none)
    (h : Leads (runs ⟨(s.world.answer op).2, s.logs⟩ (next (s.world.answer op).1) frames) r) :
    Leads (s.runs (.op op next) frames) r := by
  have hperform : s.world.perform op = s.world.answer op := by rw [World.perform, hentry]
  refine leads_of_quiet h ?_ (fun e => ?_) ?_
  · simp only [Machine.step?, Machine.exec, hperform]
  · simp [Machine.reading, hentry]
  · exact Nat.le_of_eq (congrArg List.length (World.observers_answer op))

/-- The active effect reads. -/
theorem leads_read {op : Op} {x : Entry} {next : op.Answer → Program σ} {e : EffectId}
    (hentry : op.entry? = some x) (hactive : s.world.active = some e)
    (hlive : s.world.isLive e = true)
    (h : Leads (runs ⟨s.world.track x, fun e' => if e' = e then
        s.logs e ++ [⟨op, (s.world.answer op).1⟩] else s.logs e'⟩
      (next (s.world.answer op).1) frames) r) :
    Leads (s.runs (.op op next) frames) r := by
  have hrecorded : op.entry?.isSome = true := Option.isSome_iff_exists.2 ⟨x, hentry⟩
  refine .step ?_ h
  have hstep : Machine.step? ⟨s.world, .run (.op op next), frames⟩ =
      some ⟨s.world.track x, .run (next (s.world.answer op).1), frames⟩ := by
    simp only [Machine.step?, Machine.exec, View.perform_answer hrecorded,
      World.perform_of_entry hentry]
  have hnone (e' : EffectId) : ¬ Machine.Starts ⟨s.world, .run (.op op next), frames⟩
      ⟨s.world.track x, .run (next (s.world.answer op).1), frames⟩ e' := by
    intro hstart
    rw [Machine.Starts, World.observers_track] at hstart
    exact absurd hstart.symm (List.cons_ne_self _ _)
  have hreading (e' : EffectId) :
      Machine.reading ⟨s.world, .run (.op op next), frames⟩ e' =
        if e' = e then [⟨op, (s.world.answer op).1⟩] else [] := by
    simp only [Machine.reading, hrecorded, hactive, View.perform_answer hrecorded, true_and,
      Option.some.injEq]
    by_cases he : e' = e
    · subst he
      simp [hlive]
    · simp [he, Ne.symm he]
  simp only [runs, Recorded.step?, hstep, Option.map_some, Recorded.follow, hnone, if_false,
    hreading, Option.some.injEq, Recorded.mk.injEq, true_and]
  funext e'
  by_cases he : e' = e
  · simp [he]
  · simp [he]

end Chronicle
end Reactive
end ReactiveView
