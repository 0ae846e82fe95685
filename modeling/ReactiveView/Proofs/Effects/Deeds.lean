/-
# What a step is about

A step of the machine may be about one effect, which it is to run or to stop
(`Machine.deed?`): the operations on effects are, and so are the frames of a trigger, which
has the observers of an entry before it, and of a disposal, which stops what a scope owns.

`Machine.step_done` says what comes of it (`Deed.Done`).  A run begins, and the effect is
pushed on the stack of observers; or the effect is passed over, because it was stopped or its
body is running; or the effect is stopped.  Steps that are about no effect leave the lives of
all effects as they are, and push none.
-/

import ReactiveView.Proofs.Effects.Arena
import ReactiveView.Proofs.Effects.Runs

namespace ReactiveView
namespace Reactive

variable {σ : Type}

namespace World

variable {w w' : World σ} {e : EffectId}

/-! ## Lives -/

/-- An identity that is spent is not alive, and never will be. -/
theorem isLive_eq_false_of_spent (h : w.effects.Spent e) : w.isLive e = false := by
  rw [isLive, Arena.contains, h.get?]
  rfl

/-- A run of a live effect begins. -/
theorem beginRun_of_isLive (h : w.isLive e = true) : ∃ body w', w.beginRun e = some (body, w') := by
  obtain ⟨effect, heffect⟩ := Arena.contains_eq_true_iff.1 h
  exact ⟨_, _, beginRun_eq_some_iff.2 ⟨effect, heffect, rfl, rfl⟩⟩

/-- No run of a stopped effect begins. -/
theorem beginRun_of_not_isLive (h : w.isLive e = false) : w.beginRun e = none := by
  have hnone : w.effects.get? e = none := by
    simpa [isLive, Arena.contains] using h
  rw [World.beginRun, hnone]

/-- A change of one effect leaves the same effects live. -/
theorem isLive_modify (w : World σ) (id : EffectId) (change : Effect σ → Effect σ)
    (registry : Registry) (observers : List (Option EffectId)) :
    isLive { w with effects := w.effects.modify id change, registry, observers } e =
      w.isLive e := by
  simp only [isLive, Arena.contains, Arena.get?_modify]
  split
  · rename_i he
    rw [he]
    cases w.effects.get? id <;> rfl
  · rfl

/-- Reading neither revives nor kills. -/
theorem isLive_track (entry : Entry) : (w.track entry).isLive e = w.isLive e := by
  rcases w.track_cases entry with htrack | ⟨id, -, htrack⟩ <;> rw [htrack]
  exact w.isLive_modify id _ _ _

/-- An effect is as alive in its run as before. -/
theorem isLive_beginRun {id : EffectId} {body : Program σ}
    (hbegin : w.beginRun id = some (body, w')) : w'.isLive e = w.isLive e := by
  obtain ⟨_, -, rfl, rfl⟩ := beginRun_eq_some_iff.1 hbegin
  exact w.isLive_modify id _ _ _

/-- A stop concerns one effect. -/
theorem isLive_stop (id : EffectId) :
    (w.stop id).isLive e = if e = id then false else w.isLive e := by
  unfold World.stop
  split
  · simp only [isLive, Arena.contains, Arena.get?_remove]
    split <;> rfl
  · rename_i hnone
    split
    · rename_i he
      rw [he, isLive, Arena.contains, hnone]
      rfl
    · rfl

/-- A new effect is alive, and its identity is not one that was. -/
theorem isLive_create (htidy : w.effects.Tidy) (body : Program σ) :
    isLive { w with effects := (w.effects.insert ⟨body, []⟩).2 } e =
      if e = (w.effects.insert ⟨body, []⟩).1 then true else w.isLive e := by
  simp only [isLive, Arena.contains, htidy.get?_insert]
  split <;> rfl

/-- The end of a target stops nobody. -/
theorem isLive_finish (target : Target) (held : Bool) :
    (w.finish target held).isLive e = w.isLive e := by
  rw [isLive, effects_finish, ← isLive]

/-- Of all operations only a stop changes who is alive. -/
theorem isLive_answer {op : Op} (h : ∀ id, op ≠ .stop id) :
    (w.answer op).2.isLive e = w.isLive e := by
  cases op
  case stop id => exact absurd rfl (h id)
  case endCell | letGo => exact isLive_finish _ _
  all_goals rfl

theorem isLive_perform {op : Op} (h : ∀ id, op ≠ .stop id) :
    (w.perform op).2.isLive e = w.isLive e := by
  unfold World.perform
  rw [isLive_answer h]
  split
  · exact isLive_track _
  · rfl

/-- Making an effect brings it to life, and nobody else. -/
theorem isLive_newEffect (htidy : w.effects.Tidy) (body : Program σ) :
    (w.newEffect body).2.isLive e = if e = (w.newEffect body).1 then true else w.isLive e := by
  refine Eq.trans ?_ (isLive_create htidy body)
  unfold newEffect
  simp only
  split <;> rfl

/-- A new effect has an identity that is not spent. -/
theorem fst_newEffect_ne (htidy : w.effects.Tidy) (h : w.effects.Spent e) (body : Program σ) :
    (w.newEffect body).1 ≠ e := by
  rintro rfl
  have hold : (w.effects.insert ⟨body, []⟩).2.get? (w.newEffect body).1 = none :=
    (h.insert ⟨body, []⟩).get?
  have hnew : (w.effects.insert ⟨body, []⟩).2.get? (w.newEffect body).1 = some ⟨body, []⟩ :=
    (htidy.get?_insert ⟨body, []⟩ _).trans (if_pos rfl)
  exact absurd (hold.symm.trans hnew) (by simp)

/-- The first run of a new effect begins. -/
theorem beginRun_newEffect (htidy : w.effects.Tidy) (body : Program σ) :
    ∃ body' w', (w.newEffect body).2.beginRun (w.newEffect body).1 = some (body', w') :=
  beginRun_of_isLive (by rw [isLive_newEffect htidy, if_pos rfl])

/-- To take what a scope owns stops nothing yet; its cleanups do, one by one. -/
theorem effects_takeOwned (s : ScopeId) : (w.takeOwned s).2.2.effects = w.effects := by
  unfold takeOwned
  split <;> rfl

/-- A handle that goes back stops nothing by itself. -/
theorem effects_giveBack (w : World σ) (s : ScopeId) : (w.giveBack s).2.effects = w.effects := by
  unfold giveBack
  split <;> rfl

end World

/-! ## What a step is about -/

/-- To run an effect, or to stop one. -/
inductive Deed where
  | run (id : EffectId)
  | stop (id : EffectId)
  deriving DecidableEq

/-- The effect that is run or stopped. -/
def Deed.subject : Deed → EffectId
  | run id => id
  | stop id => id

/-- The effect that a program begins by running or stopping.  Giving up a computed value
begins by stopping its effect. -/
def Program.deed? (w : World σ) : Program σ → Option Deed
  | .op (.stop id) _ => some (.stop id)
  | .rerun id _ => some (.run id)
  | .effect body _ => some (.run (w.newEffect body).1)
  | _ => none

/-- The effect that a trigger has before it, or that a disposal stops. -/
def Frame.deed? : Frame σ → Option Deed
  | .notify (id :: _) _ => some (.run id)
  | .disposing [] (.stop id :: _) => some (.stop id)
  | _ => none

/-- The effect that the step to come is to run or to stop. -/
def Machine.deed? (m : Machine σ) : Option Deed :=
  match m.focus, m.frames with
  | .run program, _ => program.deed? m.world
  | .value _, frame :: _ => frame.deed?
  | _, _ => none

/-- What a step does to the effects and to the stack of observers, by what it is about. -/
inductive Deed.Done : Option Deed → World σ → World σ → Prop
  /-- The step is about no effect. -/
  | other {w w' : World σ} (live : ∀ e, w'.isLive e = w.isLive e)
      (observers : w'.observers = w.observers ∨ w'.observers = none :: w.observers ∨
        w'.observers = w.observers.tail) : Done none w w'
  | stopped {w : World σ} (id : EffectId) : Done (some (.stop id)) w (w.stop id)
  | begun {w w' : World σ} {id : EffectId} {body : Program σ}
      (begins : w.beginRun id = some (body, w')) : Done (some (.run id)) w w'
  /-- A stopped effect, and one whose body is running, is passed over. -/
  | skipped {w : World σ} {id : EffectId} (h : w.isLive id = false ∨ w.isRunning id = true) :
      Done (some (.run id)) w w
  /-- A new effect begins its first run. -/
  | created {w w' : World σ} {body body' : Program σ}
      (begins : (w.newEffect body).2.beginRun (w.newEffect body).1 = some (body', w')) :
      Done (some (.run (w.newEffect body).1)) w w'

/-- The same effects, and the same stack of observers. -/
theorem Deed.Done.same {w w' : World σ} (effects : w'.effects = w.effects)
    (observers : w'.observers = w.observers) : Done none w w' :=
  .other (fun e => by rw [World.isLive, effects]; rfl) (.inl observers)

namespace Deed.Done

variable {w w' : World σ} {about : Option Deed} {e : EffectId}

/-- The run of an effect begins by a step that is to run it. -/
theorem starts (h : Done about w w') (hstart : w'.observers = some e :: w.observers) :
    about = some (.run e) := by
  have hlonger : w'.observers.length = w.observers.length + 1 := by rw [hstart, List.length_cons]
  cases h with
  | other live observers =>
    rcases observers with hsame | hnone | htail
    · rw [hsame] at hlonger
      omega
    · rw [hnone] at hstart
      exact absurd (List.cons.inj hstart).1 (by simp)
    · rw [htail, List.length_tail] at hlonger
      omega
  | stopped id =>
    rw [World.observers_stop] at hlonger
    omega
  | skipped => omega
  | begun begins =>
    rw [World.observers_beginRun begins] at hstart
    rw [Option.some.inj (List.cons.inj hstart).1]
  | created begins =>
    rw [World.observers_beginRun begins, World.observers_newEffect] at hstart
    rw [Option.some.inj (List.cons.inj hstart).1]

/-- An effect ends by a step that is to stop it. -/
theorem ends (htidy : w.effects.Tidy) (h : Done about w w') (hlive : w.isLive e = true)
    (hend : w'.isLive e = false) : about = some (.stop e) := by
  have hchanged : w'.isLive e ≠ w.isLive e := by simp [hlive, hend]
  cases h with
  | other live observers => exact absurd (live e) hchanged
  | stopped id =>
    rw [World.isLive_stop] at hchanged
    split at hchanged
    · rename_i he
      rw [he]
    · exact absurd rfl hchanged
  | skipped => exact absurd rfl hchanged
  | begun begins => exact absurd (World.isLive_beginRun begins) hchanged
  | created begins =>
    rw [World.isLive_beginRun begins, World.isLive_newEffect htidy] at hend
    split at hend
    · exact absurd hend (by simp)
    · exact absurd hend (by simp [hlive])

/-- A step that is about a dead effect changes nothing. -/
theorem eq_of_spent {deed : Deed} (htidy : w.effects.Tidy) (h : Done (some deed) w w')
    (hspent : w.effects.Spent deed.subject) : w' = w := by
  have hdead := World.isLive_eq_false_of_spent hspent
  cases h with
  | skipped => rfl
  | stopped id =>
    have hnone : w.effects.get? id = none := hspent.get?
    rw [World.stop, hnone]
  | @begun _ _ id body begins =>
    have hnone : w.beginRun id = none := World.beginRun_of_not_isLive hdead
    exact absurd (hnone.symm.trans begins) (by simp)
  | created begins => exact absurd rfl (World.fst_newEffect_ne htidy hspent _)

/-- A step that is to run a live effect does so, unless the body of the effect is running. -/
theorem begins (h : Done (some (.run e)) w w') (hlive : w.isLive e = true) :
    w'.observers = some e :: w.observers ∨ w.isRunning e = true := by
  cases h with
  | begun begins => exact .inl (World.observers_beginRun begins)
  | skipped h => exact .inr (h.resolve_left (by simp [hlive]))
  | created begins =>
    rw [World.observers_beginRun begins, World.observers_newEffect]
    exact .inl rfl

/-- The effects whose bodies run were running before, or a run of theirs has begun. -/
theorem running (h : Done about w w') (hrunning : w'.isRunning e = true) :
    w.isRunning e = true ∨ w'.observers = some e :: w.observers := by
  rw [World.isRunning, List.contains_iff_mem] at hrunning ⊢
  have hcons {id : EffectId} (hobservers : w'.observers = some id :: w.observers) :
      some e ∈ w.observers ∨ w'.observers = some e :: w.observers := by
    rw [hobservers] at hrunning ⊢
    rcases List.mem_cons.1 hrunning with hid | hmem
    · exact .inr (by rw [hid])
    · exact .inl hmem
  cases h with
  | other live observers =>
    refine .inl ?_
    rcases observers with hsame | hnone | htail
    · exact hsame ▸ hrunning
    · rw [hnone] at hrunning
      exact (List.mem_cons.1 hrunning).resolve_left (by simp)
    · rw [htail] at hrunning
      exact List.mem_of_mem_tail hrunning
  | stopped id =>
    rw [World.observers_stop] at hrunning
    exact .inl hrunning
  | skipped => exact .inl hrunning
  | begun begins => exact hcons (World.observers_beginRun begins)
  | created begins =>
    have hobservers := World.observers_beginRun begins
    rw [World.observers_newEffect] at hobservers
    exact hcons hobservers

end Deed.Done

namespace Machine

open Deed (Done)

variable {m m' : Machine σ}

/-- **What has its turn is run, or passed over** for one of two reasons. -/
theorem runEffect_done (w : World σ) (id : EffectId) (frames : List (Frame σ)) :
    Done (some (.run id)) w (runEffect w id frames).world := by
  unfold runEffect
  by_cases hlive : w.isLive id = true
  · obtain ⟨body, w', hbegin⟩ := World.beginRun_of_isLive hlive
    rw [hbegin]
    exact .begun hbegin
  · rw [Bool.not_eq_true] at hlive
    rw [World.beginRun_of_not_isLive hlive]
    exact .skipped (.inl hlive)

/-- Taking out what a scope owns is about no effect. -/
theorem disposeOwned_done (w w' : World σ) (effects : w'.effects = w.effects)
    (observers : w'.observers = w.observers) (s : ScopeId) (frames : List (Frame σ)) :
    Done none w (disposeOwned w' s frames).world :=
  .same ((World.effects_takeOwned s).trans effects) ((World.observers_takeOwned s).trans observers)

/-- A handle of a scope is given back, and the last one disposes the scope. -/
theorem release_done {w w' : World σ} {s : ScopeId} {last : Bool}
    (h : w.giveBack s = (last, w')) (frames : List (Frame σ)) :
    Done none w w' ∧ Done none w (disposeOwned w' s frames).world := by
  have effects := w.effects_giveBack s
  have observers := w.observers_giveBack s
  rw [h] at effects observers
  exact ⟨.same effects observers, disposeOwned_done w w' effects observers s frames⟩

/-- **The first step of a program does what it is about.** -/
theorem exec_done (w : World σ) (htidy : w.effects.Tidy) (frames : List (Frame σ))
    (program : Program σ) : Done (program.deed? w) w (exec w frames program).world := by
  cases program with
  | op op next =>
    by_cases hstop : ∃ id, op = .stop id
    · obtain ⟨id, rfl⟩ := hstop
      exact .stopped id
    · have hne : ∀ id, op ≠ .stop id := fun id h => hstop ⟨id, h⟩
      have hdeed : (Program.op op next).deed? w = none := by
        cases op <;> first | rfl | exact absurd rfl (hne _)
      rw [hdeed]
      exact .other (fun e => World.isLive_perform hne) (.inl (World.observers_perform op))
  | write write next =>
    simp only [exec]
    split
    · rename_i w' entries hwrite
      have heffects : w'.effects = w.effects := by
        rcases World.write_cases hwrite with ⟨o, table, rfl⟩ | ⟨c, old, value, -, rfl⟩ <;> rfl
      exact .same heffects (World.observers_write hwrite)
    · exact .same rfl rfl
  | effect body next =>
    obtain ⟨body', w', hbegin⟩ := World.beginRun_newEffect htidy body
    simp only [exec, runEffect, hbegin]
    exact .created hbegin
  | rerun id next => exact runEffect_done w id _
  | untracked body next => exact .other (fun _ => rfl) (.inr (.inl rfl))
  | dispose s next => exact disposeOwned_done w (w.hold s) rfl rfl s _
  | call callback argument next =>
    simp only [exec]
    split <;> exact .same rfl rfl
  | _ => exact .same rfl rfl

/-- **So does a value that comes back to a frame**: it may be a trigger with another observer
before it, or a disposal with an effect to stop. -/
theorem resume_done (w : World σ) (value : Value) (frames : List (Frame σ)) (frame : Frame σ) :
    Done frame.deed? w (resume w value frames frame).world := by
  cases frame with
  | leave => exact .other (fun _ => rfl) (.inr (.inr rfl))
  | notify now later =>
    cases now with
    | nil => cases later <;> exact .same rfl rfl
    | cons id now =>
      simp only [resume]
      split
      · rename_i hrunning
        exact .skipped (.inr hrunning)
      · exact runEffect_done w id _
  | disposing scopes cleanups =>
    cases scopes with
    | cons child scopes => exact disposeOwned_done w w rfl rfl child _
    | nil =>
      rcases cleanups with _ | ⟨id | body, cleanups⟩
      · exact .same rfl rfl
      · exact .stopped id
      · exact .same rfl rfl
  | release s =>
    simp only [resume]
    split <;> rename_i w' hback
    · exact (release_done hback _).2
    · exact (release_done hback []).1
  | _ => exact .same rfl rfl

/-- A failure is about no effect. It takes frames off, and what these own is disposed in later
steps. -/
theorem unwind_done (w : World σ) (message : String) (frames : List (Frame σ)) (frame : Frame σ)
    (h : unwind w message frames frame = some m') : Done none w m'.world := by
  cases frame with
  | leave =>
    obtain rfl := Option.some.inj h
    exact .other (fun _ => rfl) (.inr (.inr rfl))
  | release s =>
    simp only [unwind] at h
    split at h <;> rename_i w' hback <;> obtain rfl := Option.some.inj h
    · exact (release_done hback _).2
    · exact (release_done hback []).1
  | rethrow message => exact absurd h (by simp [unwind])
  | _ =>
    obtain rfl := Option.some.inj h
    exact .same rfl rfl

/-- **What a step does to effects is what it is about.** -/
theorem step_done (htidy : m.world.effects.Tidy) (h : m.step? = some m') :
    Done m.deed? m.world m'.world := by
  cases steps_of_step? h with
  | exec w frames program => exact exec_done w htidy frames program
  | resume w value frames frame => exact resume_done w value frames frame
  | unwind w message frames frame unwinds => exact unwind_done w message frames frame unwinds

end Machine
end Reactive
end ReactiveView
