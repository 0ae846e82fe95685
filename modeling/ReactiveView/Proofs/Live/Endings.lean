/-
# Programs that come to an end

One state of the machine *leads* to another by some number of steps (`Machine.Leads`).
A program *ends* in a world if the machine runs it, from nothing else before it, to a
value (`Program.Ends`), and the machine leaves it no choice about the world in which it
does (`Program.Ends.unique`).  It does the same with something left to do after it
(`Program.Ends.leads`), since no step sees the frames below those it is about
(`Machine.step?_above`).  Top-level operations follow one another, each from the world
that the last one left (`EndsEach`).
-/

import Mathlib.Logic.Relation
import ReactiveView.Reactive.Machine

namespace ReactiveView
namespace Reactive

open Relation (ReflTransGen)

variable {σ : Type} {m m' m'' : Machine σ} {w w' w'' : World σ}

namespace Machine

/-- Some steps lead from the one state to the other. -/
def Leads (m m' : Machine σ) : Prop := ReflTransGen (fun m m' => m.step? = some m') m m'

/-- A machine leads to itself, in no step at all. -/
theorem Leads.refl (m : Machine σ) : Leads m m := ReflTransGen.refl

/-- What leads on leads there in any number of stretches. -/
theorem Leads.trans (h : Leads m m') (h' : Leads m' m'') : Leads m m'' := ReflTransGen.trans h h'

/-- A step may be put in front of those that follow it. -/
theorem Leads.step (hstep : m.step? = some m') (h : Leads m' m'') : Leads m m'' :=
  ReflTransGen.head hstep h

/-- A run that can go no further is found with enough steps. -/
theorem Leads.run_eq (h : Leads m m') (hend : m'.step? = none) :
    ∃ count, m.run count = some m' := by
  induction h using ReflTransGen.head_induction_on with
  | refl => exact ⟨1, by simp [run, hend]⟩
  | head hstep _ ih =>
    obtain ⟨count, hcount⟩ := ih
    refine ⟨count + 1, ?_⟩
    rw [run, hstep]
    exact hcount

/-- The number of steps does not matter, once they suffice. -/
theorem run_unique {count count' : Nat} (h : m.run count = some m') (h' : m.run count' = some m'') :
    m' = m'' := by
  induction count generalizing m count' with
  | zero => exact absurd h (by simp [run])
  | succ count ih =>
    cases count' with
    | zero => exact absurd h' (by simp [run])
    | succ count' =>
      simp only [run] at h h'
      cases hstep : m.step? with
      | none =>
        rw [hstep] at h h'
        exact (Option.some.inj h).symm.trans (Option.some.inj h')
      | some next =>
        rw [hstep] at h h'
        exact ih h h'

/-- What a run comes to, it is led to. -/
theorem leads_of_run_eq {count : Nat} (h : m.run count = some m') : Leads m m' := by
  induction count generalizing m with
  | zero => exact absurd h (by simp [run])
  | succ count ih =>
    rw [run] at h
    cases hstep : m.step? with
    | none =>
      rw [hstep] at h
      rw [Option.some.inj h]
      exact .refl m'
    | some next =>
      rw [hstep] at h
      exact .step hstep (ih h)

/-- The state with more to do after it. -/
def above (m : Machine σ) (frames : List (Frame σ)) : Machine σ :=
  { m with frames := m.frames ++ frames }

/-- The beginning of a run does not look below its own frame. -/
theorem runEffect_above (w : World σ) (id : EffectId) (own frames : List (Frame σ)) :
    runEffect w id (own ++ frames) = (runEffect w id own).above frames := by
  unfold runEffect
  split <;> rfl

/-- The first step of a program does not depend on the frames below its own. -/
theorem exec_above (w : World σ) (own frames : List (Frame σ)) (program : Program σ) :
    exec w (own ++ frames) program = (exec w own program).above frames := by
  cases program with
  | write write next =>
    simp only [exec]
    split <;> rfl
  | effect body next =>
    exact runEffect_above (w.newEffect body).2 _ (.bind (fun _ => next _) :: own) frames
  | rerun id next => exact runEffect_above w id (.bind (fun _ => next) :: own) frames
  | call callback argument next =>
    simp only [exec]
    split <;> rfl
  | _ => rfl

/-- A value that comes back looks at one frame. -/
theorem resume_above (w : World σ) (value : Value) (own frames : List (Frame σ))
    (frame : Frame σ) :
    resume w value (own ++ frames) frame = (resume w value own frame).above frames := by
  cases frame with
  | notify now later =>
    rcases now with _ | ⟨id, now⟩
    · cases later <;> rfl
    · simp only [resume]
      split
      · rfl
      · exact runEffect_above w id (.notify now later :: own) frames
  | disposing scopes cleanups =>
    rcases scopes with _ | ⟨child, scopes⟩
    · rcases cleanups with _ | ⟨id | body, cleanups⟩ <;> rfl
    · rfl
  | release s =>
    simp only [resume]
    split <;> rfl
  | _ => rfl

/-- A failure leaves a frame of its own alike, whatever lies below. -/
theorem unwind_above (w : World σ) (message : String) (own frames : List (Frame σ))
    (frame : Frame σ) :
    unwind w message (own ++ frames) frame =
      (unwind w message own frame).map (·.above frames) := by
  cases frame with
  | disposing scopes cleanups =>
    simp only [unwind, above, Option.map_some, List.append_assoc, List.cons_append]
  | release s =>
    simp only [unwind]
    split <;> rfl
  | _ => rfl

/-- **No step sees the frames below.** -/
theorem step?_above (h : m.step? = some m') (frames : List (Frame σ)) :
    (m.above frames).step? = some (m'.above frames) := by
  cases steps_of_step? h with
  | exec w own program => exact congrArg some (exec_above w own frames program)
  | resume w value own frame => exact congrArg some (resume_above w value own frames frame)
  | unwind w message own frame unwinds =>
    show unwind w message (own ++ frames) frame = _
    rw [unwind_above, unwinds]
    rfl

/-- **Any number of steps may be made with more left to do below.** -/
theorem Leads.above (h : Leads m m') (frames : List (Frame σ)) :
    Leads (m.above frames) (m'.above frames) := by
  induction h with
  | refl => exact .refl _
  | tail _ hstep ih => exact ih.trans (.step (step?_above hstep frames) (.refl _))

end Machine

/-- The program runs to a value, and leaves this world. -/
def Program.Ends (program : Program σ) (w w' : World σ) : Prop :=
  ∃ count value, Machine.run count ⟨w, .run program, []⟩ = some ⟨w', .value value, []⟩

/-- A program that leads to a value ends. -/
theorem Program.Ends.of_leads {program : Program σ} {value : Value}
    (h : Machine.Leads ⟨w, .run program, []⟩ ⟨w', .value value, []⟩) : program.Ends w w' := by
  obtain ⟨count, hcount⟩ := h.run_eq rfl
  exact ⟨count, value, hcount⟩

/-- **A program ends in one world at most.** -/
theorem Program.Ends.unique {program : Program σ} (h : program.Ends w w')
    (h' : program.Ends w w'') : w' = w'' := by
  obtain ⟨count, value, hrun⟩ := h
  obtain ⟨count', value', hrun'⟩ := h'
  exact congrArg Machine.world (Machine.run_unique hrun hrun')

/-- A program that ends does not fail. -/
theorem Program.Ends.not_throwing {program : Program σ} {message : String}
    (h : program.Ends w w') :
    ¬ Machine.Leads ⟨w, .run program, []⟩ ⟨w'', .throwing message, []⟩ := by
  intro hthrows
  obtain ⟨count, value, hrun⟩ := h
  obtain ⟨count', hrun'⟩ := hthrows.run_eq rfl
  exact absurd (congrArg Machine.focus (Machine.run_unique hrun hrun')) (by simp)

/-- A program that ends does so with something left to do after it. -/
theorem Program.Ends.leads {program : Program σ} (h : program.Ends w w')
    (frames : List (Frame σ)) :
    ∃ value, Machine.Leads ⟨w, .run program, frames⟩ ⟨w', .value value, frames⟩ := by
  obtain ⟨count, value, hrun⟩ := h
  exact ⟨value, (Machine.leads_of_run_eq hrun).above frames⟩

/-- The programs end one after the other. -/
inductive EndsEach : List (Program σ) → World σ → World σ → Prop
  | nil (w : World σ) : EndsEach [] w w
  | cons {program : Program σ} {rest : List (Program σ)} {w w' w'' : World σ}
      (first : program.Ends w w') (later : EndsEach rest w' w'') :
      EndsEach (program :: rest) w w''

/-- Programs that end one after the other end in one world only. -/
theorem EndsEach.unique {programs : List (Program σ)} (h : EndsEach programs w w')
    (h' : EndsEach programs w w'') : w' = w'' := by
  induction h with
  | nil =>
    cases h'
    rfl
  | cons first _ ih =>
    cases h' with
    | cons first' later' =>
      obtain rfl := first.unique first'
      exact ih later'

/-- What every program keeps, all of them keep; and all end. -/
theorem endsEach_of_keeps {P : World σ → Prop} {programs : List (Program σ)}
    (hkeeps : ∀ program ∈ programs, ∀ w, P w → ∃ w', program.Ends w w' ∧ P w') (hw : P w) :
    ∃ w', EndsEach programs w w' ∧ P w' := by
  induction programs generalizing w with
  | nil => exact ⟨w, .nil w, hw⟩
  | cons program rest ih =>
    obtain ⟨w₁, hends, hw₁⟩ := hkeeps program List.mem_cons_self w hw
    obtain ⟨w', hrest, hw'⟩ := ih (fun p hp => hkeeps p (List.mem_cons_of_mem program hp)) hw₁
    exact ⟨w', .cons hends hrest, hw'⟩

end Reactive
end ReactiveView
