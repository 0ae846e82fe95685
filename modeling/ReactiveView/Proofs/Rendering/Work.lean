/-
# Work that succeeds

Rendering is work on the document that may fail.  `Runs work d a d'` says that the work
succeeds: from the document `d` it leads to `d'` and answers `a`, and to nothing else
(`Runs.unique`).
-/

import ReactiveView.View.Render

namespace ReactiveView
namespace View

variable {α β : Type} {d d' d'' : Document}

/-- The work succeeds. -/
def Runs (work : Work α) (d : Document) (a : α) (d' : Document) : Prop :=
  work.run.run d = (.ok a, d')

namespace Runs

/-- Work without an effect. -/
theorem pure (a : α) (d : Document) : Runs (Pure.pure a) d a d := rfl

/-- Two pieces of work, one after the other, run as one. -/
theorem bind {work : Work α} {next : α → Work β} {a : α} {b : β} (h : Runs work d a d')
    (h' : Runs (next a) d' b d'') : Runs (work >>= next) d b d'' := by
  unfold Runs at h h' ⊢
  simp only [ExceptT.run_bind, StateT.run_bind, h]
  exact h'

/-- The answer may be worked over. -/
theorem map {work : Work α} {a : α} (f : α → β) (h : Runs work d a d') :
    Runs (f <$> work) d (f a) d' := by
  unfold Runs at h ⊢
  simp only [ExceptT.run_map, StateT.run_map, h]
  rfl

/-- Work has one outcome. -/
theorem unique {work : Work α} {a a' : α} (h : Runs work d a d') (h' : Runs work d a' d'') :
    a = a' ∧ d' = d'' := by
  unfold Runs at h h'
  rw [h] at h'
  obtain ⟨ha, hd⟩ := Prod.mk.inj h'
  exact ⟨Except.ok.inj ha, hd⟩

/-- If work in two steps succeeds, each step does. -/
theorem of_bind {work : Work α} {next : α → Work β} {b : β} (h : Runs (work >>= next) d b d'') :
    ∃ a d', Runs work d a d' ∧ Runs (next a) d' b d'' := by
  unfold Runs at h ⊢
  simp only [ExceptT.run_bind, StateT.run_bind] at h
  cases hwork : work.run.run d with
  | mk result d' =>
    simp only [hwork] at h
    cases result with
    | ok a => exact ⟨a, d', rfl, h⟩
    | error error =>
      have hfailed : (Except.error error : Except RenderError β) = .ok b := congrArg Prod.fst h
      exact absurd hfailed (by simp)

/-- Such an answer comes from the answer of the work. -/
theorem of_map {work : Work α} {f : α → β} {b : β} (h : Runs (f <$> work) d b d') :
    ∃ a, Runs work d a d' ∧ b = f a := by
  rw [map_eq_pure_bind] at h
  obtain ⟨a, d₁, hruns, hpure⟩ := h.of_bind
  obtain ⟨rfl, rfl⟩ := hpure.unique (.pure _ _)
  exact ⟨a, hruns, rfl⟩

/-- A change of the document answers nothing. -/
theorem change (f : Document → Document) (d : Document) : Runs (Work.change f) d () (f d) := rfl

/-- What makes a node answers its identity. -/
theorem create (f : Document → NodeId × Document) (d : Document) :
    Runs (Work.create f) d (f d).1 (f d).2 := rfl

/-- Work for no items does nothing. -/
theorem nil (work : α → Work Unit) (d : Document) : Runs ([].forM work) d () d := rfl

/-- A list of work is done from the front. -/
theorem cons {work : α → Work Unit} {a : α} {rest : List α} (h : Runs (work a) d () d')
    (h' : Runs (rest.forM work) d' () d'') : Runs ((a :: rest).forM work) d () d'' :=
  h.bind h'

end Runs
end View
end ReactiveView
