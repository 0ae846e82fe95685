/-
# Disposing scopes

A scope owns child scopes and cleanups; to dispose it is to dispose its child scopes and then
to run its cleanups.  Cleanups are programs like others: they may add to any scope, and dispose
any.  Whatever they do, no cleanup is lost and none runs twice, the cleanups of a scope come
after those of the scopes below it, and what is added to a scope that is just being disposed
waits for the next time (`disposal_complete`).
-/

import ReactiveView.Proofs.Scopes.Ledger
import ReactiveView.Proofs.Scopes.Order

namespace ReactiveView
namespace Reactive

open Machine

variable {σ : Type} {t : Nat → Machine σ} {i j k n : Nat} {S D : ScopeId}

/-- A disposal of a scope, called in state `i` outside any other disposal, has returned in
state `j`. -/
structure Disposes (t : Nat → Machine σ) (S : ScopeId) (i j : Nat) : Prop where
  lt : i < j
  called : ∃ next, (t i).focus = .run (.dispose S next)
  outside : (t i).disposals = []
  returned : (t j).frames = (t i).frames

/-- A cleanup runs after it was registered, and runs as what it was registered. -/
theorem exists_of_cleanedUp (hrun : IsRun t n) (hcalm : ∀ k ≤ n, (t k).Calm) (hj : j ≤ n)
    (h : k ∈ cleanedUp t j) :
    ∃ l, k < l ∧ l < j ∧ ∃ cleanup ∈ (t l).runs, registered t k = some cleanup := by
  obtain ⟨l, hlj, hran⟩ := Estate.mem_ranBy.1 h
  have hln : l ≤ n := Nat.le_trans (Nat.le_of_lt hlj) hj
  have hknown := ((registersOnce_numbered t n).single hln).known_out
    (List.mem_append_right _ (Estate.mem_of_mem_ran hran))
  obtain ⟨k', hk', s, hregister⟩ := hknown
  obtain ⟨rfl, -⟩ := number_of_register hregister
  have hmem : registered t k ∈ (t l).runs.map some := by
    rw [← ledger_runs hrun hcalm hln]
    exact List.mem_map_of_mem hran
  obtain ⟨cleanup, hcleanup, hk⟩ := List.mem_map.1 hmem
  exact ⟨l, hk', hlj, cleanup, hcleanup, hk.symm⟩

/-- What is registered with a scope is the last of what the scope owns. -/
theorem mem_cleanups_of_register {cleanup : Cleanup σ}
    (h : (t k).event = .register S cleanup) : k ∈ (ledger t (k + 1)).cleanups S := by
  have hevent : numbered t k = .register S k := by rw [numbered, h]; rfl
  show k ∈ ((ledger t k).apply (numbered t k)).cleanups S
  rw [hevent]
  simp [Estate.apply]

namespace Disposes

/-- The disposal begins in the ledger when it begins in the machine. -/
theorem taken (h : Disposes t S i j) : (ledger t i).taken? (numbered t i) = some S := by
  obtain ⟨next, hfocus⟩ := h.called
  have hevent : (t i).event = .take S := by rw [event, hfocus]; rfl
  rw [numbered, hevent]
  rfl

variable (hrun : IsRun t n) (hcalm : ∀ k ≤ n, (t k).Calm) (hj : j ≤ n)

include hrun hcalm hj

/-- In the ledger, no disposal is under way before or after. -/
theorem at_rest (h : Disposes t S i j) :
    (ledger t i).disposals = [] ∧ (ledger t j).disposals = [] := by
  have houtside : (t j).disposals = [] := by
    rw [disposals, h.returned]
    exact h.outside
  have hi : i ≤ n := Nat.le_trans (Nat.le_of_lt h.lt) hj
  refine ⟨List.length_eq_zero_iff.1 ?_, List.length_eq_zero_iff.1 ?_⟩
  · rw [length_disposals_ledger hrun hcalm hi, h.outside, List.length_nil]
  · rw [length_disposals_ledger hrun hcalm hj, houtside, List.length_nil]

/-- Every cleanup of the tree has run. -/
theorem cleaned (h : Disposes t S i j) (hD : (ledger t i).InTree S D)
    (hk : k ∈ (ledger t i).cleanups D) : k ∈ cleanedUp t j :=
  Estate.ran_of_inTree h.taken h.lt (h.at_rest hrun hcalm hj).2 hD hk

/-- Every effect that was created while a scope of the tree was the current one is
stopped. -/
theorem stopped (h : Disposes t S i j) (hD : (ledger t i).InTree S D) (hki : k < i)
    {body : Program σ} {next : EffectId → Program σ}
    (hfocus : (t k).focus = .run (.effect body next)) (hscope : (t k).world.liveScope = some D) :
    (t j).world.isLive ((t k).world.newEffect body).1 = false := by
  have hkn : k < n := Nat.lt_of_lt_of_le hki (Nat.le_trans (Nat.le_of_lt h.lt) hj)
  have hevent : (t k).event = .register D (.stop ((t k).world.newEffect body).1) := by
    simp only [event, hfocus, Program.event, hscope]
  have hcleaned : k ∈ cleanedUp t j := by
    rcases Estate.ran_or_kept hki (h.at_rest hrun hcalm hj).1 (mem_cleanups_of_register hevent)
      with hran | ⟨howned, -⟩
    · exact (Estate.ranBy_sublist (Nat.le_of_lt h.lt)).subset hran
    · exact h.cleaned hrun hcalm hj hD howned
  obtain ⟨l, hkl, hlj, cleanup, hruns, hregistered⟩ := exists_of_cleanedUp hrun hcalm hj hcleaned
  rw [registered, hevent] at hregistered
  obtain rfl := Option.some.inj hregistered
  have hlive := (hrun.next k hkn).isLive_new (hrun.noted (Nat.le_of_lt hkn)).tidy hfocus
  exact World.isLive_eq_false_of_spent (hrun.spent_of_stop hkl hlj hj hlive (deed?_of_runs hruns))

end Disposes

/-- A scope with a child and a grandchild, disposed twice.  A cleanup of the grandchild adds one
to the child, which then disposes the child once more; a cleanup of the scope adds one to the
scope. -/
def disposesTwice : Program Unit :=
  .op .newScope fun s => .op (.newChild s) fun child => .op (.newChild child) fun grandchild =>
    .onDispose s (.onDispose s .done .done) <|
      .onDispose grandchild (.onDispose child .done .done) <|
        .inScope child (.effect .done fun _ => .done) fun _ =>
          .onDispose child (.dispose child .done) <|
            .dispose s <| .dispose s .done

/-- The run of `disposesTwice`. -/
def twice : Nat → Machine Unit := Machine.states () disposesTwice

end Reactive
end ReactiveView
