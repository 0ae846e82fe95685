/-
# Stopped effects

An effect is stopped by an operation, by the disposal of a scope that owns it, or with the
computed value that it belongs to.  That can happen anywhere: at the top level, while a
trigger has the effect still before it, and in its own body, with reads to come.  From then
on the effect is dead (`dead_for_ever`): no run of it begins, it is registered nowhere, and a
step that is about it changes nothing, so it does no harm to the effect that gets its place
in the arena.

Two properties of states carry this, and every step keeps them.  The identity of a stopped
effect is *spent*, so that it never leads anywhere again (`Arena.Spent`).  And whoever is
registered at an entry is live and has noted it (`World.Noted`), also at the entries of targets
that have ended; so a dead effect is at none.

Which effect a step is about is said by `Machine.deed?`, and what such a step does by
`Deed.Done`.
-/

import ReactiveView.Proofs.Effects.Deeds
import ReactiveView.Proofs.Effects.Updates

namespace ReactiveView
namespace Reactive

variable {σ : Type}

namespace World

variable {w w' : World σ} {e : EffectId}

/-! ## Registrations of live effects -/

/-- Whoever is registered is live and has noted the entry. -/
structure Noted (w : World σ) : Prop where
  tidy : w.effects.Tidy
  noted : ∀ x id, id ∈ w.registry.observers x →
    ∃ effect, w.effects.get? id = some effect ∧ x ∈ effect.entries

/-- At the beginning nobody is registered. -/
theorem noted_start (host : σ) : (start host).Noted where
  tidy := Arena.tidy_empty
  noted _ _ h := absurd h List.not_mem_nil

/-- A dead effect is registered nowhere. -/
theorem Noted.not_mem (h : w.Noted) (hdead : w.isLive e = false) (x : Entry) :
    e ∉ w.registry.observers x := by
  intro hmem
  obtain ⟨effect, heffect, -⟩ := h.noted x e hmem
  rw [isLive, Arena.contains, heffect] at hdead
  exact absurd hdead (by simp)

/-- Who reads is registered and notes it. -/
theorem Noted.track (h : w.Noted) (entry : Entry) : (w.track entry).Noted := by
  rcases w.track_cases entry with htrack | ⟨id, ⟨-, hlive, -⟩, htrack⟩ <;> rw [htrack]
  · exact h
  obtain ⟨effect, heffect⟩ := Arena.contains_eq_true_iff.1 hlive
  refine ⟨h.tidy.modify id _, ?_⟩
  intro x id' hmem
  rw [Registry.register, Registry.observers_update] at hmem
  have hcases : (id' = id ∧ entry = x) ∨ id' ∈ w.registry.observers x := by
    split at hmem
    · rename_i hx
      exact (Registry.mem_insertId.1 hmem).imp_left fun hid => ⟨hid, hx⟩
    · exact .inr hmem
  rw [Arena.get?_modify]
  by_cases hid : id' = id
  · subst hid
    refine ⟨{ effect with entries := entry :: effect.entries }, by simp [heffect], ?_⟩
    rcases hcases with ⟨-, rfl⟩ | hmem
    · exact List.mem_cons_self
    · obtain ⟨effect', heffect', hx⟩ := h.noted x id' hmem
      obtain rfl := Option.some.inj (heffect.symm.trans heffect')
      exact List.mem_cons_of_mem _ hx
  · rw [if_neg hid]
    exact h.noted x id' (hcases.resolve_left fun hnew => hid hnew.1)

/-- After an effect has left the entries that it noted, the others are registered as
before, and it is registered nowhere. -/
theorem Noted.unregisterAll (h : w.Noted) {id id' : EffectId} {effect : Effect σ} {x : Entry}
    (heffect : w.effects.get? id = some effect)
    (hmem : id' ∈ (w.registry.unregisterAll id effect.entries).observers x) :
    id' ≠ id ∧ ∃ effect', w.effects.get? id' = some effect' ∧ x ∈ effect'.entries := by
  obtain ⟨hmem, hnot⟩ := (Registry.mem_observers_unregisterAll _ _).1 hmem
  obtain ⟨effect', heffect', hx⟩ := h.noted x id' hmem
  refine ⟨?_, effect', heffect', hx⟩
  rintro rfl
  obtain rfl := Option.some.inj (heffect.symm.trans heffect')
  exact hnot ⟨rfl, hx⟩

/-- A stopped effect is taken out wherever it is registered. -/
theorem Noted.stop (h : w.Noted) (id : EffectId) : (w.stop id).Noted := by
  unfold World.stop
  split
  case h_2 => exact h
  case h_1 effect heffect =>
    refine ⟨h.tidy.remove id, ?_⟩
    intro x id' hmem
    obtain ⟨hne, effect', heffect', hx⟩ := h.unregisterAll heffect hmem
    exact ⟨effect', by rw [Arena.get?_remove, if_neg hne, heffect'], hx⟩

/-- A new effect is registered nowhere, and those that are have other identities. -/
theorem Noted.create (h : w.Noted) (body : Program σ) :
    Noted { w with effects := (w.effects.insert ⟨body, []⟩).2 } where
  tidy := h.tidy.insert _
  noted x id hmem := by
    obtain ⟨effect, heffect, hx⟩ := h.noted x id hmem
    have hne : id ≠ (w.effects.insert ⟨body, []⟩).1 := by
      intro hid
      rw [hid, h.tidy.get?_insert_fst] at heffect
      exact absurd heffect (by simp)
    exact ⟨effect, by rw [h.tidy.get?_insert, if_neg hne, heffect], hx⟩

/-- The list of an effect is cleared together with its registrations. -/
theorem Noted.beginRun {id : EffectId} {body : Program σ} (h : w.Noted)
    (hbegin : w.beginRun id = some (body, w')) : w'.Noted := by
  obtain ⟨effect, heffect, rfl, rfl⟩ := beginRun_eq_some_iff.1 hbegin
  refine ⟨h.tidy.modify id _, ?_⟩
  intro x id' hmem
  obtain ⟨hne, effect', heffect', hx⟩ := h.unregisterAll heffect hmem
  exact ⟨effect', by rw [Arena.get?_modify, if_neg hne, heffect'], hx⟩

/-- Only registrations and effects are looked at. -/
theorem Noted.of_same (h : w.Noted) (registry : w'.registry = w.registry)
    (effects : w'.effects = w.effects) : w'.Noted :=
  ⟨effects ▸ h.tidy, by rw [registry, effects]; exact h.noted⟩

/-- **Every change keeps who is registered noted.** -/
theorem kept_noted : Kept fun w : World σ => w.Noted where
  rest registry effects _ _ h := h.of_same registry effects
  track entry h := h.track entry
  stop id h := h.stop id
  create body h := h.create body
  ends target _ h := by
    refine ⟨(effects_endTarget target).symm ▸ h.tidy, ?_⟩
    intro x id hmem
    rw [registry_endTarget, Registry.observers_forget] at hmem
    rw [effects_endTarget]
    split at hmem
    · exact absurd hmem List.not_mem_nil
    · exact h.noted x id hmem
  beginRun hbegin h := h.beginRun hbegin

/-! ## Lives -/

/-- The effect has been created. -/
def Knows (w : World σ) (e : EffectId) : Prop := w.isLive e = true ∨ w.effects.Spent e

/-- A stopped effect is spent. -/
theorem spent_stop (h : w.isLive e = true) : (w.stop e).effects.Spent e := by
  obtain ⟨effect, heffect⟩ := Arena.contains_eq_true_iff.1 h
  rw [World.stop, heffect]
  exact Arena.spent_remove h

/-- An effect that has been created is live or was stopped. -/
theorem kept_knows : Kept fun w : World σ => w.Noted ∧ w.Knows e where
  rest registry effects _ _ h := by
    refine ⟨h.1.of_same registry effects, ?_⟩
    rw [Knows, isLive, effects]
    exact h.2
  track entry h := by
    refine ⟨h.1.track entry, ?_⟩
    exact h.2.imp (isLive_track entry).trans (kept_spent.track entry)
  stop id h := by
    refine ⟨h.1.stop id, ?_⟩
    rcases h.2 with hlive | hspent
    · by_cases he : e = id
      · subst he
        exact .inr (spent_stop hlive)
      · exact .inl (by rw [isLive_stop, if_neg he, hlive])
    · exact .inr (kept_spent.stop id hspent)
  create body h := by
    refine ⟨h.1.create body, ?_⟩
    refine h.2.imp (fun hlive => ?_) (kept_spent.create body)
    rw [isLive_create h.1.tidy]
    split
    · rfl
    · exact hlive
  ends target has h := by
    refine ⟨kept_noted.ends target has h.1, ?_⟩
    rw [Knows, isLive, effects_endTarget]
    exact h.2
  beginRun hbegin h :=
    ⟨h.1.beginRun hbegin, h.2.imp (isLive_beginRun hbegin).trans (kept_spent.beginRun hbegin)⟩

end World

namespace Machine

open Deed (Done)

variable {m m' : Machine σ} {e : EffectId}

/-! ## Along a run -/

/-- **A step does what it is about**, and so does the beginning of an operation, which is about
nothing. -/
theorem Next.done (htidy : m.world.effects.Tidy) (h : Next m m') :
    Done m.deed? m.world m'.world := by
  cases h with
  | step step => exact step_done htidy step
  | begin | recover => exact .same rfl rfl

namespace IsRun

variable {t : Nat → Machine σ} {i j n : Nat}

/-- In every state of a run whoever is registered is live and has noted it. -/
theorem noted (hrun : IsRun t n) (hj : j ≤ n) : (t j).world.Noted := by
  obtain ⟨host, hhost⟩ := hrun.start
  refine hrun.keeps World.kept_noted (Nat.zero_le j) hj ?_
  rw [hhost]
  exact World.noted_start host

/-- An effect that was created stays known, alive or spent. -/
theorem knows (hrun : IsRun t n) (hij : i ≤ j) (hj : j ≤ n)
    (hi : (t i).world.Knows e) : (t j).world.Knows e :=
  (hrun.keeps World.kept_knows hij hj ⟨hrun.noted (Nat.le_trans hij hj), hi⟩).2

/-- In a run every step does what it is about. -/
theorem done (hrun : IsRun t n) (hj : j < n) :
    Done (t j).deed? (t j).world (t (j + 1)).world :=
  (hrun.next j hj).done (hrun.noted (Nat.le_of_lt hj)).tidy

/-- A run of an effect that is running has begun. -/
theorem started (hrun : IsRun t n) (hj : j ≤ n) (hrunning : (t j).world.isRunning e = true) :
    ∃ l < j, Starts (t l) (t (l + 1)) e := by
  induction j with
  | zero =>
    obtain ⟨host, hhost⟩ := hrun.start
    rw [hhost] at hrunning
    exact absurd hrunning (by simp [Machine.start, World.start, World.isRunning])
  | succ j ih =>
    rcases (hrun.done hj).running hrunning with hbefore | hstarts
    · obtain ⟨l, hl, hstarts⟩ := ih (Nat.le_of_succ_le hj) hbefore
      exact ⟨l, Nat.lt_succ_of_lt hl, hstarts⟩
    · exact ⟨j, Nat.lt_succ_self j, hstarts⟩

/-- Once a step has stopped an effect, its identity is spent. -/
theorem spent_of_stop (hrun : IsRun t n) {k : Nat} (hik : i ≤ k) (hkj : k < j) (hj : j ≤ n)
    (hlive : (t i).world.isLive e = true) (hstop : (t k).deed? = some (.stop e)) :
    (t j).world.effects.Spent e := by
  have hk : k < n := Nat.lt_of_lt_of_le hkj hj
  have hknows : (t (k + 1)).world.Knows e := hrun.knows (Nat.le_succ_of_le hik) hk (.inl hlive)
  have hdead : (t (k + 1)).world.isLive e = false := by
    have hdone := hrun.done hk
    rw [hstop] at hdone
    generalize (t (k + 1)).world = w' at hdone ⊢
    cases hdone
    rw [World.isLive_stop, if_pos rfl]
  have hspent : (t (k + 1)).world.effects.Spent e := hknows.resolve_left (by simp [hdead])
  exact hrun.keeps World.kept_spent hkj hj hspent

end IsRun
end Machine

open Machine

/-- **A stopped effect is dead for ever.**  Take a run of any program and a step of it that
stops an effect, by whatever operation, disposal or loss of a computed value, and wherever.
In every later state the effect is not live and is registered nowhere.  Whatever comes next,
no run of it begins, and a step that is about it changes nothing; no new effect gets its
identity.  And every other effect, one in the same place of the arena included, is run and
stopped only by steps that are about itself; a step that is to run it does so while it is
live, unless its own body is running. -/
theorem dead_for_ever {t : Nat → Machine σ} {i k n : Nat} {e : EffectId} (hrun : IsRun t n)
    (hik : i ≤ k) (hlive : (t i).world.isLive e = true)
    (hstop : (t k).deed? = some (.stop e)) :
    ∀ j, k < j → j ≤ n →
      (t j).world.isLive e = false ∧ (∀ x, e ∉ (t j).world.registry.observers x) ∧
      (∀ body, ((t j).world.newEffect body).1 ≠ e) ∧
      ∀ m, Next (t j) m →
        ¬ Starts (t j) m e ∧
        (∀ deed, (t j).deed? = some deed → deed.subject = e → m.world = (t j).world) ∧
        ∀ e' ≠ e,
          (Starts (t j) m e' → (t j).deed? = some (.run e')) ∧
          ((t j).world.isLive e' = true → m.world.isLive e' = false →
            (t j).deed? = some (.stop e')) ∧
          ((t j).deed? = some (.run e') → (t j).world.isLive e' = true →
            Starts (t j) m e' ∨
              (t j).world.isRunning e' = true ∧ ∃ l < j, Starts (t l) (t (l + 1)) e') := by
  intro j hkj hj
  have hspent := hrun.spent_of_stop hik hkj hj hlive hstop
  have hdead := World.isLive_eq_false_of_spent hspent
  have hnoted := hrun.noted hj
  refine ⟨hdead, hnoted.not_mem hdead, World.fst_newEffect_ne hnoted.tidy hspent, ?_⟩
  intro m hnext
  have hdone := hnext.done hnoted.tidy
  have hnothing : ∀ deed, (t j).deed? = some deed → deed.subject = e → m.world = (t j).world := by
    rintro deed hdeed rfl
    rw [hdeed] at hdone
    exact hdone.eq_of_spent hnoted.tidy hspent
  refine ⟨?_, hnothing, fun e' _ => ⟨hdone.starts, hdone.ends hnoted.tidy, ?_⟩⟩
  · intro hstarts
    have hsame := hnothing _ (hdone.starts hstarts) rfl
    rw [Starts, hsame] at hstarts
    exact List.cons_ne_self _ _ hstarts.symm
  · intro hdeed hlive'
    rw [hdeed] at hdone
    refine (hdone.begins hlive').imp_right fun hrunning => ?_
    exact ⟨hrunning, hrun.started hj hrunning⟩

/-- An effect that reads a cell, stops itself, creates another effect that reads the cell,
and then writes the cell. -/
def givesItsPlace : Program Unit :=
  .op (.newCell .null) fun c =>
    .effect
      (.op (.load c) fun _ => .op (.stop ⟨0, 0⟩) fun _ =>
        .effect (.op (.load c) fun _ => .done) fun _ =>
          .write (.store c (.bool true)) fun _ => .op (.load c) fun _ => .done)
      fun _ => .done

/-- The hypotheses of `dead_for_ever` are met by the run of `givesItsPlace`, which stops its
first effect in state 4.  In state 12 the body of that effect is still running, and the
trigger has the second effect before it, in the same place of the arena: it runs. -/
theorem dead_for_ever_givesItsPlace :
    (Machine.states () givesItsPlace 3).world.isLive ⟨0, 0⟩ = true ∧
      (Machine.states () givesItsPlace 4).deed? = some (.stop ⟨0, 0⟩) ∧
      (Machine.states () givesItsPlace 12).world.isLive ⟨0, 0⟩ = false ∧
      ⟨0, 0⟩ ∉ (Machine.states () givesItsPlace 12).world.registry.observers (.cell ⟨0⟩) ∧
      Starts (Machine.states () givesItsPlace 12) (Machine.states () givesItsPlace 13) ⟨0, 1⟩ := by
  have hgoes : ∀ k < 13, 0 < k → (Machine.states () givesItsPlace k).GoesOn := by decide
  have hrun : IsRun (Machine.states () givesItsPlace) 13 := Machine.isRun_states hgoes
  have hlive : (Machine.states () givesItsPlace 3).world.isLive ⟨0, 0⟩ = true := by decide
  have hstop : (Machine.states () givesItsPlace 4).deed? = some (.stop ⟨0, 0⟩) := by decide
  obtain ⟨hdead, hnowhere, -, hafter⟩ :=
    dead_for_ever hrun (by decide) hlive hstop 12 (by decide) (by decide)
  obtain ⟨-, -, hother⟩ := hafter _ (hrun.next 12 (by decide))
  have hsecond := (hother ⟨0, 1⟩ (by decide)).2.2 (by decide) (by decide)
  refine ⟨hlive, hstop, hdead, hnowhere _, hsecond.resolve_right ?_⟩
  rintro ⟨hrunning, -⟩
  exact absurd hrunning (by decide)

end Reactive
end ReactiveView
