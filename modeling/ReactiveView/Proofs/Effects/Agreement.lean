/-
# Registrations and noted entries agree

Who observes an entry is kept twice: the registry lists the effects at each entry,
and every effect notes the entries in which it is registered, so that it can leave
them before its next run and when it is stopped.  Tracking, running, stopping and
creating effects change both sides in separate steps, with programs and failures in
between.

They agree in every reachable state (`registered_iff_noted`): an effect is at an
entry exactly when it is live and has noted the entry, and nothing is noted twice.
The exception are entries of targets that have ended.  The registry forgets them at
once, the effects at their next run; so an effect that tracks such an entry once more,
by the identity of the target alone, notes it a second time (`twice_after_end`).  The
invariant is `World.Agrees`; each kind of change keeps it.
-/

import ReactiveView.Proofs.Effects.Arena
import ReactiveView.Proofs.Effects.Runs

namespace ReactiveView
namespace Reactive

variable {σ : Type}

namespace Registry

/-- Leaving several entries takes the effect out of these and changes nothing
else. -/
theorem mem_observers_unregisterAll {id id' : EffectId} {entry : Entry} (registry : Registry)
    (entries : List Entry) :
    id' ∈ (registry.unregisterAll id entries).observers entry ↔
      id' ∈ registry.observers entry ∧ ¬ (id' = id ∧ entry ∈ entries) := by
  induction entries generalizing registry with
  | nil => simp [unregisterAll]
  | cons first rest ih =>
    have hrest := ih (registry.unregister id first)
    rw [unregisterAll, List.foldl_cons]
    rw [unregisterAll] at hrest
    rw [hrest, unregister, observers_update]
    by_cases hfirst : first = entry
    · subst hfirst
      simp only [if_true, List.mem_filter, decide_eq_true_eq, List.mem_cons, true_or, and_true]
      constructor
      · rintro ⟨⟨hmem, hne⟩, -⟩
        exact ⟨hmem, hne⟩
      · rintro ⟨hmem, hne⟩
        exact ⟨⟨hmem, hne⟩, fun h => hne h.1⟩
    · simp [hfirst, Ne.symm hfirst]

/-- A forgotten target has no observers, and the others keep theirs. -/
theorem observers_forget (registry : Registry) (target : Target) (entry : Entry) :
    (registry.forget target).observers entry =
      if entry.target = target then [] else registry.observers entry := by
  obtain ⟨sets⟩ := registry
  simp only [forget, observers]
  induction sets with
  | nil => simp [observersIn]
  | cons first rest ih =>
    obtain ⟨entry', ids⟩ := first
    by_cases ht : entry'.target = target
    · rw [List.filter_cons_of_neg (by simpa using ht), ih, observersIn]
      by_cases he : entry' = entry
      · subst he
        simp [ht]
      · simp [he]
    · rw [List.filter_cons_of_pos (by simpa using ht), observersIn, ih, observersIn]
      by_cases he : entry' = entry
      · subst he
        simp [ht]
      · simp [he]

end Registry

namespace World

variable {w w' : World σ} {id : EffectId} {entry : Entry}

/-- The registry and the lists of the effects agree about every target that has not
ended, and no list holds an entry of such a target twice. -/
structure Agrees (w : World σ) : Prop where
  tidy : w.effects.Tidy
  registered_iff : ∀ entry, ¬ w.Ended entry.target → ∀ id,
    id ∈ w.registry.observers entry ↔ ∃ e, w.effects.get? id = some e ∧ entry ∈ e.entries
  once : ∀ entry, ¬ w.Ended entry.target → ∀ id e, w.effects.get? id = some e →
    e.entries.count entry ≤ 1

/-- Nobody is registered and nobody has noted anything. -/
theorem agrees_start (host : σ) : (start host).Agrees where
  tidy := Arena.tidy_empty
  registered_iff entry _ id := by simp [start, Arena.empty, Arena.get?]
  once entry _ id e h := by simp [start, Arena.empty, Arena.get?] at h

/-- Registering adds the effect on one side and the entry on the other. -/
theorem Agrees.track (h : w.Agrees) (entry : Entry) : (w.track entry).Agrees := by
  have hended := fun target => (ended_track (w := w) entry target).1
  rcases w.track_cases entry with htrack | ⟨id, ⟨-, hlive, hnew⟩, htrack⟩ <;>
    simp only [htrack] at hended ⊢
  · exact h
  obtain ⟨e, he⟩ := Arena.contains_eq_true_iff.1 hlive
  refine ⟨h.tidy.modify id _, ?_, ?_⟩
  · intro entry' hthere id'
    have hold := h.registered_iff entry' hthere id'
    simp only [Registry.register, Registry.observers_update, Arena.get?_modify]
    by_cases hid : id' = id
    · subst hid
      by_cases hentry : entry = entry'
      · subst hentry
        simp [he]
      · simp [he, hentry, Ne.symm hentry, hold]
    · by_cases hentry : entry = entry'
      · subst hentry
        simp [hid, hold]
      · simp [hid, hentry, hold]
  · intro entry' hthere id' e' he'
    rw [Arena.get?_modify] at he'
    split at he'
    · rw [he, Option.map_some, Option.some.injEq] at he'
      subst he'
      by_cases hentry : entry = entry'
      · subst hentry
        have hnotin : entry ∉ e.entries := fun hmem =>
          hnew ((h.registered_iff entry hthere id).2 ⟨e, he, hmem⟩)
        simp [List.count_eq_zero.2 hnotin]
      · simp only [List.count_cons, beq_iff_eq, hentry, if_false, Nat.add_zero]
        exact h.once entry' hthere id e he
    · exact h.once entry' hthere id' e' he'

/-- A stopped effect leaves the arena and all that it had noted. -/
theorem Agrees.stop (h : w.Agrees) (id : EffectId) : (w.stop id).Agrees := by
  unfold World.stop
  split
  case h_2 => exact h
  case h_1 e he =>
    refine ⟨h.tidy.remove id, ?_, ?_⟩
    · intro entry hthere id'
      have hold := h.registered_iff entry hthere id'
      simp only [Registry.mem_observers_unregisterAll, Arena.get?_remove, hold]
      by_cases hid : id' = id
      · subst hid
        simp [he]
      · simp [hid]
    · intro entry hthere id' e' he'
      rw [Arena.get?_remove] at he'
      split at he'
      · exact absurd he' (by simp)
      · exact h.once entry hthere id' e' he'

/-- An effect whose run begins leaves all that it had noted. -/
theorem Agrees.beginRun {id : EffectId} {body : Program σ}
    (hbegin : w.beginRun id = some (body, w')) (h : w.Agrees) : w'.Agrees := by
  obtain ⟨e, he, rfl, rfl⟩ := beginRun_eq_some_iff.1 hbegin
  refine ⟨h.tidy.modify id _, ?_, ?_⟩
  · intro entry hthere id'
    have hold := h.registered_iff entry hthere id'
    simp only [Registry.mem_observers_unregisterAll, Arena.get?_modify, hold]
    by_cases hid : id' = id
    · subst hid
      simp [he]
    · simp [hid]
  · intro entry hthere id' e' he'
    rw [Arena.get?_modify] at he'
    split at he'
    · rw [he, Option.map_some, Option.some.injEq] at he'
      subst he'
      exact Nat.zero_le 1
    · exact h.once entry hthere id' e' he'

/-- A new effect is registered nowhere: an entry knows live effects only, and its
identity led to none. -/
theorem Agrees.create (h : w.Agrees) (body : Program σ) :
    Agrees { w with effects := (w.effects.insert ⟨body, []⟩).2 } where
  tidy := h.tidy.insert _
  registered_iff entry hthere id' := by
    have hold := h.registered_iff entry hthere id'
    simp only [h.tidy.get?_insert, hold]
    by_cases hid : id' = (w.effects.insert ⟨body, []⟩).1
    · simp [hid, h.tidy.get?_insert_fst]
    · simp [hid]
  once entry hthere id' e' he' := by
    rw [h.tidy.get?_insert] at he'
    split at he'
    · rw [← Option.some.inj he']
      exact Nat.zero_le 1
    · exact h.once entry hthere id' e' he'

/-- A target that ends is forgotten, and nothing else changes. -/
theorem Agrees.endTarget (h : w.Agrees) {target : Target} (has : w.Has target) :
    (w.endTarget target).Agrees := by
  have hother {entry : Entry} (hthere : ¬ (w.endTarget target).Ended entry.target) :
      entry.target ≠ target ∧ ¬ w.Ended entry.target := by
    have hne : entry.target ≠ target := fun he => hthere (he.symm ▸ ended_endTarget has)
    exact ⟨hne, fun hended => hthere ((ended_endTarget_iff hne).2 hended)⟩
  refine ⟨(effects_endTarget (w := w) target).symm ▸ h.tidy, ?_, ?_⟩
  · intro entry hthere id'
    obtain ⟨hne, hthere'⟩ := hother hthere
    rw [registry_endTarget, Registry.observers_forget, if_neg hne, effects_endTarget]
    exact h.registered_iff entry hthere' id'
  · intro entry hthere id' e' he'
    rw [effects_endTarget] at he'
    exact h.once entry (hother hthere).2 id' e' he'

/-- **Every change keeps the agreement.** -/
theorem kept_agrees : Kept fun w : World σ => w.Agrees where
  rest registry effects _ ended h := by
    refine ⟨effects ▸ h.tidy, ?_, ?_⟩
    · intro entry hthere id'
      rw [registry, effects]
      exact h.registered_iff entry (fun hw => hthere (ended _ hw)) id'
    · intro entry hthere id' e' he'
      exact h.once entry (fun hw => hthere (ended _ hw)) id' e' (effects ▸ he')
  track entry h := h.track entry
  stop id h := h.stop id
  create body h := h.create body
  ends _ has h := h.endTarget has
  beginRun hbegin h := h.beginRun hbegin

/-! ## Entries noted twice -/

/-- Every effect has noted what it had noted in the other world, or nothing. -/
def NotesNoMore (w w' : World σ) : Prop :=
  ∀ id e', w'.effects.get? id = some e' →
    e'.entries = [] ∨ ∃ e, w.effects.get? id = some e ∧ e'.entries = e.entries

/-- No change adds to what is noted; only a tracked read does. -/
theorem notesNoMore_alters (htidy : w.effects.Tidy) (h : Alters w w') : NotesNoMore w w' := by
  intro id e' he'
  cases h with
  | rest registry effects => exact .inr ⟨e', effects ▸ he', rfl⟩
  | ends target => exact .inr ⟨e', by rwa [effects_endTarget] at he', rfl⟩
  | stops id' =>
    unfold World.stop at he'
    split at he'
    · rw [Arena.get?_remove] at he'
      split at he'
      · exact absurd he' (by simp)
      · exact .inr ⟨e', he', rfl⟩
    · exact .inr ⟨e', he', rfl⟩
  | creates body =>
    rw [htidy.get?_insert] at he'
    split at he'
    · exact .inl (by rw [← Option.some.inj he'])
    · exact .inr ⟨e', he', rfl⟩

/-- A run begins with an empty list. -/
theorem notesNoMore_beginRun {id : EffectId} {body : Program σ}
    (hbegin : w.beginRun id = some (body, w')) : NotesNoMore w w' := by
  obtain ⟨e, he, rfl, rfl⟩ := beginRun_eq_some_iff.1 hbegin
  intro id' e' he'
  rw [Arena.get?_modify] at he'
  split at he'
  · rw [he, Option.map_some, Option.some.injEq] at he'
    exact .inl (by rw [← he'])
  · exact .inr ⟨e', he', rfl⟩

/-- The relation goes on. -/
theorem NotesNoMore.trans {w'' : World σ} (h : NotesNoMore w w') (h' : NotesNoMore w' w'') :
    NotesNoMore w w'' := by
  intro id e'' he''
  rcases h' id e'' he'' with hnone | ⟨e', he', hsame'⟩
  · exact .inl hnone
  · rw [hsame']
    exact h id e' he'

/-- A step that reads nothing notes nothing. -/
theorem Agrees.notesNoMore (h : w.Agrees) (hturns : Turns w w') : NotesNoMore w w' := by
  refine (hturns.keeps (P := fun w₁ => w₁.Agrees ∧ NotesNoMore w w₁) ?_ ?_
    ⟨h, fun id e he => .inr ⟨e, he, rfl⟩⟩).2
  · intro w₁ w₂ halters hw₁
    exact ⟨kept_agrees.alters halters hw₁.1,
      hw₁.2.trans (notesNoMore_alters hw₁.1.tidy halters)⟩
  · intro w₁ w₂ id body hbegin hw₁
    exact ⟨hw₁.1.beginRun hbegin, hw₁.2.trans (notesNoMore_beginRun hbegin)⟩

end World

namespace Machine

/-- In every reachable state the registry and the effects agree. -/
theorem Reachable.agrees {m : Machine σ} (hm : m.Reachable) : m.world.Agrees :=
  hm.keeps World.kept_agrees World.agrees_start

/-- An entry is noted a second time by a read that comes after the end of its target. -/
theorem Next.twice {m m' : Machine σ} (hnext : Next m m') (hm : m.world.Agrees) {id : EffectId}
    {e' : Effect σ} (he' : m'.world.effects.get? id = some e') {x : Entry}
    (htwice : 2 ≤ e'.entries.count x) :
    (∃ e, m.world.effects.get? id = some e ∧ 2 ≤ e.entries.count x) ∨
      m.world.Ended x.target ∧ m.Reads id x := by
  rcases hnext.turns with ⟨entry, hread, hworld⟩ | ⟨-, hturns⟩
  · rw [hworld] at he'
    rcases m.world.track_cases entry with htrack | ⟨id', ⟨hactive, hlive, hnew⟩, htrack⟩ <;>
      rw [htrack] at he'
    · exact .inl ⟨e', he', htwice⟩
    rw [Arena.get?_modify] at he'
    split at he'
    · rename_i hid
      subst hid
      obtain ⟨e, he, rfl⟩ := Option.map_eq_some_iff.1 he'
      by_cases hx : entry = x
      · subst hx
        by_cases hmem : 2 ≤ e.entries.count entry
        · exact .inl ⟨e, he, hmem⟩
        · refine .inr ⟨Decidable.byContradiction fun hthere => ?_, hactive, hlive, hread⟩
          have hnoted : entry ∈ e.entries := by
            rw [List.count_cons_self] at htwice
            exact List.count_pos_iff.1 (by omega)
          exact hnew ((hm.registered_iff entry hthere id).2 ⟨e, he, hnoted⟩)
      · refine .inl ⟨e, he, ?_⟩
        simpa [List.count_cons, hx] using htwice
    · exact .inl ⟨e', he', htwice⟩
  · rcases hm.notesNoMore hturns id e' he' with hnone | ⟨e, he, hsame⟩
    · rw [hnone] at htwice
      exact absurd htwice (by simp)
    · exact .inl ⟨e, he, hsame ▸ htwice⟩

/-- Along a run, an entry that is noted twice has been read after the end of its target. -/
theorem IsRun.twice {t : Nat → Machine σ} {n : Nat} (hrun : IsRun t n) {j : Nat} (hj : j ≤ n)
    {id : EffectId} {e : Effect σ} (he : (t j).world.effects.get? id = some e) {x : Entry}
    (htwice : 2 ≤ e.entries.count x) :
    ∃ k < j, (t k).world.Ended x.target ∧ (t k).Reads id x := by
  induction j generalizing e with
  | zero =>
    obtain ⟨host, hhost⟩ := hrun.start
    rw [hhost] at he
    exact absurd he (by simp [Machine.start, World.start, Arena.empty, Arena.get?])
  | succ j ih =>
    have hj' := Nat.le_of_succ_le hj
    rcases (hrun.next j hj).twice (hrun.reachable hj').agrees he htwice with
      ⟨e', he', htwice'⟩ | hread
    · obtain ⟨k, hk, hread⟩ := ih hj' he' htwice'
      exact ⟨k, Nat.lt_succ_of_lt hk, hread⟩
    · exact ⟨j, Nat.lt_succ_self j, hread⟩

end Machine

open Machine (IsRun)

/-- **The registry and the lists of the effects agree in every state of every run**, also while
a body is running or a failure unwinds: an effect is at an entry of a target that has not ended
exactly when it is live and has noted the entry.  And an effect notes an entry twice only if the
target of the entry has ended and the effect has read the entry after that, which takes nothing
but the identity of the target. -/
theorem registered_iff_noted {t : Nat → Machine σ} {n : Nat} (hrun : IsRun t n) :
    (∀ entry, ¬ (t n).world.Ended entry.target → ∀ id,
      id ∈ (t n).world.registry.observers entry ↔
        ∃ e, (t n).world.effects.get? id = some e ∧ entry ∈ e.entries) ∧
      ∀ id e, (t n).world.effects.get? id = some e → ∀ entry, 2 ≤ e.entries.count entry →
        (t n).world.Ended entry.target ∧
          ∃ k < n, (t k).world.Ended entry.target ∧ (t k).Reads id entry := by
  have hagrees := (hrun.reachable (Nat.le_refl n)).agrees
  refine ⟨hagrees.registered_iff, ?_⟩
  intro id e he entry htwice
  refine ⟨Decidable.byContradiction fun hthere => ?_, hrun.twice (Nat.le_refl n) he htwice⟩
  exact absurd htwice (Nat.not_le_of_lt (Nat.lt_succ_of_le (hagrees.once entry hthere id e he)))

/-- An effect that reads a cell, gives its last handle away and tracks the cell once more. -/
def tracksEnded : Program Unit :=
  .op (.newCell .null) fun c =>
    .effect
      (.op (.load c) fun _ => .op (.endCell c) fun _ => .op (.track (.cell c)) fun _ => .done)
      fun _ => .done

/-- An effect that reads a cell, stops itself while it runs and reads the cell
again. -/
def stopsItself : Program Unit :=
  .op (.newCell .null) fun c =>
    .effect (.op (.load c) fun _ => .op (.stop ⟨0, 0⟩) fun _ => .op (.load c) fun _ => .done)
      fun _ => .done

/-- The hypothesis of `registered_iff_noted` is met inside the body of
`stopsItself`: after its first read the effect is at the entry and has noted it,
and after the read that follows its end neither holds.  It is met inside the body of
`tracksEnded`, where the effect notes the entry twice. -/
theorem registered_iff_noted_stopsItself :
    (∃ e, (Machine.states () stopsItself 4).world.effects.get? ⟨0, 0⟩ = some e ∧
        Entry.cell ⟨0⟩ ∈ e.entries) ∧
      (¬ ∃ e, (Machine.states () stopsItself 6).world.effects.get? ⟨0, 0⟩ = some e ∧
        Entry.cell ⟨0⟩ ∈ e.entries) ∧
      ∃ k < 6, (Machine.states () tracksEnded k).world.Ended (.cell ⟨0⟩) ∧
        (Machine.states () tracksEnded k).Reads ⟨0, 0⟩ (.cell ⟨0⟩) := by
  have hstops : ∀ i < 6, 0 < i → (Machine.states () stopsItself i).GoesOn := by decide
  have htracks : ∀ i < 6, 0 < i → (Machine.states () tracksEnded i).GoesOn := by decide
  have hfour : IsRun (Machine.states () stopsItself) 4 :=
    Machine.isRun_states fun i hi => hstops i (by omega)
  refine ⟨((registered_iff_noted hfour).1 (.cell ⟨0⟩) (by decide) ⟨0, 0⟩).1 (by decide), ?_, ?_⟩
  · intro h
    exact absurd (((registered_iff_noted (Machine.isRun_states hstops)).1 (.cell ⟨0⟩) (by decide)
      ⟨0, 0⟩).2 h) (by decide)
  · exact ((registered_iff_noted (Machine.isRun_states htracks)).2 ⟨0, 0⟩ _ rfl (.cell ⟨0⟩)
      (by decide)).2

/-- **An entry can be noted twice**: in the body of `tracksEnded`, after the cell has ended. -/
theorem twice_after_end :
    ¬ ∀ (t : Nat → Machine Unit) (n : Nat), IsRun t n →
      (∀ entry, ¬ (t n).world.Ended entry.target → ∀ id,
        id ∈ (t n).world.registry.observers entry ↔
          ∃ e, (t n).world.effects.get? id = some e ∧ entry ∈ e.entries) ∧
      ∀ id e, (t n).world.effects.get? id = some e → e.entries.Nodup := by
  intro h
  have hgoes : ∀ i < 6, 0 < i → (Machine.states () tracksEnded i).GoesOn := by decide
  have hnodup := (h _ 6 (Machine.isRun_states hgoes)).2 ⟨0, 0⟩ _ rfl
  revert hnodup
  decide

end Reactive
end ReactiveView
