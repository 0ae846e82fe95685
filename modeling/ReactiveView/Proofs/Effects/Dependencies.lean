/-
# Dependencies are the reads of the latest run

An effect is registered where it read, and only there: at the entries that were read
through a recorded read since its latest run began, at a moment when it was the active
effect (`registered_iff_read`).  So nothing is left of earlier runs, and what is read
while reads are not recorded, or while another effect is active, is not its own.

Entries come in by reads alone: a step leaves the effects that are registered at an entry
as they are or takes some out, unless it is a read, which registers the active effect
(`Machine.Next.registered_or_reads`).  They go out when a run begins, which leaves the effect
registered nowhere (`Machine.Next.not_registered_of_starts`).  Meanwhile the effect watches
what it has read, which is `Machine.Next.watches`.
-/

import ReactiveView.Proofs.Effects.Deeds
import ReactiveView.Proofs.Effects.Updates

namespace ReactiveView
namespace Reactive

variable {σ : Type}

namespace World

variable {w w' : World σ} {e : EffectId} {x : Entry}

/-! ## Who is registered after a change -/

/-- No change registers anybody. -/
theorem mem_of_alters (halters : Alters w w') (h : e ∈ w'.registry.observers x) :
    e ∈ w.registry.observers x := by
  cases halters with
  | rest registry => exact registry ▸ h
  | creates => exact h
  | stops id =>
    unfold World.stop at h
    split at h
    · exact ((Registry.mem_observers_unregisterAll _ _).1 h).1
    · exact h
  | ends target =>
    rw [registry_endTarget, Registry.observers_forget] at h
    split at h
    · exact absurd h List.not_mem_nil
    · exact h

/-- The beginning of a run registers nobody; it only takes one effect out. -/
theorem mem_of_beginRun {id : EffectId} {body : Program σ}
    (hbegin : w.beginRun id = some (body, w')) (h : e ∈ w'.registry.observers x) :
    e ∈ w.registry.observers x := by
  obtain ⟨_, -, rfl, rfl⟩ := beginRun_eq_some_iff.1 hbegin
  exact ((Registry.mem_observers_unregisterAll _ _).1 h).1

/-- A step that reads nothing registers nobody. -/
theorem mem_of_turns (hturns : Turns w w') (h : e ∈ w'.registry.observers x) :
    e ∈ w.registry.observers x :=
  hturns.keeps (P := fun w₁ => e ∈ w₁.registry.observers x → e ∈ w.registry.observers x)
    (fun _ _ halters ih h => ih (mem_of_alters halters h))
    (fun _ _ _ _ hbegin ih h => ih (mem_of_beginRun hbegin h)) id h

/-- Tracking registers the active effect, and no other. -/
theorem mem_of_track {entry : Entry} (h : e ∈ (w.track entry).registry.observers x) :
    e ∈ w.registry.observers x ∨ w.active = some e ∧ w.isLive e = true ∧ entry = x := by
  rcases w.track_cases entry with htrack | ⟨id, ⟨hactive, hlive, -⟩, htrack⟩ <;> rw [htrack] at h
  · exact .inl h
  · rw [Registry.register, Registry.observers_update] at h
    split at h
    · rename_i hentry
      refine (Registry.mem_insertId.1 h).symm.imp_right ?_
      rintro rfl
      exact ⟨hactive, hlive, hentry⟩
    · exact .inl h

/-- A write runs those who are registered, in later steps, and registers nobody. -/
theorem registry_write {write : Write} {entries : List Entry}
    (h : w.write write = some (w', entries)) : w'.registry = w.registry := by
  rcases write_cases h with ⟨o, table, rfl⟩ | ⟨c, old, value, -, rfl⟩ <;> rfl

/-- An effect whose run begins has noted no entry. -/
theorem entries_beginRun {id : EffectId} {body : Program σ}
    (hbegin : w.beginRun id = some (body, w')) :
    ∃ effect, w'.effects.get? id = some effect ∧ effect.entries = [] := by
  obtain ⟨effect, heffect, rfl, rfl⟩ := beginRun_eq_some_iff.1 hbegin
  exact ⟨{ effect with entries := [] }, by simp [Arena.get?_modify, heffect], rfl⟩

end World

/-- An effect whose run a step has begun has noted no entry. -/
theorem Deed.Done.entries_of_starts {w w' : World σ} {about : Option Deed} {e : EffectId}
    (h : Deed.Done about w w') (hstart : w'.observers = some e :: w.observers) :
    ∃ effect, w'.effects.get? e = some effect ∧ effect.entries = [] := by
  obtain rfl := h.starts hstart
  cases h with
  | begun begins => exact World.entries_beginRun begins
  | created begins => exact World.entries_beginRun begins
  | skipped => exact absurd hstart.symm (List.cons_ne_self _ _)

namespace Machine

variable {m m' : Machine σ} {e : EffectId} {x : Entry}

/-! ## Who is registered after a step -/

/-- **An effect is registered by its reads alone.** -/
theorem Next.registered_or_reads (hnext : Next m m') (h : e ∈ m'.world.registry.observers x) :
    e ∈ m.world.registry.observers x ∨ m.Reads e x := by
  rcases hnext.turns with ⟨entry, hread, hworld⟩ | ⟨-, hturns⟩
  · refine (World.mem_of_track (hworld ▸ h)).imp_right ?_
    rintro ⟨hactive, hlive, rfl⟩
    exact ⟨hactive, hlive, hread⟩
  · exact .inl (World.mem_of_turns hturns h)

/-- **When a run of an effect begins, the effect is registered nowhere**, or only where
something has ended. -/
theorem Next.not_registered_of_starts (hnext : Next m m') (hm : m.world.Agrees)
    (hm' : m'.world.Agrees) (hstart : Starts m m' e) (hend : ¬ m'.world.Ended x.target) :
    e ∉ m'.world.registry.observers x := by
  intro hmem
  have hdone : Deed.Done m.deed? m.world m'.world := by
    cases hnext with
    | step step => exact step_done hm.tidy step
    | begin | recover => exact absurd hstart.symm (List.cons_ne_self _ _)
  obtain ⟨effect, heffect, hentries⟩ := hdone.entries_of_starts hstart
  obtain ⟨effect', heffect', hx⟩ := (hm'.registered_iff x hend e).1 hmem
  obtain rfl := Option.some.inj (heffect.symm.trans heffect')
  rw [hentries] at hx
  exact absurd hx List.not_mem_nil

end Machine

open Machine

namespace Machine.IsRun

variable {t : Nat → Machine σ} {n : Nat} {e : EffectId} {x : Entry}

/-- What is there at the end has not ended before, and who is live at the end was not
stopped before. -/
theorem not_gone (h : IsRun t n) (hlive : (t n).world.isLive e = true)
    (has : (t n).world.Has x.target) {k : Nat} (hk : k ≤ n) : ¬ (t k).world.Gone e x := by
  intro hgone
  rcases h.keeps World.kept_gone hk (Nat.le_refl n) hgone with hspent | hended
  · rw [World.isLive_eq_false_of_spent hspent] at hlive
    exact absurd hlive (by simp)
  · exact has.not_ended hended

/-- A registered effect has read the entry since its latest run began. -/
theorem read_of_registered (h : IsRun t n) (hend : ∀ k ≤ n, ¬ (t k).world.Ended x.target)
    {k : Nat} (hk : k ≤ n) (hmem : e ∈ (t k).world.registry.observers x) :
    ∃ i < k, (t i).Reads e x ∧ ∀ j, i ≤ j → j < k → ¬ Starts (t j) (t (j + 1)) e := by
  induction k with
  | zero =>
    obtain ⟨host, hhost⟩ := h.start
    rw [hhost] at hmem
    exact absurd hmem List.not_mem_nil
  | succ k ih =>
    have hnext := h.next k hk
    have hk' := Nat.le_of_succ_le hk
    have hno : ¬ Starts (t k) (t (k + 1)) e := fun hstart =>
      hnext.not_registered_of_starts (h.reachable hk').agrees (h.reachable hk).agrees hstart
        (hend _ hk) hmem
    rcases hnext.registered_or_reads hmem with hbefore | hreads
    · obtain ⟨i, hik, hread, hlast⟩ := ih hk' hbefore
      refine ⟨i, Nat.lt_succ_of_lt hik, hread, ?_⟩
      intro j hij hjk
      rcases Nat.lt_succ_iff_lt_or_eq.1 hjk with hjk | rfl
      · exact hlast j hij hjk
      · exact hno
    · refine ⟨k, Nat.lt_succ_self k, hreads, ?_⟩
      intro j hij hjk
      obtain rfl := Nat.le_antisymm hij (Nat.le_of_lt_succ hjk)
      exact hno

/-- An effect that has read an entry watches it until its next run begins, unless it or
what it watches is gone. -/
theorem watches_of_read (h : IsRun t n) (hthere : ∀ k ≤ n, ¬ (t k).world.Gone e x) {i : Nat}
    (hread : (t i).Reads e x) {k : Nat} (hik : i < k) (hk : k ≤ n)
    (hlast : ∀ j, i ≤ j → j < k → ¬ Starts (t j) (t (j + 1)) e) : (t k).world.Watches e x := by
  induction k, hik using Nat.le_induction with
  | base => exact (hread.next (h.next i hk)).1
  | succ k hik ih =>
    have hk' := Nat.le_of_succ_le hk
    have hwatches := ih hk' fun j hij hjk => hlast j hij (Nat.lt_succ_of_lt hjk)
    rcases (h.next k hk).watches (h.reachable hk').agrees hwatches with hafter | hgone | hstart
    · exact hafter
    · exact absurd hgone (hthere _ hk)
    · exact absurd hstart (hlast k (Nat.le_of_lt hik) (Nat.lt_succ_self k))

end Machine.IsRun

/-- **Dependencies are exactly the reads of the latest run.**  In every state of every run,
also while a body is running and after failures, a live effect is registered at an entry of a
target that is there exactly if it read the entry since its latest run began: by a recorded
read, at a moment when it was on top of the stack of observers. -/
theorem registered_iff_read {t : Nat → Machine σ} {n : Nat} {e : EffectId} {x : Entry}
    (hrun : IsRun t n) (hlive : (t n).world.isLive e = true) (has : (t n).world.Has x.target) :
    e ∈ (t n).world.registry.observers x ↔
      ∃ k < n, (t k).Reads e x ∧ ∀ j, k ≤ j → j < n → ¬ Starts (t j) (t (j + 1)) e := by
  have hthere : ∀ k ≤ n, ¬ (t k).world.Gone e x := fun k hk => hrun.not_gone hlive has hk
  constructor
  · intro hmem
    exact hrun.read_of_registered (fun k hk hended => hthere k hk (.inr hended)) (Nat.le_refl n)
      hmem
  · rintro ⟨k, hkn, hread, hlast⟩
    exact (hrun.watches_of_read hthere hread hkn (Nat.le_refl n) hlast).registered

/-- An effect that reads one cell and, while that holds nothing, another one; else it reads
the other one unrecorded.  Then the first cell is written. -/
def readsLess : Program Unit :=
  .op (.newCell .null) fun a => .op (.newCell .null) fun b =>
    .effect
      (.op (.load a) fun value =>
        if value.isNullish then .op (.load b) fun _ => .done
        else .untracked (.op (.load b) fun _ => .done) fun _ => .done)
      fun _ => .write (.store a (.bool true)) fun _ => .done

/-- The hypotheses of `registered_iff_read` are met by the run of `readsLess`.  In state 6 its
effect has read both cells.  In state 17, after its second run, it has read the first one
since that run began, and not the second one. -/
theorem registered_iff_read_readsLess :
    (∃ k < 6, (Machine.states () readsLess k).Reads ⟨0, 0⟩ (.cell ⟨1⟩) ∧
        ∀ j, k ≤ j → j < 6 → ¬ Starts (Machine.states () readsLess j)
          (Machine.states () readsLess (j + 1)) ⟨0, 0⟩) ∧
      (∃ k < 17, (Machine.states () readsLess k).Reads ⟨0, 0⟩ (.cell ⟨0⟩) ∧
        ∀ j, k ≤ j → j < 17 → ¬ Starts (Machine.states () readsLess j)
          (Machine.states () readsLess (j + 1)) ⟨0, 0⟩) ∧
      ¬ ∃ k < 17, (Machine.states () readsLess k).Reads ⟨0, 0⟩ (.cell ⟨1⟩) ∧
        ∀ j, k ≤ j → j < 17 → ¬ Starts (Machine.states () readsLess j)
          (Machine.states () readsLess (j + 1)) ⟨0, 0⟩ := by
  have hgoes : ∀ k < 17, 0 < k → (Machine.states () readsLess k).GoesOn := by decide
  have hrun (n : Nat) (hn : n ≤ 17) : IsRun (Machine.states () readsLess) n :=
    Machine.isRun_states fun k hk => hgoes k (Nat.lt_of_lt_of_le hk hn)
  refine ⟨(registered_iff_read (hrun 6 (by decide)) (by decide) (by decide)).1 (by decide),
    (registered_iff_read (hrun 17 (Nat.le_refl _)) (by decide) (by decide)).1 (by decide), ?_⟩
  intro hread
  exact absurd ((registered_iff_read (hrun 17 (Nat.le_refl _)) (by decide) (by decide)).2 hread)
    (by decide)

end Reactive
end ReactiveView
