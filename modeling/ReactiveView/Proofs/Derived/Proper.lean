/-
# Worlds of derived cells

The cell of a computed value is *derived*: the effect that keeps it reads, and then stores in it
(`Derivation`).  In a proper world all live effects are such, or only read, and no two of them
store in the same cell (`World.Proper`).  One cell *follows* another while the effect that stores
in it is registered there (`World.Follows`).
-/

import ReactiveView.Proofs.Derived.Reader
import ReactiveView.Proofs.Effects.Dependencies
import ReactiveView.Proofs.Effects.Stopping

namespace ReactiveView
namespace Reactive

open Relation (TransGen)

variable {σ : Type}

namespace World

variable {w w' : World σ} {e id : EffectId} {x : Entry} {c : CellId} {d d' : Derivation}

/-! ## Bodies -/

/-- The body of a live effect. -/
def body? (w : World σ) (e : EffectId) : Option (Program σ) := (w.effects.get? e).map Effect.body

/-- The effect is live, and what it does is this derivation. -/
def Derives (w : World σ) (e : EffectId) (d : Derivation) : Prop := w.body? e = some d.program

/-- An effect is one derivation at most: its body tells which. -/
theorem Derives.unique (h : w.Derives e d) (h' : w.Derives e d') : d = d' :=
  Derivation.eq_of_program (Option.some.inj (h.symm.trans h'))

/-- The effect of a computed value derives its cell by the getter. -/
theorem derives_getter {getter : Reader} (h : w.body? e = some (getter.program.bind fun value =>
    .write (.store c value) fun _ => .done)) : w.Derives e ⟨getter, some c⟩ := by
  rw [Reader.bind_program] at h
  exact h

/-- The live effects are those that have a body. -/
theorem isLive_iff_body : w.isLive e = true ↔ ∃ body, w.body? e = some body := by
  rw [isLive, Arena.contains_eq_true_iff, body?]
  constructor
  · rintro ⟨effect, heffect⟩
    exact ⟨effect.body, by rw [heffect, Option.map_some]⟩
  · rintro ⟨body, hbody⟩
    obtain ⟨effect, heffect, -⟩ := Option.map_eq_some_iff.1 hbody
    exact ⟨effect, heffect⟩

/-- What derives a cell is live. -/
theorem Derives.isLive (h : w.Derives e d) : w.isLive e = true := isLive_iff_body.2 ⟨_, h⟩

/-- Derivations are read off the bodies. -/
theorem derives_congr (h : ∀ e, w'.body? e = w.body? e) : w'.Derives e d ↔ w.Derives e d := by
  rw [Derives, Derives, h]

/-- The same effects have the same bodies. -/
theorem body?_of_effects (h : w'.effects = w.effects) (e : EffectId) : w'.body? e = w.body? e := by
  rw [body?, body?, h]

/-- A change of what an effect has noted leaves all bodies. -/
theorem body?_modify (change : List Entry → List Entry)
    (h : w'.effects = w.effects.modify id fun e => { e with entries := change e.entries })
    (e : EffectId) : w'.body? e = w.body? e := by
  rw [body?, body?, h, Arena.get?_modify]
  split
  · rename_i he
    subst he
    cases w.effects.get? e <;> rfl
  · rfl

/-- Reads leave bodies alone; what they note stands beside them. -/
theorem body?_track (entry : Entry) (e : EffectId) : (w.track entry).body? e = w.body? e := by
  rcases w.track_cases entry with htrack | ⟨id, -, htrack⟩
  · rw [htrack]
  · exact body?_modify (entry :: ·) (by rw [htrack]) e

/-- A stopped effect has no body any more. -/
theorem body?_stop (e : EffectId) : (w.stop id).body? e = if e = id then none else w.body? e := by
  unfold World.stop
  split
  · simp only [body?, Arena.get?_remove]
    split <;> rfl
  · rename_i hnone
    split
    · rename_i he
      rw [body?, he, hnone]
      rfl
    · rfl

/-- The effects that are live after one has been stopped. -/
theorem body?_stop_eq_some {body : Program σ} :
    (w.stop id).body? e = some body ↔ e ≠ id ∧ w.body? e = some body := by
  rw [body?_stop]
  by_cases he : e = id <;> simp [he]

/-- A live effect can begin to run. -/
theorem Derives.beginRun (h : w.Derives e d) :
    ∃ w', w.beginRun e = some (d.program, w') := by
  obtain ⟨effect, heffect, hbody⟩ := Option.map_eq_some_iff.1 h
  exact ⟨_, by rw [World.beginRun, heffect, ← hbody]⟩

/-- The body that is run is that of the effect. -/
theorem body?_of_beginRun {body : Program σ} (h : w.beginRun e = some (body, w')) :
    w.body? e = some body := by
  obtain ⟨effect, heffect, rfl, -⟩ := beginRun_eq_some_iff.1 h
  rw [body?, heffect, Option.map_some]

/-! ## Who is registered -/

/-- Tracking registers the active effect, and changes nothing else. -/
theorem mem_observers_track {entry : Entry} :
    e ∈ (w.track entry).registry.observers x ↔
      e ∈ w.registry.observers x ∨ w.active = some e ∧ w.isLive e = true ∧ entry = x := by
  refine ⟨mem_of_track, ?_⟩
  rintro (hmem | ⟨hactive, hlive, rfl⟩)
  · rcases w.track_cases entry with htrack | ⟨id, -, htrack⟩ <;> rw [htrack]
    · exact hmem
    · rw [Registry.register, Registry.observers_update]
      split
      · exact Registry.mem_insertId.2 (.inr hmem)
      · exact hmem
  · have htrack : w.track entry = w.register e entry := by simp [World.track, hactive, hlive]
    rw [htrack, World.register]
    split
    · assumption
    · rw [Registry.register, Registry.observers_update, if_pos rfl]
      exact Registry.mem_insertId.2 (.inl rfl)

/-- Leaving what it has noted, an effect leaves every entry. -/
theorem Noted.mem_unregisterAll (h : w.Noted) {effect : Effect σ}
    (heffect : w.effects.get? id = some effect) :
    e ∈ (w.registry.unregisterAll id effect.entries).observers x ↔
      e ≠ id ∧ e ∈ w.registry.observers x := by
  constructor
  · intro hmem
    exact ⟨(h.unregisterAll heffect hmem).1, ((Registry.mem_observers_unregisterAll _ _).1 hmem).1⟩
  · rintro ⟨hne, hmem⟩
    exact (Registry.mem_observers_unregisterAll _ _).2 ⟨hmem, fun hboth => hne hboth.1⟩

/-- A stopped effect is registered nowhere, and the others are as before. -/
theorem Noted.mem_stop (h : w.Noted) :
    e ∈ (w.stop id).registry.observers x ↔ e ≠ id ∧ e ∈ w.registry.observers x := by
  unfold World.stop
  split
  · rename_i effect heffect
    exact h.mem_unregisterAll heffect
  · rename_i hnone
    constructor
    · intro hmem
      refine ⟨?_, hmem⟩
      rintro rfl
      obtain ⟨effect, heffect, -⟩ := h.noted x e hmem
      exact absurd (hnone.symm.trans heffect) (by simp)
    · exact fun hboth => hboth.2

/-- Only live effects are registered. -/
theorem Noted.isLive (h : w.Noted) (hmem : e ∈ w.registry.observers x) : w.isLive e = true := by
  obtain ⟨effect, heffect, -⟩ := h.noted x e hmem
  exact Arena.contains_eq_true_iff.2 ⟨effect, heffect⟩

/-! ## Cells -/

/-- To store what is there already changes nothing. -/
theorem setCell_eq_self {content : Value} (h : w.cell? c = some content) :
    (w.setCell c (some content)).cells = w.cells := by
  have hlt : c.index < w.cells.size := lt_size_of_isSome (by rw [h]; rfl)
  have hget : w.cells[c.index] = some content := by
    simpa [cell?, Array.getElem?_eq_getElem hlt] using h
  rw [setCell, ← hget]
  simp [Array.setIfInBounds, hlt]

/-! ## Writes -/

/-- No write takes a cell away. -/
theorem isSome_cell?_write {write : Write} {entries : List Entry}
    (h : w.write write = some (w', entries)) (hc : (w.cell? c).isSome = true) :
    (w'.cell? c).isSome = true := by
  rcases write_cases h with ⟨o, table, rfl⟩ | ⟨c', old, value, -, rfl⟩
  · exact hc
  · by_cases hne : c' = c
    · subst hne
      rw [cell?_setCell_self hc]
      rfl
    · rw [w.cell?_setCell_ne _ hne]
      exact hc

/-- No write makes a cell. -/
theorem size_cells_write {write : Write} {entries : List Entry}
    (h : w.write write = some (w', entries)) : w'.cells.size = w.cells.size := by
  rcases write_cases h with ⟨o, table, rfl⟩ | ⟨c, old, value, -, rfl⟩
  · rfl
  · exact Array.size_setIfInBounds

/-- Effects are not written; they run when the machine comes to them. -/
theorem effects_write {write : Write} {entries : List Entry}
    (h : w.write write = some (w', entries)) : w'.effects = w.effects := by
  rcases write_cases h with ⟨o, table, rfl⟩ | ⟨c, old, value, -, rfl⟩ <;> rfl

/-- A write goes on in the same scope. -/
theorem currentScope_write {write : Write} {entries : List Entry}
    (h : w.write write = some (w', entries)) : w'.currentScope = w.currentScope := by
  rcases write_cases h with ⟨o, table, rfl⟩ | ⟨c, old, value, -, rfl⟩ <;> rfl

/-! ## Proper worlds -/

/-- Every live effect has a body that only reads, or reads and then stores; and no two store in
the same cell. -/
structure Proper (w : World σ) : Prop where
  noted : w.Noted
  scope : w.currentScope = none
  derived : ∀ e body, w.body? e = some body → ∃ d : Derivation, body = d.program
  own : ∀ e d c, w.Derives e d → d.cell? = some c → (w.cell? c).isSome = true
  distinct : ∀ e e' d d' c, w.Derives e d → w.Derives e' d' → d.cell? = some c →
    d'.cell? = some c → e' = e

/-- In a proper world every live effect is a derivation. -/
theorem Proper.derives (h : w.Proper) (hlive : w.isLive e = true) : ∃ d, w.Derives e d := by
  obtain ⟨body, hbody⟩ := isLive_iff_body.1 hlive
  obtain ⟨d, rfl⟩ := h.derived e body hbody
  exact ⟨d, hbody⟩

/-- In the empty world nothing is derived. -/
theorem not_derives_start (host : σ) : ¬ (start host).Derives e d := by
  intro hd
  have hlive := hd.isLive
  simp [isLive, start, Arena.contains, Arena.empty, Arena.get?] at hlive

/-- **The empty world is proper.** -/
theorem proper_start (host : σ) : (start host).Proper where
  noted := noted_start host
  scope := rfl
  derived _ _ h := absurd h (by simp [body?, start, Arena.empty, Arena.get?])
  own _ _ _ h := absurd h (not_derives_start host)
  distinct _ _ _ _ _ h := absurd h (not_derives_start host)

/-- Effects that were there before, and cells that are still there where they are stored in,
leave the world proper. -/
theorem Proper.of_fewer (h : w.Proper) (noted : w'.Noted) (scope : w'.currentScope = none)
    (bodies : ∀ e body, w'.body? e = some body → w.body? e = some body)
    (cells : ∀ e d c, w'.Derives e d → d.cell? = some c → (w.cell? c).isSome = true →
      (w'.cell? c).isSome = true) : w'.Proper where
  noted := noted
  scope := scope
  derived e body hbody := h.derived e body (bodies e body hbody)
  own e d c hd hc := cells e d c hd hc (h.own e d c (bodies _ _ hd) hc)
  distinct e e' d d' c hd hd' := h.distinct e e' d d' c (bodies _ _ hd) (bodies _ _ hd')

/-- The same effects and cells. -/
theorem Proper.of_same (h : w.Proper) (noted : w'.Noted)
    (scope : w'.currentScope = w.currentScope) (bodies : ∀ e, w'.body? e = w.body? e)
    (cells : ∀ c, (w.cell? c).isSome = true → (w'.cell? c).isSome = true) : w'.Proper :=
  h.of_fewer noted (scope.trans h.scope) (fun e _ hbody => (bodies e).symm.trans hbody)
    fun _ _ c _ _ => cells c

/-! ## What follows what -/

/-- A live effect that stores in the first cell is registered at the second one. -/
def Follows (w : World σ) (c c' : CellId) : Prop :=
  ∃ e d, w.Derives e d ∧ d.cell? = some c ∧ e ∈ w.registry.observers (.cell c')

end World

/-- A relation of cells that lowers a rank goes in no circle. -/
theorem CellId.not_transGen_self {R : CellId → CellId → Prop} (rank : CellId → Nat)
    (hrank : ∀ c c', R c c' → rank c' < rank c) (c : CellId) : ¬ TransGen R c c := by
  have hlt {c c' : CellId} (hrelated : TransGen R c c') : rank c' < rank c := by
    induction hrelated with
    | single hrelated => exact hrank _ _ hrelated
    | tail _ hrelated ih => exact Nat.lt_trans (hrank _ _ hrelated) ih
  exact fun hself => Nat.lt_irrefl _ (hlt hself)

end Reactive
end ReactiveView
