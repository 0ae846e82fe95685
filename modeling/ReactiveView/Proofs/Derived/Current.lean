/-
# Current effects

An effect is *current* if a run started now would make the reads that its latest run made, with
the same answers, if it is registered where these reads are, and if its cell holds what the run
would store (`Chronicle.Current`).

A run of an effect first reads, and then perhaps stores.  When its body has ended, only what the
effect has read and where it is registered have changed (`Chronicle.Ran`); so it is current if
its cell holds the value, and the others are as current as before.  When the value is then
stored, whoever is registered at the cell may be stale.
-/

import ReactiveView.Proofs.Derived.Proper
import ReactiveView.Proofs.Derived.Recorded

namespace ReactiveView
namespace Reactive

open Recorded (Leads)

variable {σ : Type}

namespace Chronicle

variable {s s₁ s' : Chronicle σ} {w' : World σ} {e id : EffectId} {d : Derivation} {c : CellId}
  {frames : List (Frame σ)}

/-! ## Being current -/

/-- A run of the effect would make the reads that its latest run made, and end with what its
cell holds, but for the sign of a zero; and it is registered where it reads. -/
structure Current (s : Chronicle σ) (e : EffectId) (d : Derivation) : Prop where
  log : s.logs e = d.reader.trace s.world
  registered : ∀ x, e ∈ s.world.registry.observers x ↔ x ∈ d.reader.entries s.world
  held : ∀ c, d.cell? = some c → (s.world.cell c).Twin (d.reader.value s.world).raw

/-- An effect stays current as long as what it read, its cell and what is known of it stay
the same. -/
theorem Current.congr (h : s.Current e d)
    (hcontent : ∀ x ∈ d.reader.entries s.world, s'.world.content x = s.world.content x)
    (hlog : s'.logs e = s.logs e)
    (hregistered : ∀ x, e ∈ s'.world.registry.observers x ↔ e ∈ s.world.registry.observers x)
    (hheld : ∀ c, d.cell? = some c → s'.world.cell c = s.world.cell c) : s'.Current e d := by
  obtain ⟨htrace, hentries, hvalue⟩ := d.reader.congr hcontent
  refine ⟨?_, fun x => ?_, fun c hc => ?_⟩
  · rw [hlog, htrace, h.log]
  · rw [hregistered, hentries, h.registered]
  · rw [hheld c hc, hvalue]
    exact h.held c hc

/-! ## A body is run -/

/-- The effect has made the reads of the reader, and nothing else has happened. -/
structure Reads (e : EffectId) (reader : Reader) (s s' : Chronicle σ) : Prop where
  objects : s'.world.objects = s.world.objects
  cells : s'.world.cells = s.world.cells
  observers : s'.world.observers = s.world.observers
  scope : s'.world.currentScope = s.world.currentScope
  bodies : ∀ id, s'.world.body? id = s.world.body? id
  noted : s'.world.Noted
  log : s'.logs e = s.logs e ++ reader.trace s.world
  registered : ∀ x, e ∈ s'.world.registry.observers x ↔
    e ∈ s.world.registry.observers x ∨ x ∈ reader.entries s.world
  others : ∀ e' ≠ e, s'.logs e' = s.logs e' ∧
    ∀ x, e' ∈ s'.world.registry.observers x ↔ e' ∈ s.world.registry.observers x

/-- The active effect reads what its body reads. -/
theorem reads_leads (reader : Reader) (f : Value → Program σ) (frames : List (Frame σ))
    (hactive : s.world.active = some e) (hlive : s.world.isLive e = true)
    (hnoted : s.world.Noted) :
    ∃ s', Leads (s.runs (reader.andThen f) frames) (s'.runs (f (reader.value s.world)) frames) ∧
      Reads e reader s s' := by
  induction reader generalizing s with
  | gives value =>
    refine ⟨s, .refl _, rfl, rfl, rfl, rfl, fun _ => rfl, hnoted, ?_, fun x => ?_, ?_⟩
    · rw [Reader.trace, List.append_nil]
    · simp [Reader.entries]
    · exact fun _ _ => ⟨rfl, fun _ => Iff.rfl⟩
  | reads op recorded next ih =>
    obtain ⟨x, hx⟩ := Option.isSome_iff_exists.1 recorded
    obtain ⟨s₁, hs₁⟩ : ∃ s₁ : Chronicle σ, s₁ = ⟨s.world.track x, fun e' =>
      if e' = e then s.logs e ++ [⟨op, (s.world.answer op).1⟩] else s.logs e'⟩ := ⟨_, rfl⟩
    have hworld : s₁.world = s.world.track x := by rw [hs₁]
    have hactive₁ : s₁.world.active = some e := by
      rw [hworld, World.active, World.observers_track]
      exact hactive
    have hlive₁ : s₁.world.isLive e = true := by rw [hworld, World.isLive_track, hlive]
    obtain ⟨s', hleads, hreads⟩ := ih (s.world.answer op).1 hactive₁ hlive₁
      (hworld ▸ hnoted.track x)
    -- what is read next does not depend on who is registered
    have hcontent (y : Entry) : s₁.world.content y = s.world.content y := by
      rw [hworld, World.content_track]
    obtain ⟨htrace, hentries, hvalue⟩ := (next (s.world.answer op).1).congr fun y _ => hcontent y
    have hstored : s₁.world.objects = s.world.objects ∧ s₁.world.cells = s.world.cells ∧
        s₁.world.currentScope = s.world.currentScope := by
      rw [hworld]
      rcases s.world.track_cases x with htrack | ⟨id, -, htrack⟩ <;> rw [htrack] <;>
        exact ⟨rfl, rfl, rfl⟩
    refine ⟨s', ?_, hreads.objects.trans hstored.1, hreads.cells.trans hstored.2.1, ?_,
      hreads.scope.trans hstored.2.2, fun id => ?_, hreads.noted, ?_, fun y => ?_, fun e' he' => ?_⟩
    · refine leads_read hx hactive hlive ?_
      rw [Reader.value, ← hvalue, ← hs₁]
      exact hleads
    · rw [hreads.observers, hworld, World.observers_track]
    · rw [hreads.bodies, hworld, World.body?_track]
    · rw [hreads.log, htrace, hs₁]
      simp [Reader.trace]
    · rw [hreads.registered, hentries, hworld, World.mem_observers_track, Reader.entries, hx]
      simp only [hactive, hlive, true_and, Option.toList_some, List.singleton_append,
        List.mem_cons, or_assoc, eq_comm (a := x)]
    · obtain ⟨hlog, hregistered⟩ := hreads.others e' he'
      refine ⟨by rw [hlog, hs₁]; exact if_neg he', fun y => ?_⟩
      rw [hregistered, hworld, World.mem_observers_track, hactive]
      simp [Ne.symm he']

/-- The body of the effect, which is on top of the stack, has been run up to its end: to what it
does with its value. -/
structure Ran (e : EffectId) (d : Derivation) (s s' : Chronicle σ) : Prop where
  objects : s'.world.objects = s.world.objects
  cells : s'.world.cells = s.world.cells
  observers : s'.world.observers = some e :: s.world.observers
  bodies : ∀ id, s'.world.body? id = s.world.body? id
  log : s'.logs e = d.reader.trace s.world
  registered : ∀ x, e ∈ s'.world.registry.observers x ↔ x ∈ d.reader.entries s.world
  others : ∀ e' ≠ e, s'.logs e' = s.logs e' ∧
    ∀ x, e' ∈ s'.world.registry.observers x ↔ e' ∈ s.world.registry.observers x

/-- A live effect runs up to the end of its body. -/
theorem ran_leads (hnoted : s.world.Noted) (hbegin : s.world.beginRun e = some (d.program, w'))
    (frames : List (Frame σ)) :
    ∃ s', Leads ((s.begun e w').runs d.program frames)
        (s'.runs (Derivation.finish d.cell? (d.reader.value s.world)) frames) ∧
      Ran e d s s' := by
  obtain ⟨effect, heffect, hw'⟩ : ∃ effect, s.world.effects.get? e = some effect ∧
      w' = { s.world with
        effects := s.world.effects.modify e fun effect => { effect with entries := [] }
        registry := s.world.registry.unregisterAll e effect.entries
        observers := some e :: s.world.observers } := by
    rw [World.beginRun] at hbegin
    split at hbegin
    · exact ⟨_, ‹_›, (Prod.mk.inj (Option.some.inj hbegin)).2.symm⟩
    · exact absurd hbegin (by simp)
  have hbodies (id : EffectId) : w'.body? id = s.world.body? id :=
    World.body?_modify (fun _ => []) (by rw [hw']) id
  -- When the run begins the effect is registered nowhere; after its reads it is where they were.
  have hmem (id : EffectId) (x : Entry) : id ∈ w'.registry.observers x ↔
      id ≠ e ∧ id ∈ s.world.registry.observers x := by
    rw [hw']
    exact hnoted.mem_unregisterAll heffect
  have hlive : w'.isLive e = true := (World.isLive_beginRun hbegin).trans
    (World.isLive_iff_body.2 ⟨_, World.body?_of_beginRun hbegin⟩)
  obtain ⟨s', hleads, hreads⟩ := reads_leads (s := s.begun e w') d.reader
    (Derivation.finish d.cell?) frames (by rw [hw']; rfl) hlive (hnoted.beginRun hbegin)
  have hcontent (x : Entry) : w'.content x = s.world.content x := World.content_beginRun hbegin
  -- Clearing the registrations changes nothing that can be read.
  obtain ⟨htrace, hentries, hvalue⟩ := d.reader.congr fun x _ => hcontent x
  have hsame : w'.objects = s.world.objects ∧ w'.cells = s.world.cells := by
    rw [hw']
    exact ⟨rfl, rfl⟩
  refine ⟨s', ?_, hreads.objects.trans hsame.1, hreads.cells.trans hsame.2, ?_,
    fun id => (hreads.bodies id).trans (hbodies id), ?_, fun x => ?_, fun e' he' => ?_⟩
  · rw [← hvalue]
    exact hleads
  · rw [hreads.observers]
    exact World.observers_beginRun hbegin
  · rw [hreads.log]
    simp only [begun, if_true, List.nil_append, htrace]
  · rw [hreads.registered]
    simp only [begun, hmem, hentries, ne_eq, not_true, false_and, false_or]
  · obtain ⟨hlog, hregistered⟩ := hreads.others e' he'
    refine ⟨hlog.trans (if_neg he'), fun x => ?_⟩
    rw [hregistered]
    simp only [begun, hmem, ne_eq, he', not_false_iff, true_and]

/-- The stack of observers does not matter for being current. -/
theorem current_of_tail {w : World σ} {logs : EffectId → List Reading}
    {observers : List (Option EffectId)} (h : Current ⟨w, logs⟩ e d) :
    Current ⟨{ w with observers }, logs⟩ e d :=
  h.congr (fun x _ => World.content_congr rfl rfl x) rfl (fun _ => Iff.rfl) fun _ _ => rfl

/-- **An effect that has run is current**, if its cell holds what it ended with. -/
theorem Ran.current (h : Ran e d s s') (hheld : ∀ c, d.cell? = some c →
    (s'.world.cell c).Twin (d.reader.value s.world).raw) : s'.Current e d := by
  have hcontent (x : Entry) : s'.world.content x = s.world.content x :=
    World.content_congr h.objects h.cells x
  obtain ⟨htrace, hentries, hvalue⟩ := d.reader.congr fun x _ => hcontent x
  refine ⟨by rw [h.log, htrace], fun x => by rw [h.registered, hentries], ?_⟩
  rw [hvalue]
  exact hheld

/-- The run of one effect leaves the derivations of the others current. -/
theorem Ran.current_other (h : Ran e d s s') {d' : Derivation} (hid : id ≠ e)
    (hcurrent : s.Current id d') : s'.Current id d' := by
  obtain ⟨hlog, hregistered⟩ := h.others id hid
  refine hcurrent.congr (fun x _ => World.content_congr h.objects h.cells x) hlog hregistered ?_
  intro c _
  rw [World.cell, World.cell, World.cell?, World.cell?, h.cells]

/-! ## A value is stored -/

/-- A value is stored in a cell, and nobody is told. -/
def store (s : Chronicle σ) (c : CellId) (value : Value) : Chronicle σ :=
  ⟨s.world.setCell c (some value), s.logs⟩

/-- To store what is there already leaves everybody current. -/
theorem Current.store_same {value : Value} (h : s.Current e d)
    (hsame : s.world.cell? c = some value) : (s.store c value).Current e d := by
  have hcells : (s.store c value).world.cells = s.world.cells := World.setCell_eq_self hsame
  have hobjects : (s.store c value).world.objects = s.world.objects := rfl
  refine h.congr (fun x _ => World.content_congr hobjects hcells x) rfl (fun _ => Iff.rfl) ?_
  intro c' _
  rw [World.cell, World.cell, World.cell?, World.cell?, hcells]

/-- Storing makes no cell. -/
theorem Ran.size_store (h : Ran e d s s₁) (value : Value) :
    (s₁.store c value).world.cells.size = s.world.cells.size := by
  rw [store, World.setCell, ← h.cells]
  exact Array.size_setIfInBounds

/-- Whoever is not registered at the cell is as current as before the run. -/
theorem Ran.current_store (h : Ran e d s s₁) (hproper : s.world.Proper) (hd : s.world.Derives e d)
    (hc : d.cell? = some c) (value : Value) {d' : Derivation} (hd' : s.world.Derives id d')
    (hid : id ≠ e) (hnot : id ∉ s₁.world.registry.observers (.cell c))
    (hcurrent : s.Current id d') : (s₁.store c value).Current id d' := by
  have hcurrent₁ : s₁.Current id d' := h.current_other hid hcurrent
  refine hcurrent₁.congr (fun x hx => World.content_setCell _ ?_) rfl (fun _ => Iff.rfl) ?_
  · rintro rfl
    exact hnot ((hcurrent₁.registered _).2 hx)
  · intro c' hc'
    have hne : c ≠ c' := by
      rintro rfl
      exact hid (hproper.distinct e id d d' c hd hd' hc hc')
    rw [World.cell, World.cell, store, World.cell?_setCell_ne _ _ hne]

/-- Once it has stored its value, the effect is current, if it has not read its own cell. -/
theorem Ran.current_self (h : Ran e d s s₁) (hc : d.cell? = some c)
    (hown : (s₁.world.cell? c).isSome = true) (hnot : e ∉ s₁.world.registry.observers (.cell c)) :
    (s₁.store c (d.reader.value s.world).raw).Current e d := by
  have hcontent (x : Entry) (hx : x ∈ d.reader.entries s.world) :
      (s₁.store c (d.reader.value s.world).raw).world.content x = s.world.content x := by
    refine (World.content_setCell _ ?_).trans (World.content_congr h.objects h.cells x)
    rintro rfl
    exact hnot ((h.registered _).2 hx)
  obtain ⟨htrace, hentries, hvalue⟩ := d.reader.congr hcontent
  refine ⟨h.log.trans htrace.symm, fun x => (h.registered x).trans (by rw [hentries]), ?_⟩
  intro c' hc'
  obtain rfl := Option.some.inj (hc.symm.trans hc')
  rw [hvalue, World.cell, store, World.cell?_setCell_self hown]
  exact .refl _

end Chronicle
end Reactive
end ReactiveView
