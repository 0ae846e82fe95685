/-
# Derived state does not depend on history

A program makes objects, cells, computed values and effects at the top level, whose bodies only
read, and then writes.  Whatever it has done before, every computed value holds what its getter
would return now, and every effect has made the reads that it would make now; so two histories
of writes that end with the same store end with the same derived state (`current_after`).

This holds up to the sign of a zero.  A cell is not written when it has an equal value, and the
two zeros are equal: a computed value may keep the zero that it got first, and a body that tells
the zeros apart then shows which one that was (`zero_shows_history`).
-/

import ReactiveView.Proofs.Derived.Layers

namespace ReactiveView
namespace Reactive

open Recorded (Leads)

variable {σ : Type}

/-- What a body that only reads returns when it is run outside all effects. -/
theorem Reader.program_leads (reader : Reader) {w : World σ} (hidle : w.observers = []) :
    Machine.Leads ⟨w, .run reader.program, []⟩ ⟨w, .value (reader.value w), []⟩ := by
  induction reader with
  | gives value => exact .step rfl (.refl _)
  | reads op recorded next ih =>
    obtain ⟨x, hx⟩ := Option.isSome_iff_exists.1 recorded
    have htrack : w.track x = w := by simp [World.track, World.active, hidle]
    refine .step ?_ (ih (w.answer op).1)
    simp only [Reader.program, Reader.andThen, Machine.step?, Machine.exec,
      View.perform_answer recorded, World.perform_of_entry hx, htrack]

namespace World

variable {w w' : World σ} {e : EffectId} {d : Derivation} {c : CellId}

/-- The worlds hold the same, but perhaps for what effects derive. -/
structure SameStore (w w' : World σ) : Prop where
  tables : ∀ o, w'.table o = w.table o
  cells : ∀ c, (∀ e d, w.Derives e d → d.cell? ≠ some c) → w'.cell? c = w.cell? c

/-- The body does the same for both zeros, or no derived cell that it can read holds one. -/
def Overlooks (w : World σ) (reader : Reader) : Prop :=
  reader.Alike reader ∨ ∀ e d c, w.Derives e d → d.cell? = some c → reader.Mentions c →
    ¬ (w.cell c).IsZero

/-- Cells hold the same, but for zeros, if those do in which effects store. -/
theorem SameStore.twin_cell (h : w.SameStore w') (c : CellId)
    (hderived : ∀ e d, w.Derives e d → d.cell? = some c → (w.cell c).Twin (w'.cell c)) :
    (w.cell c).Twin (w'.cell c) := by
  by_cases hstored : ∃ e d, w.Derives e d ∧ d.cell? = some c
  · obtain ⟨e, d, hd, hown⟩ := hstored
    exact hderived e d hd hown
  · refine .inl ?_
    rw [cell, cell, h.cells c fun e d hd hown => hstored ⟨e, d, hd, hown⟩]

/-- What can be read is told by the tables and the cells. -/
theorem content_eq_of_table (htable : ∀ o, w'.table o = w.table o) {x : Entry}
    (hcell : ∀ c, x.target = .cell c → w'.cell? c = w.cell? c) : w'.content x = w.content x := by
  rcases x with ⟨o | c, name | _⟩
  · simp only [content, htable]
  · simp only [content, htable]
  · simp only [content, hcell c rfl]
  · rfl

/-- A body reads the same and ends with the same, but for zeros, if that holds of the cells
that it can read. -/
theorem Overlooks.twin {reader : Reader} (h : w.Overlooks reader) (hstore : w.SameStore w')
    (hthere : ∀ c, reader.Mentions c → (w.cell? c).isSome = true ∧ (w'.cell? c).isSome = true)
    (hcells : ∀ c, reader.Mentions c → (w.cell c).Twin (w'.cell c)) :
    reader.entries w = reader.entries w' ∧ (reader.value w).Twin (reader.value w') := by
  rcases h with halike | hnozero
  · exact halike.twin hstore.tables hcells
  · have hsame (c : CellId) (hc : reader.Mentions c) : w'.cell? c = w.cell? c := by
      by_cases hderived : ∃ e d, w.Derives e d ∧ d.cell? = some c
      · obtain ⟨e, d, hd, hown⟩ := hderived
        obtain ⟨hsome, hsome'⟩ := hthere c hc
        obtain ⟨value, hvalue⟩ := Option.isSome_iff_exists.1 hsome
        obtain ⟨value', hvalue'⟩ := Option.isSome_iff_exists.1 hsome'
        have htwin := hcells c hc
        have hnot := hnozero e d c hd hown hc
        rw [cell, hvalue] at hnot
        rw [cell, cell, hvalue, hvalue'] at htwin
        have heq : value = value' := htwin.resolve_right fun hzeros => hnot hzeros.1
        rw [hvalue, hvalue', heq]
      · refine hstore.cells c fun e d hd hown => hderived ⟨e, d, hd, hown⟩
    obtain ⟨-, hentries, hvalue⟩ := reader.congr fun x hx =>
      content_eq_of_table hstore.tables fun c hc => hsame c (Reader.mentions_of_mem_entries hx hc)
    rw [hentries, hvalue]
    exact ⟨rfl, .refl _⟩

end World

namespace Chronicle

variable {s s' s₁ s₂ : Chronicle σ} {e : EffectId} {d : Derivation} {c : CellId} {act : Act}
  {acts : List Act} {value : Value}

/-! ## Histories -/

/-- The acts are done one after the other, each as it is allowed. -/
inductive After : List Act → Chronicle σ → Chronicle σ → Prop
  | nil (s : Chronicle σ) : After [] s s
  | cons {act : Act} {acts : List Act} {s s' s'' : Chronicle σ} {value : Value}
      (allowed : act.Allowed s.world)
      (first : Leads (s.runs act.program []) (s'.gives value [])) (later : After acts s' s'') :
      After (act :: acts) s s''

/-- Two lists of acts, one done after the other, are one list of acts. -/
theorem After.append {acts' : List Act} {s'' : Chronicle σ} (h : After acts s s')
    (h' : After acts' s' s'') : After (acts ++ acts') s s'' := by
  induction h with
  | nil => exact h'
  | cons allowed first _ ih => exact .cons allowed first (ih h')

/-- What is known of an act is known of whatever it comes to. -/
theorem Settled.next (h : s.Settled) (hallowed : act.Allowed s.world)
    (hleads : Leads (s.runs act.program []) (s'.gives value [])) :
    s'.Settled ∧ s.world.cells.size ≤ s'.world.cells.size ∧
      ∀ e, s'.world.body? e = act.bodies s.world e := by
  obtain ⟨s₁, hleads₁, hsettled, hsize, hbodies⟩ := h.act act hallowed
  obtain rfl := eq_of_leads hleads₁ hleads
  exact ⟨hsettled, hsize, hbodies⟩

/-- **Derived state is settled after every history.** -/
theorem Settled.after (h : s.Settled) (hafter : After acts s s') : s'.Settled := by
  induction hafter with
  | nil => exact h
  | cons allowed first _ ih => exact ih (h.next allowed first).1

/-- Writes leave the effects as they are. -/
theorem Settled.bodies_of_writes (h : s.Settled) {writes : List Write}
    (hafter : After (writes.map .write) s s') (e : EffectId) :
    s'.world.body? e = s.world.body? e := by
  induction writes generalizing s with
  | nil =>
    cases hafter
    rfl
  | cons write writes ih =>
    cases hafter with
    | cons allowed first later =>
      obtain ⟨hsettled, -, hbodies⟩ := h.next allowed first
      exact (ih hsettled later).trans (hbodies e)

/-- A live effect was live before the act, or it is the one that the act has made. -/
theorem Settled.derives_next (h : s.Settled) (hallowed : act.Allowed s.world)
    (hleads : Leads (s.runs act.program []) (s'.gives value [])) (hd : s'.world.Derives e d) :
    s.world.Derives e d ∨ act = .computed d.reader ∧ d.cell? = some ⟨s.world.cells.size⟩ ∨
      act = .effect d.reader ∧ d.cell? = none :=
  h.fit.toProper.derives_moment (h.fit.permitted hallowed) hleads.machine hd

/-- What a live effect does was given when it was made. -/
theorem Settled.reader_after (h : s.Settled) (hafter : After acts s s')
    (hd : s'.world.Derives e d) :
    s.world.Derives e d ∨ .computed d.reader ∈ acts ∨ .effect d.reader ∈ acts := by
  induction hafter with
  | nil => exact .inl hd
  | cons allowed first later ih =>
    rcases ih (h.next allowed first).1 hd with hbefore | hlater | hlater
    · rcases h.derives_next allowed first hbefore with hbefore | ⟨rfl, -⟩ | ⟨rfl, -⟩
      · exact .inl hbefore
      · exact .inr (.inl List.mem_cons_self)
      · exact .inr (.inr List.mem_cons_self)
    · exact .inr (.inl (List.mem_cons_of_mem _ hlater))
    · exact .inr (.inr (List.mem_cons_of_mem _ hlater))

/-- A cell that is there, and in which no effect stores, stays one: it can be written. -/
theorem Settled.underived_after (h : s.Settled) (hafter : After acts s s')
    (hlt : c.index < s.world.cells.size)
    (hunderived : ∀ e d, s.world.Derives e d → d.cell? ≠ some c) :
    ∀ e d, s'.world.Derives e d → d.cell? ≠ some c := by
  induction hafter with
  | nil => exact hunderived
  | cons allowed first later ih =>
    obtain ⟨hsettled, hsize, -⟩ := h.next allowed first
    refine ih hsettled (Nat.lt_of_lt_of_le hlt hsize) fun e d hd hc => ?_
    rcases h.derives_next allowed first hd with hbefore | ⟨-, hnew⟩ | ⟨-, hnone⟩
    · exact hunderived e d hbefore hc
    · -- a new computed value stores in a cell that was not there before
      obtain rfl := Option.some.inj (hnew.symm.trans hc)
      exact absurd hlt (Nat.lt_irrefl _)
    · exact absurd (hnone.symm.trans hc) (by simp)

/-- A cell that was made as such can be written whatever is done after. -/
theorem Settled.underived_of_made (h : s.Settled) {content : Value}
    (hafter : After (.cell content :: acts) s s') :
    ∀ e d, s'.world.Derives e d → d.cell? ≠ some ⟨s.world.cells.size⟩ := by
  cases hafter with
  | @cons _ _ _ s₁ _ value allowed first later =>
    have hmade : Leads (s.runs (Act.cell content).program [])
        (gives ⟨{ s.world with cells := s.world.cells.push (some content.raw) }, s.logs⟩
          .undefined []) := leads_op rfl (leads_ret (.refl _))
    have hsize : s₁.world.cells.size = s.world.cells.size + 1 := by
      have hworld := congrArg (fun r : Recorded σ => r.machine.world.cells)
        (first.unique hmade rfl rfl)
      simp only [gives] at hworld
      rw [hworld, Array.size_push]
    have hlt : s.world.cells.size < s₁.world.cells.size := hsize ▸ Nat.lt_succ_self _
    refine (h.next allowed first).1.underived_after later hlt fun e d hd hc => ?_
    rcases h.derives_next allowed first hd with hbefore | ⟨hact, -⟩ | ⟨hact, -⟩
    · exact absurd (World.lt_size_of_isSome (h.fit.own e d _ hbefore hc)) (Nat.lt_irrefl _)
    · exact absurd hact (by simp)
    · exact absurd hact (by simp)

/-! ## The same store -/

/-- In settled chronicles with the same effects and the same store, derived cells hold the
same, but for zeros.  The induction is on the number of the cell. -/
theorem Settled.twin_cells (h₁ : s₁.Settled) (h₂ : s₂.Settled)
    (hbodies : ∀ e, s₂.world.body? e = s₁.world.body? e) (hstore : s₁.world.SameStore s₂.world)
    (hoverlooks : ∀ e d, s₁.world.Derives e d → s₁.world.Overlooks d.reader) (n : Nat) :
    ∀ e d c, s₁.world.Derives e d → d.cell? = some c → c.index < n →
      (s₁.world.cell c).Twin (s₂.world.cell c) := by
  induction n with
  | zero => exact fun _ _ _ _ _ hlt => absurd hlt (Nat.not_lt_zero _)
  | succ n ih =>
    intro e d c hd hc hlt
    have hd₂ : s₂.world.Derives e d := (World.derives_congr hbodies).2 hd
    have hcells (c' : CellId) (hc' : d.reader.Mentions c') :
        (s₁.world.cell c').Twin (s₂.world.cell c') := by
      have hbelow := h₁.fit.below e d c c' hd hc hc'
      exact hstore.twin_cell c' fun e' d' hd' hown => ih e' d' c' hd' hown (by omega)
    obtain ⟨-, hvalue⟩ := (hoverlooks e d hd).twin hstore
      (fun c' hc' => ⟨h₁.fit.mentioned e d c' hd hc', h₂.fit.mentioned e d c' hd₂ hc'⟩) hcells
    exact ((h₁.current e d hd).held c hc).trans
      (hvalue.raw.trans ((h₂.current e d hd₂).held c hc).symm)

/-- Then the effects are registered at the same entries, too. -/
theorem Settled.same_registered (h₁ : s₁.Settled) (h₂ : s₂.Settled)
    (hbodies : ∀ e, s₂.world.body? e = s₁.world.body? e) (hstore : s₁.world.SameStore s₂.world)
    (hoverlooks : ∀ e d, s₁.world.Derives e d → s₁.world.Overlooks d.reader) (e : EffectId)
    (x : Entry) : e ∈ s₁.world.registry.observers x ↔ e ∈ s₂.world.registry.observers x := by
  by_cases hlive : s₁.world.isLive e = true
  · obtain ⟨d, hd⟩ := h₁.fit.derives hlive
    have hd₂ : s₂.world.Derives e d := (World.derives_congr hbodies).2 hd
    obtain ⟨hentries, -⟩ := (hoverlooks e d hd).twin hstore
      (fun c hc => ⟨h₁.fit.mentioned e d c hd hc, h₂.fit.mentioned e d c hd₂ hc⟩)
      fun c _ => hstore.twin_cell c fun e' d' hd' hown =>
        h₁.twin_cells h₂ hbodies hstore hoverlooks _ e' d' c hd' hown (Nat.lt_succ_self _)
    rw [(h₁.current e d hd).registered, (h₂.current e d hd₂).registered, hentries]
  · have hlive₂ : ¬ s₂.world.isLive e = true := by
      rw [World.isLive_iff_body, hbodies, ← World.isLive_iff_body]
      exact hlive
    exact iff_of_false (fun hmem => hlive (h₁.fit.noted.isLive hmem))
      fun hmem => hlive₂ (h₂.fit.noted.isLive hmem)

end Chronicle

open Chronicle (After)

/-- **Derived state does not depend on history.**  After whatever acts at the top level, in
which all bodies only read:

* every act that is allowed comes to an end;
* every live effect has a body that only reads.  If it keeps a computed value, this holds what
  the getter would return now, or both are zeros.  To run the effect now makes the reads that
  its latest run made, with the same answers, and registers it at the same entries;
* two histories of writes from there that end with the same store end with the same computed
  values, but for the sign of a zero, and with every effect registered at the same entries, if
  every body does the same for both zeros or can read no computed value that ends as one. -/
theorem current_after {host : σ} {acts : List Act} {s : Chronicle σ}
    (h : After acts (.start host) s) :
    (∀ act : Act, act.Allowed s.world → ∃ s', After [act] s s') ∧
      (∀ e, s.world.isLive e = true → ∃ d : Derivation, s.world.Derives e d ∧
        (∀ c, d.cell? = some c → ∃ value,
          Machine.Leads ⟨s.world, .run d.reader.program, []⟩ ⟨s.world, .value value, []⟩ ∧
            (s.world.cell c).Twin value.raw) ∧
        ∃ s', After [.rerun e] s s' ∧ s'.logs e = s.logs e ∧
          ∀ x, e ∈ s'.world.registry.observers x ↔ e ∈ s.world.registry.observers x) ∧
      ∀ (writes writes' : List Write) (s₁ s₂ : Chronicle σ),
        After (writes.map .write) s s₁ → After (writes'.map .write) s s₂ →
        s₁.world.SameStore s₂.world →
        (∀ e d, s.world.Derives e d → s₁.world.Overlooks d.reader) →
          (∀ e d c, s.world.Derives e d → d.cell? = some c →
            (s₁.world.cell c).Twin (s₂.world.cell c)) ∧
          ∀ e x, e ∈ s₁.world.registry.observers x ↔ e ∈ s₂.world.registry.observers x := by
  -- Both parts about one history are read off the settled state that it leads to.
  have hs : s.Settled := (Chronicle.settled_start host).after h
  refine ⟨fun act hallowed => ?_, fun e hlive => ?_, ?_⟩
  · obtain ⟨s', hleads, -⟩ := hs.act act hallowed
    exact ⟨s', .cons hallowed hleads (.nil s')⟩
  · obtain ⟨d, hd⟩ := hs.fit.derives hlive
    refine ⟨d, hd, fun c hc => ⟨_, d.reader.program_leads hs.idle, (hs.current e d hd).held c hc⟩,
      ?_⟩
    obtain ⟨s', hleads, hs', hbodies, hobjects, hcells⟩ := hs.rerun hd
    have hd' : s'.world.Derives e d := (World.derives_congr hbodies).2 hd
    obtain ⟨htrace, hentries, -⟩ := d.reader.congr fun x _ =>
      World.content_congr hobjects hcells x
    refine ⟨s', .cons trivial hleads (.nil s'), ?_,
      fun x => ?_⟩
    · rw [(hs'.current e d hd').log, (hs.current e d hd).log, htrace]
    · rw [(hs'.current e d hd').registered, (hs.current e d hd).registered, hentries]
  · intro writes writes' s₁ s₂ h₁ h₂ hstore hoverlooks
    have hs₁ := hs.after h₁
    have hs₂ := hs.after h₂
    have hbodies₁ := hs.bodies_of_writes h₁
    have hbodies (e : EffectId) : s₂.world.body? e = s₁.world.body? e :=
      (hs.bodies_of_writes h₂ e).trans (hbodies₁ e).symm
    have hoverlooks₁ : ∀ e d, s₁.world.Derives e d → s₁.world.Overlooks d.reader :=
      fun e d hd => hoverlooks e d ((World.derives_congr hbodies₁).1 hd)
    refine ⟨fun e d c hd hc => ?_,
      hs₁.same_registered hs₂ hbodies hstore hoverlooks₁⟩
    -- The cells are compared in the order in which they were made, each by those that its getter
    -- reads.
    exact hs₁.twin_cells hs₂ hbodies hstore hoverlooks₁ _ e d c
      ((World.derives_congr hbodies₁).2 hd) hc (Nat.lt_succ_self _)

/-! ## Two sessions -/

/-- The machine has come to an end with a value. -/
def Recorded.ended (r : Recorded σ) : Bool :=
  match r.machine.focus with
  | .value _ => r.machine.frames.isEmpty
  | _ => false

namespace Chronicle

variable {s s' : Chronicle σ} {acts : List Act} {act : Act}

/-- What an act comes to, if sixty steps suffice. -/
def does (s : Chronicle σ) (act : Act) : Chronicle σ :=
  ⟨((s.runs act.program []).run 60).machine.world, ((s.runs act.program []).run 60).logs⟩

/-- If an act has ended within sixty steps, it leads to where the machine stands then. -/
theorem leads_does (hended : ((s.runs act.program []).run 60).ended = true) :
    ∃ value, Leads (s.runs act.program []) ((s.does act).gives value []) := by
  have hleads := Recorded.leads_run 60 (s.runs act.program [])
  obtain ⟨r, hr⟩ : ∃ r, r = (s.runs act.program []).run 60 := ⟨_, rfl⟩
  rw [Chronicle.does]
  rw [← hr] at hleads hended ⊢
  obtain ⟨⟨w, focus, frames⟩, logs⟩ := r
  cases focus with
  | value value =>
    obtain rfl := List.isEmpty_iff.1 hended
    exact ⟨value, hleads⟩
  | run program => exact absurd hended Bool.false_ne_true
  | throwing message => exact absurd hended Bool.false_ne_true

/-- An act that is allowed and ends within the fuel may be done next. -/
theorem After.does (h : After acts s s') (hallowed : act.Allowed s'.world)
    (hended : ((s'.runs act.program []).run 60).ended = true) :
    After (acts ++ [act]) s (s'.does act) := by
  obtain ⟨value, hleads⟩ := leads_does hended
  exact h.append (.cons hallowed hleads (.nil _))

end Chronicle

/-- The body that reads a cell, and goes on by what it holds. -/
def Reader.load (c : CellId) (next : Value → Reader) : Reader := .reads (.load c) rfl next

/-- A body that reads a cell and goes on mentions this cell, and what it may read afterwards. -/
theorem Reader.mentions_load {c c' : CellId} {next : Value → Reader}
    (h : (Reader.load c next).Mentions c') :
    c' = c ∨ ∃ answer, (next answer).Mentions c' := by
  refine h.imp_left ?_
  rintro ⟨x, hx, hc⟩
  obtain rfl := Option.some.inj hx
  exact (Target.cell.inj hc).symm

/-- The getter that returns what the first cell holds. -/
def copied : Reader := .load ⟨0⟩ .gives

/-- The body that reads two copies. -/
def joined : Reader := .load ⟨1⟩ fun _ => .load ⟨2⟩ .gives

/-- A cell, two computed values that copy it, and an effect that reads both. -/
def diamond : List Act :=
  [.cell (.text "a"), .computed copied, .computed copied, .effect joined]

/-- What the diamond comes to. -/
def diamondMade : Chronicle Unit := diamond.foldl Chronicle.does (.start ())

/-- The acts of the diamond come to an end. -/
theorem after_diamond : After diamond (.start ()) diamondMade := by
  have hcopied (s : Chronicle Unit) (hcell : (s.world.cell? ⟨0⟩).isSome = true) :
      (Act.computed copied).Allowed s.world := by
    intro c hc
    rcases Reader.mentions_load hc with rfl | ⟨answer, hnone⟩
    · exact hcell
    · exact hnone.elim
  have hjoined (s : Chronicle Unit) (hleft : (s.world.cell? ⟨1⟩).isSome = true)
      (hright : (s.world.cell? ⟨2⟩).isSome = true) : (Act.effect joined).Allowed s.world := by
    intro c hc
    rcases Reader.mentions_load hc with rfl | ⟨answer, hc⟩
    · exact hleft
    · rcases Reader.mentions_load hc with rfl | ⟨answer, hnone⟩
      · exact hright
      · exact hnone.elim
  have hcell : After [.cell (.text "a")] (.start ()) _ :=
    (After.nil _).does trivial (by decide +kernel)
  have hleft : After [.cell (.text "a"), .computed copied] (.start ()) _ :=
    hcell.does (hcopied _ (by decide +kernel)) (by decide +kernel)
  have hright : After [.cell (.text "a"), .computed copied, .computed copied] (.start ()) _ :=
    hleft.does (hcopied _ (by decide +kernel)) (by decide +kernel)
  exact hright.does (hjoined _ (by decide +kernel) (by decide +kernel)) (by decide +kernel)

/-- All bodies of the diamond do the same for both zeros. -/
theorem overlooks_diamond {w : World Unit} {e : EffectId} {d : Derivation}
    (hd : diamondMade.world.Derives e d) : w.Overlooks d.reader := by
  have hcopied : copied.Alike copied := .reads fun _ _ h => .gives h
  have hjoined : joined.Alike joined := .reads fun _ _ _ => .reads fun _ _ h => .gives h
  have hreader : d.reader = copied ∨ d.reader = joined := by
    rcases (Chronicle.settled_start ()).reader_after after_diamond hd with hnone | hgetter | hbody
    · exact absurd hnone (World.not_derives_start ())
    · exact .inl (by simpa [diamond] using hgetter)
    · exact .inr (by simpa [diamond] using hbody)
  rcases hreader with h | h <;> rw [h]
  · exact .inl hcopied
  · exact .inl hjoined

/-- The diamond after one write. -/
def diamondOnce : Chronicle Unit := diamondMade.does (.write (.store ⟨0⟩ (.text "b")))

/-- The diamond after two writes, the second of which is the same. -/
def diamondTwice : Chronicle Unit :=
  (diamondMade.does (.write (.store ⟨0⟩ (.text "c")))).does (.write (.store ⟨0⟩ (.text "b")))

/-- After both histories the cell that is written holds the same. -/
theorem sameStore_diamond : diamondOnce.world.SameStore diamondTwice.world := by
  have hobjects₁ : diamondOnce.world.objects = #[] := rfl
  have hobjects₂ : diamondTwice.world.objects = #[] := rfl
  have hcells₁ : diamondOnce.world.cells =
      #[some (.text "b"), some (.text "b"), some (.text "b")] := rfl
  have hcells₂ : diamondTwice.world.cells =
      #[some (.text "b"), some (.text "b"), some (.text "b")] := rfl
  refine ⟨fun o => ?_, fun c _ => ?_⟩
  · rw [World.table, World.table, hobjects₁, hobjects₂]
  · rw [World.cell?, World.cell?, hcells₁, hcells₂]

/-- The hypotheses of `current_after` are met by the diamond, which can be written, whose effects
are live, and which comes to the same store by one write and by two. -/
theorem current_after_diamond :
    (∃ s', After [.write (.store ⟨0⟩ .null)] diamondMade s') ∧
      (∃ d : Derivation, diamondMade.world.Derives ⟨1, 0⟩ d ∧
        (∀ c, d.cell? = some c → ∃ value, Machine.Leads
            ⟨diamondMade.world, .run d.reader.program, []⟩ ⟨diamondMade.world, .value value, []⟩ ∧
          (diamondMade.world.cell c).Twin value.raw) ∧
        ∃ s', After [.rerun ⟨1, 0⟩] diamondMade s' ∧ s'.logs ⟨1, 0⟩ = diamondMade.logs ⟨1, 0⟩ ∧
          ∀ x, ⟨1, 0⟩ ∈ s'.world.registry.observers x ↔
            ⟨1, 0⟩ ∈ diamondMade.world.registry.observers x) ∧
      (∀ e d c, diamondMade.world.Derives e d → d.cell? = some c →
        (diamondOnce.world.cell c).Twin (diamondTwice.world.cell c)) ∧
      ∀ e x, e ∈ diamondOnce.world.registry.observers x ↔
        e ∈ diamondTwice.world.registry.observers x := by
  have hwrite {acts : List Act} {s : Chronicle Unit} (h : After acts diamondMade s) (value : Value) :
      (Act.write (.store ⟨0⟩ value)).Allowed s.world :=
    (Chronicle.settled_start ()).underived_of_made (after_diamond.append h)
  have honce : After [.write (.store ⟨0⟩ (.text "b"))] diamondMade diamondOnce :=
    (After.nil _).does (hwrite (.nil _) _) (by decide +kernel)
  have hfirst : After [.write (.store ⟨0⟩ (.text "c"))] diamondMade _ :=
    (After.nil _).does (hwrite (.nil _) _) (by decide +kernel)
  have htwice : After [.write (.store ⟨0⟩ (.text "c")), .write (.store ⟨0⟩ (.text "b"))]
      diamondMade diamondTwice := hfirst.does (hwrite hfirst _) (by decide +kernel)
  exact ⟨(current_after after_diamond).1 _ (hwrite (.nil _) _),
    (current_after after_diamond).2.1 ⟨1, 0⟩ (by decide +kernel),
    (current_after after_diamond).2.2 [.store ⟨0⟩ (.text "b")]
      [.store ⟨0⟩ (.text "c"), .store ⟨0⟩ (.text "b")] _ _ honce htwice sameStore_diamond
      fun e d hd => overlooks_diamond hd⟩

/-- The getter that is a positive zero, a negative zero or neither, as the first cell is true,
false or nothing. -/
def signed : Reader := .load ⟨0⟩ fun value =>
  .gives (if value.isNullish then .number 1
    else .number (Float.ofBits (if value.truthy then 0 else 0x8000000000000000)))

/-- The getter that tells the sign of the zero, and reads the first cell again if that is
positive. -/
def tellsSign : Reader := .load ⟨1⟩ fun value =>
  if value.number?.map Float.toBits = some 0 then
    .load ⟨0⟩ fun _ => .gives (.text "positive")
  else .gives (.text "negative")

/-- A cell, a zero of the sign that it says, and what that sign is. -/
def signs : List Act := [.cell (.bool true), .computed signed, .computed tellsSign]

/-- What the acts come to. -/
def signsMade : Chronicle Unit := signs.foldl Chronicle.does (.start ())

/-- The sign is changed at once. -/
def signsOnce : Chronicle Unit := signsMade.does (.write (.store ⟨0⟩ (.bool false)))

/-- The sign is changed, but for a while there is none. -/
def signsTwice : Chronicle Unit :=
  (signsMade.does (.write (.store ⟨0⟩ .null))).does (.write (.store ⟨0⟩ (.bool false)))

/-- The acts with the zeros lead from the start to `signsMade`. -/
theorem after_signs : After signs (.start ()) signsMade := by
  have hsigned (s : Chronicle Unit) (hcell : (s.world.cell? ⟨0⟩).isSome = true) :
      (Act.computed signed).Allowed s.world := by
    intro c hc
    rcases Reader.mentions_load hc with rfl | ⟨answer, hnone⟩
    · exact hcell
    · exact hnone.elim
  have htells (s : Chronicle Unit) (hcell : (s.world.cell? ⟨0⟩).isSome = true)
      (hzero : (s.world.cell? ⟨1⟩).isSome = true) : (Act.computed tellsSign).Allowed s.world := by
    intro c hc
    rcases Reader.mentions_load hc with rfl | ⟨answer, hc⟩
    · exact hzero
    · split at hc
      · rcases Reader.mentions_load hc with rfl | ⟨answer, hnone⟩
        · exact hcell
        · exact hnone.elim
      · exact hc.elim
  have hcell : After [.cell (.bool true)] (.start ()) _ :=
    (After.nil _).does trivial (by decide +kernel)
  have hzero : After [.cell (.bool true), .computed signed] (.start ()) _ :=
    hcell.does (hsigned _ (by decide +kernel)) (by decide +kernel)
  exact hzero.does (htells _ (by decide +kernel) (by decide +kernel)) (by decide +kernel)

/-- Both computed values are live after one write. -/
theorem derives_signsOnce : signsOnce.world.Derives ⟨0, 0⟩ ⟨signed, some ⟨1⟩⟩ ∧
    signsOnce.world.Derives ⟨1, 0⟩ ⟨tellsSign, some ⟨2⟩⟩ :=
  ⟨World.derives_getter rfl, World.derives_getter rfl⟩

/-- Here too the store is the same in the end. -/
theorem sameStore_signs : signsOnce.world.SameStore signsTwice.world := by
  have hobjects₁ : signsOnce.world.objects = #[] := rfl
  have hobjects₂ : signsTwice.world.objects = #[] := rfl
  have hcells₁ : signsOnce.world.cells = #[some (.bool false), some (.number (Float.ofBits 0)),
      some (.text "positive")] := rfl
  have hcells₂ : signsTwice.world.cells = #[some (.bool false),
      some (.number (Float.ofBits 0x8000000000000000)), some (.text "negative")] := rfl
  refine ⟨fun o => ?_, ?_⟩
  · rw [World.table, World.table, hobjects₁, hobjects₂]
  · rintro ⟨_ | _ | _ | i⟩ hunderived
    · rw [World.cell?, World.cell?, hcells₁, hcells₂]
      rfl
    · exact absurd rfl (hunderived _ _ derives_signsOnce.1)
    · exact absurd rfl (hunderived _ _ derives_signsOnce.2)
    · rw [World.cell?, World.cell?, hcells₁, hcells₂]
      rfl

/-- **A kept zero shows the history.**  After one write the first computed value holds a
positive zero, where its getter would return a negative one now.  Two histories of writes end
with the same store; but the other computed value, which tells the zeros apart, is another one,
and it is registered elsewhere. -/
theorem zero_shows_history :
    After signs (.start ()) signsMade ∧
      After [.write (.store ⟨0⟩ (.bool false))] signsMade signsOnce ∧
      After [.write (.store ⟨0⟩ .null), .write (.store ⟨0⟩ (.bool false))] signsMade signsTwice ∧
      (signsOnce.world.Derives ⟨0, 0⟩ ⟨signed, some ⟨1⟩⟩ ∧
        ∃ value, Machine.Leads ⟨signsOnce.world, .run signed.program, []⟩
            ⟨signsOnce.world, .value value, []⟩ ∧
          signsOnce.world.cell ⟨1⟩ ≠ value.raw) ∧
      signsOnce.world.SameStore signsTwice.world ∧
      signsOnce.world.cell ⟨2⟩ ≠ signsTwice.world.cell ⟨2⟩ ∧
      ⟨1, 0⟩ ∈ signsOnce.world.registry.observers (.cell ⟨0⟩) ∧
      ⟨1, 0⟩ ∉ signsTwice.world.registry.observers (.cell ⟨0⟩) := by
  have hwrite {acts : List Act} {s : Chronicle Unit} (h : After acts signsMade s) (value : Value) :
      (Act.write (.store ⟨0⟩ value)).Allowed s.world :=
    (Chronicle.settled_start ()).underived_of_made (after_signs.append h)
  have honce : After [.write (.store ⟨0⟩ (.bool false))] signsMade signsOnce :=
    (After.nil _).does (hwrite (.nil _) _) (by decide +kernel)
  have hfirst : After [.write (.store ⟨0⟩ .null)] signsMade _ :=
    (After.nil _).does (hwrite (.nil _) _) (by decide +kernel)
  have htwice : After [.write (.store ⟨0⟩ .null), .write (.store ⟨0⟩ (.bool false))]
      signsMade signsTwice := hfirst.does (hwrite hfirst _) (by decide +kernel)
  have hkept : signsOnce.world.cell ⟨1⟩ = .number (Float.ofBits 0) := rfl
  have hnow : signed.value signsOnce.world = .number (Float.ofBits 0x8000000000000000) := rfl
  have hdiffers : (Float.ofBits 0).toBits ≠ (Float.ofBits 0x8000000000000000).toBits := by decide
  have htold₁ : signsOnce.world.cell ⟨2⟩ = .text "positive" := rfl
  have htold₂ : signsTwice.world.cell ⟨2⟩ = .text "negative" := rfl
  refine ⟨after_signs, honce, htwice, ⟨derives_signsOnce.1, _, signed.program_leads rfl, ?_⟩,
    sameStore_signs, ?_, by decide +kernel, by decide +kernel⟩
  · rw [hkept, hnow]
    intro hsame
    exact hdiffers (congrArg Float.toBits (Value.number.inj hsame))
  · rw [htold₁, htold₂]
    intro hsame
    exact absurd (Value.text.inj hsame) (by decide)

end Reactive
end ReactiveView
