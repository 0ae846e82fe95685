/-
# What acts uphold

Between two acts nothing runs.  Live effects of a kind are *upheld* if all of them are current
then (`Chronicle.Upheld`).  Every act that is permitted comes to an end, and upholds what was
upheld before, but for the effects whose cells cross themselves in the act
(`Chronicle.Upheld.act`).
-/

import ReactiveView.Proofs.Derived.Acts
import ReactiveView.Proofs.Derived.Settling

namespace ReactiveView
namespace Reactive

open Recorded (Leads)

variable {σ : Type}

namespace Chronicle

variable {s s' : Chronicle σ} {e id : EffectId} {d : Derivation} {K : Derivation → Prop}

/-! ## What is upheld -/

/-- Nothing is running, and every live effect of this kind is current. -/
structure Upheld (K : Derivation → Prop) (s : Chronicle σ) : Prop where
  proper : s.world.Proper
  idle : s.world.observers = []
  current : ∀ e d, s.world.Derives e d → K d → s.Current e d

/-- In the beginning nothing has been read. -/
def start (host : σ) : Chronicle σ := ⟨World.start host, fun _ => []⟩

/-- At the beginning there is nothing to be upheld. -/
theorem upheld_start (host : σ) : (start host).Upheld K where
  proper := World.proper_start host
  idle := rfl
  current _ _ hd := absurd hd (World.not_derives_start host)

/-- A change that leaves alone what the effects that stay live have read, where they store and
where they are registered upholds them. -/
theorem Upheld.of_same (h : s.Upheld K) {w' : World σ} (proper : w'.Proper)
    (observers : w'.observers = s.world.observers)
    (bodies : ∀ e d, w'.Derives e d → s.world.Derives e d)
    (registered : ∀ e d x, w'.Derives e d →
      (e ∈ w'.registry.observers x ↔ e ∈ s.world.registry.observers x))
    (content : ∀ e d x, w'.Derives e d → e ∈ s.world.registry.observers x →
      w'.content x = s.world.content x)
    (held : ∀ e d c, w'.Derives e d → d.cell? = some c → w'.cell c = s.world.cell c) :
    Upheld K ⟨w', s.logs⟩ where
  proper := proper
  idle := observers.trans h.idle
  current e d hd hK := by
    have hcurrent := h.current e d (bodies e d hd) hK
    exact hcurrent.congr (fun x hx => content e d x hd ((hcurrent.registered x).2 hx)) rfl
      (fun x => registered e d x hd) fun c hc => held e d c hd hc

/-! ## One act -/

/-- A new object was read by nobody, so all that is current stays so. -/
theorem Upheld.object (h : s.Upheld K) (table : KeyTable Value)
    (hnew : ∀ x, x.target = .object ⟨s.world.objects.size⟩ → s.world.registry.observers x = []) :
    Upheld K ⟨{ s.world with objects := s.world.objects.push table }, s.logs⟩ := by
  refine h.of_same (h.proper.pushObject table) rfl (fun _ _ => id) (fun _ _ _ _ => Iff.rfl)
    (fun e d x _ hmem => ?_) fun _ _ _ _ _ => rfl
  refine World.content_pushObject table fun ho => ?_
  rw [hnew x ho] at hmem
  exact absurd hmem List.not_mem_nil

/-- A new cell was read by nobody, so all that is current stays so. -/
theorem Upheld.cell (h : s.Upheld K) (content : Option Value)
    (hnew : ∀ x, x.target = .cell ⟨s.world.cells.size⟩ → s.world.registry.observers x = []) :
    Upheld K ⟨{ s.world with cells := s.world.cells.push content }, s.logs⟩ := by
  refine h.of_same (h.proper.pushCell content) rfl (fun _ _ => id) (fun _ _ _ _ => Iff.rfl)
    (fun e d x _ hmem => ?_) fun e d c hd hc => ?_
  · refine World.content_pushCell content fun hx => ?_
    rw [hnew x hx] at hmem
    exact absurd hmem List.not_mem_nil
  · have hlt := World.lt_size_of_isSome (h.proper.own e d c hd hc)
    rw [World.cell, World.cell, World.cell?_push content (Nat.ne_of_lt hlt)]

/-- A new effect runs once. -/
theorem Upheld.create {m : Machine σ} (h : s.Upheld K) (d : Derivation)
    (hnew : (s.world.newEffect d.program).2.Proper)
    (hm : Machine.Leads m ⟨s.world, .run (.effect d.program fun _ => .done), []⟩)
    (hstraight : ∀ d, K d → d.Straight m.Crosses) :
    ∃ s' : Chronicle σ, Leads (s.runs (.effect d.program fun _ => .done) [])
        (s'.gives .undefined []) ∧ s'.Upheld K ∧
      s'.world.cells.size = s.world.cells.size ∧ ∀ e, s'.world.body? e =
        if e = s.world.nextEffect then some d.program else s.world.body? e := by
  have hnext : (s.world.effects.insert ⟨d.program, []⟩).1 = s.world.nextEffect := by
    rw [← World.fst_newEffect _ d.program, World.newEffect_eq h.proper.scope]
  have heffect := World.newEffect_eq h.proper.scope d.program
  -- The chronicle after the effect was made and before its first run begins.
  obtain ⟨s₁, hs₁⟩ : ∃ s₁ : Chronicle σ,
    s₁ = ⟨(s.world.newEffect d.program).2, s.logs⟩ := ⟨_, rfl⟩
  have hworld : s₁.world = { s.world with
      effects := (s.world.effects.insert ⟨d.program, []⟩).2 } := by rw [hs₁, heffect]
  have hbodies (e : EffectId) : s₁.world.body? e =
      if e = s.world.nextEffect then some d.program else s.world.body? e := by
    rw [hworld, World.body?_create h.proper.noted.tidy, hnext]
  have hproper : s₁.world.Proper := hs₁ ▸ hnew
  have hidle : s₁.world.observers = [] := by rw [hworld, h.idle]
  have hd : s₁.world.Derives s.world.nextEffect d := (hbodies _).trans (if_pos rfl)
  obtain ⟨w', hbegin⟩ := hd.beginRun
  have hbegins : Leads (s.runs (.effect d.program fun _ => .done) [])
      ((s₁.begun s.world.nextEffect w').runs d.program
        [.leave, .bind fun _ => .done]) := by
    rw [← World.fst_newEffect _ d.program] at hbegin ⊢
    rw [hs₁] at hbegin ⊢
    exact leads_effect hbegin (.refl _)
  have hwithin := Recorded.within_of_leads
    (Machine.deriving_begun hproper hbegin Frame.left_bind_done) (hm.trans hbegins.machine)
  obtain ⟨s', value, hleads, hsettles⟩ := rerun_settles (fun _ _ => True) hproper hidle hbegin
    [.bind fun _ => .done] hwithin
  refine ⟨s', hbegins.trans (hleads.trans (leads_bind (leads_ret (.refl _)))),
    ⟨?_, hsettles.observers.trans hidle, fun e d' hd' hK => ?_⟩,
    hsettles.size.trans (by rw [hworld]), fun e => (hsettles.bodies e).trans (hbodies e)⟩
  · exact (hwithin.leads hleads).proper
  · have hd₁ : s₁.world.Derives e d' := (World.derives_congr hsettles.bodies).1 hd'
    refine hsettles.current hd₁ (hstraight d' hK) ?_
    -- The new effect has just run; what the others have read was not changed.
    by_cases he : e = s.world.nextEffect
    · exact .inr he
    · have hd₀ : s.world.Derives e d' := by
        rw [World.Derives, hbodies, if_neg he] at hd₁
        exact hd₁
      refine .inl ((h.current e d' hd₀ hK).congr (fun x _ => ?_) (by rw [hs₁]) (fun x => ?_) ?_)
      · rw [hworld]
        exact World.content_congr rfl rfl x
      · rw [hworld]
      · intro c _
        rw [hworld]
        rfl

/-- A write tells whoever has read what it changes. -/
theorem Upheld.write {m : Machine σ} (h : s.Upheld K) (write : Write)
    (hpermitted : (Act.write write).Permitted s.world)
    (hm : Machine.Leads m ⟨s.world, .run (.write write fun _ => .done), []⟩)
    (hstraight : ∀ d, K d → d.Straight m.Crosses) :
    ∃ s' : Chronicle σ, Leads (s.runs (.write write fun _ => .done) []) (s'.gives .undefined []) ∧
      s'.Upheld K ∧ s'.world.cells.size = s.world.cells.size ∧
      ∀ e, s'.world.body? e = s.world.body? e := by
  cases hwrite : s.world.write write with
  | none => exact ⟨s, leads_write_none hwrite (leads_ret (.refl _)), h, rfl, fun _ => rfl⟩
  | some written =>
    obtain ⟨w₁, entries⟩ := written
    have hgentle := World.Gentle.of_write h.proper.noted hwrite
    have hregistry := World.registry_write hwrite
    have hidle : w₁.observers = [] := (World.observers_write hwrite).trans h.idle
    have hbegins : Leads (s.runs (.write write fun _ => .done) [])
        (gives ⟨w₁, s.logs⟩ .undefined [.notify [] entries, .bind fun _ => .done]) :=
      leads_write_some hwrite (.refl _)
    have hwithin := Recorded.within_of_leads ⟨h.proper.gentle hgentle, .value _,
      List.forall_mem_cons.2 ⟨trivial, Frame.left_bind_done⟩⟩ (hm.trans hbegins.machine)
    obtain ⟨s', value, hleads, hsettles⟩ := entries_settle (fun _ _ => True) entries [] .undefined
      [.bind fun _ => .done] hidle hwithin
    refine ⟨s', hbegins.trans (hleads.trans (leads_bind (leads_ret (.refl _)))),
      ⟨(hwithin.leads hleads).proper, hsettles.observers.trans hidle, fun e d hd hK => ?_⟩,
      hsettles.size.trans (World.size_cells_write hwrite),
      fun e => (hsettles.bodies e).trans (hgentle.bodies e)⟩
    have hd₁ : w₁.Derives e d := (World.derives_congr hsettles.bodies).1 hd
    have hd₀ : s.world.Derives e d := (World.derives_congr hgentle.bodies).1 hd₁
    have hcurrent := h.current e d hd₀ hK
    refine hsettles.current hd₁ (hstraight d hK) ?_
    -- what the effect has read has not changed, or it is told
    by_cases htold : ∃ x ∈ entries, e ∈ w₁.registry.observers x
    · exact .inr (.inr htold)
    · refine .inl (hcurrent.congr (fun x hx => ?_) rfl (fun x => ?_) fun c hc => ?_)
      · refine Classical.byContradiction fun hchange => htold ⟨x, ?_, ?_⟩
        · exact World.mem_of_content_write hwrite hchange
        · exact hregistry ▸ (hcurrent.registered x).2 hx
      · exact Iff.of_eq (congrArg (e ∈ Registry.observers · x) hregistry)
      · have hcell : w₁.cell? c = s.world.cell? c := by
          refine World.cell?_write hwrite ?_
          rintro value rfl
          exact hpermitted e d hd₀ hc
        exact congrArg (Option.getD · Value.undefined) hcell

/-- An effect that is run by name makes the reads that it makes now; if all effects were
current, nothing changes that can be read. -/
theorem Upheld.rerun {m : Machine σ} (h : s.Upheld K) (hd : s.world.Derives e d)
    (hm : Machine.Leads m ⟨s.world, .run (.rerun e .done), []⟩)
    (hstraight : ∀ d, K d → d.Straight m.Crosses) :
    ∃ s' : Chronicle σ, Leads (s.runs (.rerun e .done) []) (s'.gives .undefined []) ∧
      s'.Upheld K ∧ s.Settles m.Crosses (fun _ _ => True) (· = e) s' := by
  obtain ⟨w', hbegin⟩ := hd.beginRun
  have hbegins : Leads (s.runs (.rerun e .done) [])
      ((s.begun e w').runs d.program [.leave, .bind fun _ => .done]) :=
    leads_rerun hbegin (.refl _)
  have hwithin := Recorded.within_of_leads
    (Machine.deriving_begun h.proper hbegin Frame.left_bind_done) (hm.trans hbegins.machine)
  obtain ⟨s', value, hleads, hsettles⟩ := rerun_settles (fun _ _ => True) h.proper h.idle hbegin
    [.bind fun _ => .done] hwithin
  refine ⟨s', hbegins.trans (hleads.trans (leads_bind (leads_ret (.refl _)))),
    ⟨(hwithin.leads hleads).proper, hsettles.observers.trans h.idle, fun e' d' hd' hK => ?_⟩,
    hsettles⟩
  have hd₀ : s.world.Derives e' d' := (World.derives_congr hsettles.bodies).1 hd'
  exact hsettles.current hd₀ (hstraight d' hK) (.inl (h.current e' d' hd₀ hK))

/-- When an effect is stopped, what the others derive stays upheld. -/
theorem Upheld.stop (h : s.Upheld K) (id : EffectId) : Upheld K ⟨s.world.stop id, s.logs⟩ := by
  refine h.of_same (h.proper.stop id) (World.observers_stop id)
    (fun e d hd => (World.body?_stop_eq_some.1 hd).2) (fun e d x hd => ?_)
    (fun _ _ _ _ _ => World.content_stop id) fun _ _ c _ _ => ?_
  · rw [h.proper.noted.mem_stop]
    exact ⟨And.right, fun hmem => ⟨(World.body?_stop_eq_some.1 hd).1, hmem⟩⟩
  · rw [World.cell, World.cell, World.cell?, World.cell?, World.cells_stop]

/-- A cell ends that nobody can read and in which nobody stores. -/
theorem Upheld.endCell (h : s.Upheld K) {c : CellId}
    (hunused : ∀ e d, s.world.Derives e d → ¬ d.reader.Mentions c ∧ d.cell? ≠ some c) :
    Upheld K ⟨(s.world.answer (.endCell c)).2, s.logs⟩ := by
  have hunread {e : EffectId} {d : Derivation} {x : Entry} (hd : s.world.Derives e d)
      (hcurrent : s.Current e d) (hmem : e ∈ s.world.registry.observers x) :
      x.target ≠ .cell c := fun hx =>
    (hunused e d hd).1 (Reader.mentions_of_mem_entries ((hcurrent.registered x).1 hmem) hx)
  refine ⟨h.proper.endCell fun e d hd => (hunused e d hd).2,
    (World.observers_answer (.endCell c)).trans h.idle, fun e d hd' hK => ?_⟩
  have hd : s.world.Derives e d := (World.derives_congr (World.body?_endCell c)).1 hd'
  have hcurrent := h.current e d hd hK
  refine hcurrent.congr (fun x hx => ?_) rfl (fun x => ?_) fun c' hc' => ?_
  · have hx' := hunread hd hcurrent ((hcurrent.registered x).2 hx)
    exact World.content_endCell hx'
  · by_cases hx : x.target = .cell c
    · exact iff_of_false (fun hmem => hunread hd hcurrent (World.mem_observers_endCell hmem) hx)
        fun hmem => hunread hd hcurrent hmem hx
    · rw [World.observers_endCell hx]
  · have hne : c' ≠ c := by
      rintro rfl
      exact (hunused e d hd).2 hc'
    rw [World.cell, World.cell, World.cell?_endCell hne]

/-- A cell that ends keeps its place, so its number is not used again. -/
theorem size_cells_answer_endCell (w : World σ) (c : CellId) :
    (w.answer (.endCell c)).2.cells.size = w.cells.size := by
  rcases w.finish_cases (.cell c) false with h | ⟨-, h⟩ <;> simp only [World.answer, h]
  exact Array.size_setIfInBounds

/-- **Every permitted act comes to an end and upholds what was upheld before**, but for what
crosses itself in the act. -/
theorem Upheld.act (h : s.Upheld K) (act : Act) (hpermitted : act.Permitted s.world)
    (hstraight : ∀ d, K d → d.Straight (Machine.Crosses ⟨s.world, .run act.program, []⟩)) :
    ∃ s' : Chronicle σ, Leads (s.runs act.program []) (s'.gives .undefined []) ∧ s'.Upheld K ∧
      s.world.cells.size ≤ s'.world.cells.size ∧
      ∀ e, s'.world.body? e = act.bodies s.world e := by
  cases act with
  | object table =>
    exact ⟨_, leads_op rfl (leads_ret (.refl _)), h.object table hpermitted, Nat.le_refl _,
      fun _ => rfl⟩
  | cell value =>
    exact ⟨_, leads_op rfl (leads_ret (.refl _)), h.cell (some value.raw) hpermitted,
      by simp [World.answer], fun _ => rfl⟩
  | computed getter =>
    have hmakes : Leads (s.runs (Act.computed getter).program [])
        (runs ⟨{ s.world with cells := s.world.cells.push (some .undefined) }, s.logs⟩
          (.effect (Derivation.program ⟨getter, some ⟨s.world.cells.size⟩⟩) fun _ => .done)
          []) := by
      refine leads_op rfl ?_
      rw [Reader.bind_program]
      exact .refl _
    -- A computed value is a cell without a value, and then an effect that fills it.
    obtain ⟨s', hleads, hupheld, hsize, hbodies⟩ := (h.cell (some .undefined) hpermitted).create
      ⟨getter, some ⟨s.world.cells.size⟩⟩ (h.proper.computed getter) hmakes.machine hstraight
    exact ⟨s', hmakes.trans hleads, hupheld, by simp [hsize], hbodies⟩
  | effect body =>
    obtain ⟨s', hleads, hupheld, hsize, hbodies⟩ :=
      h.create ⟨body, none⟩ (h.proper.effect body) (.refl _) hstraight
    exact ⟨s', hleads, hupheld, Nat.le_of_eq hsize.symm, hbodies⟩
  | write change =>
    obtain ⟨s', hleads, hupheld, hsize, hbodies⟩ := h.write change hpermitted (.refl _) hstraight
    exact ⟨s', hleads, hupheld, Nat.le_of_eq hsize.symm, hbodies⟩
  | rerun id =>
    cases hlive : s.world.isLive id with
    | true =>
      obtain ⟨d, hd⟩ := h.proper.derives hlive
      obtain ⟨s', hleads, hupheld, hsettles⟩ := h.rerun hd (.refl _) hstraight
      exact ⟨s', hleads, hupheld, Nat.le_of_eq hsettles.size.symm, hsettles.bodies⟩
    | false =>
      exact ⟨s, leads_rerun_stopped (World.beginRun_of_not_isLive hlive) (leads_ret (.refl _)), h,
        Nat.le_refl _, fun _ => rfl⟩
  | stop id =>
    exact ⟨_, leads_op rfl (leads_ret (.refl _)), h.stop id,
      Nat.le_of_eq (congrArg Array.size (World.cells_stop id)).symm, fun e => World.body?_stop e⟩
  | drop c =>
    have hend : ∀ e d, (s.world.stop c.effect).Derives e d →
        ¬ d.reader.Mentions c.cell ∧ d.cell? ≠ some c.cell := by
      intro e d hd
      obtain ⟨hne, hd₀⟩ := World.body?_stop_eq_some.1 hd
      exact hpermitted e d hd₀ hne
    have hsize := (size_cells_answer_endCell (s.world.stop c.effect) c.cell).trans
      (congrArg Array.size (World.cells_stop c.effect))
    exact ⟨_, leads_op rfl (leads_op rfl (leads_ret (.refl _))),
      (h.stop c.effect).endCell hend, Nat.le_of_eq hsize.symm,
      fun e => (World.body?_endCell c.cell e).trans (World.body?_stop e)⟩

end Chronicle
end Reactive
end ReactiveView
