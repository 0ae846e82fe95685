/-
# Layers of derived cells

Let a getter read only computed values that were there when it was made.  Cells are numbered in
the order in which they are made, so the cell of a computed value has a greater number than all
cells that its getter can read.  Nothing is derived from itself, however indirectly.

`World.Fit` says so of all live effects of a world, and it is so at every moment of an act that
is allowed (`World.Fit.moment`).  So no cell crosses itself, and between two acts derived state
is *settled*: nothing runs, and every live effect is current (`Chronicle.Settled.act`).
-/

import ReactiveView.Proofs.Derived.Upheld

namespace ReactiveView
namespace Reactive

open Recorded (Leads)

variable {σ : Type}

/-- The act uses handles only: a new object has not been read before it was made; what a new
body can read of cells is there; the cell of a computed value is not written; and no other
effect can read what is dropped, or stores there. -/
def Act.Allowed (w : World σ) : Act → Prop
  | object _ => ∀ x, x.target = .object ⟨w.objects.size⟩ → w.registry.observers x = []
  | computed body => ∀ c, body.Mentions c → (w.cell? c).isSome = true
  | effect body => ∀ c, body.Mentions c → (w.cell? c).isSome = true
  | write (.store c _) => ∀ e d, w.Derives e d → d.cell? ≠ some c
  | drop c => ∀ e d, w.Derives e d → e ≠ c.effect →
      ¬ d.reader.Mentions c.cell ∧ d.cell? ≠ some c.cell
  | _ => True

namespace World

variable {w w' : World σ} {m : Machine σ}

/-! ## Fit worlds -/

/-- The cell in which an effect stores has a greater number than the cells that its body can
read, and these are there. -/
structure Fit (w : World σ) : Prop extends w.Proper where
  mentioned : ∀ e d c, w.Derives e d → d.reader.Mentions c → (w.cell? c).isSome = true
  below : ∀ e d c c', w.Derives e d → d.cell? = some c → d.reader.Mentions c' → c'.index < c.index
  /-- What has been read of cells can be read by the body. -/
  watched : ∀ e d x c, w.Derives e d → e ∈ w.registry.observers x → x.target = .cell c →
    d.reader.Mentions c

/-- Nothing is derived at the beginning, so everything fits. -/
theorem fit_start (host : σ) : (start host).Fit where
  toProper := proper_start host
  mentioned _ _ _ h := absurd h (not_derives_start host)
  below _ _ _ _ h := absurd h (not_derives_start host)
  watched _ _ _ _ h := absurd h (not_derives_start host)

/-- Effects that were there before, cells that are still there where they can be read, and
registrations of what can be read leave the world fit. -/
theorem Fit.of_fewer (h : w.Fit) (proper : w'.Proper)
    (bodies : ∀ e body, w'.body? e = some body → w.body? e = some body)
    (cells : ∀ e d c, w'.Derives e d → d.reader.Mentions c → (w.cell? c).isSome = true →
      (w'.cell? c).isSome = true)
    (watched : ∀ e d x c, w'.Derives e d → e ∈ w'.registry.observers x → x.target = .cell c →
      d.reader.Mentions c) : w'.Fit where
  toProper := proper
  mentioned e d c hd hc := cells e d c hd hc (h.mentioned e d c (bodies _ _ hd) hc)
  below e d c c' hd := h.below e d c c' (bodies _ _ hd)
  watched := watched

/-- In a fit world no cell follows one with a greater number. -/
theorem Fit.lt_of_follows (h : w.Fit) {c c' : CellId} (hfollows : w.Follows c c') :
    c'.index < c.index := by
  obtain ⟨e, d, hd, hc, hmem⟩ := hfollows
  exact h.below e d c c' hd hc (h.watched e d _ c' hd hmem rfl)

/-- Nobody has read a cell that is not there. -/
theorem Fit.observers_new (h : w.Fit) {x : Entry} (hx : x.target = .cell ⟨w.cells.size⟩) :
    w.registry.observers x = [] := by
  refine List.eq_nil_iff_forall_not_mem.2 fun e hmem => ?_
  obtain ⟨d, hd⟩ := h.derives (h.noted.isLive hmem)
  have hsome := h.mentioned e d _ hd (h.watched e d x _ hd hmem hx)
  exact Nat.lt_irrefl _ (lt_size_of_isSome hsome)

/-- **In a world that fits, an act that is allowed uses handles only.** -/
theorem Fit.permitted (h : w.Fit) {act : Act} (hallowed : act.Allowed w) : act.Permitted w := by
  cases act with
  | cell _ => exact fun _ => h.observers_new
  | computed _ => exact fun _ => h.observers_new
  | effect _ => trivial
  | write change => cases change <;> exact hallowed
  | _ => exact hallowed

/-- Gentle changes keep the layers: what is registered at a cell is read by the body. -/
theorem Fit.gentle (h : w.Fit) (hgentle : w.Gentle w') : w'.Fit := by
  refine h.of_fewer (h.toProper.gentle hgentle)
    (fun e _ hbody => (hgentle.bodies e).symm.trans hbody) (fun _ _ c _ _ => hgentle.cells c)
    fun e d x c hd hmem hx => ?_
  have hd₀ : w.Derives e d := (derives_congr hgentle.bodies).1 hd
  rcases hgentle.registered e d x c hd₀ hmem hx with hmem | hmentions
  · exact h.watched e d x c hd₀ hmem hx
  · exact hmentions

/-! ## What an act makes of a fit world -/

/-- Objects are of no layer. -/
theorem Fit.pushObject (h : w.Fit) (table : KeyTable Value) :
    Fit { w with objects := w.objects.push table } :=
  h.gentle ⟨⟨h.noted.tidy, h.noted.noted⟩, rfl, fun _ => rfl, fun _ => id,
    fun _ _ _ _ _ hmem _ => .inl hmem⟩

/-- A new cell lies above all others. -/
theorem Fit.pushCell (h : w.Fit) (content : Option Value) :
    Fit { w with cells := w.cells.push content } := by
  refine h.gentle ⟨(h.toProper.pushCell content).noted, rfl, fun _ => rfl, fun c hc => ?_,
    fun _ _ _ _ _ hmem _ => .inl hmem⟩
  rw [cell?_push content (Nat.ne_of_lt (lt_size_of_isSome hc))]
  exact hc

/-- A new effect fits if the cells that its body can read are there, and the cell in which it
stores is above them. -/
theorem Fit.create (h : w.Fit) {d : Derivation}
    (mentioned : ∀ c, d.reader.Mentions c → (w.cell? c).isSome = true)
    (below : ∀ c c', d.cell? = some c → d.reader.Mentions c' → c'.index < c.index)
    (hproper : (w.newEffect d.program).2.Proper) : (w.newEffect d.program).2.Fit := by
  have hderives {e : EffectId} {d' : Derivation}
      (hd' : Derives { w with effects := (w.effects.insert ⟨d.program, []⟩).2 } e d') :=
    derives_create h.noted.tidy hd'
  rw [newEffect_eq h.scope] at hproper ⊢
  refine ⟨hproper, ?_, ?_, ?_⟩
  · intro e d' c hd' hc
    rcases hderives hd' with ⟨-, rfl⟩ | hd'
    · exact mentioned c hc
    · exact h.mentioned e d' c hd' hc
  · intro e d' c c' hd' hc hc'
    rcases hderives hd' with ⟨-, rfl⟩ | hd'
    · exact below c c' hc hc'
    · exact h.below e d' c c' hd' hc hc'
  · intro e d' x c hd' hmem hc
    refine (hderives hd').elim (fun hnew => ?_) fun hd' => h.watched e d' x c hd' hmem hc
    -- nobody registers an effect that is not there yet
    have hlive := isLive_iff_body.1 (h.noted.isLive hmem)
    rw [hnew.1, body?_fst_insert h.noted.tidy] at hlive
    exact absurd hlive (by simp)

/-- A world stays fit when an effect is stopped. -/
theorem Fit.stop (h : w.Fit) (id : EffectId) : (w.stop id).Fit := by
  refine h.of_fewer (h.toProper.stop id) (fun e body hbody => (body?_stop_eq_some.1 hbody).2)
    (fun e d c _ _ hc => ?_) fun e d x c hd hmem hc => ?_
  · rw [cell?, cells_stop]
    exact hc
  · exact h.watched e d x c (body?_stop_eq_some.1 hd).2 (h.noted.mem_stop.1 hmem).2 hc

/-- A cell ends that nobody can read and in which nobody stores. -/
theorem Fit.endCell (h : w.Fit) {c : CellId}
    (hunused : ∀ e d, w.Derives e d → ¬ d.reader.Mentions c ∧ d.cell? ≠ some c) :
    (w.answer (.endCell c)).2.Fit := by
  have hderives {e : EffectId} {d : Derivation} (hd : (w.answer (.endCell c)).2.Derives e d) :
      w.Derives e d := (derives_congr (body?_endCell c)).1 hd
  refine h.of_fewer (h.toProper.endCell fun e d hd => (hunused e d hd).2)
    (fun e body hbody => body?_endCell c e ▸ hbody) (fun e d c' hd hc' hc => ?_)
    fun e d x c' hd hmem hx => ?_
  · have hne : c' ≠ c := by
      rintro rfl
      exact (hunused e d (hderives hd)).1 hc'
    rw [cell?_endCell hne]
    exact hc
  · exact h.watched e d x c' (hderives hd) (mem_observers_endCell hmem) hx

/-- An allowed act makes fit worlds only. -/
theorem Fit.stages (h : w.Fit) {act : Act} (hallowed : act.Allowed w) :
    ∀ w₁ ∈ act.stages w, w₁.Fit := by
  cases act with
  | object table =>
    exact List.forall_mem_cons.2 ⟨h, List.forall_mem_singleton.2 (h.pushObject table)⟩
  | cell value =>
    exact List.forall_mem_cons.2 ⟨h, List.forall_mem_singleton.2 (h.pushCell (some value.raw))⟩
  | computed getter =>
    have hlt {c : CellId} (hc : getter.Mentions c) : c.index < w.cells.size :=
      lt_size_of_isSome (hallowed c hc)
    have hcell : Fit { w with cells := w.cells.push (some .undefined) } := h.pushCell _
    refine List.forall_mem_cons.2 ⟨h, List.forall_mem_cons.2 ⟨hcell, List.forall_mem_singleton.2
      (hcell.create (fun c hc => ?_) (fun c c' hc hc' => ?_) (h.toProper.computed getter))⟩⟩
    · rw [cell?_push _ (Nat.ne_of_lt (hlt hc))]
      exact hallowed c hc
    · obtain rfl := Option.some.inj hc
      exact hlt hc'
  | effect body =>
    exact List.forall_mem_cons.2 ⟨h, List.forall_mem_singleton.2 (Fit.create (d := ⟨body, none⟩) h
      hallowed (fun _ _ hc => absurd hc (by simp)) (h.toProper.effect body))⟩
  | write change =>
    refine List.forall_mem_cons.2 ⟨h, fun w₁ hmem => ?_⟩
    obtain ⟨⟨_, entries⟩, hwrite, rfl⟩ := Option.map_eq_some_iff.1 (Option.mem_toList.1 hmem)
    exact h.gentle (.of_write h.noted hwrite)
  | rerun id => exact List.forall_mem_singleton.2 h
  | stop id => exact List.forall_mem_cons.2 ⟨h, List.forall_mem_singleton.2 (h.stop id)⟩
  | drop c =>
    refine List.forall_mem_cons.2 ⟨h, List.forall_mem_cons.2 ⟨h.stop c.effect,
      List.forall_mem_singleton.2 ((h.stop c.effect).endCell fun e d hd => ?_)⟩⟩
    obtain ⟨hne, hd₀⟩ := body?_stop_eq_some.1 hd
    exact hallowed e d hd₀ hne

/-- **At every moment of an allowed act the world is fit.** -/
theorem Fit.moment (h : w.Fit) {act : Act} (hallowed : act.Allowed w)
    (hleads : Machine.Leads ⟨w, .run act.program, []⟩ m) : m.world.Fit := by
  obtain ⟨w₁, hmem, hgentle⟩ := h.toProper.moment (h.permitted hallowed) hleads
  exact (h.stages hallowed w₁ hmem).gentle hgentle

/-- In a fit world no cell crosses itself in an allowed act. -/
theorem Fit.not_crosses (h : w.Fit) {act : Act} (hallowed : act.Allowed w) (c : CellId) :
    ¬ Machine.Crosses ⟨w, .run act.program, []⟩ c := by
  rintro ⟨m, hleads, hfollows⟩
  exact CellId.not_transGen_self CellId.index
    (fun _ _ => (h.moment hallowed hleads).lt_of_follows) c hfollows

end World

namespace Chronicle

variable {s s' : Chronicle σ} {e : EffectId} {d : Derivation}

/-! ## Settled derived state -/

/-- Nothing is running, and every live effect is current. -/
structure Settled (s : Chronicle σ) : Prop where
  fit : s.world.Fit
  idle : s.world.observers = []
  current : ∀ e d, s.world.Derives e d → s.Current e d

/-- The empty world is settled. -/
theorem settled_start (host : σ) : (start host).Settled where
  fit := World.fit_start host
  idle := rfl
  current _ _ hd := absurd hd (World.not_derives_start host)

/-- A settled chronicle upholds whatever is current. -/
theorem Settled.upheld (h : s.Settled) : s.Upheld fun _ => True :=
  ⟨h.fit.toProper, h.idle, fun e d hd _ => h.current e d hd⟩

/-- If all is upheld and the world fits, the chronicle is settled. -/
theorem Upheld.settled (h : s.Upheld fun _ => True) (fit : s.world.Fit) : s.Settled :=
  ⟨fit, h.idle, fun e d hd => h.current e d hd trivial⟩

/-- **Every allowed act comes to an end and leaves derived state settled.** -/
theorem Settled.act (h : s.Settled) (act : Act) (hallowed : act.Allowed s.world) :
    ∃ s' : Chronicle σ, Leads (s.runs act.program []) (s'.gives .undefined []) ∧ s'.Settled ∧
      s.world.cells.size ≤ s'.world.cells.size ∧
      ∀ e, s'.world.body? e = act.bodies s.world e := by
  obtain ⟨s', hleads, hupheld, hsize, hbodies⟩ := h.upheld.act act (h.fit.permitted hallowed)
    fun d _ c _ => h.fit.not_crosses hallowed c
  exact ⟨s', hleads, hupheld.settled (h.fit.moment hallowed hleads.machine), hsize, hbodies⟩

/-- An effect that is run by name makes the reads that it made before, and nothing changes that
can be read. -/
theorem Settled.rerun (h : s.Settled) (hd : s.world.Derives e d) :
    ∃ s' : Chronicle σ, Leads (s.runs (.rerun e .done) []) (s'.gives .undefined []) ∧
      s'.Settled ∧ (∀ id, s'.world.body? id = s.world.body? id) ∧
      s'.world.objects = s.world.objects ∧ s'.world.cells = s.world.cells := by
  have hallowed : (Act.rerun e).Allowed s.world := trivial
  obtain ⟨s', hleads, hupheld, hsettles⟩ := h.upheld.rerun hd (.refl _)
    fun d _ c _ => h.fit.not_crosses hallowed c
  exact ⟨s', hleads, hupheld.settled (h.fit.moment hallowed hleads.machine), hsettles.bodies,
    hsettles.objects, (hsettles.still h.current).1⟩

end Chronicle
end Reactive
end ReactiveView
