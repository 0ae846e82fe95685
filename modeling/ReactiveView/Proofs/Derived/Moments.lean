/-
# The moments of a pass

While bodies that only read, and then perhaps store, are run by one another, the machine has
nothing else before it (`Machine.Deriving`).  At every moment of this the world holds the same
effects as at first, no cell has gone, and whoever is newly registered at a cell is an effect
whose body can read it (`World.Gentle`).  So a world that was proper is proper at every moment
(`Machine.Deriving.leads`).

A cell *crosses* itself if at one of these moments it follows itself, be it through others
(`Machine.Crosses`).
-/

import ReactiveView.Proofs.Derived.Proper
import ReactiveView.Proofs.Live.Endings

namespace ReactiveView
namespace Reactive

open Relation (TransGen)

variable {σ : Type}

namespace World

variable {w w₁ w' : World σ}

/-- The same effects, no cell less, and new registrations only of what can be read. -/
structure Gentle (w w' : World σ) : Prop where
  noted : w'.Noted
  scope : w'.currentScope = w.currentScope
  bodies : ∀ e, w'.body? e = w.body? e
  cells : ∀ c, (w.cell? c).isSome = true → (w'.cell? c).isSome = true
  registered : ∀ e d x c, w.Derives e d → e ∈ w'.registry.observers x → x.target = .cell c →
    e ∈ w.registry.observers x ∨ d.reader.Mentions c

/-- To do nothing is gentle. -/
theorem Gentle.refl (h : w.Noted) : w.Gentle w :=
  ⟨h, rfl, fun _ => rfl, fun _ => id, fun _ _ _ _ _ hmem _ => .inl hmem⟩

/-- Gentle changes go on. -/
theorem Gentle.trans (h : w.Gentle w₁) (h' : w₁.Gentle w') : w.Gentle w' where
  noted := h'.noted
  scope := h'.scope.trans h.scope
  bodies e := (h'.bodies e).trans (h.bodies e)
  cells c hc := h'.cells c (h.cells c hc)
  registered e d x c hd hmem hx :=
    (h'.registered e d x c ((derives_congr h.bodies).2 hd) hmem hx).elim
      (fun hmem₁ => h.registered e d x c hd hmem₁ hx) .inr

/-- A change of the stack of observers. -/
theorem Gentle.of_observers (h : w.Noted) (observers : List (Option EffectId)) :
    w.Gentle { w with observers } :=
  ⟨⟨h.tidy, h.noted⟩, rfl, fun _ => rfl, fun _ => id, fun _ _ _ _ _ hmem _ => .inl hmem⟩

/-- A write is gentle: it registers nobody. -/
theorem Gentle.of_write {write : Write} {entries : List Entry} (h : w.Noted)
    (hwrite : w.write write = some (w', entries)) : w.Gentle w' where
  noted := kept_noted.alters (alters_write hwrite) h
  scope := currentScope_write hwrite
  bodies := body?_of_effects (effects_write hwrite)
  cells _ := isSome_cell?_write hwrite
  registered _ _ _ _ _ hmem _ := .inl (registry_write hwrite ▸ hmem)

/-- The active effect tracks what its body can read. -/
theorem Gentle.of_track (h : w.Noted) {entry : Entry}
    (hreads : ∀ e d c, w.active = some e → w.Derives e d → entry.target = .cell c →
      d.reader.Mentions c) : w.Gentle (w.track entry) where
  noted := h.track entry
  scope := by rcases w.track_cases entry with htrack | ⟨id, -, htrack⟩ <;> rw [htrack]
  bodies := body?_track entry
  cells c hc := by rcases w.track_cases entry with htrack | ⟨id, -, htrack⟩ <;> rwa [htrack]
  registered e d x c hd hmem hx := by
    rcases mem_observers_track.1 hmem with hmem | ⟨hactive, -, rfl⟩
    · exact .inl hmem
    · exact .inr (hreads e d c hactive hd hx)

/-- An effect whose run begins leaves every entry. -/
theorem Gentle.of_beginRun {e : EffectId} {body : Program σ} (h : w.Noted)
    (hbegin : w.beginRun e = some (body, w')) : w.Gentle w' := by
  have hnoted := h.beginRun hbegin
  obtain ⟨effect, heffect, rfl, rfl⟩ := beginRun_eq_some_iff.1 hbegin
  exact ⟨hnoted, rfl, body?_modify (fun _ => []) rfl, fun _ => id,
    fun _ _ _ _ _ hmem _ => .inl ((h.mem_unregisterAll heffect).1 hmem).2⟩

/-- **A proper world stays proper through gentle changes.** -/
theorem Proper.gentle (h : w.Proper) (hgentle : w.Gentle w') : w'.Proper :=
  h.of_same hgentle.noted hgentle.scope hgentle.bodies hgentle.cells

end World

/-- What the machine has before it is what is left of the body of the active effect, or a
value. -/
inductive Focus.Left (w : World σ) : Focus σ → Prop
  | value (value : Value) : Left w (.value value)
  | done : Left w (.run .done)
  | body {e : EffectId} {d : Derivation} {reader : Reader} (active : w.active = some e)
      (derives : w.Derives e d) (mentions : ∀ c, reader.Mentions c → d.reader.Mentions c) :
      Left w (.run (reader.andThen (Derivation.finish d.cell?)))

/-- After the frame has received a value, nothing is done or a pass goes on. -/
def Frame.Left : Frame σ → Prop
  | .bind next => ∀ value, next value = .done
  | .leave => True
  | .notify _ _ => True
  | _ => False

/-- Nothing is to be done when the act is over. -/
theorem Frame.left_bind_done : ∀ frame ∈ [Frame.bind fun _ => .done], Frame.Left (σ := σ) frame :=
  List.forall_mem_singleton.2 fun _ => rfl

namespace Machine

open World (Gentle)

variable {m m' : Machine σ} {w : World σ} {frames : List (Frame σ)}

/-- Bodies of live effects are run, and nothing else. -/
structure Deriving (m : Machine σ) : Prop where
  proper : m.world.Proper
  focus : m.focus.Left m.world
  frames : ∀ frame ∈ m.frames, frame.Left

/-- The run of an effect begins. -/
theorem deriving_begun {w' : World σ} {e : EffectId} {body : Program σ} (hproper : w.Proper)
    (hbegin : w.beginRun e = some (body, w')) (hframes : ∀ frame ∈ frames, frame.Left) :
    Deriving ⟨w', .run body, .leave :: frames⟩ := by
  have hgentle := Gentle.of_beginRun hproper.noted hbegin
  have hbody := World.body?_of_beginRun hbegin
  obtain ⟨d, rfl⟩ := hproper.derived e body hbody
  refine ⟨hproper.gentle hgentle, ?_, List.forall_mem_cons.2 ⟨trivial, hframes⟩⟩
  refine .body (e := e) ?_ ((World.derives_congr hgentle.bodies).2 hbody) fun _ => id
  rw [World.active, World.observers_beginRun hbegin]
  rfl

/-- When an effect is run or passed over, nothing but bodies is before the machine. -/
theorem deriving_runEffect (hproper : w.Proper) (e : EffectId)
    (hframes : ∀ frame ∈ frames, frame.Left) :
    (runEffect w e frames).Deriving ∧ w.Gentle (runEffect w e frames).world := by
  unfold runEffect
  split
  · rename_i body w' hbegin
    exact ⟨deriving_begun hproper hbegin hframes, .of_beginRun hproper.noted hbegin⟩
  · exact ⟨⟨hproper, .value _, hframes⟩, .refl hproper.noted⟩

/-- A step of a body: it reads what it can read, and then perhaps stores. -/
theorem deriving_exec_body {e : EffectId} {d : Derivation} {reader : Reader} (hproper : w.Proper)
    (hframes : ∀ frame ∈ frames, frame.Left) (hactive : w.active = some e)
    (hderives : w.Derives e d) (hmentions : ∀ c, reader.Mentions c → d.reader.Mentions c) :
    (exec w frames (reader.andThen (Derivation.finish d.cell?))).Deriving ∧
      w.Gentle (exec w frames (reader.andThen (Derivation.finish d.cell?))).world := by
  have hrefl := Gentle.refl hproper.noted
  cases reader with
  | gives value =>
    simp only [Reader.andThen, Derivation.finish]
    split
    · exact ⟨⟨hproper, .value _, hframes⟩, hrefl⟩
    · simp only [exec]
      split
      · rename_i c w' entries hwrite
        have hgentle := Gentle.of_write hproper.noted hwrite
        exact ⟨⟨hproper.gentle hgentle, .value _, List.forall_mem_cons.2
          ⟨trivial, List.forall_mem_cons.2 ⟨fun _ => rfl, hframes⟩⟩⟩, hgentle⟩
      · exact ⟨⟨hproper, .done, hframes⟩, hrefl⟩
  | reads op recorded next =>
    obtain ⟨x, hx⟩ := Option.isSome_iff_exists.1 recorded
    have hgentle : w.Gentle (w.track x) := by
      refine .of_track hproper.noted fun e' d' c hactive' hd' hc => ?_
      obtain rfl := Option.some.inj (hactive.symm.trans hactive')
      obtain rfl := hderives.unique hd'
      exact hmentions c (.inl ⟨x, hx, hc⟩)
    simp only [Reader.andThen, exec, World.perform_of_entry hx]
    refine ⟨⟨hproper.gentle hgentle, ?_, hframes⟩, hgentle⟩
    refine .body (e := e) ?_ ((World.derives_congr hgentle.bodies).2 hderives)
      fun c hc => hmentions c (.inr ⟨_, hc⟩)
    rw [World.active, World.observers_track]
    exact hactive

/-- When a value comes back it is to be stored, or the next observer has its turn. -/
theorem deriving_resume (hproper : w.Proper) (value : Value) (frame : Frame σ)
    (hframe : frame.Left) (hframes : ∀ frame ∈ frames, frame.Left) :
    (resume w value frames frame).Deriving ∧ w.Gentle (resume w value frames frame).world := by
  have hrefl := Gentle.refl hproper.noted
  have hnotify (now : List EffectId) (later : List Entry) :
      ∀ frame ∈ Frame.notify now later :: frames, frame.Left :=
    List.forall_mem_cons.2 ⟨trivial, hframes⟩
  cases frame with
  | bind next =>
    rw [resume, hframe value]
    exact ⟨⟨hproper, .done, hframes⟩, hrefl⟩
  | leave =>
    have hgentle := Gentle.of_observers hproper.noted w.observers.tail
    exact ⟨⟨hproper.gentle hgentle, .value _, hframes⟩, hgentle⟩
  | notify now later =>
    cases now with
    | nil =>
      cases later with
      | nil => exact ⟨⟨hproper, .value _, hframes⟩, hrefl⟩
      | cons x later => exact ⟨⟨hproper, .value _, hnotify _ _⟩, hrefl⟩
    | cons id now =>
      simp only [resume]
      split
      · exact ⟨⟨hproper, .value _, hnotify _ _⟩, hrefl⟩
      · exact deriving_runEffect hproper id (hnotify _ _)
  | _ => exact hframe.elim

/-- **A step of a pass is gentle**, and the pass goes on. -/
theorem Deriving.step (h : m.Deriving) (hstep : m.step? = some m') :
    m'.Deriving ∧ m.world.Gentle m'.world := by
  cases steps_of_step? hstep with
  | exec w frames program =>
    cases h.focus with
    | done => exact ⟨⟨h.proper, .value _, h.frames⟩, .refl h.proper.noted⟩
    | body hactive hderives hmentions =>
      exact deriving_exec_body h.proper h.frames hactive hderives hmentions
  | resume w value frames frame =>
    obtain ⟨hframe, hframes⟩ := List.forall_mem_cons.1 h.frames
    exact deriving_resume h.proper value frame hframe hframes
  | unwind => nomatch h.focus

/-- **Every moment of a pass is gentle.** -/
theorem Deriving.leads (h : m.Deriving) (hleads : Leads m m') :
    m'.Deriving ∧ m.world.Gentle m'.world := by
  induction hleads with
  | refl => exact ⟨h, .refl h.proper.noted⟩
  | tail _ hstep ih =>
    obtain ⟨hderiving, hgentle⟩ := ih.1.step hstep
    exact ⟨hderiving, ih.2.trans hgentle⟩

/-! ## Cells that follow themselves -/

/-- At some moment from here on the cell follows itself, be it through others. -/
def Crosses (m : Machine σ) (c : CellId) : Prop :=
  ∃ m', Leads m m' ∧ TransGen m'.world.Follows c c

end Machine
end Reactive
end ReactiveView
