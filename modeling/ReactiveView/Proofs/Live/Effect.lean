/-
# The effect that renders a view

Of all effects only one is registered anywhere, and it renders a view into a container
(`Live`).  It is *up to date* if the container shows what the view shows now, but for the
names of handlers, and if the effect is registered at every entry that the view reads
now (`UpToDate`).

A run of the effect brings it up to date (`Live.run_leads`).  A write either changes no
entry that the view reads, or it tells of one; then the effect is registered there and
runs.  So a write from outside the effect keeps it up to date (`UpToDate.write_leads`).
-/

import ReactiveView.Proofs.Live.Endings
import ReactiveView.Proofs.Live.Template

namespace ReactiveView
namespace View

open Reactive (EffectId Entry Frame Machine Op Program Value World Write)
open Reactive.Machine (Leads)

variable {τ : Type}

/-- Only one effect is registered anywhere; it renders the view into the container, which
shows some tree.  All callbacks are handlers. -/
structure Live (t : Template τ) (c : ContainerId) (tag : String) (e : EffectId)
    (last : Option VNode) (w : World (Stage τ)) : Prop where
  effect : ∃ entries, w.effects.get? e = some ⟨t.program c, entries⟩
  alone : ∀ x, ∀ id ∈ w.registry.observers x, id = e
  handlers : ∀ body ∈ w.callbacks, ∀ event, Writes (body event)
  stage : w.host.Holds c tag last

/-- No effect is running, the container shows what the view shows, and the effect is
registered wherever the view reads. -/
structure UpToDate (t : Template τ) (c : ContainerId) (tag : String) (e : EffectId)
    (w : World (Stage τ)) : Prop where
  idle : w.observers = []
  shows : ∃ name, Live t c tag e (some ((t.tree w).rename name)) w
  watched : ∀ x ∈ t.entries w, e ∈ w.registry.observers x

variable {t : Template τ} {c : ContainerId} {tag : String} {e : EffectId} {last : Option VNode}
  {w w' : World (Stage τ)}

/-! ## Reading -/

/-- Without an active effect nothing is tracked. -/
theorem track_of_idle (hidle : w.observers = []) (x : Entry) : w.track x = w := by
  simp [World.track, World.active, hidle]

/-- Without an active effect, looking changes nothing. -/
theorem perform_of_idle {op : Op} (hidle : w.observers = []) (hlooks : looks op = true) :
    (w.perform op).2 = w := by
  cases hentry : op.entry? with
  | some x => rw [World.perform_of_entry hentry, track_of_idle hidle]
  | none =>
    rw [World.perform, hentry]
    cases op <;> first | rfl | exact absurd hlooks (by simp [looks])

/-- An object that is not there yet holds no more than an empty one. -/
theorem content_pushEmpty (w : World (Stage τ)) (x : Entry) :
    World.content { w with objects := w.objects.push .empty } x = w.content x := by
  have htable (o : Reactive.ObjectId) :
      World.table { w with objects := w.objects.push .empty } o = w.table o := by
    simp only [World.table, Array.getD_eq_getD_getElem?, Array.getElem?_push]
    split
    · rename_i heq
      rw [heq, Array.getElem?_eq_none (Nat.le_refl _)]
      rfl
    · rfl
  rcases x with ⟨o | cell, name | _⟩
  · simp only [World.content, htable]
  · simp only [World.content, htable]
  · rfl
  · rfl

/-- The effect registers where it reads, and stays registered elsewhere. -/
theorem Live.track (h : Live t c tag e last w) (hrunning : w.observers = [some e]) (x : Entry) :
    Live t c tag e last (w.track x) ∧ e ∈ (w.track x).registry.observers x ∧
      ∀ y, e ∈ w.registry.observers y → e ∈ (w.track x).registry.observers y := by
  obtain ⟨entries, heffect⟩ := h.effect
  have hlive : w.isLive e = true := Reactive.Arena.contains_eq_true_iff.2 ⟨_, heffect⟩
  have htrack : w.track x = w.register e x := by
    simp [World.track, World.active, hrunning, hlive]
  rw [htrack, World.register]
  split
  case isTrue hmem => exact ⟨h, hmem, fun _ => id⟩
  case isFalse =>
    have hobservers (y : Entry) (id : EffectId) :
        id ∈ (w.registry.register e x).observers y ↔
          (x = y ∧ id = e) ∨ id ∈ w.registry.observers y := by
      rw [Reactive.Registry.register, Reactive.Registry.observers_update]
      split
      · rename_i hxy
        simp [hxy]
      · rename_i hxy
        simp [hxy]
    refine ⟨⟨⟨x :: entries, ?_⟩, ?_, h.handlers, h.stage⟩, ?_, ?_⟩
    · rw [Reactive.Arena.get?_modify, if_pos rfl, heffect]
      rfl
    · intro y id hid
      rcases (hobservers y id).1 hid with ⟨-, rfl⟩ | hid
      · rfl
      · exact h.alone y id hid
    · exact (hobservers x e).2 (.inl ⟨rfl, rfl⟩)
    · intro y hy
      exact (hobservers y e).2 (.inr hy)

/-! ## A run of the effect -/

/-- A new handler gets a name. -/
theorem Live.callback (h : Live t c tag e last w) (handler : Handler τ) :
    Live t c tag e last { w with callbacks := w.callbacks.push handler.run } := by
  refine ⟨h.effect, h.alone, ?_, h.stage⟩
  intro body hbody event
  rcases Array.mem_push.1 hbody with hbody | rfl
  · exact h.handlers body hbody event
  · exact handler.writes event

/-- **Making handlers adds callbacks** and leaves the view as it was. -/
theorem makeHandlers_leads (handlers : List (Handler τ)) (h : Live t c tag e last w)
    (made : List Reactive.CallbackId) (next : List Reactive.CallbackId → Program (Stage τ))
    (frames : List (Frame (Stage τ))) :
    ∃ made' callbacks, Live t c tag e last { w with callbacks } ∧
      Leads ⟨w, .run (Template.makeHandlers made next handlers), frames⟩
        ⟨{ w with callbacks }, .run (next made'), frames⟩ := by
  induction handlers generalizing w made with
  | nil => exact ⟨made, w.callbacks, h, .refl _⟩
  | cons handler rest ih =>
    obtain ⟨made', callbacks, hlive, hleads⟩ := ih (h.callback handler)
      (made ++ [⟨w.callbacks.size⟩])
    exact ⟨made', callbacks, hlive, .step rfl hleads⟩

/-- A plain tree is rendered without failure. -/
theorem Live.renderTree_leads {v : VNode} (h : Live t c tag e last w) (hplain : v.Plain)
    (frames : List (Frame (Stage τ))) :
    ∃ host value, Live t c tag e (some v) { w with host } ∧
      Leads ⟨w, .run (Template.renderTree c v), frames⟩
        ⟨{ w with host }, .value value, frames⟩ := by
  obtain ⟨s', hrender, hholds⟩ := h.stage.render hplain
  have hlook : Machine.step? ⟨w, .run (Template.renderTree c v), frames⟩ =
      some ⟨w, .run (.changeHost (fun s => (s.render c (some v)).2) .done), frames⟩ := by
    simp only [Machine.step?, Machine.exec, Template.renderTree, hrender]
  have hchange : Machine.step?
      ⟨w, .run (.changeHost (fun s => (s.render c (some v)).2) .done), frames⟩ =
        some ⟨{ w with host := s' }, .run .done, frames⟩ := by
    simp only [Machine.step?, Machine.exec, hrender]
  exact ⟨s', .undefined, ⟨h.effect, h.alone, h.handlers, hholds⟩,
    .step hlook (.step hchange (.step rfl (.refl _)))⟩

/-- In the later world the effect, which is still running, has rendered what this part of
the view shows of the earlier one, and is registered wherever the part reads.  Nothing
has been written, and no registration was lost. -/
structure Rendered (t part : Template τ) (c : ContainerId) (tag : String) (e : EffectId)
    (w w' : World (Stage τ)) : Prop where
  live : ∃ name, Live t c tag e (some ((part.tree w).rename name)) w'
  running : w'.observers = [some e]
  content : ∀ x, w'.content x = w.content x
  watched : ∀ x ∈ part.entries w, e ∈ w'.registry.observers x
  kept : ∀ x, e ∈ w.registry.observers x → e ∈ w'.registry.observers x

/-- From the middle of a run to its end. -/
theorem Live.program_leads (part : Template τ) (h : Live t c tag e last w)
    (hrunning : w.observers = [some e]) (frames : List (Frame (Stage τ))) :
    ∃ w' value, Leads ⟨w, .run (part.program c), frames⟩ ⟨w', .value value, frames⟩ ∧
      Rendered t part c tag e w w' := by
  induction part generalizing w with
  | shows tree plain handlers =>
    obtain ⟨made, callbacks, hlive, hmade⟩ := makeHandlers_leads handlers h []
      (fun made => Template.renderTree c (tree.rename (Template.nameOf made))) frames
    have hplain : (tree.rename (Template.nameOf made)).Plain := plain.rename _
    obtain ⟨host, value, hlive', hrendered⟩ := hlive.renderTree_leads hplain frames
    refine ⟨_, value, hmade.trans hrendered, ⟨Template.nameOf made, hlive'⟩, hrunning, ?_, ?_,
      fun _ => id⟩
    · intro x
      exact World.content_congr rfl rfl x
    · intro x hx
      exact absurd hx List.not_mem_nil
  | reads op recorded next ih =>
    obtain ⟨x, hx⟩ := Option.isSome_iff_exists.1 recorded
    obtain ⟨hlive, hmem, hkept⟩ := h.track hrunning x
    have hcontent (y : Entry) : (w.track x).content y = w.content y := World.content_track x
    have hrunning₁ : (w.track x).observers = [some e] := by
      rw [World.observers_track, hrunning]
    obtain ⟨w', value, hleads, hrest⟩ := ih (w.answer op).1 hlive hrunning₁
    -- the rest of the view sees the same before and after the read is tracked
    obtain ⟨htree, hreads⟩ := (next (w.answer op).1).tree_congr fun y _ => hcontent y
    have hstep : Machine.step? ⟨w, .run ((Template.reads op recorded next).program c), frames⟩ =
        some ⟨w.track x, .run ((next (w.answer op).1).program c), frames⟩ := by
      simp only [Template.program, Machine.step?, Machine.exec, perform_answer recorded,
        World.perform_of_entry hx]
    refine ⟨w', value, .step hstep hleads, ?_, hrest.running, ?_, ?_, ?_⟩
    · obtain ⟨name, hlive'⟩ := hrest.live
      refine ⟨name, ?_⟩
      rw [Template.tree, ← htree]
      exact hlive'
    · intro y
      rw [hrest.content y, hcontent y]
    · intro y hy
      rw [Template.entries, hx] at hy
      rcases List.mem_append.1 hy with hy | hy
      · obtain rfl := List.mem_singleton.1 hy
        exact hrest.kept y hmem
      · exact hrest.watched y (hreads ▸ hy)
    · intro y hy
      exact hrest.kept y (hkept y hy)

/-- At the beginning of a run the effect is registered nowhere. -/
theorem Live.beginRun (h : Live t c tag e last w) (hidle : w.observers = []) :
    ∃ w', w.beginRun e = some (t.program c, w') ∧ Live t c tag e last w' ∧
      w'.observers = [some e] ∧ ∀ x, w'.content x = w.content x := by
  obtain ⟨entries, heffect⟩ := h.effect
  refine ⟨_, World.beginRun_eq_some_iff.2 ⟨_, heffect, rfl, rfl⟩,
    ⟨⟨[], ?_⟩, ?_, h.handlers, h.stage⟩, ?_, ?_⟩
  · rw [Reactive.Arena.get?_modify, if_pos rfl, heffect]
    rfl
  · intro x id hid
    have hold := (Reactive.Registry.mem_observers_unregisterAll _ _).1 hid
    exact h.alone x id hold.1
  · rw [hidle]
  · intro x
    exact World.content_congr rfl rfl x

/-- **A run of the effect brings it up to date.** -/
theorem Live.run_leads (h : Live t c tag e last w) (hidle : w.observers = [])
    (frames : List (Frame (Stage τ))) :
    ∃ w' value, Leads (Machine.runEffect w e frames) ⟨w', .value value, frames⟩ ∧
      UpToDate t c tag e w' := by
  obtain ⟨w₁, hbegin, hlive, hrunning, -⟩ := h.beginRun hidle
  obtain ⟨w₂, value, hleads, hrendered⟩ := hlive.program_leads t hrunning (.leave :: frames)
  have hcontent (x : Entry) :
      World.content { w₂ with observers := w₂.observers.tail } x = w₁.content x :=
    hrendered.content x
  obtain ⟨htree, hreads⟩ := t.tree_congr fun x _ => hcontent x
  obtain ⟨name, hlive₂⟩ := hrendered.live
  refine ⟨{ w₂ with observers := w₂.observers.tail }, value, ?_, ?_, ⟨name, ?_⟩, ?_⟩
  · rw [Machine.runEffect, hbegin]
    exact hleads.trans (.step rfl (.refl _))
  · rw [hrendered.running]
    rfl
  · rw [htree]
    exact ⟨hlive₂.effect, hlive₂.alone, hlive₂.handlers, hlive₂.stage⟩
  · rw [hreads]
    exact hrendered.watched

/-! ## A write -/

/-- The observers of an entry run one after the other; there is no other than the
effect. -/
theorem Live.notify_now_leads (now : List EffectId) (h : Live t c tag e last w)
    (hidle : w.observers = []) (hnow : ∀ id ∈ now, id = e) (value : Value) (later : List Entry)
    (frames : List (Frame (Stage τ))) :
    ∃ w' value', Leads ⟨w, .value value, .notify now later :: frames⟩
        ⟨w', .value value', .notify [] later :: frames⟩ ∧
      (UpToDate t c tag e w' ∨ now = [] ∧ w' = w) := by
  induction now generalizing last w value with
  | nil => exact ⟨w, value, .refl _, .inr ⟨rfl, rfl⟩⟩
  | cons id now ih =>
    obtain rfl := hnow id List.mem_cons_self
    obtain ⟨w₁, value₁, hleads, hup⟩ := h.run_leads hidle (.notify now later :: frames)
    obtain ⟨name, hlive⟩ := hup.shows
    obtain ⟨w', value', hrest, hend⟩ := ih hlive hup.idle
      (fun id' hid' => hnow id' (List.mem_cons_of_mem _ hid')) value₁
    refine ⟨w', value', .step ?_ (hleads.trans hrest), .inl ?_⟩
    · simp [Machine.step?, Machine.resume, World.isRunning, hidle]
    · rcases hend with hup' | ⟨-, rfl⟩
      · exact hup'
      · exact hup

/-- **A pass that will come to the effect, if that is not up to date, brings it up to
date.** -/
theorem Live.notify_leads (later : List Entry) (now : List EffectId)
    (h : Live t c tag e last w) (hidle : w.observers = []) (hnow : ∀ id ∈ now, id = e)
    (hcomes : UpToDate t c tag e w ∨ e ∈ now ∨ ∃ x ∈ later, e ∈ w.registry.observers x)
    (value : Value) (frames : List (Frame (Stage τ))) :
    ∃ w' value', Leads ⟨w, .value value, .notify now later :: frames⟩ ⟨w', .value value', frames⟩ ∧
      UpToDate t c tag e w' := by
  induction later generalizing last w now value with
  | nil =>
    obtain ⟨w₁, value₁, hleads, hend⟩ := h.notify_now_leads now hidle hnow value [] frames
    refine ⟨w₁, value₁, hleads.trans (.step rfl (.refl _)), ?_⟩
    rcases hend with hup | ⟨rfl, rfl⟩
    · exact hup
    · refine hcomes.resolve_right ?_
      rintro (hmem | ⟨x, hmem, -⟩) <;> exact absurd hmem List.not_mem_nil
  | cons x later ih =>
    obtain ⟨w₁, value₁, hleads, hend⟩ := h.notify_now_leads now hidle hnow value (x :: later) frames
    rcases hend with hup | ⟨rfl, rfl⟩
    · obtain ⟨name, hlive⟩ := hup.shows
      obtain ⟨w', value', hrest, hup'⟩ := ih (w₁.registry.observers x) hlive hup.idle
        (hlive.alone x) (.inl hup) value₁
      exact ⟨w', value', hleads.trans (.step rfl hrest), hup'⟩
    · have hcomes' : UpToDate t c tag e w₁ ∨ e ∈ w₁.registry.observers x ∨
          ∃ y ∈ later, e ∈ w₁.registry.observers y := by
        refine hcomes.imp_right ?_
        rintro (hmem | ⟨y, hy, hmem⟩)
        · exact absurd hmem List.not_mem_nil
        · rcases List.mem_cons.1 hy with rfl | hy
          · exact .inl hmem
          · exact .inr ⟨y, hy, hmem⟩
      obtain ⟨w', value', hrest, hup⟩ := ih (w₁.registry.observers x) h hidle (h.alone x)
        hcomes' value₁
      exact ⟨w', value', hleads.trans (.step rfl hrest), hup⟩

/-- A change that leaves alone what the view reads leaves it up to date. -/
theorem UpToDate.of_same (h : UpToDate t c tag e w) (hidle : w'.observers = [])
    (hcontent : ∀ x ∈ t.entries w, w'.content x = w.content x)
    (hregistry : w'.registry = w.registry)
    (hlive : ∀ last, Live t c tag e last w → Live t c tag e last w') : UpToDate t c tag e w' := by
  obtain ⟨name, hshows⟩ := h.shows
  obtain ⟨htree, hreads⟩ := t.tree_congr hcontent
  refine ⟨hidle, ⟨name, ?_⟩, ?_⟩
  · rw [htree]
    exact hlive _ hshows
  · rw [hreads, hregistry]
    exact h.watched

/-- What a write leaves as it is. -/
theorem write_frame {write : Write} {entries : List Entry}
    (h : w.write write = some (w', entries)) :
    w'.registry = w.registry ∧ w'.effects = w.effects ∧ w'.callbacks = w.callbacks ∧
      w'.host = w.host := by
  rcases World.write_cases h with ⟨o, table, rfl⟩ | ⟨cell, old, value, -, rfl⟩ <;>
    exact ⟨rfl, rfl, rfl, rfl⟩

/-- **A write keeps the effect up to date**, if it is not made by the effect itself. -/
theorem UpToDate.write_leads (h : UpToDate t c tag e w) (write : Write)
    (next : Bool → Program (Stage τ)) (frames : List (Frame (Stage τ))) :
    ∃ w' done, Leads ⟨w, .run (.write write next), frames⟩ ⟨w', .run (next done), frames⟩ ∧
      UpToDate t c tag e w' := by
  cases hwrite : w.write write with
  | none =>
    refine ⟨w, false, .step ?_ (.refl _), h⟩
    simp only [Machine.step?, Machine.exec, hwrite]
  | some written =>
    obtain ⟨w₁, entries⟩ := written
    obtain ⟨hregistry, heffects, hcallbacks, hhost⟩ := write_frame hwrite
    have hidle : w₁.observers = [] := (World.observers_write hwrite).trans h.idle
    have hlive (last : Option VNode) (hlive : Live t c tag e last w) :
        Live t c tag e last w₁ := by
      refine ⟨?_, ?_, ?_, ?_⟩
      · rw [heffects]
        exact hlive.effect
      · rw [hregistry]
        exact hlive.alone
      · rw [hcallbacks]
        exact hlive.handlers
      · rw [hhost]
        exact hlive.stage
    -- either the view reads nothing that changes, or the pass comes to the effect
    have hcomes : UpToDate t c tag e w₁ ∨ e ∈ ([] : List EffectId) ∨
        ∃ x ∈ entries, e ∈ w₁.registry.observers x := by
      by_cases hsame : ∀ x ∈ t.entries w, w₁.content x = w.content x
      · exact .inl (h.of_same hidle hsame hregistry hlive)
      · simp only [Classical.not_forall] at hsame
        obtain ⟨x, hx, hchange⟩ := hsame
        refine .inr (.inr ⟨x, World.mem_of_content_write hwrite hchange, ?_⟩)
        rw [hregistry]
        exact h.watched x hx
    obtain ⟨name, hshows⟩ := h.shows
    obtain ⟨w', value, hleads, hup⟩ := (hlive _ hshows).notify_leads entries [] hidle
      (fun _ hid => absurd hid List.not_mem_nil) hcomes .undefined
      (.bind (fun _ => next true) :: frames)
    have hstep : Machine.step? ⟨w, .run (.write write next), frames⟩ =
        some ⟨w₁, .value .undefined,
          .notify [] entries :: .bind (fun _ => next true) :: frames⟩ := by
      simp only [Machine.step?, Machine.exec, hwrite]
    exact ⟨w', true, .step hstep (hleads.trans (.step rfl (.refl _))), hup⟩

end View
end ReactiveView
