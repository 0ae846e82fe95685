/-
# What becomes of an observer

An effect that is registered at an entry stays so while it rests, that is until its next run
begins, whatever else runs meanwhile; only its own end or that of what it watches takes it out
(`Machine.Rests.registered`).

When the entry is written, the pass comes to the effect after those observers that stand before
it.  These are programs of any kind.  `Machine.Serves` lists what can become of the effect:
its turn comes and a run of it begins, or one of those before it has stopped it, or one of them
does not return, by a failure or because it goes on for ever.  There is no fourth case
(`Machine.write_serves`).
-/

import ReactiveView.Proofs.Effects.Exits
import ReactiveView.Proofs.Effects.Passes

namespace ReactiveView
namespace Reactive

open Relation (ReflTransGen)

variable {σ : Type}

namespace World

variable {w w' : World σ} {e : EffectId} {x : Entry}

/-! ## Registrations stay -/

/-- Whoever is registered stays so through a change, unless it is stopped or what it has read
ends. -/
theorem registered_alters (halters : Alters w w') (h : e ∈ w.registry.observers x) :
    e ∈ w'.registry.observers x ∨ w'.Gone e x := by
  cases halters with
  | rest registry => exact .inl (registry ▸ h)
  | creates body => exact .inl h
  | stops id =>
    by_cases he : e = id ∧ w.isLive id = true
    · obtain ⟨rfl, hlive⟩ := he
      exact .inr (.inl (spent_stop hlive))
    · refine .inl ?_
      unfold World.stop
      split
      · rename_i effect heffect
        have hlive : w.isLive id = true := Arena.contains_eq_true_iff.2 ⟨effect, heffect⟩
        exact (Registry.mem_observers_unregisterAll _ _).2 ⟨h, fun hid => he ⟨hid.1, hlive⟩⟩
      · exact h
  | ends target has =>
    by_cases hx : x.target = target
    · exact .inr (.inr (hx.symm ▸ ended_endTarget has))
    · refine .inl ?_
      rw [registry_endTarget, Registry.observers_forget, if_neg hx]
      exact h

/-- A registered effect stays registered in a step that reads nothing, unless its next run begins
or it or what it watches is gone. -/
theorem registered_turns (hturns : Turns w w') (hstart : w'.observers ≠ some e :: w.observers)
    (h : e ∈ w.registry.observers x) : e ∈ w'.registry.observers x ∨ w'.Gone e x := by
  obtain ⟨w₁, hpath, hend⟩ := hturns
  have hw₁ : e ∈ w₁.registry.observers x ∨ w₁.Gone e x := by
    clear hend
    induction hpath with
    | refl => exact .inl h
    | tail _ halters ih =>
      exact ih.elim (registered_alters halters) fun hgone => .inr (kept_gone.alters halters hgone)
  rcases hend with rfl | ⟨hobservers, id, body, hbegin⟩
  · exact hw₁
  · rcases hw₁ with hmem | hgone
    · have hne : e ≠ id := by
        rintro rfl
        rw [observers_beginRun hbegin, hobservers] at hstart
        exact hstart rfl
      obtain ⟨_, -, rfl, rfl⟩ := beginRun_eq_some_iff.1 hbegin
      exact .inl ((Registry.mem_observers_unregisterAll _ _).2 ⟨hmem, fun hid => hne hid.1⟩)
    · exact .inr (kept_gone.beginRun hbegin hgone)

end World

namespace Machine

variable {m m' : Machine σ} {e : EffectId} {x : Entry} {base : List (Frame σ)}

/-- What every change keeps, any number of steps keep. -/
theorem Leads.keeps {P : World σ → Prop} (hP : World.Kept P) (h : Leads m m') (hm : P m.world) :
    P m'.world := by
  induction h with
  | refl => exact hm
  | tail _ hstep ih => exact (Next.step hstep).keeps hP ih

/-- **A registered effect stays registered**, until its next run begins or it or what it watches
is gone. -/
theorem Next.registered (hnext : Next m m') (hstart : ¬ Starts m m' e)
    (h : e ∈ m.world.registry.observers x) :
    e ∈ m'.world.registry.observers x ∨ m'.world.Gone e x := by
  rcases hnext.turns with ⟨entry, -, hworld⟩ | ⟨-, hturns⟩
  · exact .inl (hworld ▸ World.mem_observers_track.2 (.inl h))
  · exact World.registered_turns hturns hstart h

/-- The run goes on from the one state to the other, and no run of the effect begins
meanwhile. -/
def Rests (e : EffectId) (m m' : Machine σ) : Prop :=
  ReflTransGen (fun m m' => Next m m' ∧ ¬ Starts m m' e) m m'

/-- A rest keeps it too. -/
theorem Rests.keeps {P : World σ → Prop} (hP : World.Kept P) (h : Rests e m m')
    (hm : P m.world) : P m'.world := by
  induction h with
  | refl => exact hm
  | tail _ hnext ih => exact hnext.1.keeps hP ih

/-- **An effect that rests stays registered**, unless it or what it watches is gone. -/
theorem Rests.registered (h : Rests e m m') (hm : e ∈ m.world.registry.observers x) :
    e ∈ m'.world.registry.observers x ∨ m'.world.Gone e x := by
  induction h with
  | refl => exact .inl hm
  | tail _ hnext ih =>
    rcases ih with hmem | hgone
    · exact hnext.1.registered hnext.2 hmem
    · exact .inr (hnext.1.keeps World.kept_gone hgone)

/-! ## The way back -/

/-- What the frames of a state will put right is the same along a run. -/
theorem Leads.putBackAll (h : Leads m m') :
    putBackAll m'.frames m'.world.surroundings = putBackAll m.frames m.world.surroundings := by
  induction h with
  | refl => rfl
  | @tail m₁ m₂ _ hstep ih =>
    obtain ⟨above, habove, hsame⟩ := (step_exchanges hstep).keeps
      (List.append_nil m₁.frames).symm List.nil_suffix
    rw [List.append_nil] at habove
    rw [habove, hsame, ih]

end Machine

/-- A program that has returned leaves the stack of observers as it was. -/
theorem Program.Ends.observers {program : Program σ} {w w' : World σ} (h : program.Ends w w') :
    w'.observers = w.observers := by
  obtain ⟨count, value, hrun⟩ := h
  exact congrArg Surroundings.observers (Machine.leads_of_run_eq hrun).putBackAll

/-! ## Turns -/

namespace Machine

variable {m m' : Machine σ} {e : EffectId} {base : List (Frame σ)}

/-- In a pass above these frames the turn comes to an effect, which is not running. -/
def Turn (m : Machine σ) (base : List (Frame σ)) (e : EffectId) (w : World σ) : Prop :=
  w.isRunning e = false ∧
    ∃ value now later, Leads m ⟨w, .value value, .notify (e :: now) later :: base⟩

/-- What becomes of an observer in a pass above these frames. -/
inductive Serves (m : Machine σ) (base : List (Frame σ)) (e : EffectId) : Prop
  /-- Its turn comes, and a run of it begins. -/
  | runs {w w' : World σ} {body : Program σ} (turn : m.Turn base e w)
      (begins : w.beginRun e = some (body, w'))
  /-- When its turn comes it has been stopped. -/
  | stopped {w : World σ} (turn : m.Turn base e w) (dead : w.isLive e = false)
  /-- The turn comes to an observer before it, whose run does not return. -/
  | stuck {id : EffectId} {w w' : World σ} {body : Program σ} (before : id.before e = true)
      (turn : m.Turn base id w) (begins : w.beginRun id = some (body, w'))
      (never : ∀ w'', ¬ body.Ends w' w'')

/-- The turn of an effect may be some steps ahead. -/
theorem Turn.of_leads {w : World σ} (h : Leads m m') (hturn : m'.Turn base e w) :
    m.Turn base e w := by
  obtain ⟨hoff, value, now, later, hleads⟩ := hturn
  exact ⟨hoff, value, now, later, h.trans hleads⟩

/-- What comes to serve an effect later on serves it from the beginning. -/
theorem Serves.of_leads (h : Leads m m') (hserves : m'.Serves base e) : m.Serves base e := by
  cases hserves with
  | runs turn begins => exact .runs (turn.of_leads h) begins
  | stopped turn dead => exact .stopped (turn.of_leads h) dead
  | stuck before turn begins never => exact .stuck before (turn.of_leads h) begins never

/-- The run of an observer that returns brings the pass to the next one. -/
theorem notify_of_ends {id : EffectId} {w w₁ w₂ : World σ} {body : Program σ}
    (hoff : w.isRunning id = false) (hbegin : w.beginRun id = some (body, w₁))
    (hends : body.Ends w₁ w₂) (value : Value) (now : List EffectId) (later : List Entry)
    (base : List (Frame σ)) : ∃ w₃ value', w₃.observers = w.observers ∧
      Leads ⟨w, .value value, .notify (id :: now) later :: base⟩
        ⟨w₃, .value value', .notify now later :: base⟩ := by
  have hstep : step? ⟨w, .value value, .notify (id :: now) later :: base⟩ =
      some ⟨w₁, .run body, .leave :: .notify now later :: base⟩ := by
    simp [step?, resume, hoff, runEffect, hbegin]
  obtain ⟨value', hleads⟩ := hends.leads (.leave :: .notify now later :: base)
  refine ⟨{ w₂ with observers := w₂.observers.tail }, value', ?_,
    .step hstep (hleads.trans (.step rfl (.refl _)))⟩
  simp only [hends.observers, World.observers_beginRun hbegin, List.tail_cons]

/-- A pass goes over the observers before an effect, and then comes to it. -/
theorem notify_serves (earlier now : List EffectId) (later : List Entry) {w : World σ}
    (value : Value) (hidle : ∀ id, w.isRunning id = false)
    (hearlier : ∀ id ∈ earlier, id.before e = true) :
    Serves ⟨w, .value value, .notify (earlier ++ e :: now) later :: base⟩ base e := by
  induction earlier generalizing w value with
  | nil =>
    have hturn : Turn ⟨w, .value value, .notify (e :: now) later :: base⟩ base e w :=
      ⟨hidle e, value, now, later, .refl _⟩
    cases hlive : w.isLive e with
    | false => exact .stopped hturn hlive
    | true =>
      obtain ⟨body, w', hbegin⟩ := World.beginRun_of_isLive hlive
      exact .runs hturn hbegin
  | cons id earlier ih =>
    obtain ⟨hid, hearlier⟩ := List.forall_mem_cons.1 hearlier
    cases hbegin : w.beginRun id with
    | none =>
      have hstep : step? ⟨w, .value value, .notify (id :: earlier ++ e :: now) later :: base⟩ =
          some ⟨w, .value .undefined, .notify (earlier ++ e :: now) later :: base⟩ := by
        simp [step?, resume, hidle id, runEffect, hbegin]
      exact .of_leads (.step hstep (.refl _)) (ih .undefined hidle hearlier)
    | some begun =>
      obtain ⟨body, w₁⟩ := begun
      by_cases hends : ∃ w₂, body.Ends w₁ w₂
      · obtain ⟨w₂, hends⟩ := hends
        obtain ⟨w₃, value', hobservers, hleads⟩ := notify_of_ends (hidle id) hbegin hends value
          (earlier ++ e :: now) later base
        refine .of_leads hleads (ih value' (fun id' => ?_) hearlier)
        rw [World.isRunning, hobservers]
        exact hidle id'
      · exact .stuck hid ⟨hidle id, value, _, later, .refl _⟩ hbegin (not_exists.1 hends)

end Machine

/-- A write that changes something tells the observers of its entry first. -/
theorem World.exists_write_eq {w w' : World σ} {write : Write} {told : List Entry}
    (h : w.write write = some (w', told)) : ∃ later, told = write.entry :: later := by
  cases wrote_of_write h <;> exact ⟨_, rfl⟩

/-- **A write comes to every observer of its entry**, unless one before it stops the observer or
does not return. -/
theorem Machine.write_serves {w w' : World σ} {write : Write} {told : List Entry}
    {e : EffectId} (next : Bool → Program σ) (frames : List (Frame σ)) (hlisted : w.Listed)
    (hidle : ∀ id, w.isRunning id = false) (hwrite : w.write write = some (w', told))
    (hmem : e ∈ w.registry.observers write.entry) :
    Serves ⟨w, .run (.write write next), frames⟩ (.bind (fun _ => next true) :: frames) e := by
  obtain ⟨later, rfl⟩ := World.exists_write_eq hwrite
  have hobservers := World.observers_write hwrite
  have hregistry := World.registry_write hwrite
  obtain ⟨earlier, now, hsplit⟩ := List.append_of_mem hmem
  have hearlier : ∀ id ∈ earlier, id.before e = true := by
    have hascending := hlisted.2 write.entry
    rw [hsplit] at hascending
    exact fun id hid => (List.pairwise_append.1 hascending).2.2 id hid e List.mem_cons_self
  have hwritten : step? ⟨w, .run (.write write next), frames⟩ = some ⟨w', .value .undefined,
      .notify [] (write.entry :: later) :: .bind (fun _ => next true) :: frames⟩ := by
    simp only [step?, exec, hwrite]
  have hbegun : step? ⟨w', .value .undefined,
      .notify [] (write.entry :: later) :: .bind (fun _ => next true) :: frames⟩ =
      some ⟨w', .value .undefined,
        .notify (earlier ++ e :: now) later :: .bind (fun _ => next true) :: frames⟩ := by
    simp only [step?, resume, hregistry, hsplit]
  refine .of_leads (.step hwritten (.step hbegun (.refl _)))
    (notify_serves earlier now later .undefined (fun id => ?_) hearlier)
  rw [World.isRunning, hobservers]
  exact hidle id

end Reactive
end ReactiveView
