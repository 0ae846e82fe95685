/-
# Writes come to an end

Effects may write what they and others read, so a write may run them in circles: each run
writes, and every write begins a pass of its own.  It ends all the same, because an effect
whose body is running is passed over (`write_returns`).

The argument is about bodies that read, write and stop effects, but neither create effects
nor run them by name (`Program.Plain`).  Then all effects that will ever run are the ones
that are live at the beginning, and each is on the stack of observers at most once.  So a body
runs with fewer live effects off the stack than the write that it was run by; and within one
body, and within one pass, what is left to do is finite.
-/

import Mathlib.Data.Finset.Card
import Mathlib.Data.List.ReduceOption
import ReactiveView.Proofs.Effects.Deeds
import ReactiveView.Proofs.Live.Endings

namespace ReactiveView
namespace Reactive

variable {σ : Type}

/-! ## Plain bodies -/

/-- The program reads, writes and stops effects.  It creates none, and it runs others only
through what it writes. -/
inductive Program.Plain : Program σ → Prop
  | ret (value : Value) : Plain (.ret value)
  | op (op : Op) (next : op.Answer → Program σ) (later : ∀ answer, Plain (next answer)) :
      Plain (.op op next)
  | readHost (next : σ → Program σ) (later : ∀ s, Plain (next s)) : Plain (.readHost next)
  | changeHost (change : σ → σ) (next : Program σ) (later : Plain next) :
      Plain (.changeHost change next)
  | write (write : Write) (next : Bool → Program σ) (later : ∀ done, Plain (next done)) :
      Plain (.write write next)
  | trigger (entry : Entry) (next : Program σ) (later : Plain next) : Plain (.trigger entry next)
  | untracked (body : Program σ) (next : Value → Program σ) (inner : Plain body)
      (later : ∀ value, Plain (next value)) : Plain (.untracked body next)

/-- Plain programs one after the other are plain. -/
theorem Program.Plain.bind {program : Program σ} {f : Value → Program σ} (h : program.Plain)
    (hf : ∀ value, (f value).Plain) : (program.bind f).Plain := by
  induction h with
  | ret value => exact hf value
  | op op next _ ih => exact .op op _ ih
  | readHost next _ ih => exact .readHost _ ih
  | changeHost change next _ ih => exact .changeHost change _ ih
  | write write next _ ih => exact .write write _ ih
  | trigger entry next _ ih => exact .trigger entry _ ih
  | untracked body next inner _ _ ih => exact .untracked body _ inner ih

/-- The effect of a computed value is plain if its getter is. -/
theorem Program.Plain.keeping {getter : Program σ} (h : getter.Plain) (cell : CellId) :
    (getter.bind fun value => .write (.store cell value) fun _ => .done).Plain :=
  h.bind fun _ => .write _ _ fun _ => .ret _

/-- The identities that lead somewhere. -/
def Arena.live {α : Type} (arena : Arena α) : Finset EffectId :=
  ((List.range arena.places.size).filterMap fun index =>
    (arena.places[index]?).bind fun place =>
      place.content.map fun _ => EffectId.mk index place.generation).toFinset

/-- An identity that leads somewhere is one of the live ones. -/
theorem Arena.mem_live {α : Type} {arena : Arena α} {id : EffectId} {value : α}
    (h : arena.get? id = some value) : id ∈ arena.live := by
  rw [get?_eq_some_iff] at h
  simp only [live, List.mem_toFinset, List.mem_filterMap, List.mem_range]
  exact ⟨id.index, lt_size_of_getElem? h, by rw [h]; rfl⟩

namespace World

variable {w w' : World σ} {id : EffectId}

/-- The effects whose bodies are running, innermost first. -/
def running (w : World σ) : List EffectId := w.observers.reduceOption

/-- The stack of observers lists the bodies that are running. -/
theorem mem_running : id ∈ w.running ↔ w.isRunning id = true := by
  rw [running, List.reduceOption_mem_iff, isRunning, List.contains_iff_mem]

/-! ## The live effects and their bodies -/

/-- The live effects of the second world are live in the first one, with the same
bodies. -/
def Inherits (w w' : World σ) : Prop :=
  ∀ id effect', w'.effects.get? id = some effect' →
    ∃ effect, w.effects.get? id = some effect ∧ effect'.body = effect.body

/-- The same effects are inherited. -/
theorem Inherits.of_eq (h : w'.effects = w.effects) : Inherits w w' :=
  fun _ effect' heffect' => ⟨effect', h ▸ heffect', rfl⟩

/-- A change of what an effect has noted leaves its body. -/
theorem inherits_modify (id : EffectId) (change : List Entry → List Entry)
    (heffects : w'.effects = w.effects.modify id fun e => { e with entries := change e.entries }) :
    Inherits w w' := by
  intro id' effect' heffect'
  rw [heffects, Arena.get?_modify] at heffect'
  split at heffect'
  · rename_i hid
    subst hid
    obtain ⟨effect, heffect, rfl⟩ := Option.map_eq_some_iff.1 heffect'
    exact ⟨effect, heffect, rfl⟩
  · exact ⟨effect', heffect', rfl⟩

/-- Reads, stops and writes bring no effect to life, and exchange no body. -/
theorem inherits_track (entry : Entry) : Inherits w (w.track entry) := by
  rcases w.track_cases entry with htrack | ⟨id, -, htrack⟩
  · exact .of_eq (by rw [htrack])
  · exact inherits_modify id (entry :: ·) (by rw [htrack])

theorem inherits_stop (id : EffectId) : Inherits w (w.stop id) := by
  unfold World.stop
  split
  · intro id' effect' heffect'
    rw [Arena.get?_remove] at heffect'
    split at heffect'
    · exact absurd heffect' (by simp)
    · exact ⟨effect', heffect', rfl⟩
  · exact .of_eq rfl

/-- No operation makes an effect: that is a command of its own. -/
theorem inherits_perform (op : Op) : Inherits w (w.perform op).2 := by
  cases hentry : op.entry? with
  | some entry =>
    rw [perform_of_entry hentry]
    exact inherits_track entry
  | none =>
    rw [perform_of_entry_none hentry]
    cases op
    case stop id => exact inherits_stop id
    case endCell | letGo => exact .of_eq (effects_finish _ _)
    all_goals exact .of_eq rfl

theorem inherits_write {write : Write} {entries : List Entry}
    (h : w.write write = some (w', entries)) : Inherits w w' := by
  refine .of_eq ?_
  rcases write_cases h with ⟨o, table, rfl⟩ | ⟨c, old, value, -, rfl⟩ <;> rfl

/-- An effect whose run begins keeps its body; only its list is cleared. -/
theorem inherits_beginRun {body : Program σ} (h : w.beginRun id = some (body, w')) :
    Inherits w w' := by
  obtain ⟨_, -, rfl, rfl⟩ := beginRun_eq_some_iff.1 h
  exact inherits_modify id (fun _ => []) rfl

/-- The live effects are among these, and all have plain bodies. -/
def Covered (ids : Finset EffectId) (w : World σ) : Prop :=
  ∀ id effect, w.effects.get? id = some effect → id ∈ ids ∧ effect.body.Plain

/-- Fewer effects with the same bodies are covered by the same ones. -/
theorem Covered.of_inherits {ids : Finset EffectId} (h : Covered ids w) (hw : Inherits w w') :
    Covered ids w' := by
  intro id effect' heffect'
  obtain ⟨effect, heffect, hbody⟩ := hw id effect' heffect'
  obtain ⟨hmem, hplain⟩ := h id effect heffect
  exact ⟨hmem, hbody ▸ hplain⟩

/-- How many of these effects are not running. -/
def waiting (ids : Finset EffectId) (w : World σ) : Nat :=
  (ids.filter fun id => w.isRunning id = false).card

/-- Who waits is told by the stack of observers. -/
theorem waiting_congr {ids : Finset EffectId} (h : w'.observers = w.observers) :
    w'.waiting ids = w.waiting ids := by
  have hsame (id : EffectId) : w'.isRunning id = w.isRunning id := by
    rw [isRunning, isRunning, h]
  exact congrArg Finset.card (Finset.filter_congr fun id _ => by rw [hsame])

/-- When one of them begins to run, fewer are waiting. -/
theorem waiting_lt {ids : Finset EffectId} (hmem : id ∈ ids) (hoff : w.isRunning id = false)
    (hobservers : w'.observers = some id :: w.observers) : w'.waiting ids < w.waiting ids := by
  refine Finset.card_lt_card ((Finset.ssubset_iff_of_subset ?_).2 ⟨id, ?_, ?_⟩)
  · intro id' hid'
    rw [Finset.mem_filter] at hid' ⊢
    refine ⟨hid'.1, ?_⟩
    have hoff' := hid'.2
    rw [isRunning, hobservers, List.contains_cons, Bool.or_eq_false_iff] at hoff'
    exact hoff'.2
  · exact Finset.mem_filter.2 ⟨hmem, hoff⟩
  · simp [Finset.mem_filter, isRunning, hobservers]

end World

/-! ## Bodies and passes return -/

namespace Machine

open World (Covered waiting)

variable {w : World σ} {ids : Finset EffectId} {room : Nat}

/-- The machine comes to a value with nothing left but these frames, and nothing is running
then but what is running in the world. -/
def Returns (ids : Finset EffectId) (w : World σ) (m : Machine σ) (frames : List (Frame σ)) :
    Prop :=
  ∃ w' value, Leads m ⟨w', .value value, frames⟩ ∧ Covered ids w' ∧ w'.observers = w.observers

/-- What returns after one step returns. -/
theorem Returns.step {m m' : Machine σ} {frames : List (Frame σ)} (hstep : m.step? = some m')
    (h : Returns ids w m' frames) : Returns ids w m frames := by
  obtain ⟨w', value, hleads, hcovered, hobservers⟩ := h
  exact ⟨w', value, .step hstep hleads, hcovered, hobservers⟩

/-- What returns to some frames goes on from there. -/
theorem Returns.trans {m : Machine σ} {frames frames' : List (Frame σ)}
    (h : Returns ids w m frames)
    (hnext : ∀ w' value, Covered ids w' → w'.observers = w.observers →
      Returns ids w ⟨w', .value value, frames⟩ frames') : Returns ids w m frames' := by
  obtain ⟨w₁, value₁, hleads₁, hcovered₁, hobservers₁⟩ := h
  obtain ⟨w₂, value₂, hleads₂, hcovered₂, hobservers₂⟩ := hnext w₁ value₁ hcovered₁ hobservers₁
  exact ⟨w₂, value₂, hleads₁.trans hleads₂, hcovered₂, hobservers₂⟩

/-- The world at the beginning matters only for its stack. -/
theorem Returns.congr {w' : World σ} {m : Machine σ} {frames : List (Frame σ)}
    (h : Returns ids w' m frames) (hobservers : w'.observers = w.observers) :
    Returns ids w m frames := by
  unfold Returns
  rw [← hobservers]
  exact h

/-- With so many effects waiting, all plain programs return. -/
def AllReturn (σ : Type) (ids : Finset EffectId) (room : Nat) : Prop :=
  ∀ (w : World σ) (program : Program σ) (frames : List (Frame σ)), program.Plain → Covered ids w →
    w.waiting ids = room → Returns ids w ⟨w, .run program, frames⟩ frames

/-- The run of an effect returns, if programs do while fewer effects are waiting. -/
theorem runEffect_returns (hrooms : ∀ room < w.waiting ids, AllReturn σ ids room)
    (hw : Covered ids w) {id : EffectId} (hoff : w.isRunning id = false)
    (frames : List (Frame σ)) : Returns ids w (runEffect w id frames) frames := by
  unfold runEffect
  cases hbegin : w.beginRun id with
  | none => exact ⟨w, .undefined, .refl _, hw, rfl⟩
  | some begun =>
    obtain ⟨body, w₁⟩ := begun
    obtain ⟨effect, heffect, rfl, -⟩ := World.beginRun_eq_some_iff.1 hbegin
    obtain ⟨hmem, hplain⟩ := hw id effect heffect
    have hobservers := World.observers_beginRun hbegin
    have hlt : w₁.waiting ids < w.waiting ids := World.waiting_lt hmem hoff hobservers
    obtain ⟨w₂, value, hleads, hw₂, hobservers₂⟩ := hrooms _ hlt w₁ effect.body (.leave :: frames)
      hplain (hw.of_inherits (World.inherits_beginRun hbegin)) rfl
    refine ⟨{ w₂ with observers := w₂.observers.tail }, value,
      hleads.trans (.step rfl (.refl _)), hw₂, ?_⟩
    simp only [hobservers₂, hobservers, List.tail_cons]

/-- A pass goes over the observers that it has before it. -/
theorem notify_now_returns (hrooms : ∀ room < w.waiting ids, AllReturn σ ids room)
    (hw : Covered ids w) (value : Value) (now : List EffectId) (later : List Entry)
    (frames : List (Frame σ)) :
    Returns ids w ⟨w, .value value, .notify now later :: frames⟩
      (.notify [] later :: frames) := by
  induction now generalizing w value with
  | nil => exact ⟨w, value, .refl _, hw, rfl⟩
  | cons id now ih =>
    have hstep : step? ⟨w, .value value, .notify (id :: now) later :: frames⟩ =
        some (if w.isRunning id then ⟨w, .value value, .notify now later :: frames⟩
          else runEffect w id (.notify now later :: frames)) := rfl
    by_cases hrunning : w.isRunning id = true
    · rw [if_pos hrunning] at hstep
      exact .step hstep (ih hrooms hw value)
    · rw [if_neg hrunning] at hstep
      rw [Bool.not_eq_true] at hrunning
      refine .step hstep ((runEffect_returns hrooms hw hrunning _).trans ?_)
      intro w' value' hw' hobservers
      refine Returns.congr (ih ?_ hw' value') hobservers
      rw [World.waiting_congr hobservers]
      exact hrooms

/-- A pass returns: over the observers that it has before it, then over the later
entries. -/
theorem notify_returns (hrooms : ∀ room < w.waiting ids, AllReturn σ ids room)
    (hw : Covered ids w) (value : Value) (now : List EffectId) (later : List Entry)
    (frames : List (Frame σ)) :
    Returns ids w ⟨w, .value value, .notify now later :: frames⟩ frames := by
  induction later generalizing w value now with
  | nil =>
    refine (notify_now_returns hrooms hw value now [] frames).trans ?_
    intro w' value' hw' hobservers
    exact .step rfl ⟨w', value', .refl _, hw', hobservers⟩
  | cons entry later ih =>
    refine (notify_now_returns hrooms hw value now (entry :: later) frames).trans ?_
    intro w' value' hw' hobservers
    refine .step rfl (Returns.congr (ih ?_ hw' value' _) hobservers)
    rw [World.waiting_congr hobservers]
    exact hrooms

/-- **Plain programs return.**  The induction is on the number of effects that are waiting,
and within it on the program. -/
theorem allReturn (ids : Finset EffectId) (room : Nat) : AllReturn σ ids room := by
  induction room using Nat.strongRecOn with
  | ind room hrooms =>
    intro w program frames hplain
    -- Two inductions: on the room, for passes run bodies with less of it, and on the program, which
    -- goes on in the same room after a pass.
    induction hplain generalizing w frames with
    | ret value => exact fun hw _ => .step rfl ⟨w, value, .refl _, hw, rfl⟩
    | op op next _ ih =>
      intro hw hroom
      have hobservers := World.observers_perform (w := w) op
      refine .step rfl (Returns.congr (ih _ _ frames (hw.of_inherits (World.inherits_perform op))
        ?_) hobservers)
      rw [World.waiting_congr hobservers, hroom]
    | readHost next _ ih => exact fun hw hroom => .step rfl (ih _ w frames hw hroom)
    | changeHost change next _ ih =>
      exact fun hw hroom => .step rfl (ih { w with host := change w.host } frames hw hroom)
    | write write next _ ih =>
      intro hw hroom
      cases hwrite : w.write write with
      | none =>
        exact .step (by simp only [step?, exec, hwrite]) (ih false w frames hw hroom)
      | some written =>
        obtain ⟨w₁, entries⟩ := written
        have hobservers := World.observers_write hwrite
        have hwaiting : w₁.waiting ids = w.waiting ids := World.waiting_congr hobservers
        have hpass := notify_returns (by rw [hwaiting, hroom]; exact hrooms)
          (hw.of_inherits (World.inherits_write hwrite)) .undefined [] entries
          (.bind (fun _ => next true) :: frames)
        refine .step (by simp only [step?, exec, hwrite]; rfl) (Returns.congr ?_ hobservers)
        refine hpass.trans fun w₂ value₂ hw₂ hobservers₂ => .step rfl ?_
        refine Returns.congr (ih true w₂ frames hw₂ ?_) hobservers₂
        rw [World.waiting_congr hobservers₂, hwaiting, hroom]
    | trigger entry next _ ih =>
      intro hw hroom
      have hpass := notify_returns (by rw [hroom]; exact hrooms) hw .undefined [] [entry]
        (.bind (fun _ => next) :: frames)
      refine .step rfl (hpass.trans fun w₂ value₂ hw₂ hobservers₂ => .step rfl ?_)
      refine Returns.congr (ih w₂ frames hw₂ ?_) hobservers₂
      rw [World.waiting_congr hobservers₂, hroom]
    | untracked body next _ _ ihbody ihnext =>
      intro hw hroom
      have hsame : World.waiting ids { w with observers := none :: w.observers } = room := by
        rw [← hroom]
        -- Reads that are not recorded are made on top of nobody, so nobody waits less.
        simp [waiting, World.isRunning]
      obtain ⟨w₁, value₁, hleads, hw₁, hobservers₁⟩ :=
        ihbody { w with observers := none :: w.observers } (.leave :: .bind next :: frames) hw hsame
      have hback : ({ w₁ with observers := w₁.observers.tail } : World σ).observers =
          w.observers := by
        simp only [hobservers₁, List.tail_cons]
      obtain ⟨w₂, value₂, hleads₂, hw₂, hobservers₂⟩ :=
        ihnext value₁ { w₁ with observers := w₁.observers.tail } frames hw₁
          (by rw [World.waiting_congr hback, hroom])
      exact ⟨w₂, value₂, .step rfl (hleads.trans (.step rfl (.step rfl hleads₂))), hw₂,
        hobservers₂.trans hback⟩

end Machine

/-! ## The stack of observers -/

/-- What is left to do after the frame has received a value is plain. -/
def Frame.Plain : Frame σ → Prop
  | .bind next => ∀ value, (next value).Plain
  | .leave => True
  | .notify _ _ => True
  | _ => False

namespace Machine

open World (Covered)

variable {m m' : Machine σ} {ids : Finset EffectId}

/-- Plain programs are under way, over these effects, and each of these is at most once on
the stack of observers. -/
structure Orderly (ids : Finset EffectId) (m : Machine σ) : Prop where
  covered : Covered ids m.world
  nodup : m.world.running.Nodup
  among : ∀ id ∈ m.world.running, id ∈ ids
  focus : (∃ program, m.focus = .run program ∧ program.Plain) ∨ ∃ value, m.focus = .value value
  frames : ∀ frame ∈ m.frames, frame.Plain

/-- **No more bodies run at a time than there are effects**, since none runs twice. -/
theorem Orderly.length_running_le (h : m.Orderly ids) : m.world.running.length ≤ ids.card := by
  rw [← List.toFinset_card_of_nodup h.nodup]
  refine Finset.card_le_card ?_
  intro id hid
  exact h.among id (List.mem_toFinset.1 hid)

/-- A change of the world that keeps the stack, with programs that are still plain. -/
theorem Orderly.of_same (h : m.Orderly ids) (inherits : World.Inherits m.world m'.world)
    (observers : m'.world.observers = m.world.observers)
    (focus : (∃ program, m'.focus = .run program ∧ program.Plain) ∨ ∃ value, m'.focus = .value value)
    (frames : ∀ frame ∈ m'.frames, frame.Plain) : m'.Orderly ids := by
  have hrunning : m'.world.running = m.world.running := by
    rw [World.running, World.running, observers]
  exact ⟨h.covered.of_inherits inherits, hrunning ▸ h.nodup, hrunning ▸ h.among, focus, frames⟩

/-- An effect whose body is not running begins to run. -/
theorem Orderly.runEffect (h : m.Orderly ids) {id : EffectId}
    (hoff : m.world.isRunning id = false) {frames : List (Frame σ)}
    (hframes : ∀ frame ∈ frames, frame.Plain) :
    (Machine.runEffect m.world id frames).Orderly ids := by
  unfold Machine.runEffect
  cases hbegin : m.world.beginRun id with
  | none => exact h.of_same (.of_eq rfl) rfl (.inr ⟨_, rfl⟩) hframes
  | some begun =>
    obtain ⟨body, w'⟩ := begun
    obtain ⟨effect, heffect, rfl, -⟩ := World.beginRun_eq_some_iff.1 hbegin
    obtain ⟨hmem, hplain⟩ := h.covered id effect heffect
    have hrunning : w'.running = id :: m.world.running := by
      rw [World.running, World.observers_beginRun hbegin, List.reduceOption_cons_of_some,
        World.running]
    have hnot : id ∉ m.world.running := by
      rw [World.mem_running, hoff]
      exact Bool.false_ne_true
    refine ⟨h.covered.of_inherits (World.inherits_beginRun hbegin), ?_, ?_,
      .inl ⟨_, rfl, hplain⟩, List.forall_mem_cons.2 ⟨trivial, hframes⟩⟩
    · rw [hrunning]
      exact List.nodup_cons.2 ⟨hnot, h.nodup⟩
    · rw [hrunning]
      exact List.forall_mem_cons.2 ⟨hmem, h.among⟩

/-- The first step of a plain program leaves plain programs behind it. -/
theorem Orderly.exec {w : World σ} {program : Program σ} {frames : List (Frame σ)}
    (h : Orderly ids ⟨w, .run program, frames⟩) (hplain : program.Plain) :
    (Machine.exec w frames program).Orderly ids := by
  have hframes := h.frames
  cases hplain with
  | ret value => exact h.of_same (.of_eq rfl) rfl (.inr ⟨value, rfl⟩) hframes
  | op op next later =>
    exact h.of_same (World.inherits_perform op) (World.observers_perform op)
      (.inl ⟨_, rfl, later _⟩) hframes
  | readHost next later => exact h.of_same (.of_eq rfl) rfl (.inl ⟨_, rfl, later _⟩) hframes
  | changeHost change next later => exact h.of_same (.of_eq rfl) rfl (.inl ⟨_, rfl, later⟩) hframes
  | write write next later =>
    simp only [Machine.exec]
    split
    · rename_i w' entries hwrite
      exact h.of_same (World.inherits_write hwrite) (World.observers_write hwrite)
        (.inr ⟨_, rfl⟩) (List.forall_mem_cons.2 ⟨trivial,
          List.forall_mem_cons.2 ⟨fun _ => later true, hframes⟩⟩)
    · exact h.of_same (.of_eq rfl) rfl (.inl ⟨_, rfl, later false⟩) hframes
  | trigger entry next later =>
    exact h.of_same (.of_eq rfl) rfl (.inr ⟨_, rfl⟩) (List.forall_mem_cons.2 ⟨trivial,
      List.forall_mem_cons.2 ⟨fun _ => later, hframes⟩⟩)
  | untracked body next inner later =>
    have hrunning : World.running { w with observers := none :: w.observers } = w.running :=
      List.reduceOption_cons_of_none _
    exact ⟨h.covered, hrunning ▸ h.nodup, hrunning ▸ h.among, .inl ⟨body, rfl, inner⟩,
      List.forall_mem_cons.2 ⟨trivial, List.forall_mem_cons.2 ⟨later, hframes⟩⟩⟩

/-- A value that comes back goes to a plain continuation, takes a body off the stack, or has the
next observer of a pass run. -/
theorem Orderly.resume {w : World σ} {value : Value} {frame : Frame σ} {frames : List (Frame σ)}
    (h : Orderly ids ⟨w, .value value, frame :: frames⟩) :
    (Machine.resume w value frames frame).Orderly ids := by
  obtain ⟨hframe, hframes⟩ := List.forall_mem_cons.1 h.frames
  cases frame with
  | bind next => exact h.of_same (.of_eq rfl) rfl (.inl ⟨_, rfl, hframe value⟩) hframes
  | leave =>
    have hsublist : (World.running { w with observers := w.observers.tail }).Sublist w.running :=
      w.observers.tail_sublist.filterMap _
    exact ⟨h.covered, h.nodup.sublist hsublist, fun id hid => h.among id (hsublist.subset hid),
      .inr ⟨value, rfl⟩, hframes⟩
  | notify now later =>
    have hrest (now : List EffectId) (later : List Entry) :
        ∀ frame ∈ Frame.notify now later :: frames, frame.Plain :=
      List.forall_mem_cons.2 ⟨trivial, hframes⟩
    cases now with
    | nil =>
      cases later with
      | nil => exact h.of_same (.of_eq rfl) rfl (.inr ⟨value, rfl⟩) hframes
      | cons entry later => exact h.of_same (.of_eq rfl) rfl (.inr ⟨value, rfl⟩) (hrest _ _)
    | cons id now =>
      simp only [Machine.resume]
      split
      · exact h.of_same (.of_eq rfl) rfl (.inr ⟨value, rfl⟩) (hrest _ _)
      · rename_i hoff
        exact h.runEffect (Bool.not_eq_true _ ▸ hoff) (hrest _ _)
  | _ => exact hframe.elim

/-- One step keeps an orderly machine orderly. -/
theorem Orderly.step (h : m.Orderly ids) (hstep : m.step? = some m') : m'.Orderly ids := by
  cases steps_of_step? hstep with
  | exec w frames program =>
    rcases h.focus with ⟨program', ⟨⟩, hplain⟩ | ⟨value, ⟨⟩⟩
    exact h.exec hplain
  | resume => exact h.resume
  | unwind => rcases h.focus with ⟨program, ⟨⟩, -⟩ | ⟨value, ⟨⟩⟩

/-- Any number of steps keeps an orderly machine orderly. -/
theorem Orderly.leads (h : m.Orderly ids) (hleads : Leads m m') : m'.Orderly ids := by
  induction hleads with
  | refl => exact h
  | tail _ hstep ih => exact ih.step hstep

end Machine

open Machine (Leads)

/-- **Every write comes to an end.**  Take a world in which no effect is running and all live
effects, those of computed values included, have plain bodies: bodies that read, write, delete
and stop effects.  Then a write or a deletion at the top level returns, however the effects
write to what they or the others read.  On the way no effect is twice on the stack of
observers, so runs are nested no deeper than there were live effects. -/
theorem write_returns {w : World σ} (hidle : w.observers = [])
    (hplain : ∀ id effect, w.effects.get? id = some effect → effect.body.Plain) (write : Write) :
    (∃ w', (Program.write write fun done => .ret (.bool done)).Ends w w') ∧
      ∀ m, Leads ⟨w, .run (.write write fun done => .ret (.bool done)), []⟩ m →
        m.world.running.Nodup ∧ m.world.running.length ≤ w.effects.live.card := by
  have hcovered : w.Covered w.effects.live := fun id effect heffect =>
    ⟨Arena.mem_live heffect, hplain id effect heffect⟩
  have hprogram : (Program.write write fun done => .ret (.bool done) : Program σ).Plain :=
    .write _ _ fun _ => .ret _
  constructor
  · obtain ⟨w', value, hleads, -⟩ := Machine.allReturn _ _ w _ [] hprogram hcovered rfl
    exact ⟨w', .of_leads hleads⟩
  · have hnone : w.running = [] := by rw [World.running, hidle]; rfl
    have horderly : Machine.Orderly w.effects.live
        ⟨w, .run (.write write fun done => .ret (.bool done)), []⟩ :=
      ⟨hcovered, hnone ▸ List.nodup_nil, fun id hid => absurd (hnone ▸ hid) List.not_mem_nil,
        .inl ⟨_, rfl, hprogram⟩, fun _ hframe => absurd hframe List.not_mem_nil⟩
    intro m hm
    exact ⟨(horderly.leads hm).nodup, (horderly.leads hm).length_running_le⟩

/-- The body of an effect that keeps one cell different from another. -/
def keepsApart (a b : CellId) : Program Unit :=
  .op (.load a) fun value => .write (.store b (.bool !value.truthy)) fun _ => .done

/-- Two cells.  The first effect keeps the second one different from the first, and the second
effect, the one of a computed value, keeps the first equal to the second; so they never
agree. -/
def neverAgree : World Unit :=
  { World.start () with
    cells := #[some (.bool false), some (.bool true)]
    registry := (Registry.empty.register ⟨0, 0⟩ (.cell ⟨0⟩)).register ⟨1, 0⟩ (.cell ⟨1⟩)
    effects :=
      ⟨#[⟨0, some ⟨keepsApart ⟨0⟩ ⟨1⟩, [.cell ⟨0⟩]⟩⟩,
        ⟨0, some ⟨(Program.op (.load ⟨1⟩) Program.ret).bind fun value =>
          .write (.store ⟨0⟩ value) fun _ => .done, [.cell ⟨1⟩]⟩⟩], []⟩ }

/-- Both effects read a cell and write the other. -/
theorem neverAgree_plain (id : EffectId) (effect : Effect Unit)
    (h : neverAgree.effects.get? id = some effect) : effect.body.Plain := by
  obtain ⟨_ | _ | index, generation⟩ := id
  · rw [Arena.get?_eq_some_iff] at h
    cases h
    exact .op _ _ fun _ => .write _ _ fun _ => .ret _
  · rw [Arena.get?_eq_some_iff] at h
    cases h
    exact Program.Plain.keeping (.op _ _ fun _ => .ret _) _
  · rw [Arena.get?_eq_some_iff] at h
    cases h

/-- A write to the first cell runs both effects, and returns. -/
theorem write_returns_neverAgree :
    (∃ w', (Program.write (.store ⟨0⟩ (.bool true)) fun done => .ret (.bool done)).Ends
        neverAgree w') ∧
      ∀ m, Leads ⟨neverAgree, .run (.write (.store ⟨0⟩ (.bool true)) fun done =>
          .ret (.bool done)), []⟩ m →
        m.world.running.Nodup ∧ m.world.running.length ≤ 2 :=
  write_returns (w := neverAgree) rfl neverAgree_plain _

end Reactive
end ReactiveView
