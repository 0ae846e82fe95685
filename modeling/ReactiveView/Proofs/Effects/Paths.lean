/-
# Reads along a path

A path leads from an object to a property of it, from there to a property of what is found, and
so on (`Program.readAlong`).  Objects are stored raw or as wrappers, they may be shared, and the
path may come back to where it was.  It begins at a wrapper or at the value of a cell
(`Origin`), and since every read through a wrapper answers a wrapper, no raw reference is ever met
(`World.not_raw_along`): a raw one would be read unrecorded from there on.

So a run of an effect that reads a path registers the effect at every step of it, up to the first
one that leads to no object, and nowhere else (`reader_ends`).  There it stays registered, and a
write of one of these entries, through whatever leads to the object, comes to the effect again
(`path_stays_tracked`), unless another observer is in its way; those ways are shown to happen
(`reader_passed_over`).
-/

import ReactiveView.Proofs.Effects.Serving

namespace ReactiveView
namespace Reactive

variable {σ : Type}

/-! ## Paths -/

/-- Where a path begins. -/
inductive Origin where
  /-- At the wrapper of an object. -/
  | wrapper (o : ObjectId)
  /-- At the value of a cell. -/
  | cell (c : CellId)

namespace Program

/-- Reads the properties of these names, each through what the one before has led to, and goes on
with all values on the way, the first one included. -/
def readAlong : Value → List String → (List Value → Program σ) → Program σ
  | value, [], next => next [value]
  | value, name :: names, next =>
    getProperty value name fun value' => readAlong value' names fun values => next (value :: values)

/-- The body that reads along a path, and nothing else, and notes what it has met. -/
def reader (origin : Origin) (names : List String) (note : List Value → σ → σ) : Program σ :=
  let follow (value : Value) := readAlong value names fun values => changeHost (note values) done
  match origin with
  | .wrapper o => follow (.reactive o)
  | .cell c => op (.load c) follow

end Program

namespace World

variable {w w' : World σ} {value : Value} {name : String} {names : List String} {e : EffectId}
  {x : Entry} {entries : List Entry}

/-- What a property is read as through a value. -/
def through (w : World σ) (name : String) : Value → Value
  | .reactive o => (w.property o name).wrap
  | .object o => w.property o name
  | _ => .undefined

/-- The values that a path meets. -/
def along (w : World σ) : Value → List String → List Value
  | value, [] => [value]
  | value, name :: names => value :: w.along (w.through name value) names

/-- The properties that a path leads over: of each object that it meets, raw or not, that of the
next name. -/
def passed (w : World σ) : Value → List String → List Entry
  | _, [] => []
  | value, name :: names =>
    match value.target? with
    | some o => .property o name :: w.passed (w.through name value) names
    | none => []

/-- The value that a path begins with. -/
def origin (w : World σ) : Origin → Value
  | .wrapper o => .reactive o
  | .cell c => (w.cell c).wrap

/-- The entries of a path: those that it leads over, and that of the cell where it begins. -/
def pathEntries (w : World σ) (origin : Origin) (names : List String) : List Entry :=
  match origin with
  | .wrapper o => w.passed (.reactive o) names
  | .cell c => .cell c :: w.passed (w.cell c).wrap names

/-- What a property is read as is told by the objects. -/
theorem through_congr (h : w'.objects = w.objects) (value : Value) :
    w'.through name value = w.through name value := by
  cases value <;> simp only [through, property, table, h]

/-- The values that a path meets depend on the objects only. -/
theorem along_congr (h : w'.objects = w.objects) (value : Value) :
    w'.along value names = w.along value names := by
  induction names generalizing value with
  | nil => rfl
  | cons name names ih => rw [along, along, ih, through_congr h]

/-- The properties that a path leads over depend on the objects only. -/
theorem passed_congr (h : w'.objects = w.objects) (value : Value) :
    w'.passed value names = w.passed value names := by
  induction names generalizing value with
  | nil => rfl
  | cons name names ih => rw [passed, passed, ih, through_congr h]

/-- What has been wrapped is not raw. -/
theorem not_raw_wrap (value : Value) : value.wrap.isRaw = false := by
  cases value <;> rfl

/-- No path begins at a raw reference. -/
theorem not_raw_origin (w : World σ) (origin : Origin) : (w.origin origin).isRaw = false := by
  cases origin with
  | wrapper o => rfl
  | cell c => exact not_raw_wrap _

/-- A read through a value that is not raw answers no raw one. -/
theorem not_raw_through (w : World σ) (name : String) (h : value.isRaw = false) :
    (w.through name value).isRaw = false := by
  cases value with
  | object o => exact absurd h (by simp [Value.isRaw])
  | reactive o => exact not_raw_wrap _
  | _ => rfl

/-- **A path meets no raw reference.** -/
theorem not_raw_along (h : value.isRaw = false) :
    ∀ met ∈ w.along value names, met.isRaw = false := by
  induction names generalizing value with
  | nil => exact List.forall_mem_singleton.2 h
  | cons name names ih => exact List.forall_mem_cons.2 ⟨h, ih (w.not_raw_through name h)⟩

/-! ## Recorded reads -/

/-- The active effect reads the entries one after the other. -/
def trackAll (w : World σ) (entries : List Entry) : World σ := entries.foldl World.track w

/-- Many reads in a row change no store. -/
theorem rereads_trackAll (w : World σ) (entries : List Entry) : Rereads w (w.trackAll entries) := by
  induction entries generalizing w with
  | nil => exact .refl w
  | cons entry entries ih => exact (rereads_track entry).trans (ih (w.track entry))

/-- Many reads in a row do not change the host. -/
theorem host_trackAll (w : World σ) (entries : List Entry) :
    (w.trackAll entries).host = w.host := by
  induction entries generalizing w with
  | nil => rfl
  | cons entry entries ih =>
    refine (ih (w.track entry)).trans ?_
    rcases w.track_cases entry with h | ⟨id, -, h⟩ <;> rw [h]

/-- The active effect comes to be registered at these entries. -/
theorem mem_observers_trackAll (hactive : w.active = some e) (hlive : w.isLive e = true) :
    e ∈ (w.trackAll entries).registry.observers x ↔ e ∈ w.registry.observers x ∨ x ∈ entries := by
  induction entries generalizing w with
  | nil => simp [trackAll]
  | cons entry entries ih =>
    have hactive' : (w.track entry).active = some e := by
      rw [active, observers_track]
      exact hactive
    have htrack := ih hactive' ((isLive_track entry).trans hlive)
    rw [trackAll] at htrack
    rw [trackAll, List.foldl_cons, htrack, mem_observers_track]
    simp only [hactive, hlive, true_and, List.mem_cons, or_assoc, eq_comm]

/-- The world after a run of an effect that has read these entries and changed the host. -/
def readBy (w : World σ) (e : EffectId) (entries : List Entry) (change : σ → σ) : World σ :=
  match w.beginRun e with
  | some (_, begun) =>
    { begun.trackAll entries with host := change w.host, observers := w.observers }
  | none => w

/-- The world after a run of an effect that has read a path and noted what it has met. -/
def afterPath (w : World σ) (e : EffectId) (origin : Origin) (names : List String)
    (note : List Value → σ → σ) : World σ :=
  w.readBy e (w.pathEntries origin names) (note (w.along (w.origin origin) names))

end World

namespace Machine

variable {w : World σ} {e : EffectId} {frames : List (Frame σ)}

/-- **The reads along a path** track each of its entries and change nothing else. -/
theorem readAlong_leads (names : List String) (w : World σ) {value : Value}
    (h : value.isRaw = false) (next : List Value → Program σ) (frames : List (Frame σ)) :
    Leads ⟨w, .run (.readAlong value names next), frames⟩
      ⟨w.trackAll (w.passed value names), .run (next (w.along value names)), frames⟩ := by
  induction names generalizing w value next with
  | nil => exact .refl _
  | cons name names ih =>
    cases value with
    | object o => exact absurd h (by simp [Value.isRaw])
    | reactive o =>
      have hobjects := (World.rereads_track (w := w) (.property o name)).objects
      have hstep : step? ⟨w, .run (.readAlong (.reactive o) (name :: names) next), frames⟩ =
          some ⟨w.track (.property o name), .run (.readAlong (w.through name (.reactive o)) names
            fun values => next (.reactive o :: values)), frames⟩ := by
        have hanswer : (w.perform (.get o name)).1 = w.through name (.reactive o) :=
          View.perform_answer rfl
        have hworld : (w.perform (.get o name)).2 = w.track (.property o name) :=
          World.perform_of_entry rfl
        simp only [step?, exec, Program.readAlong, Program.getProperty, hanswer, hworld]
      have hleads := ih (w.track (.property o name)) (w.not_raw_through name h)
        (fun values => next (.reactive o :: values))
      rw [World.along_congr hobjects, World.passed_congr hobjects] at hleads
      exact .step hstep hleads
    | _ =>
      have hpassed : w.passed .undefined names = [] := by cases names <;> rfl
      have hleads (met : Value) := @ih w .undefined rfl fun values => next (met :: values)
      simp only [hpassed] at hleads
      exact hleads _

/-- The body that reads along a path returns; it has read the entries of the path, and has noted
the values that it met. -/
theorem reader_leads (w : World σ) (origin : Origin) (names : List String)
    (note : List Value → σ → σ) (frames : List (Frame σ)) :
    Leads ⟨w, .run (.reader origin names note), frames⟩
      ⟨{ w.trackAll (w.pathEntries origin names) with
          host := note (w.along (w.origin origin) names) w.host }, .value .undefined, frames⟩ := by
  have hnoted (w : World σ) (values : List Value) :
      Leads ⟨w, .run (.changeHost (note values) .done), frames⟩
        ⟨{ w with host := note values w.host }, .value .undefined, frames⟩ :=
    .step rfl (.step rfl (.refl _))
  have hfollow (w : World σ) {value : Value} (h : value.isRaw = false) :
      Leads ⟨w, .run (.readAlong value names fun values => .changeHost (note values) .done), frames⟩
        ⟨{ w.trackAll (w.passed value names) with host := note (w.along value names) w.host },
          .value .undefined, frames⟩ := by
    have hleads := readAlong_leads names w h
      (fun values => .changeHost (note values) .done) frames
    have hend := hleads.trans (hnoted _ _)
    rw [World.host_trackAll] at hend
    exact hend
  cases origin with
  | wrapper o => exact hfollow w rfl
  | cell c =>
    have hobjects := (World.rereads_track (w := w) (.cell c)).objects
    have hhost : (w.track (.cell c)).host = w.host := World.host_trackAll w [.cell c]
    have hanswer : (w.perform (.load c)).1 = (w.cell c).wrap := View.perform_answer rfl
    have hworld : (w.perform (.load c)).2 = w.track (.cell c) := World.perform_of_entry rfl
    have hstep : step? ⟨w, .run (.reader (.cell c) names note), frames⟩ =
        some ⟨w.track (.cell c), .run (.readAlong (w.cell c).wrap names fun values =>
          .changeHost (note values) .done), frames⟩ := by
      simp only [step?, exec, Program.reader, hanswer, hworld]
    have hleads := hfollow (w.track (.cell c)) (World.not_raw_wrap (w.cell c))
    rw [World.along_congr hobjects, World.passed_congr hobjects, hhost] at hleads
    exact .step hstep hleads

end Machine

open Machine (Leads Rests Serves runEffect)

/-- The body of a live effect begins to run among the same objects and cells. -/
theorem World.exists_begun {w : World σ} {e : EffectId} {body : Program σ}
    (hbody : w.body? e = some body) : ∃ begun, w.beginRun e = some (body, begun) ∧
      begun.objects = w.objects ∧ begun.cells = w.cells ∧ begun.host = w.host := by
  obtain ⟨effect, heffect, rfl⟩ := Option.map_eq_some_iff.1 hbody
  exact ⟨_, beginRun_eq_some_iff.2 ⟨effect, heffect, rfl, rfl⟩, rfl, rfl, rfl⟩

/-- The same objects and cells make the same paths. -/
theorem World.pathEntries_congr {w w' : World σ} (objects : w'.objects = w.objects)
    (cells : w'.cells = w.cells) (origin : Origin) (names : List String) :
    w'.pathEntries origin names = w.pathEntries origin names ∧
      w'.along (w'.origin origin) names = w.along (w.origin origin) names := by
  have hcell (c : CellId) : w'.cell c = w.cell c := by rw [cell, cell, cell?, cell?, cells]
  cases origin <;>
    simp only [pathEntries, World.origin, passed_congr objects, along_congr objects, hcell,
      and_self]

/-- **A run of an effect that reads a path** comes to its end, registered at the entries of the
path and nowhere else. -/
theorem reader_ends {w : World σ} {e : EffectId} {origin : Origin} {names : List String}
    {note : List Value → σ → σ} {frames : List (Frame σ)}
    (hlisted : (runEffect w e frames).world.Listed)
    (hbody : w.body? e = some (.reader origin names note)) :
    Leads (runEffect w e frames) ⟨w.afterPath e origin names note, .value .undefined, frames⟩ ∧
      ∀ x, e ∈ (w.afterPath e origin names note).registry.observers x ↔
        x ∈ w.pathEntries origin names := by
  obtain ⟨begun, hbegin, hobjects, hcells, hhost⟩ := World.exists_begun hbody
  have hobservers := World.observers_beginRun hbegin
  have hrun : runEffect w e frames =
      ⟨begun, .run (.reader origin names note), .leave :: frames⟩ := by
    simp only [runEffect, hbegin]
  have hafter (entries : List Entry) (change : σ → σ) : w.readBy e entries change =
      { begun.trackAll entries with host := change w.host, observers := w.observers } := by
    simp only [World.readBy, hbegin]
  rw [hrun] at hlisted
  rw [hrun, World.afterPath, hafter]
  constructor
  · obtain ⟨hentries, hvalues⟩ := World.pathEntries_congr hobjects hcells origin names
    have hleads := Machine.reader_leads begun origin names note (.leave :: frames)
    rw [hentries, hvalues, hhost] at hleads
    refine hleads.trans (.step ?_ (.refl _))
    have hreads := World.rereads_trackAll begun (w.pathEntries origin names)
    simp only [Machine.step?, Machine.resume, hreads.observers, hobservers, List.tail_cons]
  · have hactive : begun.active = some e := by rw [World.active, hobservers]; rfl
    have hlive : begun.isLive e = true :=
      (World.isLive_beginRun hbegin).trans (World.isLive_iff_body.2 ⟨_, hbody⟩)
    have hnowhere (x : Entry) : e ∉ begun.registry.observers x := by
      obtain ⟨effect, heffect, hentries⟩ := World.entries_beginRun hbegin
      intro hmem
      obtain ⟨effect', heffect', hx⟩ := hlisted.1.noted x e hmem
      obtain rfl := Option.some.inj (heffect.symm.trans heffect')
      rw [hentries] at hx
      exact absurd hx List.not_mem_nil
    intro x
    exact (World.mem_observers_trackAll hactive hlive).trans (or_iff_right (hnowhere x))

/-- **Reads through a path stay reactive, and tracked at every level.**  Take any reachable state
in which a run of an effect begins whose body reads a path: from the wrapper of an object or from
a cell, over objects of any graph.  The run comes to its end; no value that it has met is a raw
reference; and the effect is then registered at the entries of the path, and nowhere else.  After
that, as long as the effect rests and is live, a write at the top level to what is still there that
changes one of these entries begins a run of it, unless an observer before it has stopped it or does
not return. -/
theorem path_stays_tracked {w : World σ} {e : EffectId} {frames : List (Frame σ)}
    {origin : Origin} {names : List String} {note : List Value → σ → σ}
    (hm : (runEffect w e frames).Reachable)
    (hbody : w.body? e = some (.reader origin names note)) :
    Leads (runEffect w e frames) ⟨w.afterPath e origin names note, .value .undefined, frames⟩ ∧
      (∀ met ∈ w.along (w.origin origin) names, met.isRaw = false) ∧
      (∀ x, e ∈ (w.afterPath e origin names note).registry.observers x ↔
        x ∈ w.pathEntries origin names) ∧
      ∀ (w₁ : World σ) (write : Write) (next : Bool → Program σ) (frames₁ : List (Frame σ)),
        Rests e ⟨w.afterPath e origin names note, .value .undefined, frames⟩
          ⟨w₁, .run (.write write next), frames₁⟩ →
        (∀ id, w₁.isRunning id = false) → w₁.isLive e = true →
        ¬ w₁.Ended write.entry.target → (w₁.write write).isSome = true →
        write.entry ∈ w.pathEntries origin names →
        Serves ⟨w₁, .run (.write write next), frames₁⟩
          (.bind (fun _ => next true) :: frames₁) e := by
  obtain ⟨hleads, hregistered⟩ := reader_ends hm.listed hbody
  refine ⟨hleads, World.not_raw_along (World.not_raw_origin w origin), hregistered, ?_⟩
  intro w₁ write next frames₁ hrests hidle hlive hthere hchanges hentry
  obtain ⟨⟨w₂, told⟩, hwrite⟩ := Option.isSome_iff_exists.1 hchanges
  have hlisted := hrests.keeps World.kept_listed (hleads.keeps World.kept_listed hm.listed)
  refine Machine.write_serves next frames₁ hlisted hidle hwrite ?_
  rcases hrests.registered ((hregistered write.entry).2 hentry) with hmem | hspent | hended
  · exact hmem
  · rw [World.isLive_eq_false_of_spent hspent] at hlive
    exact absurd hlive (by simp)
  · exact absurd hended hthere

/-- The body of the effect of `roundTrip`. -/
def goesRound : Program Nat :=
  .reader (.cell ⟨0⟩) ["next", "back", "next"] fun _ runs => runs + 1

/-- Two objects that lead to each other, the one stored raw and the other as a wrapper, and an
effect that goes round once from a cell.  Then the way back is deleted. -/
def roundTrip : Program Nat :=
  .op (.newObject .empty) fun o =>
    .op (.newObject (KeyTable.empty.insert "back" (.reactive o))) fun p =>
      .op (.insert o "next" (.object p)) fun _ =>
        .op (.newCell (.object o)) fun _ =>
          .effect goesRound fun _ => .write (.delete p "back") fun _ => .done

/-- In state 6 of `roundTrip` the run of the effect begins, in state 13 it is over, and in state 14
the deletion is made, which runs the effect again. -/
theorem path_stays_tracked_roundTrip :
    (∀ x, ⟨0, 0⟩ ∈ (Machine.states 0 roundTrip 13).world.registry.observers x ↔
      x ∈ [.cell ⟨0⟩, .property ⟨0⟩ "next", .property ⟨1⟩ "back", .property ⟨0⟩ "next"]) ∧
    Serves (Machine.states 0 roundTrip 14) [.bind fun _ => .done] ⟨0, 0⟩ := by
  have hgoes : ∀ i < 14, 0 < i → (Machine.states 0 roundTrip i).GoesOn := by decide
  have hm := Machine.reachable_states 6 fun i hi => hgoes i (Nat.lt_trans hi (by decide))
  have hrests : Rests ⟨0, 0⟩ (Machine.states 0 roundTrip 13) (Machine.states 0 roundTrip 14) :=
    .single ⟨Machine.next_states 13 (hgoes 13 (by decide)), by decide⟩
  have hbody : ((Machine.states 0 roundTrip 5).world.newEffect goesRound).2.body? ⟨0, 0⟩ =
      some goesRound := rfl
  have hbegun : runEffect ((Machine.states 0 roundTrip 5).world.newEffect goesRound).2 ⟨0, 0⟩
      [.bind fun _ => .write (.delete ⟨1⟩ "back") fun _ => .done] =
        Machine.states 0 roundTrip 6 := rfl
  rw [← hbegun] at hm
  obtain ⟨-, -, hregistered, hserves⟩ := path_stays_tracked hm hbody
  exact ⟨hregistered, hserves _ (.delete ⟨1⟩ "back") _ [] hrests (fun id => rfl) (by decide)
    (by decide) (by decide) (by decide)⟩

/-! ## Observers in the way -/

/-- The body that reads one property of the first object. -/
def readsOne : Program Nat := .reader (.wrapper ⟨0⟩) ["a"] fun _ runs => runs + 1

/-- An effect that goes on to something else once the property is there, an effect behind it that
reads the property, and a write by which the property comes. -/
def behind (other : Program Nat) : Program Nat :=
  .op (.newObject .empty) fun o =>
    .effect (.op (.get o "a") fun value => if value.isNullish then .done else other) fun _ =>
      .effect readsOne fun _ => .write (.set o "a" (.bool true)) fun _ => .done

/-- The second effect is registered at the property, the write that begins in state 13, at the
top level, changes it, and the operation comes to its end without a run of the effect. -/
structure PassedOver (t : Nat → Machine Nat) (n : Nat) : Prop where
  body : (t 13).world.body? ⟨1, 0⟩ = some readsOne
  registered : ⟨1, 0⟩ ∈ (t 13).world.registry.observers (.property ⟨0⟩ "a")
  writes : (t 13).focus = .run (.write (.set ⟨0⟩ "a" (.bool true)) fun _ => .done)
  top : (t 13).frames = []
  changes : ((t 13).world.write (.set ⟨0⟩ "a" (.bool true))).isSome = true
  ends : (t n).step? = none
  rests : ∀ k < n, 13 ≤ k → ¬ Machine.Starts (t k) (t (k + 1)) ⟨1, 0⟩

/-- An observer that stops the effect behind it, and one that fails, keep it from running. -/
theorem reader_passed_over :
    PassedOver (Machine.states 0 (behind (.op (.stop ⟨1, 0⟩) fun _ => .done))) 25 ∧
      PassedOver (Machine.states 0 (behind (.throw "no"))) 21 :=
  ⟨⟨rfl, by decide, rfl, rfl, by decide, rfl, by decide⟩,
    ⟨rfl, by decide, rfl, rfl, by decide, rfl, by decide⟩⟩

end Reactive
end ReactiveView
