/-
# Live views stay up to date

Once an effect renders a view, whatever happens from outside keeps it up to date: writes,
clicks, events dispatched to any node, and nodes that go because nobody holds them any
more.  A dispatch calls handlers, each of which may write and so run the effect in the
middle of the dispatch; what is called next is looked up in what the document has become.

A program is *safe* if it comes to an end from wherever it finds the effect up to date,
and leaves it so (`Safe`).  The operations of handlers are safe, hence handlers, and
hence dispatches.  The result is about whole sessions (`upToDate_after`).
-/

import ReactiveView.Proofs.Live.Effect
import ReactiveView.Proofs.Rendering.Handles
import ReactiveView.View.Dispatch

namespace ReactiveView
namespace View

open Reactive (CallbackId EffectId EndsEach Machine ObjectId Op Program Value World Write)
open Reactive.Machine (Leads)

variable {τ : Type} {t : Template τ} {c : ContainerId} {tag : String} {e : EffectId}
  {w w' : World (Stage τ)}

/-! ## Safe programs -/

/-- From wherever the effect is up to date, the program comes to an end where it is. -/
def Safe (t : Template τ) (c : ContainerId) (tag : String) (e : EffectId)
    (program : Program (Stage τ)) : Prop :=
  ∀ w frames, UpToDate t c tag e w → ∃ w' value,
    Leads ⟨w, .run program, frames⟩ ⟨w', .value value, frames⟩ ∧ UpToDate t c tag e w'

namespace Safe

/-- A program that is done is safe. -/
theorem ret (value : Value) : Safe t c tag e (.ret value) :=
  fun w _ h => ⟨w, value, .step rfl (.refl _), h⟩

/-- Looking changes nothing, so what comes after it decides. -/
theorem look {op : Op} {next : op.Answer → Program (Stage τ)} (hlooks : looks op = true)
    (hnext : ∀ answer, Safe t c tag e (next answer)) : Safe t c tag e (.op op next) := by
  intro w frames h
  obtain ⟨w', value, hleads, hup⟩ := hnext (w.perform op).1 w frames h
  refine ⟨w', value, .step ?_ hleads, hup⟩
  simp only [Machine.step?, Machine.exec, perform_of_idle h.idle hlooks]

/-- An object that is made now is read by nobody yet. -/
theorem make {next : ObjectId → Program (Stage τ)} (hnext : ∀ o, Safe t c tag e (next o)) :
    Safe t c tag e (.op (.newObject .empty) next) := by
  intro w frames h
  have hup : UpToDate t c tag e { w with objects := w.objects.push .empty } :=
    h.of_same h.idle (fun x _ => content_pushEmpty w x) rfl fun last hlive =>
      ⟨hlive.effect, hlive.alone, hlive.handlers, hlive.stage⟩
  obtain ⟨w', value, hleads, hup'⟩ := hnext ⟨w.objects.size⟩ _ frames hup
  exact ⟨w', value, .step rfl hleads, hup'⟩

/-- **A write is safe**: it runs the effect, if it must, and that renders the view again. -/
theorem write {write : Write} {next : Bool → Program (Stage τ)}
    (hnext : ∀ done, Safe t c tag e (next done)) : Safe t c tag e (.write write next) := by
  intro w frames h
  obtain ⟨w₁, done, hwrite, hup⟩ := h.write_leads write next frames
  obtain ⟨w', value, hleads, hup'⟩ := hnext done w₁ frames hup
  exact ⟨w', value, hwrite.trans hleads, hup'⟩

/-- The host may be looked at. -/
theorem readHost {next : Stage τ → Program (Stage τ)} (hnext : ∀ s, Safe t c tag e (next s)) :
    Safe t c tag e (.readHost next) := by
  intro w frames h
  obtain ⟨w', value, hleads, hup⟩ := hnext w.host w frames h
  exact ⟨w', value, .step rfl hleads, hup⟩

/-- The stage may change in any way in which the container goes on showing its tree. -/
theorem changeHost {change : Stage τ → Stage τ} {next : Program (Stage τ)}
    (keeps : ∀ s last, Stage.Holds c tag last s → Stage.Holds c tag last (change s))
    (hnext : Safe t c tag e next) : Safe t c tag e (.changeHost change next) := by
  intro w frames h
  have hup : UpToDate t c tag e { w with host := change w.host } :=
    h.of_same h.idle (fun x _ => World.content_congr rfl rfl x) rfl fun last hlive =>
      ⟨hlive.effect, hlive.alone, hlive.handlers, keeps w.host _ hlive.stage⟩
  obtain ⟨w', value, hleads, hup'⟩ := hnext _ frames hup
  exact ⟨w', value, .step rfl hleads, hup'⟩

/-- The clock, the record of operations, the events and the rest may change. -/
theorem changeRest {change : Stage τ → Stage τ} {next : Program (Stage τ)}
    (nodes : ∀ s, (change s).document.nodes = s.document.nodes)
    (listeners : ∀ s, (change s).document.listeners = s.document.listeners)
    (containers : ∀ s, (change s).containers = s.containers) (hnext : Safe t c tag e next) :
    Safe t c tag e (.changeHost change next) :=
  .changeHost (fun s _ hs => hs.of_same (nodes s) (listeners s) (containers s)) hnext

end Safe

/-- **Handlers are safe.** -/
theorem Writes.safe {program : Program (Stage τ)} (h : Writes program) :
    Safe t c tag e program := by
  induction h with
  | ret value => exact .ret value
  | look op next hlooks later ih => exact .look hlooks ih
  | make next later ih => exact .make ih
  | write write next later ih => exact .write ih
  | lookHost next later ih => exact .readHost ih
  | note change next document containers later ih =>
    refine .changeRest ?_ ?_ containers ih
    · intro s
      rw [document s]
    · intro s
      rw [document s]

/-- Whatever a callback is called with, it is a handler. -/
theorem Safe.call {callback : CallbackId} {argument : Nat} {next : Program (Stage τ)}
    (hnext : Safe t c tag e next) : Safe t c tag e (.call callback argument next) := by
  intro w frames h
  cases hbody : w.callbacks[callback.index]? with
  | none =>
    obtain ⟨w', value, hleads, hup⟩ := hnext w frames h
    refine ⟨w', value, .step ?_ hleads, hup⟩
    simp only [Machine.step?, Machine.exec, hbody]
  | some body =>
    obtain ⟨name, hlive⟩ := h.shows
    have hwrites := hlive.handlers body (Array.mem_of_getElem? hbody) argument
    obtain ⟨w₁, value₁, hran, hup₁⟩ := hwrites.safe w (.bind (fun _ => next) :: frames) h
    obtain ⟨w', value, hleads, hup⟩ := hnext w₁ frames hup₁
    refine ⟨w', value, .step ?_ (hran.trans (.step rfl hleads)), hup⟩
    simp only [Machine.step?, Machine.exec, hbody]

/-! ## Dispatches -/

variable {event : EventId}

/-- Handlers that write are safe, one after the other. -/
theorem safe_callEach {next : Program (Stage τ)} (callbacks : List CallbackId)
    (hnext : Safe t c tag e next) : Safe t c tag e (callEach event callbacks next) := by
  induction callbacks with
  | nil => exact hnext
  | cons callback rest ih => exact .call ih

/-- A node may have any listeners when it is reached; those that are left out call nothing. -/
theorem safe_runListeners {next : Nat → Program (Stage τ)} (listeners : List ListenerId)
    (count : Nat) (hnext : ∀ count, Safe t c tag e (next count)) :
    Safe t c tag e (runListeners event listeners count next) := by
  induction listeners generalizing count with
  | nil => exact hnext count
  | cons l rest ih =>
    refine .readHost ?_
    intro s
    dsimp only
    split
    · exact ih count
    · exact safe_callEach _ (ih (count + 1))

/-- A dispatch goes up the path from node to node. -/
theorem safe_visitPath {next : Nat → Program (Stage τ)} (path : List NodeId) (count : Nat)
    (hnext : ∀ count, Safe t c tag e (next count)) :
    Safe t c tag e (visitPath event path count next) := by
  induction path generalizing count with
  | nil => exact hnext count
  | cons n rest ih =>
    refine .readHost ?_
    intro s
    split
    · exact hnext count
    · exact safe_runListeners _ count ih

/-- **Dispatches are safe**, whatever the target. -/
theorem safe_dispatch {next : Nat → Program (Stage τ)} (target : NodeId)
    (hnext : ∀ count, Safe t c tag e (next count)) :
    Safe t c tag e (dispatch event target next) :=
  .readHost fun _ => safe_visitPath _ 0 hnext

/-- An event is made on the stage, where the view does not look. -/
theorem safe_withEvent {next : EventId → Program (Stage τ)} (kind : String) (time : Int)
    (hnext : ∀ event, Safe t c tag e (next event)) : Safe t c tag e (withEvent kind time next) :=
  .readHost fun _ => .changeRest (fun _ => rfl) (fun _ => rfl) (fun _ => rfl) (hnext _)

/-- A click reads the clock, makes its event and dispatches it. -/
theorem safe_click {next : Nat → Program (Stage τ)} (target : NodeId)
    (hnext : ∀ count, Safe t c tag e (next count)) : Safe t c tag e (click target next) := by
  refine .readHost fun _ => .changeRest (fun _ => rfl) (fun _ => rfl) (fun _ => rfl) ?_
  exact safe_withEvent _ _ fun _ => safe_dispatch target hnext

/-! ## Sessions -/

/-- What happens from outside. -/
inductive Happening where
  /-- A property or a cell is written, or a property deleted. -/
  | write (write : Write)
  /-- An empty object is made. -/
  | make
  /-- An event comes into being. -/
  | event (kind : String) (time : Int)
  /-- An event is dispatched to a node. -/
  | dispatch (event : EventId) (target : NodeId)
  /-- A node is clicked. -/
  | click (target : NodeId)
  /-- The last handle of a node goes, apart from those that containers have. -/
  | letGo (n : NodeId)

/-- What happens, as a program. -/
def Happening.program : Happening → Program (Stage τ)
  | .write change => .write change fun _ => .done
  | .make => .op (.newObject .empty) fun _ => .done
  | .event kind time => withEvent kind time fun _ => .done
  | .dispatch event target => View.dispatch event target fun _ => .done
  | .click target => View.click target fun _ => .done
  | .letGo n => .changeHost (·.letGo n) .done

/-- **Whatever happens from outside is safe.** -/
theorem Happening.safe (happening : Happening) : Safe t c tag e happening.program := by
  cases happening with
  | write change => exact .write fun _ => .ret _
  | make => exact .make fun _ => .ret _
  | event kind time => exact safe_withEvent kind time fun _ => .ret _
  | dispatch event target => exact safe_dispatch target fun _ => .ret _
  | click target => exact safe_click target fun _ => .ret _
  | letGo n => exact .changeHost (fun _ _ hs => hs.letGo n) (.ret _)

/-- The view goes live: an effect renders it. -/
def Template.goLive (t : Template τ) (c : ContainerId) : Program (Stage τ) :=
  .effect (t.program c) fun _ => .done

/-- The world is ready for a live view: nothing runs, no effect is registered, all
callbacks are handlers, and of the containers, in which nothing is yet, one has the tag
and nothing else. -/
structure Ready (c : ContainerId) (tag : String) (w : World (Stage τ)) : Prop where
  idle : w.observers = []
  tidy : w.effects.Tidy
  unobserved : ∀ x, w.registry.observers x = []
  handlers : ∀ body ∈ w.callbacks, ∀ event, Writes (body event)
  vacant : w.host.Vacant
  container : ∃ k, w.host.container? c = some k ∧
    (w.host.document.node k.node).data = .element (.new tag)

/-- A new effect in a world that is ready is live. -/
theorem Ready.live (h : Ready c tag w) (t : Template τ) :
    Live t c tag (w.newEffect (t.program c)).1 none (w.newEffect (t.program c)).2 ∧
      (w.newEffect (t.program c)).2.observers = [] := by
  have hget := h.tidy.get?_insert_fst (⟨t.program c, []⟩ : Reactive.Effect (Stage τ))
  refine ⟨?_, by rw [World.observers_newEffect, h.idle]⟩
  have hlive (w' : World (Stage τ)) (heffects : w'.effects = (w.effects.insert ⟨t.program c, []⟩).2)
      (hregistry : w'.registry = w.registry) (hcallbacks : w'.callbacks = w.callbacks)
      (hhost : w'.host = w.host) :
      Live t c tag (w.effects.insert ⟨t.program c, []⟩).1 none w' := by
    refine ⟨⟨[], ?_⟩, ?_, ?_, ?_⟩
    · rw [heffects, h.tidy.get?_insert, if_pos rfl]
    · intro x id hid
      rw [hregistry, h.unobserved x] at hid
      exact absurd hid List.not_mem_nil
    · rw [hcallbacks]
      exact h.handlers
    · rw [hhost]
      exact ⟨⟨_, _, h.vacant.keeps, rfl⟩, h.container⟩
  unfold World.newEffect
  dsimp only
  split <;> exact hlive _ rfl rfl rfl rfl

/-- Going live, the view comes to an end and is up to date. -/
theorem Ready.goLive (h : Ready c tag w) (t : Template τ) :
    ∃ e w', (t.goLive c).Ends w w' ∧ UpToDate t c tag e w' := by
  obtain ⟨hlive, hidle⟩ := h.live t
  obtain ⟨w', value, hleads, hup⟩ := hlive.run_leads hidle
    [.bind fun _ => .ret .undefined]
  exact ⟨_, w', .of_leads (.step rfl (hleads.trans (.step rfl (.step rfl (.refl _))))), hup⟩

/-- The container of a view that is up to date gives the HTML of what the view shows. -/
theorem UpToDate.html (h : UpToDate t c tag e w) :
    ∃ k, w.host.container? c = some k ∧
      (w.host.document.tree k.node).html = containerHtml tag (some (t.tree w)) := by
  obtain ⟨name, hshows⟩ := h.shows
  obtain ⟨k, hk, hhtml⟩ := hshows.stage.html
  exact ⟨k, hk, hhtml.trans (containerHtml_rename name tag (t.tree w))⟩

/-- **Reactive rendering is always up to date.**  A view goes live in an empty container.
Then, whatever happens and in whatever order, each thing comes to an end, and after it
the HTML of the container is that of a new one into which what the view shows of the
store as it is then is rendered: the container's tags around the HTML of the scenes that
this tree describes. -/
theorem upToDate_after (h : Ready c tag w) (t : Template τ) (happenings : List Happening) :
    (∃ w', EndsEach (t.goLive c :: happenings.map Happening.program) w w') ∧
      ∀ w', EndsEach (t.goLive c :: happenings.map Happening.program) w w' →
        ∃ k, w'.host.container? c = some k ∧
          (∀ clock, freshHtml clock tag (some (t.tree w')) =
            .ok (w'.host.document.tree k.node).html) ∧
          (w'.host.document.tree k.node).html = containerHtml tag (some (t.tree w')) := by
  obtain ⟨e, w₁, hlive, hup⟩ := h.goLive t
  have hkeeps : ∀ program ∈ happenings.map Happening.program, ∀ w, UpToDate t c tag e w →
      ∃ w', Program.Ends program w w' ∧ UpToDate t c tag e w' := by
    intro program hmem w hw
    obtain ⟨happening, -, rfl⟩ := List.mem_map.1 hmem
    obtain ⟨w', value, hleads, hup'⟩ := happening.safe w [] hw
    exact ⟨w', .of_leads hleads, hup'⟩
  obtain ⟨w₂, hrest, hup₂⟩ := Reactive.endsEach_of_keeps hkeeps hup
  have hall := EndsEach.cons hlive hrest
  refine ⟨⟨w₂, hall⟩, ?_⟩
  intro w' hw'
  rw [hw'.unique hall]
  obtain ⟨k, hk, hhtml⟩ := hup₂.html
  refine ⟨k, hk, fun clock => ?_, hhtml⟩
  rw [freshHtml_eq clock tag (t.plain_tree w₂).of_some, hhtml]

/-- A button that shows a text and, when it is clicked, writes another one. -/
def textButton : Template Unit :=
  .reads (.load ⟨0⟩) rfl fun value =>
    .shows ((VNode.h "button" (.text value.display)).on "click" ⟨0⟩)
      ⟨rfl, fun h => absurd h (by decide), trivial⟩
      [⟨fun _ => .write (.store ⟨0⟩ (.text "b")) fun _ => .done, fun _ =>
        .write _ _ fun _ => .ret _⟩]

/-- A cell with a text, and an empty container. -/
def oneCell : World (Stage Unit) :=
  { World.start
      { document := ((Document.empty ⟨0, 1⟩).mountPoint "main").2
        containers := #[⟨⟨0⟩, none⟩]
        events := #[]
        rest := () } with
    cells := #[some (.text "a")] }

/-- A world with one cell and one empty container is ready. -/
theorem oneCell_ready : Ready ⟨0⟩ "main" oneCell := by
  refine ⟨rfl, Reactive.Arena.tidy_empty, fun _ => rfl, fun body hbody => ?_,
    ⟨?has, ?apart, ?blank, ?empty⟩, _, rfl, rfl⟩
  · exact absurd hbody (Array.not_mem_empty body)
  case has =>
    rintro ⟨_ | i⟩ container hc <;> cases hc
    exact Nat.zero_lt_one
  case apart =>
    rintro ⟨_ | i⟩ ⟨_ | j⟩ container container' hc hc' - <;> cases hc <;> cases hc'
    rfl
  case blank =>
    rintro ⟨_ | i⟩ container hc <;> cases hc
    rfl
  case empty =>
    rintro ⟨_ | i⟩ container hc <;> cases hc
    rfl

/-- The button is clicked, its text is written, and it is clicked again. -/
theorem upToDate_after_textButton :
    (∃ w', EndsEach (textButton.goLive ⟨0⟩ :: [Happening.click ⟨1⟩,
        Happening.write (.store ⟨0⟩ (.text "c")), Happening.click ⟨1⟩].map Happening.program)
      oneCell w') ∧
      ∀ w', EndsEach (textButton.goLive ⟨0⟩ :: [Happening.click ⟨1⟩,
          Happening.write (.store ⟨0⟩ (.text "c")), Happening.click ⟨1⟩].map Happening.program)
        oneCell w' →
        ∃ k, w'.host.container? ⟨0⟩ = some k ∧
          (∀ clock, freshHtml clock "main" (some (textButton.tree w')) =
            .ok (w'.host.document.tree k.node).html) ∧
          (w'.host.document.tree k.node).html =
            containerHtml "main" (some (textButton.tree w')) :=
  upToDate_after oneCell_ready textButton _

end View
end ReactiveView
