/-
# Clicks reach the listeners that were there

A click bears the reading of the clock at which it began.  Handlers may bind, exchange and
unbind listeners on nodes still ahead, through renders and by themselves, at any moment of
the dispatch.  If the clock moves on with every reading, the time stamps tell what was bound
before the click from what was bound since (`Stage.late_iff`): a dispatch runs, of the
listeners that a node has when it is reached, just those that were bound before the click
(`click_reaches_earlier_listeners`).  A handler that fails ends the dispatch, and keeps the
click from the listeners after it (`failing_handler_hides_later_listener`).
-/

import ReactiveView.Proofs.Effects.Hosts
import ReactiveView.Proofs.Events.Course
import ReactiveView.Proofs.Events.Stamps

namespace ReactiveView
namespace View

open Reactive (Frame Machine Program World)
open Reactive.Machine (Leads Occurs)
open Relation (ReflTransGen)

variable {τ : Type} {s s' : Stage τ} {e : EventId} {l : ListenerId} {w : World (Stage τ)}

/-- A listener that is found for an event is there. -/
theorem Document.lt_size_of_mem_listenersFor {d : Document} {n : NodeId} {event : String}
    (h : l ∈ d.listenersFor n event) (hevent : event ≠ "") : l.index < d.listeners.size := by
  unfold listenersFor at h
  split at h
  · rw [List.mem_filter, beq_iff_eq] at h
    refine Nat.lt_of_not_le fun hge => hevent ?_
    rw [← h.2, listener, Array.getD_eq_getD_getElem?, Array.getElem?_eq_none hge]
    rfl
  · exact absurd h (by simp)

/-! ## The beginning of a click -/

/-- The event of a click that begins in the world. -/
def clickEvent (w : World (Stage τ)) : EventId := ⟨w.host.events.size⟩

/-- The stage after the click was stamped. -/
def Stage.clicked (s : Stage τ) : Stage τ :=
  ((s.modifyDocument fun d => d.readClock.2).newEvent "click" s.document.readClock.1).2

/-- The point at which the dispatch of a click begins: before the target and its
ancestors. -/
def Point.ofClick (w : World (Stage τ)) (target : NodeId) : Point τ where
  world := { w with host := w.host.clicked }
  pending := []
  path := target :: w.host.clicked.document.ancestors target
  count := 0

/-- A click reads the clock, makes its event, and stands before its target. -/
theorem click_leads (target : NodeId) (next : Nat → Program (Stage τ))
    (frames : List (Frame (Stage τ))) :
    Leads ⟨w, .run (click target next), frames⟩
      ((Point.ofClick w target).machine (clickEvent w) next frames) :=
  .step rfl (.step rfl (.step rfl (.step rfl (.step rfl (.refl _)))))

namespace Stage

/-- The event of a click is made by it. -/
theorem lt_size_clicked (s : Stage τ) : s.events.size < s.clicked.events.size := by
  simp [clicked, newEvent, modifyDocument]

/-- The event of a click bears the time that was read for it. -/
theorem event_clicked (s : Stage τ) :
    s.clicked.event ⟨s.events.size⟩ = ⟨"click", s.document.clock.now, false⟩ := by
  simp [clicked, newEvent, modifyDocument, event, Array.getD_eq_getD_getElem?,
    Document.readClock]

/-- The time stamps tell the listeners that were there when the click was stamped: they were
bound before it, and all others after it. -/
theorem late_iff (hstep : 0 < s.document.clock.step)
    (hbound : ∀ l : ListenerId, l.index < s.document.listeners.size →
      (s.document.listener l).attached ≤ s.document.clock.now)
    (h : s.clicked.Ages s') (hl : l.index < s'.document.listeners.size) :
    s'.Late ⟨s.events.size⟩ l ↔ ¬ l.index < s.document.listeners.size := by
  have htime : (s'.event ⟨s.events.size⟩).time = s.document.clock.now := by
    rw [(h.events ⟨s.events.size⟩ s.lt_size_clicked).2, event_clicked]
  have hclock : s.clicked.document.clock.now = s.document.clock.now + s.document.clock.step := rfl
  rw [Late, htime]
  by_cases hthere : l.index < s.document.listeners.size
  · have hattached : (s'.document.listener l).attached = (s.document.listener l).attached :=
      (h.document.kept l hthere).2
    have hle := hbound l hthere
    rw [hattached]
    omega
  · obtain ⟨hlow, -⟩ := h.document.fresh l (Nat.le_of_not_lt hthere) hl
    rw [hclock] at hlow
    omega

/-- Whatever was bound since the beginning was bound before the present reading of the
clock. -/
theorem Ages.attached_le {clock : Clock} {containers : Array Container} {events : Array Event}
    {rest : τ} (h : Ages ⟨.empty clock, containers, events, rest⟩ s)
    (hl : l.index < s.document.listeners.size) :
    (s.document.listener l).attached ≤ s.document.clock.now := by
  obtain ⟨-, hhigh⟩ := h.document.fresh l (Nat.zero_le _) hl
  omega

/-- Along changes of the stage that are made of operations the stage gets older. -/
theorem Ages.of_operated (h : ReflTransGen Operated s s') : Ages s s' := by
  induction h with
  | refl => exact .refl s
  | tail _ hop ih => exact ih.trans hop.ages

end Stage

/-! ## Programs that dispatch -/

section Confined

variable {R : Stage τ → Stage τ → Prop}

/-- Handlers change the stage by operations, and calling them changes nothing by itself. -/
theorem callEach_confined (callbacks : List Reactive.CallbackId) {next : Program (Stage τ)}
    (h : next.Confined R none) : (callEach e callbacks next).Confined R none := by
  induction callbacks with
  | nil => exact h
  | cons c rest ih => exact ih

/-- Running the listeners of a node is confined, as what follows is. -/
theorem runListeners_confined (listeners : List ListenerId) (count : Nat)
    {next : Nat → Program (Stage τ)} (h : ∀ count, (next count).Confined R none) :
    (runListeners e listeners count next).Confined R none := by
  induction listeners generalizing count with
  | nil => exact h count
  | cons l rest ih =>
    intro s
    simp only
    split
    · exact (ih count).known s
    · exact (callEach_confined _ (ih (count + 1))).known s

/-- Visiting the nodes of a path is confined, as what follows is. -/
theorem visitPath_confined (path : List NodeId) (count : Nat) {next : Nat → Program (Stage τ)}
    (h : ∀ count, (next count).Confined R none) :
    (visitPath e path count next).Confined R none := by
  induction path generalizing count with
  | nil => exact h count
  | cons n rest ih =>
    intro s
    simp only
    split
    · exact (h count).known s
    · exact (runListeners_confined _ count ih).known s

/-- A dispatch changes nothing by itself. -/
theorem dispatch_confined (target : NodeId) {next : Nat → Program (Stage τ)}
    (h : ∀ count, (next count).Confined R none) : (dispatch e target next).Confined R none :=
  fun s => (visitPath_confined (target :: s.document.ancestors target) 0 h).known s

/-- A click is made of operations only, so handlers may click in their turn. -/
theorem click_confined (target : NodeId) {next : Nat → Program (Stage τ)}
    (h : ∀ count, (next count).Confined Stage.Operated none) :
    (click target next).Confined Stage.Operated none :=
  fun s => ⟨fun s' _ => .single (.document .readClock) s', fun _ =>
    ⟨fun s' _ => .single (.newEvent "click" s.document.readClock.1) s', dispatch_confined target h⟩⟩

end Confined

/-! ## Along the course -/

namespace Point

variable {p q : Point τ} {next : Nat → Program (Stage τ)} {frames : List (Frame (Stage τ))}

/-- **From point to point of a dispatch the stage gets older**, whatever handlers do. -/
theorem Course.ages (hp : (p.machine e next frames).Confined Stage.Operated) (h : Course e p q) :
    (q.machine e next frames).Confined Stage.Operated ∧ p.world.host.Ages q.world.host := by
  obtain ⟨hq, hhost⟩ := hp.leads h.leads
  exact ⟨hq, .of_operated hhost⟩

/-- The listeners that are to come are there. -/
def Sound (p : Point τ) : Prop :=
  ∀ l ∈ p.pending, l.index < p.world.host.document.listeners.size

/-- At every point the listeners to come are there. -/
theorem Course.sound (hp : (p.machine e next frames).Confined Stage.Operated)
    (hevent : e.index < p.world.host.events.size) (hkind : (p.world.host.event e).kind ≠ "")
    (hsound : p.Sound) (h : Course e p q) : q.Sound := by
  induction h with
  | refl => exact hsound
  | @tail q r hcourse hmove ih =>
    obtain ⟨hq, hages⟩ := Course.ages hp hcourse
    have hnext := ((Course.ages hq (.single hmove)).2).document.size
    cases hmove with
    | pass late => exact fun l hl => ih l (List.mem_cons_of_mem _ hl)
    | run early returns =>
      exact fun l hl => Nat.lt_of_lt_of_le (ih l (List.mem_cons_of_mem _ hl)) hnext
    | visit going =>
      rw [← (hages.events e hevent).1] at hkind
      exact fun l hl => Document.lt_size_of_mem_listenersFor hl hkind

end Point

/-- **A click reaches the listeners that were there when it was stamped, and no others.**
Take any state of any run of programs that change the stage by its operations, from an empty
document with a clock that moves on with every reading, in which a click is to be
dispatched.  The machine goes through all points of the course.  At each of them, when it is
the turn of a listener, its handlers are called if it was there when the click was stamped,
and it is passed over if it was bound since.  And of the listeners that a node has for clicks
when the dispatch reaches it and nobody has stopped the event, each that was there when the
click was stamped has its turn before the next node is reached, unless the handlers of an
earlier one of the same node fail or run for ever. -/
theorem click_reaches_earlier_listeners {clock : Clock} (hclock : 0 < clock.step) {rest : τ}
    {target : NodeId} {next : Nat → Program (Stage τ)} {frames : List (Frame (Stage τ))}
    (h : Occurs Stage.Operated ⟨.empty clock, #[], #[], rest⟩
      ⟨w, .run (click target next), frames⟩) {p : Point τ}
    (hp : Point.Course (clickEvent w) (.ofClick w target) p) :
    Leads ⟨w, .run (click target next), frames⟩ (p.machine (clickEvent w) next frames) ∧
    (∀ l later, p.pending = l :: later →
      (p.machine (clickEvent w) next frames).step? =
        some ⟨p.world, .run (
          if l.index < w.host.document.listeners.size then
            callEach (clickEvent w) (p.world.host.handlers l)
              (Point.program (clickEvent w) next ⟨p.world, later, p.path, p.count + 1⟩)
          else Point.program (clickEvent w) next ⟨p.world, later, p.path, p.count⟩), frames⟩) ∧
    ∀ n path, p.pending = [] → p.path = n :: path →
      (p.world.host.event (clickEvent w)).stopped = false →
      ∀ l ∈ p.world.host.document.listenersFor n "click",
        l.index < w.host.document.listeners.size →
        ∃ q, Point.Course (clickEvent w) p q ∧ q.path = path ∧
          (q.IsTurn l ∨ q.HeldUp (clickEvent w) l) := by
  obtain ⟨hconfined, hhost⟩ := h.host
  have hages := Stage.Ages.of_operated hhost
  have hstep : 0 < w.host.document.clock.step := by
    rw [hages.document.step]
    exact hclock
  have hbegin := click_leads (w := w) target next frames
  have hbegun := (hconfined.leads hbegin).1
  have hevent : (clickEvent w).index < (Point.ofClick w target).world.host.events.size :=
    w.host.lt_size_clicked
  have hclick : ((Point.ofClick w target).world.host.event (clickEvent w)).kind = "click" :=
    congrArg Event.kind w.host.event_clicked
  -- Whatever handlers have done since, the stage has only got older.
  obtain ⟨-, hsince⟩ := hp.ages hbegun
  have hsound : p.Sound := by
    refine hp.sound hbegun hevent (by rw [hclick]; decide) ?_
    exact fun l hl => absurd hl (by simp [Point.ofClick])
  refine ⟨hbegin.trans hp.leads, fun l later hpending => ?turn, ?visit⟩
  case turn =>
    obtain ⟨w', pending, path, count⟩ := p
    obtain rfl : pending = l :: later := hpending
    exact Point.step?_turn_of_late_iff (Stage.late_iff hstep (fun l hl => hages.attached_le hl)
      hsince (hsound l List.mem_cons_self)) later path count
  case visit =>
    intro n path hpending hpath hgoing l hl _
    obtain ⟨w', pending, path', count⟩ := p
    obtain rfl : pending = [] := hpending
    obtain rfl : path' = n :: path := hpath
    have hkind : (w'.host.event (clickEvent w)).kind = "click" :=
      ((hsince.events _ hevent).1).trans hclick
    exact Point.exists_turn_of_visit count hgoing (by rw [hkind]; exact hl)

/-! ## A listener that is bound ahead -/

/-- A paragraph in a division is clicked, and its handler binds a listener to the division. -/
def bindsAhead : Program (Stage Unit) :=
  .callback (fun _ => .done) fun late =>
    .callback (fun _ => .changeHost (Stage.Operation.apply (.document
      (.patchProp ⟨0⟩ "onClick" (some (.handler late))))) .done) fun early =>
      .changeHost (Stage.Operation.apply (.document (.createElement "div"))) <|
      .changeHost (Stage.Operation.apply (.document (.createElement "p"))) <|
      .changeHost (Stage.Operation.apply (.document (.insert ⟨1⟩ ⟨0⟩ none))) <|
      .changeHost (Stage.Operation.apply (.document
        (.patchProp ⟨1⟩ "onClick" (some (.handler early))))) <|
      click ⟨1⟩ fun ran => .ret (.bool (ran == 1))

/-- The handler binds by an operation. -/
theorem bindsAhead_confined : bindsAhead.Confined Stage.Operated none := by
  have hoperation (op : Stage.Operation Unit) (s : Stage Unit) : s.Operated (op.apply s) :=
    .single op s
  refine ⟨fun _ => trivial, fun late => ⟨fun _ => ⟨fun s _ => hoperation _ s, trivial⟩, ?_⟩⟩
  refine fun early => ⟨fun s _ => hoperation _ s, fun s _ => hoperation _ s,
    fun s _ => hoperation _ s, fun s _ => hoperation _ s, ?_⟩
  exact click_confined _ fun _ => trivial

/-- A document without nodes, with a clock that moves on by a millisecond. -/
def emptyStage (rest : τ) : Stage τ := ⟨.empty ⟨0, 1⟩, #[], #[], rest⟩

/-- The states of the run of `bindsAhead`. -/
def bindingStates : Nat → Machine (Stage Unit) := Machine.states (emptyStage ()) bindsAhead

/-- The point of the dispatch in `bindsAhead` at which the division was reached: it has the
new listener now. -/
def pointAhead : Point Unit := ⟨(bindingStates 18).world, [⟨1⟩], [], 1⟩

/-- The hypotheses of `click_reaches_earlier_listeners` are met by the run of `bindsAhead`,
at the point at which the division was reached.  The listener that was bound ahead is passed
over, and the click ends with one listener run. -/
theorem click_reaches_earlier_listeners_bindsAhead :
    (bindingStates 7).world.host.document.listeners.size = 1 ∧
      pointAhead.world.host.document.listenersFor ⟨0⟩ "click" = [⟨1⟩] ∧
      (pointAhead.machine ⟨0⟩ (fun ran => .ret (.bool (ran == 1))) []).step? =
        some ⟨pointAhead.world, .run (.ret (.bool true)), []⟩ := by
  have hoccurs : Occurs Stage.Operated (emptyStage ()) (bindingStates 7) :=
    Machine.occurs_states bindsAhead_confined 7
  -- the paragraph is visited, its handler runs and returns, the division is visited
  have hcourse : Point.Course ⟨0⟩ (.ofClick (bindingStates 7).world ⟨1⟩) pointAhead := by
    have hreturns : ReturnEach ⟨0⟩ [⟨1⟩] (bindingStates 13).world (bindingStates 18).world :=
      .cons ⟨3, .undefined, rfl⟩ (.nil _)
    refine .head (.visit rfl) (.head (.run ?_ hreturns) (.single (.visit ?_)))
    · decide
    · rfl
  obtain ⟨-, hturn, -⟩ := click_reaches_earlier_listeners (by decide) hoccurs hcourse
  exact ⟨rfl, rfl, hturn ⟨1⟩ [] rfl⟩

/-! ## A listener whose handler fails -/

/-- A paragraph is clicked that has two listeners.  The handler of the first one fails; that
of the second one would leave a mark. -/
def failsFirst : Program (Stage Bool) :=
  .callback (fun _ => .throw "failed") fun first =>
    .callback (fun _ => .changeHost (Stage.Operation.apply (.rest fun _ => true)) .done)
      fun second =>
        .changeHost (Stage.Operation.apply (.document (.createElement "p"))) <|
        .changeHost (Stage.Operation.apply (.document
          (.patchProp ⟨0⟩ "onClick" (some (.handler first))))) <|
        .changeHost (Stage.Operation.apply (.document
          (.patchProp ⟨0⟩ "onclick" (some (.handler second))))) <|
        click ⟨0⟩ fun ran => .ret (.bool (ran == 2))

/-- The one handler fails, and the other leaves its mark by an operation. -/
theorem failsFirst_confined : failsFirst.Confined Stage.Operated none := by
  have hoperation (op : Stage.Operation Bool) (s : Stage Bool) : s.Operated (op.apply s) :=
    .single op s
  refine ⟨fun _ => trivial, fun first => ⟨fun _ => ⟨fun s _ => hoperation _ s, trivial⟩, ?_⟩⟩
  refine fun second => ⟨fun s _ => hoperation _ s, fun s _ => hoperation _ s,
    fun s _ => hoperation _ s, ?_⟩
  exact click_confined _ fun _ => trivial

/-- The states of the run of `failsFirst`. -/
def failingStates : Nat → Machine (Stage Bool) := Machine.states (emptyStage false) failsFirst

/-- The world in which the click of `failsFirst` begins. -/
def failingWorld : World (Stage Bool) := (failingStates 6).world

/-- The handlers of a listener that fail keep the click from the other listeners of the node,
though these were there when it was stamped: the click of `failsFirst` begins at the
paragraph, the second listener never has its turn, and the run ends without its mark. -/
theorem failing_handler_hides_later_listener :
    Occurs Stage.Operated (emptyStage false)
        ⟨failingWorld, .run (click ⟨0⟩ fun ran => .ret (.bool (ran == 2))), []⟩ ∧
      (Point.ofClick failingWorld ⟨0⟩).pending = [] ∧
      (Point.ofClick failingWorld ⟨0⟩).path = [⟨0⟩] ∧
      ((Point.ofClick failingWorld ⟨0⟩).world.host.event (clickEvent failingWorld)).stopped
        = false ∧
      (Point.ofClick failingWorld ⟨0⟩).world.host.document.listenersFor ⟨0⟩ "click"
        = [⟨0⟩, ⟨1⟩] ∧
      failingWorld.host.document.listeners.size = 2 ∧
      (¬ ∃ q, Point.Course (clickEvent failingWorld) (.ofClick failingWorld ⟨0⟩) q ∧
        q.IsTurn ⟨1⟩) ∧
      ∃ w, Leads ⟨failingWorld, .run (click ⟨0⟩ fun ran => .ret (.bool (ran == 2))), []⟩
          ⟨w, .throwing "failed", []⟩ ∧ w.host.rest = false := by
  refine ⟨Machine.occurs_states failsFirst_confined 6, rfl, rfl, rfl, rfl, rfl, ?never, ?ends⟩
  case never =>
    rintro ⟨q, hcourse, hturn⟩
    rcases ReflTransGen.cases_head hcourse with rfl | ⟨r, hmove, hcourse⟩
    · obtain ⟨later, hpending⟩ := hturn
      exact absurd hpending (by simp [Point.ofClick])
    · cases hmove with
      | visit going =>
        -- the paragraph is reached, and its first listener holds the dispatch up
        have hheld : Point.HeldUp (clickEvent failingWorld)
            ⟨(Point.ofClick failingWorld ⟨0⟩).world, [⟨0⟩, ⟨1⟩], [], 0⟩ ⟨1⟩ := by
          refine ⟨⟨0⟩, [⟨1⟩], rfl, List.mem_cons_self, by decide, ?_⟩
          rintro ⟨w', hreturns⟩
          have hreturns : ReturnEach (clickEvent failingWorld) [⟨0⟩]
              (Point.ofClick failingWorld ⟨0⟩).world w' := hreturns
          cases hreturns with
          | cons first later => exact first.not_throwing rfl (.step rfl (.refl _))
        obtain rfl := hheld.eq_of_course hcourse
        obtain ⟨later, hpending⟩ := hturn
        exact absurd hpending (by simp)
  case ends =>
    have hrun : Machine.run 20
        ⟨failingWorld, .run (click ⟨0⟩ fun ran => .ret (.bool (ran == 2))), []⟩ =
          some ⟨(failingStates 16).world, .throwing "failed", []⟩ := rfl
    exact ⟨_, Machine.leads_of_run_eq hrun, rfl⟩

end View
end ReactiveView
