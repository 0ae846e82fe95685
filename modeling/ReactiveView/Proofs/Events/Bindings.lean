/-
# What is bound when a listener has its turn

When a dispatch reaches a node it takes the listeners that the node binds to the event, in the
order of their keys (`Document.candidates_listenersFor`), and gives each of them a turn.  A
handler that runs in between may take others off.  On the nodes ahead these are not found any
more when the dispatch gets there; but the listeners of the node itself were taken before, and
one that has been taken off since has its turn all the same.

So a listener that has its turn is bound by the node then, or it was bound when the node was
reached and a listener before it on the same node has run and taken it off
(`turn_of_bound_listener`).  The second case does happen (`detached_listener_runs`).
-/

import ReactiveView.Proofs.Events.Clicks
import ReactiveView.Proofs.Rendering.Reuse

namespace ReactiveView
namespace View

open Reactive (Frame Machine Program World)
open Reactive.Machine (Leads Occurs)
open Relation (ReflTransGen)

variable {τ : Type} {e : EventId} {l : ListenerId} {w : World (Stage τ)}

/-! ## The listeners of a node for an event -/

namespace Document

variable {d : Document} {n : NodeId} {event : String} {ls : List ListenerId}

/-- The listeners are those that the node binds to the event, in the order of their keys. -/
def Candidates (d : Document) (n : NodeId) (event : String) (ls : List ListenerId) : Prop :=
  ∃ bindings : List (String × ListenerId), bindings.map Prod.snd = ls ∧
    (bindings.Pairwise fun a b => a.1 < b.1) ∧
    ∀ key l, (key, l) ∈ bindings ↔ d.Binds n key l ∧ (d.listener l).event = event

/-- The candidates are the listeners that the node binds to the event. -/
theorem Candidates.mem_iff (h : d.Candidates n event ls) :
    l ∈ ls ↔ ∃ key, d.Binds n key l ∧ (d.listener l).event = event := by
  obtain ⟨bindings, rfl, -, hmem⟩ := h
  simp [hmem]

/-- **The listeners of a node for an event are its bindings to the event in the order of the
keys.** -/
theorem candidates_listenersFor (d : Document) (n : NodeId) (event : String) :
    d.Candidates n event (d.listenersFor n event) := by
  unfold listenersFor
  cases he : d.element? n with
  | none =>
    refine ⟨[], rfl, .nil, fun key l => ?_⟩
    refine iff_of_false List.not_mem_nil ?_
    rintro ⟨⟨e, hdata, -⟩, -⟩
    rw [element?_eq_some_iff.2 hdata] at he
    exact absurd he (by simp)
  | some e =>
    have hdata := element?_eq_some_iff.1 he
    refine ⟨e.listeners.entries.filter fun entry => (d.listener entry.2).event == event,
      ?_, e.listeners.sorted.filter _, fun key l => ?_⟩
    · exact (List.filter_map (f := Prod.snd) (p := fun l => (d.listener l).event == event)).symm
    rw [List.mem_filter, beq_iff_eq, ← KeyTable.get?_eq_some_iff]
    refine and_congr_left fun _ => ⟨fun hget => ⟨e, hdata, hget⟩, ?_⟩
    rintro ⟨e', hdata', hget⟩
    obtain rfl := DomData.element.inj (hdata.symm.trans hdata')
    exact hget

end Document

/-! ## Since the node was reached -/

namespace Point

variable {p q r r' : Point τ}

/-- The point at which a dispatch begins: before the target and its ancestors. -/
def ofDispatch (w : World (Stage τ)) (target : NodeId) : Point τ :=
  ⟨w, [], target :: w.host.document.ancestors target, 0⟩

/-- A dispatch looks up the ancestors and stands before its target. -/
theorem dispatch_leads (w : World (Stage τ)) (e : EventId) (target : NodeId)
    (next : Nat → Program (Stage τ)) (frames : List (Frame (Stage τ))) :
    Leads ⟨w, .run (dispatch e target next), frames⟩
      ((ofDispatch w target).machine e next frames) :=
  .step rfl (.refl _)

/-- The point at which a node has just been reached: all its listeners are to come. -/
def reached (e : EventId) (w : World (Stage τ)) (n : NodeId) (path : List NodeId) (count : Nat) :
    Point τ :=
  ⟨w, w.host.document.listenersFor n (w.host.event e).kind, path, count⟩

/-- A move takes at most one node off the path. -/
theorem Move.path_suffix (h : Move e p q) : q.path <:+ p.path := by
  cases h with
  | pass | run => exact List.suffix_rfl
  | visit => exact List.suffix_cons ..

/-- A course goes along the path. -/
theorem Course.path_suffix (h : Course e p q) : q.path <:+ p.path := by
  induction h with
  | refl => exact List.suffix_rfl
  | tail _ hmove ih => exact hmove.path_suffix.trans ih

/-- **A listener that is to come was there when its node was reached.** -/
theorem exists_reached (hbegin : p.pending = []) (h : Course e p q) (hl : l ∈ q.pending) :
    ∃ w n count, Course e p ⟨w, [], n :: q.path, count⟩ ∧ (w.host.event e).stopped = false ∧
      Course e (reached e w n q.path count) q ∧
      l ∈ w.host.document.listenersFor n (w.host.event e).kind := by
  induction h with
  | refl =>
    rw [hbegin] at hl
    exact absurd hl List.not_mem_nil
  | @tail q q' hcourse hmove ih =>
    have hlast := hmove
    cases hmove with
    | pass | run =>
      obtain ⟨w, n, count, hbefore, hgoing, hsince, hmem⟩ := ih (List.mem_cons_of_mem _ hl)
      exact ⟨w, n, count, hbefore, hgoing, hsince.tail hlast, hmem⟩
    | @visit w n path count going => exact ⟨w, n, count, hcourse, going, .refl, hl⟩

/-- What holds at one point of a course and not at a later one is lost by some move. -/
theorem Course.exists_loss {P : Point τ → Prop} (h : Course e p q) (hp : P p) (hq : ¬ P q) :
    ∃ r r', Course e p r ∧ Move e r r' ∧ Course e r' q ∧ P r ∧ ¬ P r' := by
  induction h with
  | refl => exact absurd hp hq
  | @tail q q' hcourse hmove ih =>
    by_cases hmid : P q
    · exact ⟨q, q', hcourse, hmove, .refl, hmid, hq⟩
    · obtain ⟨r, r', hbefore, hloss, hafter, hr, hr'⟩ := ih hmid
      exact ⟨r, r', hbefore, hloss, hafter.tail hmove, hr, hr'⟩

/-- What happens when it is the turn of a listener. -/
theorem step?_of_pending {later : List ListenerId} (h : p.pending = l :: later) (e : EventId)
    (next : Nat → Program (Stage τ)) (frames : List (Frame (Stage τ))) :
    (p.machine e next frames).step? =
      some ⟨p.world, .run (
        if p.world.host.Late e l then program e next ⟨p.world, later, p.path, p.count⟩
        else callEach e (p.world.host.handlers l)
          (program e next ⟨p.world, later, p.path, p.count + 1⟩)), frames⟩ := by
  obtain ⟨w, pending, path, count⟩ := p
  obtain rfl : pending = l :: later := h
  exact step?_turn w l later path count

/-- The listener that has its turn is run, and its handlers take off the listener that the node
bound under the key. -/
structure TakesOff (e : EventId) (n : NodeId) (key : String) (l : ListenerId) (r r' : Point τ) :
    Prop where
  turn : ∃ first, r.IsTurn first ∧ ¬ r.world.host.Late e first ∧
    ReturnEach e (r.world.host.handlers first) r.world r'.world
  bound : r.world.host.document.Binds n key l
  gone : ¬ r'.world.host.document.Binds n key l

/-- While the node stays the same, only handlers take a listener off. -/
theorem Move.takesOff {n : NodeId} {key : String} (h : Move e r r') (hpath : r'.path = r.path)
    (hbound : r.world.host.document.Binds n key l)
    (hgone : ¬ r'.world.host.document.Binds n key l) : TakesOff e n key l r r' := by
  refine ⟨?_, hbound, hgone⟩
  cases h with
  | pass => exact absurd hbound hgone
  | @run w w' first rest path count early returns => exact ⟨first, ⟨rest, rfl⟩, early, returns⟩
  | visit => exact absurd hbound hgone

end Point

/-- **A listener that has its turn is bound, or one before it on the same node has taken it
off.**  Take any point of a dispatch at which it is the turn of a listener.  Its handlers are
called, unless it was bound after the event.  The node on which it is was reached with the
listener bound under some key, and it still is, or a listener of this node has had its turn since
the node was reached, and its handlers have taken the other one off.  What was taken off before
the node was reached has no turn. -/
theorem turn_of_bound_listener {target : NodeId} {p : Point τ} {later : List ListenerId}
    (hcourse : Point.Course e (.ofDispatch w target) p) (hturn : p.pending = l :: later)
    (next : Nat → Program (Stage τ)) (frames : List (Frame (Stage τ))) :
    Leads ⟨w, .run (dispatch e target next), frames⟩ (p.machine e next frames) ∧
    (p.machine e next frames).step? =
      some ⟨p.world, .run (
        if p.world.host.Late e l then
          Point.program e next ⟨p.world, later, p.path, p.count⟩
        else callEach e (p.world.host.handlers l)
          (Point.program e next ⟨p.world, later, p.path, p.count + 1⟩)), frames⟩ ∧
    ∃ v n count key, Point.Course e (.ofDispatch w target) ⟨v, [], n :: p.path, count⟩ ∧
      (v.host.event e).stopped = false ∧ Point.Course e (.reached e v n p.path count) p ∧
      v.host.document.Binds n key l ∧
      (v.host.document.listener l).event = (v.host.event e).kind ∧
      (p.world.host.document.Binds n key l ∨
        ∃ r r', Point.Course e (.reached e v n p.path count) r ∧ r.path = p.path ∧
          Point.Course e r' p ∧ Point.TakesOff e n key l r r') := by
  refine ⟨(Point.dispatch_leads w e target next frames).trans hcourse.leads,
    Point.step?_of_pending hturn e next frames, ?_⟩
  have hpending : l ∈ p.pending := by
    rw [hturn]
    exact List.mem_cons_self
  obtain ⟨v, n, count, hbefore, hgoing, hsince, hmem⟩ := Point.exists_reached rfl hcourse hpending
  obtain ⟨key, hbinds, hevent⟩ := (Document.candidates_listenersFor ..).mem_iff.1 hmem
  refine ⟨v, n, count, key, hbefore, hgoing, hsince, hbinds, hevent, ?_⟩
  by_cases hbound : p.world.host.document.Binds n key l
  · exact .inl hbound
  · obtain ⟨r, r', hr, hmove, hr', hheld, hgone⟩ := hsince.exists_loss
      (P := fun p => p.world.host.document.Binds n key l) hbinds hbound
    -- the path is the same at both ends, and so it is in between
    have hpath : r.path = p.path :=
      hr.path_suffix.eq_of_length_le (hr'.path_suffix.trans hmove.path_suffix).length_le
    have hpath' : r'.path = p.path :=
      (hmove.path_suffix.trans hr.path_suffix).eq_of_length_le hr'.path_suffix.length_le
    exact .inr ⟨r, r', hr, hpath, hr', hmove.takesOff (hpath'.trans hpath.symm) hheld hgone⟩

/-! ## A listener that has been taken off -/

/-- A paragraph with two listeners for clicks is rendered into a division and clicked.  The
handler of the first listener renders the paragraph without listeners; that of the second one
leaves a mark. -/
def unbindsNext : Program (Stage Bool) :=
  .callback (fun _ => .changeHost (Stage.Operation.apply
      (.render ⟨0⟩ (some (.element "p")))) .done) fun first =>
    .callback (fun _ => .changeHost (Stage.Operation.apply (.rest fun _ => true)) .done)
      fun second =>
        .changeHost (Stage.Operation.apply (.document (.mountPoint "div"))) <|
        .changeHost (Stage.Operation.apply (.newContainer ⟨0⟩)) <|
        .changeHost (Stage.Operation.apply (.render ⟨0⟩ (some
          (((VNode.element "p").prop "onClick" (.handler first)).prop "onclick"
            (.handler second))))) <|
        click ⟨1⟩ fun ran => .ret (.bool (ran == 2))

/-- The handler takes the listener off by an operation. -/
theorem unbindsNext_confined : unbindsNext.Confined Stage.Operated none := by
  have hoperation (op : Stage.Operation Bool) (s : Stage Bool) : s.Operated (op.apply s) :=
    .single op s
  refine ⟨fun _ => ⟨fun s _ => hoperation _ s, trivial⟩, fun first =>
    ⟨fun _ => ⟨fun s _ => hoperation _ s, trivial⟩, ?_⟩⟩
  refine fun second => ⟨fun s _ => hoperation _ s, fun s _ => hoperation _ s,
    fun s _ => hoperation _ s, ?_⟩
  exact click_confined _ fun _ => trivial

/-- The states of the run of `unbindsNext`. -/
def unbindingStates : Nat → Machine (Stage Bool) := Machine.states (emptyStage false) unbindsNext

/-- The document of the click in `unbindsNext` is one that was rendered. -/
theorem reachable_unbindingStates : (unbindingStates 6).world.host.Reachable := by
  have hvacant : (unbindingStates 5).world.host.Vacant := by
    refine ⟨?has, ?apart, ?blank, ?empty⟩
    case has =>
      rintro ⟨_ | i⟩ container hc <;> cases hc
      exact Nat.zero_lt_one
    case apart =>
      rintro ⟨_ | i⟩ ⟨_ | j⟩ container container' hc hc' - <;> cases hc <;> cases hc'
      rfl
    case blank =>
      rintro ⟨_ | i⟩ container hc <;> cases hc
      rfl
    case empty =>
      rintro ⟨_ | i⟩ container hc <;> cases hc
      rfl
  refine (Stage.Reachable.vacant hvacant).render ⟨0⟩ (some
    (((VNode.element "p").prop "onClick" (.handler ⟨0⟩)).prop "onclick" (.handler ⟨1⟩))) ?_
  rintro v ⟨rfl⟩ -
  simp [VNode.element, VNode.new, VNode.prop, VNode.withProps, VNode.Plain, VNode.PlainIn,
    VKind.isComponent]

/-- The point of the dispatch in `unbindsNext` at which the first listener has taken off the
second one, and it is the turn of that. -/
def pointTakenOff : Point Bool := ⟨(unbindingStates 17).world, [⟨1⟩], [⟨0⟩], 1⟩

/-- The dispatch comes to the turn of the listener that was taken off. -/
theorem course_pointTakenOff :
    Point.Course ⟨0⟩ (.ofDispatch (unbindingStates 10).world ⟨1⟩) pointTakenOff := by
  have hreturns : ReturnEach ⟨0⟩ [⟨0⟩] (unbindingStates 10).world (unbindingStates 17).world :=
    .cons ⟨3, .undefined, rfl⟩ (.nil _)
  refine .head (.visit rfl) (.single (.run ?_ hreturns))
  decide

/-- The second listener of `unbindsNext` has its turn, and it was the first one that took it
off. -/
theorem turn_of_bound_listener_unbindsNext :
    Point.Course ⟨0⟩ (.ofDispatch (unbindingStates 10).world ⟨1⟩) pointTakenOff ∧
      pointTakenOff.pending = [⟨1⟩] ∧
      ∃ v n count key, Point.Course ⟨0⟩ (.ofDispatch (unbindingStates 10).world ⟨1⟩)
          ⟨v, [], n :: pointTakenOff.path, count⟩ ∧
        Point.Course ⟨0⟩ (.reached ⟨0⟩ v n pointTakenOff.path count) pointTakenOff ∧
        v.host.document.Binds n key ⟨1⟩ ∧
        (pointTakenOff.world.host.document.Binds n key ⟨1⟩ ∨
          ∃ r r', Point.Course ⟨0⟩ (.reached ⟨0⟩ v n pointTakenOff.path count) r ∧
            r.path = pointTakenOff.path ∧ Point.Course ⟨0⟩ r' pointTakenOff ∧
            Point.TakesOff ⟨0⟩ n key ⟨1⟩ r r') := by
  obtain ⟨-, -, v, n, count, key, hbefore, -, hsince, hbinds, -, hbound⟩ :=
    turn_of_bound_listener course_pointTakenOff rfl (fun ran => .ret (.bool (ran == 2))) []
  exact ⟨course_pointTakenOff, rfl, v, n, count, key, hbefore, hsince, hbinds, hbound⟩

/-- A listener that has been taken off is run.  The click of `unbindsNext` begins in a document
that was rendered.  When it is the turn of the second listener the paragraph binds nothing any
more, under no key; its handlers are called all the same, the click answers that two listeners
were run, and the mark is left. -/
theorem detached_listener_runs :
    Occurs Stage.Operated (emptyStage false) (unbindingStates 6) ∧
      (unbindingStates 6).focus = .run (click ⟨1⟩ fun ran => .ret (.bool (ran == 2))) ∧
      (unbindingStates 6).world.host.Reachable ∧
      Point.Course (clickEvent (unbindingStates 6).world) (.ofClick (unbindingStates 6).world ⟨1⟩)
        pointTakenOff ∧
      pointTakenOff.IsTurn ⟨1⟩ ∧
      (∀ key, ¬ pointTakenOff.world.host.document.Binds ⟨1⟩ key ⟨1⟩) ∧
      (pointTakenOff.machine ⟨0⟩ (fun ran => .ret (.bool (ran == 2))) []).step? =
        some ⟨pointTakenOff.world, .run (callEach ⟨0⟩ (pointTakenOff.world.host.handlers ⟨1⟩)
          (Point.program ⟨0⟩ (fun ran => .ret (.bool (ran == 2)))
            ⟨pointTakenOff.world, [], pointTakenOff.path, pointTakenOff.count + 1⟩)), []⟩ ∧
      pointTakenOff.world.host.handlers ⟨1⟩ = [⟨1⟩] ∧
      ∃ w, Leads (unbindingStates 6) ⟨w, .value (.bool true), []⟩ ∧ w.host.rest = true := by
  have hunbound : ∀ key, ¬ pointTakenOff.world.host.document.Binds ⟨1⟩ key ⟨1⟩ := by
    rintro key hbinds
    have hmem : (⟨1⟩ : ListenerId) ∈ pointTakenOff.world.host.document.listenersFor ⟨1⟩ "click" :=
      (Document.candidates_listenersFor ..).mem_iff.2 ⟨key, hbinds, rfl⟩
    rw [show pointTakenOff.world.host.document.listenersFor ⟨1⟩ "click" = [] from rfl] at hmem
    exact absurd hmem List.not_mem_nil
  have hturn : pointTakenOff.pending = [⟨1⟩] := rfl
  have hstep := Point.step?_of_pending hturn ⟨0⟩ (fun ran => .ret (.bool (ran == 2))) []
  rw [if_neg (by decide)] at hstep
  have hrun : Machine.run 30 (unbindingStates 6) =
      some ⟨(unbindingStates 24).world, .value (.bool true), []⟩ := rfl
  exact ⟨Machine.occurs_states unbindsNext_confined 6, rfl, reachable_unbindingStates,
    course_pointTakenOff, ⟨[], hturn⟩, hunbound, hstep, rfl, _, Machine.leads_of_run_eq hrun, rfl⟩

end View
end ReactiveView
