/-
# The course of a dispatch

Between two listeners a dispatch is at a *point*: the world, the listeners of the node being
visited that are still to come, and the nodes of the path after it (`Point`).  From there it
passes a listener over that was bound after the event, runs the handlers of another one, or
goes on to the next node (`Point.Move`).  What handlers do is not looked at: they are run to
their end, whatever they do to the document on the way, and the next point is in the world
that they leave.

The machine goes through the points of the course (`Point.Course.leads`).  On every course a
listener that is to come has its turn, unless the handlers of one before it do not return
(`Point.exists_turn`); then the dispatch stays where it is (`Point.HeldUp.eq_of_course`).
-/

import ReactiveView.Proofs.Live.Endings
import ReactiveView.View.Dispatch

namespace ReactiveView
namespace View

open Reactive (CallbackId Frame Machine Program World)
open Reactive.Machine (Leads)
open Relation (ReflTransGen)

variable {τ : Type} {e : EventId} {w w' w'' : World (Stage τ)}

/-! ## Handlers -/

/-- The handler returns.  A handler that is not there does nothing. -/
def Returns (e : EventId) (c : CallbackId) (w w' : World (Stage τ)) : Prop :=
  match w.callbacks[c.index]? with
  | some body => (body e.index).Ends w w'
  | none => w' = w

/-- The handlers return, one after the other. -/
inductive ReturnEach (e : EventId) : List CallbackId → World (Stage τ) → World (Stage τ) → Prop
  | nil (w : World (Stage τ)) : ReturnEach e [] w w
  | cons {c : CallbackId} {rest : List CallbackId} {w w' w'' : World (Stage τ)}
      (first : Returns e c w w') (later : ReturnEach e rest w' w'') : ReturnEach e (c :: rest) w w''

/-- **A handler that returns leads to what comes after it**, whatever that is. -/
theorem Returns.leads {c : CallbackId} (h : Returns e c w w') (next : Program (Stage τ))
    (frames : List (Frame (Stage τ))) :
    Leads ⟨w, .run (.call c e.index next), frames⟩ ⟨w', .run next, frames⟩ := by
  unfold Returns at h
  split at h
  · rename_i body hbody
    obtain ⟨value, hleads⟩ := h.leads (.bind (fun _ => next) :: frames)
    refine .step ?_ (hleads.trans (.step rfl (.refl _)))
    simp only [Machine.step?, Machine.exec, hbody]
  · rename_i hnone
    refine .step ?_ (.refl _)
    simp only [Machine.step?, Machine.exec, hnone, h]

/-- Handlers that return, one after the other, lead on to what follows them. -/
theorem ReturnEach.leads {callbacks : List CallbackId} (h : ReturnEach e callbacks w w')
    (next : Program (Stage τ)) (frames : List (Frame (Stage τ))) :
    Leads ⟨w, .run (callEach e callbacks next), frames⟩ ⟨w', .run next, frames⟩ := by
  induction h with
  | nil w => exact .refl _
  | cons first later ih => exact (first.leads _ frames).trans ih

/-- Handlers that return, and then others. -/
theorem ReturnEach.append {first later : List CallbackId} (h : ReturnEach e first w w')
    (h' : ReturnEach e later w' w'') : ReturnEach e (first ++ later) w w'' := by
  induction h with
  | nil => exact h'
  | cons hfirst _ ih => exact .cons hfirst (ih h')

/-- If all of them return, the first ones do, and then the others. -/
theorem ReturnEach.of_append {first later : List CallbackId}
    (h : ReturnEach e (first ++ later) w w'') :
    ∃ w', ReturnEach e first w w' ∧ ReturnEach e later w' w'' := by
  induction first generalizing w with
  | nil => exact ⟨w, .nil w, h⟩
  | cons c rest ih =>
    cases h with
    | cons hfirst h =>
      obtain ⟨w', hrest, hlater⟩ := ih h
      exact ⟨w', .cons hfirst hrest, hlater⟩

/-- Handlers are called one after the other. -/
theorem callEach_append (e : EventId) (first later : List CallbackId) (next : Program (Stage τ)) :
    callEach e (first ++ later) next = callEach e first (callEach e later next) := by
  induction first with
  | nil => rfl
  | cons c rest ih => exact congrArg (Program.call c e.index) ih

/-- A handler that fails does not return. -/
theorem Returns.not_throwing {c : CallbackId} {body : Nat → Program (Stage τ)} {message : String}
    (hbody : w.callbacks[c.index]? = some body) (h : Returns e c w w') :
    ¬ Leads ⟨w, .run (body e.index), []⟩ ⟨w'', .throwing message, []⟩ := by
  unfold Returns at h
  rw [hbody] at h
  exact h.not_throwing

/-! ## Points -/

namespace Stage

/-- The listener was bound after the event. -/
def Late (s : Stage τ) (e : EventId) (l : ListenerId) : Prop :=
  (s.event e).time < (s.document.listener l).attached

instance (s : Stage τ) (e : EventId) (l : ListenerId) : Decidable (s.Late e l) :=
  inferInstanceAs (Decidable ((s.event e).time < (s.document.listener l).attached))

/-- The handlers of a listener. -/
def handlers (s : Stage τ) (l : ListenerId) : List CallbackId := (s.document.listener l).callbacks

end Stage

/-- A point of a dispatch, between two listeners or two nodes. -/
structure Point (τ : Type) where
  world : World (Stage τ)
  /-- The listeners of the node being visited that are still to come. -/
  pending : List ListenerId
  /-- The nodes to be visited afterwards. -/
  path : List NodeId
  /-- How many listeners were run. -/
  count : Nat

namespace Point

/-- What is left of the dispatch at a point, and what comes after it. -/
def program (e : EventId) (next : Nat → Program (Stage τ)) (p : Point τ) : Program (Stage τ) :=
  runListeners e p.pending p.count fun count => visitPath e p.path count next

/-- The state of the machine at a point. -/
def machine (e : EventId) (next : Nat → Program (Stage τ)) (frames : List (Frame (Stage τ)))
    (p : Point τ) : Machine (Stage τ) :=
  ⟨p.world, .run (p.program e next), frames⟩

/-- One move of a dispatch. -/
inductive Move (e : EventId) : Point τ → Point τ → Prop
  /-- A listener is passed over. -/
  | pass {w : World (Stage τ)} {l : ListenerId} {rest : List ListenerId} {path : List NodeId}
      {count : Nat} (late : w.host.Late e l) :
      Move e ⟨w, l :: rest, path, count⟩ ⟨w, rest, path, count⟩
  /-- A listener is run, and its handlers return. -/
  | run {w w' : World (Stage τ)} {l : ListenerId} {rest : List ListenerId} {path : List NodeId}
      {count : Nat} (early : ¬ w.host.Late e l) (returns : ReturnEach e (w.host.handlers l) w w') :
      Move e ⟨w, l :: rest, path, count⟩ ⟨w', rest, path, count + 1⟩
  /-- The next node is reached. -/
  | visit {w : World (Stage τ)} {n : NodeId} {path : List NodeId} {count : Nat}
      (going : (w.host.event e).stopped = false) :
      Move e ⟨w, [], n :: path, count⟩
        ⟨w, w.host.document.listenersFor n (w.host.event e).kind, path, count⟩

/-- Some moves lead from the one point to the other. -/
def Course (e : EventId) : Point τ → Point τ → Prop := ReflTransGen (Move e)

variable {p q : Point τ} {next : Nat → Program (Stage τ)} {frames : List (Frame (Stage τ))}

/-- **The turn of a listener.**  It is passed over if it was bound after the event;
otherwise the handlers are called that it has then. -/
theorem step?_turn (w : World (Stage τ)) (l : ListenerId) (rest : List ListenerId)
    (path : List NodeId) (count : Nat) :
    (machine e next frames ⟨w, l :: rest, path, count⟩).step? =
      some ⟨w, .run (if w.host.Late e l then program e next ⟨w, rest, path, count⟩
        else callEach e (w.host.handlers l) (program e next ⟨w, rest, path, count + 1⟩)),
        frames⟩ :=
  rfl

/-- **The turn of a listener**: it is run, with the handlers that it has now, if it was bound
before the event. -/
theorem step?_turn_of_late_iff {there : Prop} [Decidable there] {l : ListenerId}
    (h : w.host.Late e l ↔ ¬ there) (rest : List ListenerId) (path : List NodeId) (count : Nat) :
    (machine e next frames ⟨w, l :: rest, path, count⟩).step? =
      some ⟨w, .run (if there then callEach e (w.host.handlers l)
          (program e next ⟨w, rest, path, count + 1⟩)
        else program e next ⟨w, rest, path, count⟩), frames⟩ := by
  rw [step?_turn]
  by_cases hthere : there
  · rw [if_pos hthere, if_neg fun hlate => h.1 hlate hthere]
  · rw [if_neg hthere, if_pos (h.2 hthere)]

/-- **The machine makes every move.** -/
theorem Move.leads (h : Move e p q) :
    Leads (p.machine e next frames) (q.machine e next frames) := by
  cases h with
  | pass late =>
    refine .step (step?_turn ..) ?_
    rw [if_pos late]
    exact .refl _
  | run early returns =>
    refine .step (step?_turn ..) ?_
    rw [if_neg early]
    exact returns.leads _ frames
  | @visit w n path count going =>
    have hstep : (machine e next frames ⟨w, [], n :: path, count⟩).step? =
        some ⟨w, .run (if (w.host.event e).stopped then next count
          else program e next
            ⟨w, w.host.document.listenersFor n (w.host.event e).kind, path, count⟩), frames⟩ := rfl
    refine .step hstep ?_
    rw [going]
    exact .refl _

/-- **The machine goes through the points of the course.** -/
theorem Course.leads (h : Course e p q) :
    Leads (p.machine e next frames) (q.machine e next frames) := by
  induction h with
  | refl => exact .refl _
  | tail _ hmove ih => exact ih.trans hmove.leads

/-! ## Turns -/

/-- It is the turn of the listener. -/
def IsTurn (p : Point τ) (l : ListenerId) : Prop := ∃ rest, p.pending = l :: rest

/-- The dispatch is held up by a listener before the one in question: its handlers fail, or
run for ever. -/
def HeldUp (e : EventId) (p : Point τ) (l : ListenerId) : Prop :=
  ∃ first rest, p.pending = first :: rest ∧ l ∈ rest ∧ ¬ p.world.host.Late e first ∧
    ¬ ∃ w', ReturnEach e (p.world.host.handlers first) p.world w'

/-- **A listener that is to come has its turn**, before any other node is reached, unless one
before it holds the dispatch up. -/
theorem exists_turn {l : ListenerId} (h : l ∈ p.pending) :
    ∃ q, Course e p q ∧ q.path = p.path ∧ (q.IsTurn l ∨ q.HeldUp e l) := by
  obtain ⟨w, pending, path, count⟩ := p
  induction pending generalizing w count with
  | nil => exact absurd h (by simp)
  | cons first rest ih =>
    rcases List.mem_cons.1 h with rfl | hrest
    · exact ⟨_, .refl, rfl, .inl ⟨rest, rfl⟩⟩
    · by_cases hlate : w.host.Late e first
      · obtain ⟨q, hcourse, hpath, hturn⟩ := ih w count hrest
        exact ⟨q, .head (.pass hlate) hcourse, hpath, hturn⟩
      · by_cases hreturns : ∃ w', ReturnEach e (w.host.handlers first) w w'
        · obtain ⟨w', hw'⟩ := hreturns
          obtain ⟨q, hcourse, hpath, hturn⟩ := ih w' (count + 1) hrest
          exact ⟨q, .head (.run hlate hw') hcourse, hpath, hturn⟩
        · exact ⟨_, .refl, rfl, .inr ⟨first, rest, rfl, hrest, hlate, hreturns⟩⟩

/-- So do the listeners of the next node, if nobody has stopped the event. -/
theorem exists_turn_of_visit {n : NodeId} {path : List NodeId} {l : ListenerId} (count : Nat)
    (going : (w.host.event e).stopped = false)
    (h : l ∈ w.host.document.listenersFor n (w.host.event e).kind) :
    ∃ q, Course e ⟨w, [], n :: path, count⟩ q ∧ q.path = path ∧
      (q.IsTurn l ∨ q.HeldUp e l) := by
  obtain ⟨q, hcourse, hpath, hturn⟩ := exists_turn (e := e) (p := ⟨w, _, path, count⟩) h
  exact ⟨q, .head (.visit going) hcourse, hpath, hturn⟩

/-- A dispatch that is held up gets no further. -/
theorem HeldUp.eq_of_course {l : ListenerId} (h : p.HeldUp e l) (hcourse : Course e p q) :
    q = p := by
  induction hcourse with
  | refl => rfl
  | tail _ hmove ih =>
    obtain ⟨first, rest, hpending, -, hearly, hreturns⟩ := h
    rw [ih] at hmove
    cases hmove with
    | pass late =>
      obtain ⟨rfl, -⟩ := List.cons.inj hpending
      exact absurd late hearly
    | run _ returns =>
      obtain ⟨rfl, -⟩ := List.cons.inj hpending
      exact absurd ⟨_, returns⟩ hreturns
    | visit => exact absurd hpending (by simp)

end Point
end View
end ReactiveView
