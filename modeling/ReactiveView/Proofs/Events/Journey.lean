/-
# The way of a dispatch

Three moments decide what a dispatch does.  Its path is the line of ancestors that the target has
when it begins.  The listeners of a node are those that it binds to the event when it is reached.
And the handlers of a listener are those that its key holds when it has its turn.

A *journey* is the course of a dispatch with the nodes that it has visited and the listeners that
it has run (`Point.Journey`).  Handlers may do what they will in between: what is on the path does
not change, what is visited is a beginning of it (`Point.Journey.path`), and no listener is run
twice, since no node is on the path twice and no listener that was there before is bound anywhere
else (`Point.Journey.tidy`).  So it goes at every point of every dispatch
(`dispatch_follows_lineage`).

Two things keep handlers from being called.  Handlers that fail leave the dispatch, and those that
do not return hold it.  And a listener that has been taken off since its node was reached has its
turn with the handlers that it had, not with what its key holds then
(`rebound_listener_runs_old_handlers`).
-/

import ReactiveView.Proofs.Events.Bindings
import ReactiveView.Proofs.Events.Lineage
import ReactiveView.Proofs.Events.Retained

namespace ReactiveView
namespace View

open Reactive (CallbackId Frame Machine Program World)
open Reactive.Machine (Leads Occurs)
open Relation (ReflTransGen)

variable {τ : Type} {e : EventId} {l : ListenerId} {w : World (Stage τ)}

/-! ## Keys and handlers -/

namespace Document

variable {d : Document} {n : NodeId} {key event : String} {ls : List ListenerId}

/-- The handlers that a key of a node holds. -/
def handlersUnder (d : Document) (n : NodeId) (key : String) : List CallbackId :=
  match (d.element? n).bind fun e => e.listeners.get? key with
  | some l => (d.listener l).callbacks
  | none => []

/-- The handlers of a key are those of the listener that it binds. -/
theorem Binds.handlersUnder_eq (h : d.Binds n key l) :
    d.handlersUnder n key = (d.listener l).callbacks := by
  obtain ⟨e, hdata, hl⟩ := h
  rw [handlersUnder, element?_eq_some_iff.2 hdata, Option.bind_some, hl]

/-- Where each listener is bound once, a node has no listener twice for an event. -/
theorem Candidates.nodup (h : d.Candidates n event ls) (howns : d.Owns fun _ => True) :
    ls.Nodup := by
  obtain ⟨bindings, rfl, hsorted, hmem⟩ := h
  have hdifferent : bindings.Nodup := by
    refine hsorted.imp fun {a b} hlt heq => ?_
    rw [heq] at hlt
    exact String.lt_irrefl _ hlt
  refine List.Nodup.map_on ?_ hdifferent
  rintro ⟨key, l⟩ hkey ⟨key', l'⟩ hkey' rfl
  have hsame := ((howns n key l trivial ((hmem key l).1 hkey).1).2 n key' trivial
    ((hmem key' l).1 hkey').1).2
  rw [hsame]

end Document

/-! ## Journeys -/

namespace Point

variable {p q r : Point τ} {visited : List NodeId} {ran : List ListenerId}
  {next : Nat → Program (Stage τ)} {frames : List (Frame (Stage τ))}

/-- The node that the next move reaches, if it reaches one. -/
def visits (p : Point τ) : List NodeId :=
  match p.pending with
  | [] => p.path.take 1
  | _ :: _ => []

/-- The listener that the next move runs, if it runs one. -/
def runs (e : EventId) (p : Point τ) : List ListenerId :=
  match p.pending with
  | [] => []
  | l :: _ => if p.world.host.Late e l then [] else [l]

/-- A listener that was bound after the event is not run. -/
theorem runs_of_late {rest : List ListenerId} {path : List NodeId} {count : Nat}
    (h : w.host.Late e l) : runs e ⟨w, l :: rest, path, count⟩ = [] :=
  if_pos h

/-- A listener that was bound before the event is run. -/
theorem runs_of_early {rest : List ListenerId} {path : List NodeId} {count : Nat}
    (h : ¬ w.host.Late e l) : runs e ⟨w, l :: rest, path, count⟩ = [l] :=
  if_neg h

/-- Moves lead from the one point to the other, and visit these nodes and run these listeners on
the way. -/
inductive Journey (e : EventId) (p : Point τ) :
    List NodeId → List ListenerId → Point τ → Prop
  | start : Journey e p [] [] p
  | move {visited : List NodeId} {ran : List ListenerId} {q r : Point τ}
      (before : Journey e p visited ran q) (hmove : Move e q r) :
      Journey e p (visited ++ q.visits) (ran ++ q.runs e) r

namespace Journey

/-- A journey is a course, with its stations written down. -/
theorem course (h : Journey e p visited ran q) : Course e p q := by
  induction h with
  | start => exact .refl
  | move _ hmove ih => exact ih.tail hmove

/-- Every course is one of a journey. -/
theorem of_course (h : Course e p q) : ∃ visited ran, Journey e p visited ran q := by
  induction h with
  | refl => exact ⟨[], [], .start⟩
  | tail _ hmove ih =>
    obtain ⟨visited, ran, hjourney⟩ := ih
    exact ⟨_, _, hjourney.move hmove⟩

/-- **What has been visited and what is left are the path.** -/
theorem path (h : Journey e p visited ran q) : visited ++ q.path = p.path := by
  induction h with
  | start => rfl
  | @move visited ran q r _ hmove ih =>
    rw [← ih, List.append_assoc]
    cases hmove <;> rfl

/-- The listeners that were run have been counted. -/
theorem count (h : Journey e p visited ran q) : q.count = p.count + ran.length := by
  induction h with
  | start => rfl
  | @move visited ran q r _ hmove ih =>
    rw [List.length_append, ← Nat.add_assoc, ← ih]
    cases hmove with
    | pass late => simp [runs_of_late late]
    | run early => simp [runs_of_early early]
    | visit => simp [runs]

end Journey

/-! ## What handlers leave as it is -/

/-- **On its way a dispatch comes to later stages.** -/
theorem Course.retains (hp : (p.machine e next frames).Confined Stage.Operated)
    (h : Course e p q) : p.world.host.Retains q.world.host :=
  Stage.Operated.retains (hp.leads h.leads).2

/-- Once the event is stopped no other node is reached. -/
theorem Course.path_eq_of_stopped (hp : (p.machine e next frames).Confined Stage.Operated)
    (hstopped : (p.world.host.event e).stopped = true) (h : Course e p q) : q.path = p.path := by
  induction h with
  | refl => rfl
  | @tail q r hcourse hmove ih =>
    cases hmove with
    | pass | run => exact ih
    | visit going =>
      have hq := (Course.retains hp hcourse).stopped e hstopped
      exact absurd (hq.symm.trans going) (by simp)

/-- The listeners that were run and those to come are different and there.  What binds one that
was run has been visited, and what binds one to come is being visited. -/
structure Tidy (visited : List NodeId) (ran : List ListenerId) (p : Point τ) : Prop where
  different : (ran ++ p.pending).Nodup
  there : ∀ l ∈ ran ++ p.pending, l.index < p.world.host.document.listeners.size
  gone : ∀ l ∈ ran, ∀ n key, p.world.host.document.Binds n key l → n ∈ visited
  here : ∀ l ∈ p.pending, ∀ n key, p.world.host.document.Binds n key l →
    visited.getLast? = some n

/-- A listener that is passed over is not looked at again. -/
theorem Tidy.pass {rest : List ListenerId} {path : List NodeId} {count : Nat}
    (h : Tidy visited ran ⟨w, l :: rest, path, count⟩) : Tidy visited ran ⟨w, rest, path, count⟩ := by
  have hsublist : (ran ++ rest).Sublist (ran ++ l :: rest) :=
    (List.sublist_cons_self l rest).append_left ran
  constructor
  case different => exact hsublist.nodup h.different
  case there => exact fun l hl => h.there l (hsublist.subset hl)
  case gone => exact h.gone
  case here => exact fun l hl => h.here l (List.mem_cons_of_mem _ hl)

/-- A listener that is run was on the node being visited, whatever its handlers do. -/
theorem Tidy.run {w' : World (Stage τ)} {rest : List ListenerId} {path : List NodeId} {count : Nat}
    (h : Tidy visited ran ⟨w, l :: rest, path, count⟩)
    (hretains : w.host.document.Retains w'.host.document) :
    Tidy visited (ran ++ [l]) ⟨w', rest, path, count + 1⟩ := by
  have hlist : ran ++ [l] ++ rest = ran ++ l :: rest := List.append_assoc ..
  -- what is bound now was bound before
  have hbinds : ∀ l' ∈ ran ++ l :: rest, ∀ n key, w'.host.document.Binds n key l' →
      w.host.document.Binds n key l' := fun l' hl' n key =>
    hretains.binds n key l' (h.there l' hl')
  constructor
  case different =>
    rw [hlist]
    exact h.different
  case there =>
    rw [hlist]
    exact fun l' hl' => Nat.lt_of_lt_of_le (h.there l' hl') hretains.size
  case gone =>
    refine List.forall_mem_append.2 ⟨fun l' hl' n key hbound => ?_, fun l' hl' n key hbound => ?_⟩
    · exact h.gone l' hl' n key (hbinds l' (List.mem_append_left _ hl') n key hbound)
    · obtain rfl := List.mem_singleton.1 hl'
      exact List.mem_of_getLast? (h.here l' List.mem_cons_self n key
        (hbinds l' (List.mem_append_right _ List.mem_cons_self) n key hbound))
  case here =>
    intro l' hl' n key hbound
    have hl' : l' ∈ l :: rest := List.mem_cons_of_mem _ hl'
    exact h.here l' hl' n key (hbinds l' (List.mem_append_right _ hl') n key hbound)

/-- A node that is reached has listeners that were not run before. -/
theorem Tidy.visit {n : NodeId} {path : List NodeId} {count : Nat}
    (h : Tidy visited ran ⟨w, [], n :: path, count⟩)
    (howns : w.host.document.Owns fun _ => True) (hn : n ∉ visited) :
    Tidy (visited ++ [n]) ran (.reached e w n path count) := by
  have hcandidates :=
    Document.candidates_listenersFor w.host.document n (w.host.event e).kind
  have hhere : ∀ l ∈ w.host.document.listenersFor n (w.host.event e).kind,
      ∃ key, w.host.document.Binds n key l := by
    intro l hl
    obtain ⟨key, hbinds, -⟩ := hcandidates.mem_iff.1 hl
    exact ⟨key, hbinds⟩
  constructor
  case different =>
    have hran : ran.Nodup := by simpa using h.different
    refine List.nodup_append'.2 ⟨hran, hcandidates.nodup howns, ?_⟩
    intro l hl hl'
    obtain ⟨key, hbinds⟩ := hhere l hl'
    exact hn (h.gone l hl n key hbinds)
  case there =>
    refine List.forall_mem_append.2 ⟨fun l hl => h.there l (List.mem_append_left _ hl), ?_⟩
    intro l hl
    obtain ⟨key, hbinds⟩ := hhere l hl
    exact (howns n key l trivial hbinds).1
  case gone =>
    exact fun l hl n key hbinds => List.mem_append_left _ (h.gone l hl n key hbinds)
  case here =>
    intro l hl n' key' hbinds'
    obtain ⟨key, hbinds⟩ := hhere l hl
    obtain ⟨rfl, -⟩ := (howns n key l trivial hbinds).2 n' key' trivial hbinds'
    exact List.getLast?_concat ..

/-- **No listener is run twice**, and none that another node than the visited ones binds. -/
theorem Journey.tidy (hp : (p.machine e next frames).Confined Stage.Operated)
    (howns : p.world.host.document.Owns fun _ => True) (hpath : p.path.Nodup)
    (hbegin : p.pending = []) (h : Journey e p visited ran q) : Tidy visited ran q := by
  induction h with
  | start => constructor <;> simp [hbegin]
  | @move visited ran q r hjourney hmove ih =>
    have hq := (Course.ages hp hjourney.course).1
    have hretains := Course.retains hq (.single hmove)
    cases hmove with
    | @pass w l rest path count late =>
      have hvisits : visited ++ visits ⟨w, l :: rest, path, count⟩ = visited :=
        List.append_nil _
      rw [hvisits, runs_of_late late, List.append_nil]
      exact ih.pass
    | @run w w' l rest path count early returns =>
      have hvisits : visited ++ visits ⟨w, l :: rest, path, count⟩ = visited :=
        List.append_nil _
      rw [hvisits, runs_of_early early]
      exact ih.run hretains.document
    | @visit w n path count going =>
      have hn : n ∉ visited := by
        rw [← hjourney.path] at hpath
        exact fun hmem => (List.nodup_append'.1 hpath).2.2 hmem List.mem_cons_self
      have hruns : ran ++ runs e ⟨w, [], n :: path, count⟩ = ran := List.append_nil _
      rw [hruns]
      exact ih.visit ((Course.retains hp hjourney.course).document.owns howns) hn

/-! ## How it goes -/

/-- How a dispatch goes on at a point, in an event of the kind, when these nodes have been
visited. -/
structure Goes (e : EventId) (kind : String) (next : Nat → Program (Stage τ))
    (frames : List (Frame (Stage τ))) (visited : List NodeId) (p : Point τ) : Prop where
  /-- A listener that is still bound when it has its turn is bound by the node being visited.  It
  is passed over if it was bound after the event; otherwise the handlers are run, in order, that
  its key holds then. -/
  turn : ∀ l later n key, p.pending = l :: later → p.world.host.document.Binds n key l →
    visited.getLast? = some n ∧ (p.machine e next frames).step? =
      some ⟨p.world, .run (
        if p.world.host.Late e l then program e next ⟨p.world, later, p.path, p.count⟩
        else callEach e (p.world.host.document.handlersUnder n key)
          (program e next ⟨p.world, later, p.path, p.count + 1⟩)), frames⟩
  /-- Every listener that is to come has its turn before another node is reached, whether the
  event is stopped or not, unless the handlers of one before it fail or run for ever. -/
  turns : ∀ l ∈ p.pending, ∃ q, Course e p q ∧ q.path = p.path ∧ (q.IsTurn l ∨ q.HeldUp e l)
  /-- If the event is not stopped the next node is reached, and its bindings to the event are to
  come, in the order of their keys. -/
  visit : ∀ n path, p.pending = [] → p.path = n :: path →
    (p.world.host.event e).stopped = false →
    ∃ ls, p.world.host.document.Candidates n kind ls ∧ Move e p ⟨p.world, ls, path, p.count⟩
  /-- At the end of the path, or once the event is stopped, the answer is how many were run. -/
  finish : p.pending = [] → p.path = [] ∨ (p.world.host.event e).stopped = true →
    Leads (p.machine e next frames) ⟨p.world, .run (next p.count), frames⟩
  /-- Once the event is stopped no other node is reached. -/
  stopped : (p.world.host.event e).stopped = true → ∀ q, Course e p q → q.path = p.path

/-- **What is tidy goes on as it should**, at every point of a dispatch. -/
theorem Tidy.goes {kind : String} (h : Tidy visited ran p)
    (hp : (p.machine e next frames).Confined Stage.Operated)
    (hkind : (p.world.host.event e).kind = kind) : Goes e kind next frames visited p where
  turn l later n key hpending hbinds := by
    refine ⟨h.here l (by rw [hpending]; exact List.mem_cons_self) n key hbinds, ?_⟩
    rw [step?_of_pending hpending e next frames, hbinds.handlersUnder_eq]
    rfl
  turns l hl := exists_turn hl
  visit n path hpending hpath hgoing := by
    obtain ⟨w, pending, path', count⟩ := p
    obtain rfl : pending = [] := hpending
    obtain rfl : path' = n :: path := hpath
    exact ⟨_, hkind ▸ Document.candidates_listenersFor .., .visit hgoing⟩
  finish hpending hend := by
    obtain ⟨w, pending, path, count⟩ := p
    obtain rfl : pending = [] := hpending
    cases path with
    | nil => exact .refl _
    | cons n path =>
      have hstopped : (w.host.event e).stopped = true := hend.resolve_left (List.cons_ne_nil n path)
      have hstep : (machine e next frames ⟨w, [], n :: path, count⟩).step? =
          some ⟨w, .run (if (w.host.event e).stopped then next count
            else program e next (.reached e w n path count)), frames⟩ := rfl
      refine .step hstep ?_
      rw [if_pos hstopped]
      exact .refl _
  stopped hstopped _ hcourse := hcourse.path_eq_of_stopped hp hstopped

end Point

/-- **A dispatch follows the line of ancestors that the target had when it began.**  Take any
state of any run of programs that change the stage by its operations, from an empty document, in
which an event is to be dispatched and no node is above itself.  Then the nodes visited are a
beginning of the line of ancestors of the target, no listener is run twice, and those that were
run are counted; and so it goes on as `Point.Goes` tells. -/
theorem dispatch_follows_lineage {clock : Clock} {rest : τ} {target : NodeId}
    {next : Nat → Program (Stage τ)} {frames : List (Frame (Stage τ))}
    (h : Occurs Stage.Operated ⟨.empty clock, #[], #[], rest⟩
      ⟨w, .run (dispatch e target next), frames⟩)
    (hevent : e.index < w.host.events.size) (hacyclic : w.host.document.Acyclic) :
    ∃ line, w.host.document.Lineage target line ∧ ∀ visited ran p,
      Point.Journey e (.ofDispatch w target) visited ran p →
        Leads ⟨w, .run (dispatch e target next), frames⟩ (p.machine e next frames) ∧
        visited ++ p.path = line ∧ ran.Nodup ∧ p.count = ran.length ∧
        p.Goes e (w.host.event e).kind next frames visited := by
  obtain ⟨hconfined, hhost⟩ := h.host
  have hline := hacyclic.lineage_ancestors target
  have hbegin := Point.dispatch_leads w e target next frames
  have hbegun := (hconfined.leads hbegin).1
  refine ⟨_, hline, fun visited ran p hjourney => ?_⟩
  have htidy : Point.Tidy visited ran p :=
    hjourney.tidy hbegun (Stage.Operated.owns hhost) (hline.nodup hacyclic) rfl
  obtain ⟨hp, hages⟩ := Point.Course.ages hbegun hjourney.course
  refine ⟨hbegin.trans hjourney.course.leads, hjourney.path,
    (List.nodup_append'.1 htidy.different).1, ?_, htidy.goes hp (hages.events e hevent).1⟩
  rw [hjourney.count]
  exact Nat.zero_add _

/-- The document of the click in `bindsAhead`: a paragraph in a division. -/
theorem acyclic_bindingStates : (bindingStates 11).world.host.document.Acyclic :=
  Document.acyclic_of_lt (by decide)

/-- The dispatch of `bindsAhead` at the point at which the division was reached: the paragraph
and the division have been visited, and one listener was run.  That of the division, which was
bound meanwhile, is passed over. -/
theorem dispatch_follows_lineage_bindsAhead :
    Occurs Stage.Operated (emptyStage ())
        ⟨(bindingStates 11).world, .run (dispatch ⟨0⟩ ⟨1⟩ fun ran => .ret (.bool (ran == 1))), []⟩ ∧
      0 < (bindingStates 11).world.host.events.size ∧
      (bindingStates 11).world.host.document.Acyclic ∧
      Point.Journey ⟨0⟩ (.ofDispatch (bindingStates 11).world ⟨1⟩) [⟨1⟩, ⟨0⟩] [⟨0⟩] pointAhead ∧
      (bindingStates 11).world.host.document.Lineage ⟨1⟩ [⟨1⟩, ⟨0⟩] ∧
      pointAhead.Goes ⟨0⟩ "click" (fun ran => .ret (.bool (ran == 1))) [] [⟨1⟩, ⟨0⟩] := by
  have hoccurs : Occurs Stage.Operated (emptyStage ())
      ⟨(bindingStates 11).world, .run (dispatch ⟨0⟩ ⟨1⟩ fun ran => .ret (.bool (ran == 1))), []⟩ :=
    Machine.occurs_states bindsAhead_confined 11
  have hevent : 0 < (bindingStates 11).world.host.events.size := Nat.zero_lt_one
  have hkind : ((bindingStates 11).world.host.event ⟨0⟩).kind = "click" := rfl
  have hreturns : ReturnEach ⟨0⟩ [⟨1⟩] (bindingStates 11).world (bindingStates 18).world :=
    .cons ⟨3, .undefined, rfl⟩ (.nil _)
  have hearly : ¬ (bindingStates 11).world.host.Late ⟨0⟩ ⟨0⟩ := by decide
  have hparagraph : Point.Move ⟨0⟩ (.ofDispatch (bindingStates 11).world ⟨1⟩)
      ⟨(bindingStates 11).world, [⟨0⟩], [⟨0⟩], 0⟩ := .visit rfl
  have hruns : Point.Move ⟨0⟩ ⟨(bindingStates 11).world, [⟨0⟩], [⟨0⟩], 0⟩
      ⟨(bindingStates 18).world, [], [⟨0⟩], 1⟩ := .run hearly hreturns
  have hdivision : Point.Move ⟨0⟩ ⟨(bindingStates 18).world, [], [⟨0⟩], 1⟩ pointAhead := .visit rfl
  have hjourney : Point.Journey ⟨0⟩ (.ofDispatch (bindingStates 11).world ⟨1⟩) [⟨1⟩, ⟨0⟩] [⟨0⟩]
      pointAhead := by
    have hmoves := ((Point.Journey.start.move hparagraph).move hruns).move hdivision
    rw [Point.runs_of_early hearly] at hmoves
    exact hmoves
  obtain ⟨line, hline, hall⟩ := dispatch_follows_lineage hoccurs hevent acyclic_bindingStates
  obtain ⟨-, hpath, -, -, hgoes⟩ := hall _ _ _ hjourney
  obtain rfl : [⟨1⟩, ⟨0⟩] = line := hpath
  rw [hkind] at hgoes
  exact ⟨hoccurs, hevent, acyclic_bindingStates, hjourney, hline, hgoes⟩

/-! ## Handlers that are not called -/

/-- A mark is left. -/
def mark (text : String) (next : Program (Stage (List String))) : Program (Stage (List String)) :=
  .changeHost (Stage.Operation.apply (.rest (· ++ [text]))) next

/-- A handler that stops the event and fails. -/
def stopsAndFails (e : Nat) : Program (Stage (List String)) :=
  mark "third" <| .changeHost (Stage.Operation.apply (.stopEvent ⟨e⟩)) <| .throw "failed"

/-- A paragraph with four listeners is clicked.  The handler of the first one takes off the second
one and binds its key again; that of the third one stops the event and fails. -/
def rebindsNext : Program (Stage (List String)) :=
  .callback (fun _ => mark "new" .done) fun new =>
    .callback (fun _ => mark "first" <|
        .changeHost (Stage.Operation.apply (.document (.patchProp ⟨0⟩ "onCLick" none))) <|
        .changeHost (Stage.Operation.apply (.document
          (.patchProp ⟨0⟩ "onCLick" (some (.handler new))))) .done) fun first =>
      .callback (fun _ => mark "old" .done) fun old =>
        .callback stopsAndFails fun third =>
          .callback (fun _ => mark "last" .done) fun last =>
            .changeHost (Stage.Operation.apply (.document (.createElement "p"))) <|
            .changeHost (Stage.Operation.apply (.document
              (.patchProp ⟨0⟩ "onCLICK" (some (.handler first))))) <|
            .changeHost (Stage.Operation.apply (.document
              (.patchProp ⟨0⟩ "onCLick" (some (.handler old))))) <|
            .changeHost (Stage.Operation.apply (.document
              (.patchProp ⟨0⟩ "onClick" (some (.handler third))))) <|
            .changeHost (Stage.Operation.apply (.document
              (.patchProp ⟨0⟩ "onclick" (some (.handler last))))) <|
            click ⟨0⟩ fun ran => .ret (.bool (ran == 4))

/-- All handlers change the stage by operations. -/
theorem rebindsNext_confined : rebindsNext.Confined Stage.Operated none := by
  have hoperation (op : Stage.Operation (List String)) (s : Stage (List String)) :
      s.Operated (op.apply s) := .single op s
  have hmark (text : String) {next : Program (Stage (List String))}
      (h : next.Confined Stage.Operated none) : (mark text next).Confined Stage.Operated none :=
    ⟨fun s _ => hoperation _ s, h⟩
  refine ⟨fun _ => hmark _ trivial, fun new => ⟨fun _ => hmark _ ⟨fun s _ => hoperation _ s,
    fun s _ => hoperation _ s, trivial⟩, fun first => ⟨fun _ => hmark _ trivial, fun old =>
      ⟨fun _ => hmark _ ⟨fun s _ => hoperation _ s, trivial⟩, fun third =>
        ⟨fun _ => hmark _ trivial, fun last => ?_⟩⟩⟩⟩⟩
  exact ⟨fun s _ => hoperation _ s, fun s _ => hoperation _ s, fun s _ => hoperation _ s,
    fun s _ => hoperation _ s, fun s _ => hoperation _ s, click_confined _ fun _ => trivial⟩

/-- The states of the run of `rebindsNext`, with a clock that stands still. -/
def rebindingStates : Nat → Machine (Stage (List String)) :=
  Machine.states ⟨.empty ⟨0, 0⟩, #[], #[], []⟩ rebindsNext

/-- The point of the dispatch in `rebindsNext` at which it is the turn of the second listener. -/
def pointRebound : Point (List String) := ⟨(rebindingStates 24).world, [⟨1⟩, ⟨2⟩, ⟨3⟩], [], 1⟩

/-- The point after the second listener was run. -/
def pointFailing : Point (List String) := ⟨(rebindingStates 29).world, [⟨2⟩, ⟨3⟩], [], 2⟩

/-- The dispatch comes to the point at which the second listener has its turn. -/
theorem course_pointRebound :
    Point.Course ⟨0⟩ (.ofDispatch (rebindingStates 15).world ⟨0⟩) pointRebound := by
  have hvisit : Point.Move ⟨0⟩ (.ofDispatch (rebindingStates 15).world ⟨0⟩)
      (.reached ⟨0⟩ (rebindingStates 15).world ⟨0⟩ [] 0) := .visit rfl
  have hreached : Point.reached ⟨0⟩ (rebindingStates 15).world ⟨0⟩ [] 0 =
      ⟨(rebindingStates 15).world, [⟨0⟩, ⟨1⟩, ⟨2⟩, ⟨3⟩], [], 0⟩ := rfl
  have hreturns : ReturnEach ⟨0⟩ [⟨1⟩] (rebindingStates 15).world (rebindingStates 24).world :=
    .cons ⟨5, .undefined, rfl⟩ (.nil _)
  rw [hreached] at hvisit
  refine .head hvisit (.single (.run ?_ hreturns))
  decide

/-- The course goes on from the rebound listener to the one that fails. -/
theorem course_pointFailing : Point.Course ⟨0⟩ pointRebound pointFailing := by
  have hreturns : ReturnEach ⟨0⟩ [⟨2⟩] (rebindingStates 24).world (rebindingStates 29).world :=
    .cons ⟨3, .undefined, rfl⟩ (.nil _)
  refine .single (.run ?_ hreturns)
  decide

/-- The paragraph has four listeners for clicks, none of them late. -/
theorem candidates_rebindingStates :
    (rebindingStates 15).world.host.document.Candidates ⟨0⟩ "click" [⟨0⟩, ⟨1⟩, ⟨2⟩, ⟨3⟩] :=
  Document.candidates_listenersFor (rebindingStates 15).world.host.document ⟨0⟩ "click"

/-- One node by itself is no ancestor of its own. -/
theorem acyclic_rebindingStates : (rebindingStates 15).world.host.document.Acyclic :=
  Document.acyclic_of_lt (by decide)

/-- The third listener of `rebindsNext` fails, and the last one never has its turn. -/
theorem last_has_no_turn :
    ¬ ∃ q, Point.Course ⟨0⟩ pointFailing q ∧ q.IsTurn ⟨3⟩ := by
  rintro ⟨q, hcourse, hturn⟩
  have hheld : Point.HeldUp ⟨0⟩ pointFailing ⟨3⟩ := by
    refine ⟨⟨2⟩, [⟨3⟩], rfl, List.mem_cons_self, by decide, ?_⟩
    rintro ⟨w', hreturns⟩
    have hhandlers : pointFailing.world.host.handlers ⟨2⟩ = [⟨3⟩] := rfl
    have hbody : pointFailing.world.callbacks[3]? = some stopsAndFails := rfl
    have hrun : Machine.run 5 ⟨pointFailing.world, .run (stopsAndFails 0), []⟩ =
        some ⟨(rebindingStates 34).world, .throwing "failed", []⟩ := rfl
    rw [hhandlers] at hreturns
    cases hreturns with
    | cons first later => exact first.not_throwing hbody (Machine.leads_of_run_eq hrun)
  obtain rfl := hheld.eq_of_course hcourse
  obtain ⟨later, hpending⟩ := hturn
  exact absurd hpending (by simp [pointFailing])

/-- A listener that was taken off runs the handlers that it had, and one behind a listener that
fails runs none.  When the paragraph of `rebindsNext` is reached it has four listeners for clicks.
When it is the turn of the second one its key holds the handler that leaves the mark `new`, and
yet the old handler is called.  The third one fails with the event stopped, and the last one never
has its turn. -/
theorem rebound_listener_runs_old_handlers :
    Occurs Stage.Operated ⟨.empty ⟨0, 0⟩, #[], #[], []⟩ ⟨(rebindingStates 15).world,
        .run (dispatch ⟨0⟩ ⟨0⟩ fun ran => .ret (.bool (ran == 4))), []⟩ ∧
      0 < (rebindingStates 15).world.host.events.size ∧
      (rebindingStates 15).world.host.document.Acyclic ∧
      (rebindingStates 15).world.host.document.Candidates ⟨0⟩ "click" [⟨0⟩, ⟨1⟩, ⟨2⟩, ⟨3⟩] ∧
      (∀ l ∈ [⟨0⟩, ⟨1⟩, ⟨2⟩, ⟨3⟩], ¬ (rebindingStates 15).world.host.Late ⟨0⟩ l) ∧
      (rebindingStates 15).world.host.document.Binds ⟨0⟩ "onCLick" ⟨1⟩ ∧
      Point.Course ⟨0⟩ (.ofDispatch (rebindingStates 15).world ⟨0⟩) pointRebound ∧
      pointRebound.IsTurn ⟨1⟩ ∧
      pointRebound.world.host.document.handlersUnder ⟨0⟩ "onCLick" = [⟨0⟩] ∧
      pointRebound.world.host.handlers ⟨1⟩ = [⟨2⟩] ∧
      (pointRebound.machine ⟨0⟩ (fun ran => .ret (.bool (ran == 4))) []).step? =
        some ⟨pointRebound.world, .run (callEach ⟨0⟩ (pointRebound.world.host.handlers ⟨1⟩)
          (Point.program ⟨0⟩ (fun ran => .ret (.bool (ran == 4)))
            ⟨pointRebound.world, [⟨2⟩, ⟨3⟩], pointRebound.path, pointRebound.count + 1⟩)), []⟩ ∧
      Point.Course ⟨0⟩ pointRebound pointFailing ∧
      (¬ ∃ q, Point.Course ⟨0⟩ pointFailing q ∧ q.IsTurn ⟨3⟩) ∧
      ∃ w, Leads ⟨(rebindingStates 15).world,
          .run (dispatch ⟨0⟩ ⟨0⟩ fun ran => .ret (.bool (ran == 4))), []⟩
          ⟨w, .throwing "failed", []⟩ ∧
        (w.host.event ⟨0⟩).stopped = true ∧ w.host.rest = ["first", "old", "third"] := by
  have hoccurs : Occurs Stage.Operated ⟨.empty ⟨0, 0⟩, #[], #[], []⟩ ⟨(rebindingStates 15).world,
      .run (dispatch ⟨0⟩ ⟨0⟩ fun ran => .ret (.bool (ran == 4))), []⟩ :=
    Machine.occurs_states rebindsNext_confined 15
  have hturn : pointRebound.pending = [⟨1⟩, ⟨2⟩, ⟨3⟩] := rfl
  have hstep := Point.step?_of_pending hturn ⟨0⟩ (fun ran => .ret (.bool (ran == 4))) []
  rw [if_neg (by decide)] at hstep
  have hrun : Machine.run 30 ⟨(rebindingStates 15).world,
      .run (dispatch ⟨0⟩ ⟨0⟩ fun ran => .ret (.bool (ran == 4))), []⟩ =
        some ⟨(rebindingStates 35).world, .throwing "failed", []⟩ := rfl
  exact ⟨hoccurs, Nat.zero_lt_one, acyclic_rebindingStates, candidates_rebindingStates, by decide,
    ⟨_, rfl, rfl⟩, course_pointRebound, ⟨_, hturn⟩, rfl, rfl, hstep, course_pointFailing,
    last_has_no_turn, _, Machine.leads_of_run_eq hrun, rfl, rfl⟩

end View
end ReactiveView
