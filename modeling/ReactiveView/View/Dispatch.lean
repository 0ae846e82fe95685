/-
# Events

An event is delivered to the listeners of its target and then to those of each
ancestor, until a listener stops it.  The path is fixed when the dispatch begins;
the listeners of a node are looked up when the node is reached, and the handlers
of a listener when it is its turn.  A listener that was bound after the time
stamp of the event is passed over.

Handlers are programs, so a dispatch is a program too; its host state is a
*stage*: the document, the containers and the events.
-/

import ReactiveView.View.Render

namespace ReactiveView
namespace View

open Reactive (Program CallbackId)

/-- An event. -/
structure Event where
  kind : String
  /-- When it happened, in milliseconds. -/
  time : Int
  stopped : Bool
  deriving Repr, Inhabited

/-- The identity of an event. -/
structure EventId where
  index : Nat
  deriving DecidableEq, Repr

/-- The identity of a container. -/
structure ContainerId where
  index : Nat
  deriving DecidableEq, Repr

/-- The host state of programs that render and handle events, with a state `τ` of
their own besides. -/
structure Stage (τ : Type) where
  document : Document
  containers : Array Container
  events : Array Event
  rest : τ

namespace Stage

variable {τ : Type}

/-- Changes the document. -/
def modifyDocument (s : Stage τ) (change : Document → Document) : Stage τ :=
  { s with document := change s.document }

/-- Changes the rest. -/
def modifyRest (s : Stage τ) (change : τ → τ) : Stage τ := { s with rest := change s.rest }

/-- An event. -/
def event (s : Stage τ) (e : EventId) : Event := s.events.getD e.index default

/-- A new event. -/
def newEvent (s : Stage τ) (kind : String) (time : Int) : EventId × Stage τ :=
  (⟨s.events.size⟩, { s with events := s.events.push ⟨kind, time, false⟩ })

/-- No ancestor hears of the event any more. -/
def stopEvent (s : Stage τ) (e : EventId) : Stage τ :=
  { s with events := s.events.modify e.index fun event => { event with stopped := true } }

/-- The last handle of a node goes, apart from those that containers have. -/
def letGo (s : Stage τ) (n : NodeId) : Stage τ :=
  if s.containers.any fun c => c.held.contains n then s else s.modifyDocument (·.letGo n)

/-- Renders into a container. -/
def render (s : Stage τ) (c : ContainerId) (tree : Option VNode) :
    Except RenderError Unit × Stage τ :=
  match s.containers[c.index]? with
  | none => (.ok (), s)
  | some container =>
    let (result, container, document) := container.render tree s.document
    (result, { s with document, containers := s.containers.setIfInBounds c.index container })

end Stage

variable {τ : Type}

/-- Runs handlers in order with an event. -/
def callEach (e : EventId) : List CallbackId → Program (Stage τ) → Program (Stage τ)
  | [], next => next
  | c :: rest, next => .call c e.index (callEach e rest next)

/-- Runs the listeners of one node in order, counting those that run. -/
def runListeners (e : EventId) :
    List ListenerId → (count : Nat) → (Nat → Program (Stage τ)) → Program (Stage τ)
  | [], count, next => next count
  | l :: rest, count, next =>
    .readHost fun s =>
      let listener := s.document.listener l
      if (s.event e).time < listener.attached then runListeners e rest count next
      else callEach e listener.callbacks (runListeners e rest (count + 1) next)

/-- Visits the nodes of a path until the event is stopped, counting the listeners
that run. -/
def visitPath (e : EventId) :
    List NodeId → (count : Nat) → (Nat → Program (Stage τ)) → Program (Stage τ)
  | [], count, next => next count
  | n :: rest, count, next =>
    .readHost fun s =>
      if (s.event e).stopped then next count
      else
        runListeners e (s.document.listenersFor n (s.event e).kind) count fun count =>
          visitPath e rest count next

/-- Delivers an event to a node and its ancestors; answers how many listeners
ran. -/
def dispatch (e : EventId) (target : NodeId) (next : Nat → Program (Stage τ)) :
    Program (Stage τ) :=
  .readHost fun s => visitPath e (target :: s.document.ancestors target) 0 next

/-- A new event. -/
def withEvent (kind : String) (time : Int) (next : EventId → Program (Stage τ)) :
    Program (Stage τ) :=
  .readHost fun s =>
    .changeHost (fun s => (s.newEvent kind time).2) (next (s.newEvent kind time).1)

/-- Reads the clock of the document. -/
def readClock (next : Int → Program (Stage τ)) : Program (Stage τ) :=
  .readHost fun s =>
    .changeHost (·.modifyDocument fun d => d.readClock.2) (next s.document.readClock.1)

/-- Dispatches a click stamped with the time of the clock. -/
def click (target : NodeId) (next : Nat → Program (Stage τ)) : Program (Stage τ) :=
  readClock fun now => withEvent "click" now fun e => dispatch e target next

end View
end ReactiveView
