/-
# Sessions

What a script works on besides the reactive world and the document: named slots,
a log, and the answer of the statement that ran last.
-/

import ReactiveView.Reactive.Machine
import ReactiveView.View.Dispatch

namespace ReactiveView
namespace Script

open Reactive (Value ObjectId CellId EffectId ScopeId CallbackId Computed Program)
open View (NodeId ContainerId EventId Stage VNode)

/-- What a slot holds. -/
inductive Slot where
  | value (value : Value)
  | cell (cell : CellId)
  /-- A reference to one property of an object. -/
  | property (o : ObjectId) (key : String)
  | computed (computed : Computed)
  | effect (id : EffectId)
  /-- A scope, by a handle. -/
  | scope (scope : ScopeId)
  | node (node : NodeId)
  | container (container : ContainerId)
  | handler (callback : CallbackId)

/-- A value as answers show it; of an object the keys are shown. -/
inductive Shown where
  | undefined
  | null
  | bool (value : Bool)
  | text (value : String)
  /-- A number as displayed. -/
  | number (text : String)
  | object (keys : List String)
  | reactive (keys : List String)

/-- What is said of a node of the document. -/
structure Inspection where
  tag : Option String
  isText : Bool
  isComment : Bool
  className : String
  text : String
  children : List String
  hasParent : Bool

/-- What a statement answers. -/
inductive Answer where
  | null
  | bool (value : Bool)
  | number (value : Int)
  | text (value : String)
  | shown (value : Shown)
  /-- There was no value before. -/
  | nothing
  | list (answers : List Answer)
  /-- The node that a statement is about is missing. -/
  | missing (name : String)
  /-- The program failed with a message. -/
  | thrown (message : String)
  /-- The tree could not be rendered. -/
  | refused (error : View.RenderError)
  | property (value : View.DomProp)
  | inspection (inspection : Inspection)
  /-- How many listeners ran, and whether one stopped the event. -/
  | dispatched (ran : Nat) (stopped : Bool)
  /-- A prop as it is. -/
  | prop (prop : View.PropValue)
  /-- Virtual nodes as they are. -/
  | views (views : List VNode)

/-- What a script keeps besides the stage. -/
structure Locals where
  slots : KeyTable Slot
  /-- The lines logged, in order. -/
  log : Array (List Shown)
  /-- The answer of the statement that ran last. -/
  answer : Answer
  /-- The values that terms hold while others are worked out, last first. -/
  held : List Value
  /-- The nodes that dispatches under way hold, last dispatch first. -/
  paths : List (List NodeId)

/-- The host state of scripts. -/
abbrev Host := Stage Locals

/-- The programs that scripts are. -/
abbrev Prog := Program Host

namespace Prog

open Reactive.Program

/-- Reads the slots. -/
def lookup (name : String) (next : Option Slot → Prog) : Prog :=
  readHost fun s => next (s.rest.slots.get? name)

/-- The value in a slot, undefined if there is none. -/
def valueOf (name : String) (next : Value → Prog) : Prog :=
  lookup name fun
    | some (.value value) => next value
    | _ => next .undefined

/-- The node of the document that a slot leads to: a node, or the node of a
container. -/
def nodeOf (name : String) (next : Option NodeId → Prog) : Prog :=
  readHost fun s =>
    match s.rest.slots.get? name with
    | some (.node n) => next (some n)
    | some (.container c) => next (s.containers[c.index]?.map View.Container.node)
    | _ => next none

/-- The container in a slot. -/
def containerOf (name : String) (next : Option ContainerId → Prog) : Prog :=
  lookup name fun
    | some (.container c) => next (some c)
    | _ => next none

/-- The tree last rendered into the container in a slot. -/
def treeOf (name : String) (next : Option VNode → Prog) : Prog :=
  containerOf name fun
    | some c => readHost fun s => next (s.containers[c.index]?.bind View.Container.tree)
    | none => next none

/-- The effect in a slot. -/
def effectOf (name : String) (next : Option EffectId → Prog) : Prog :=
  lookup name fun
    | some (.effect id) => next (some id)
    | _ => next none

/-- The scope in a slot. -/
def scopeOf (name : String) (next : Option ScopeId → Prog) : Prog :=
  lookup name fun
    | some (.scope s) => next (some s)
    | _ => next none

/-- The handlers in slots; those that are missing are left out. -/
def handlersOf : List String → (List CallbackId → Prog) → Prog
  | [], next => next []
  | name :: rest, next =>
    lookup name fun
      | some (.handler c) => handlersOf rest fun cs => next (c :: cs)
      | _ => handlersOf rest next

/-- Gives up what a slot held: the handle of a scope, or a computed value. -/
def giveUp (old : Option Slot) (next : Prog) : Prog :=
  match old with
  | some (.scope s) => release s next
  | some (.computed c) => dropComputed c next
  | _ => next

/-- Puts something into a slot, then gives up what it held. -/
def bindSlot (name : String) (slot : Slot) (next : Prog) : Prog :=
  lookup name fun old =>
    changeHost (·.modifyRest fun l => { l with slots := l.slots.insert name slot })
      (giveUp old next)

/-- Empties a slot, then gives up what it held; answers whether there was
anything. -/
def dropSlot (name : String) (next : Bool → Prog) : Prog :=
  lookup name fun old =>
    changeHost (·.modifyRest fun l => { l with slots := l.slots.erase name })
      (giveUp old (next old.isSome))

/-- Holds a value while something else is worked out. -/
def holding {α : Type} (value : Value) (work : (α → Prog) → Prog) (next : α → Prog) : Prog :=
  changeHost (·.modifyRest fun l => { l with held := value :: l.held })
    (work fun a => changeHost (·.modifyRest fun l => { l with held := l.held.tail }) (next a))

/-- The values that slots hold. -/
def valuesIn : List Slot → (List Value → Prog) → Prog
  | [], next => next []
  | .value value :: rest, next => valuesIn rest fun values => next (value :: values)
  | .property o _ :: rest, next => valuesIn rest fun values => next (.object o :: values)
  | .cell c :: rest, next => op (.peek c) fun value =>
    valuesIn rest fun values => next (value :: values)
  | .computed c :: rest, next => op (.peek c.cell) fun value =>
    valuesIn rest fun values => next (value :: values)
  | _ :: rest, next => valuesIn rest next

/-- Gives a handle of an object back.  The object ends with it, unless slots, terms or other
objects hold it. -/
def letGo (o : ObjectId) (next : Prog) : Prog :=
  readHost fun s => valuesIn s.rest.slots.values fun values =>
    op (.letGo o (s.rest.held ++ values)) fun _ => next

/-- The nodes of the document that a slot holds. -/
def nodesIn (s : Host) : Slot → List NodeId
  | .node n => [n]
  | .container c => ((s.containers[c.index]?).map View.Container.held).getD []
  | _ => []

/-- Which nodes are children, by their numbers. -/
def listed (d : View.Document) : Array Bool :=
  d.nodes.foldl
    (fun marks node => node.children.foldl (fun marks n => marks.setIfInBounds n.index true) marks)
    (.replicate d.nodes.size false)

/-- The nodes go that nobody holds: no child of a node, none of `held`.  Their children may follow
in the next round. -/
def sweepTo (held : List NodeId) : (rounds : Nat) → View.Document → View.Document
  | 0, d => d
  | rounds + 1, d =>
    let marks := listed d
    let idle := ((List.range d.nodes.size).map NodeId.mk).filter fun n =>
      !marks.getD n.index true && !(d.children n).isEmpty && !held.contains n
    if idle.isEmpty then d else sweepTo held rounds (idle.foldl View.Document.letGo d)

/-- Lets the nodes go that slots, dispatches under way and another slot do not hold. -/
def sweepHolding (slot : Option Slot) (next : Prog) : Prog :=
  readHost fun s =>
    let held := s.rest.paths.flatten ++ (slot.toList ++ s.rest.slots.values).flatMap (nodesIn s)
    changeHost (·.modifyDocument fun d => sweepTo held d.nodes.size d) next

/-- Lets the nodes go that neither slots nor dispatches under way hold. -/
def sweep (next : Prog) : Prog := sweepHolding none next

/-- Dispatches from a node, whose path is held meanwhile. -/
def alongPath {α : Type} (n : NodeId) (dispatch : (α → Prog) → Prog) (next : α → Prog) : Prog :=
  sweep <| readHost fun s =>
    let path := n :: s.document.ancestors n
    changeHost (·.modifyRest fun l => { l with paths := path :: l.paths })
      (dispatch fun a => changeHost (·.modifyRest fun l => { l with paths := l.paths.tail }) (next a))

/-- A value as answers show it. -/
def shownOf (value : Value) (next : Shown → Prog) : Prog :=
  match value with
  | .undefined => next .undefined
  | .null => next .null
  | .bool b => next (.bool b)
  | .number x => next (.number (Number.display x))
  | .text s => next (.text s)
  | .object o => op (.peekTable o) fun table => next (.object table.keys)
  | .reactive o => op (.peekTable o) fun table => next (.reactive table.keys)

/-- Several values as answers show them. -/
def showEach : List Value → (List Shown → Prog) → Prog
  | [], next => next []
  | value :: rest, next => shownOf value fun s => showEach rest fun ss => next (s :: ss)

/-- A value in a debug text. -/
def debugValue (value : Value) (next : String → Prog) : Prog :=
  match value.target? with
  | some o => op (.peekTable o) fun table => next (value.debug fun _ => table.keys)
  | none => next (value.debug fun _ => [])

/-- Writes a line to the log. -/
def logLine (line : List Shown) (next : Prog) : Prog :=
  changeHost (·.modifyRest fun l => { l with log := l.log.push line }) next

/-- The value of a reference, recorded. -/
def readSlot (name : String) (next : Value → Prog) : Prog :=
  lookup name fun
    | some (.cell c) => op (.load c) next
    | some (.property o key) => op (.get o key) next
    | some (.computed c) => op (.load c.cell) next
    | _ => next .undefined

/-- The value of a cell or computed value, unrecorded. -/
def peekSlot (name : String) (next : Value → Prog) : Prog :=
  lookup name fun
    | some (.cell c) => op (.peek c) next
    | some (.computed c) => op (.peek c.cell) next
    | _ => next .undefined

/-- Stores the value of a cell or of a property reference; answers whether it
changed, or nothing for other slots. -/
def storeSlot (name : String) (value : Value) (next : Option Bool → Prog) : Prog :=
  lookup name fun
    | some (.cell c) => write (.store c value) fun b => next (some b)
    | some (.property o key) => write (.set o key value) fun b => next (some b)
    | _ => next none

/-- Binds references to several properties of an object. -/
def bindRefs (start : String) (o : ObjectId) : List String → Prog → Prog
  | [], next => next
  | key :: rest, next => bindSlot (start ++ key) (.property o key) (bindRefs start o rest next)

/-- Repeats something for 0, 1, … and collects the lists it gives. -/
def collect {α : Type} (each : Nat → (List α → Prog) → Prog) :
    (count : Nat) → (List α → Prog) → Prog
  | 0, next => next []
  | count + 1, next => collect each count fun before => each count fun xs => next (before ++ xs)

/-- Changes the document. -/
def changeDocument (change : View.Document → View.Document) (next : Prog) : Prog :=
  changeHost (·.modifyDocument change) next

/-- Makes a node of the document and puts it into a slot. -/
def bindNew (name : String) (create : View.Document → NodeId × View.Document) (next : Prog) :
    Prog :=
  readHost fun s =>
    changeDocument (fun d => (create d).2) (bindSlot name (.node (create s.document).1) next)

/-- Work on the document outside a render; answers what it fails with. -/
def work (work : View.Work Unit) (next : Answer → Prog) : Prog :=
  sweep <| readHost fun s =>
    changeDocument (fun d => (work.run.run d).2)
      (match (work.run.run s.document).1 with
        | .ok () => next (.text "ok")
        | .error error => next (.refused error))

end Prog
end Script
end ReactiveView
