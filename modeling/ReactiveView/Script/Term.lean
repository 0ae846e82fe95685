/-
# The script language

Scripts drive the reactive world and the document.  Expressions give values,
statements do something and answer, prop and view terms describe props and
virtual nodes.  Everything that outlives a statement is held in a named slot.
-/

import ReactiveView.View.VNode

namespace ReactiveView
namespace Script

open Reactive (Value)
open View (VKind PropValue)

/-- A function of one value. -/
inductive Unary where
  /-- The wrapper of an object. -/
  | wrap
  /-- The wrapper of a raw object, and undefined for everything else. -/
  | wrapRaw
  /-- The raw reference. -/
  | raw
  | isReactive
  /-- The displayed text. -/
  | display
  | truthy
  | not
  deriving DecidableEq, Repr

/-- A function of two values. -/
inductive Binary where
  /-- The sum; what is not a number counts as zero. -/
  | add
  /-- The order of numbers; what is not a number counts as zero. -/
  | less
  | equal
  /-- Both lead to the same object. -/
  | sameTarget
  deriving DecidableEq, Repr

/-- A question about the properties of an object, unrecorded. -/
inductive TableQuery where
  | keys
  | contains (key : String)
  | size
  | isEmpty
  deriving DecidableEq, Repr

/-- A question about a node of the document. -/
inductive NodeQuery where
  | html
  | text
  | debug
  | inspect
  | attr (name : String)
  | property (name : String)
  | listens (event : String)
  deriving DecidableEq, Repr

/-- The content-bearing kinds of nodes of the document. -/
inductive NodeForm where
  | element
  | text
  | comment
  deriving DecidableEq, Repr

mutual

/-- An expression. -/
inductive Expr where
  | const (value : Value)
  /-- A new object with these properties. -/
  | object (fields : List (String × Expr))
  /-- The value in a slot. -/
  | var (name : String)
  | unary (f : Unary) (e : Expr)
  | binary (f : Binary) (a b : Expr)
  /-- A property, read through whatever the value is. -/
  | get (e : Expr) (key : String)
  /-- A recorded question whether a property exists. -/
  | has (e : Expr) (key : String)
  /-- The keys, recorded. -/
  | keys (e : Expr)
  | table (q : TableQuery) (e : Expr)
  /-- The value of a reference in a slot, recorded. -/
  | read (name : String)
  /-- The value of a reference in a slot, unrecorded. -/
  | peek (name : String)
  /-- The key of a property reference in a slot. -/
  | keyOf (name : String)
  /-- The displayed texts one behind the other. -/
  | concat (parts : List Expr)
  | cond (test yes no : Expr)
  | untracked (e : Expr)
  /-- Statements, then an expression. -/
  | after (body : List Stmt) (e : Expr)
  /-- The argument of the update or the index of the repetition around. -/
  | it
  /-- The kind of the event being handled. -/
  | event
  | eventStopped
  | eventTime

/-- What an entry is named by: a cell in a slot, or an object. -/
inductive Place where
  | cell (name : String)
  | object (e : Expr)

/-- A prop. -/
inductive PropTerm where
  | const (prop : PropValue)
  /-- The handler in a slot. -/
  | handler (name : String)
  /-- The handlers in several slots. -/
  | handlers (names : List String)
  /-- A handler of its own. -/
  | body (body : List Stmt)
  | value (e : Expr)

/-- Children of a virtual node. -/
inductive Content where
  /-- The children stay as they are. -/
  | keep
  | none
  /-- The displayed text. -/
  | text (e : Expr)
  | nodes (views : List ViewTerm)

/-- A virtual node, or any number of them. -/
inductive ViewTerm where
  /-- A node: its children at first, its props (with `given`, it has a table of
  props even without any), its children in the end. -/
  | node (kind : VKind) (initial : Content) (given : Bool) (props : List (String × PropTerm))
      (final : Content)
  | cond (test : Expr) (yes no : List ViewTerm)
  /-- The nodes inside `count` elements. -/
  | nest (count : Nat) (tag : String) (view : ViewTerm)
  /-- The nodes as often as the number says. -/
  | times (count : Expr) (view : ViewTerm)

/-- A statement. -/
inductive Stmt where
  /-- Answers the value of an expression. -/
  | expr (e : Expr)
  | bind (name : String) (e : Expr)
  | log (values : List Expr)
  /-- Stores a property through whatever the value is. -/
  | set (target : Expr) (key : String) (value : Expr)
  | delete (target : Expr) (key : String)
  /-- Stores a property of the raw object. -/
  | insert (target : Expr) (key : String) (value : Expr)
  /-- Takes a property of the raw object away. -/
  | remove (target : Expr) (key : String)
  | newCell (name : String) (value : Expr)
  /-- Stores the value of a reference; `quiet` answers nothing. -/
  | store (name : String) (value : Expr) (quiet : Bool)
  | update (name : String) (value : Expr)
  | computed (name : String) (getter : Expr)
  | toRef (name : String) (target : Expr) (key : String)
  | toRefs (start : String) (target : Expr)
  | effect (name : Option String) (body : List Stmt)
  | effectOf (name computed : String)
  | stop (name : String)
  | rerun (name : String)
  | isActive (name : String)
  | dependencyCount (name : String)
  | sameEffect (a b : String)
  | observers (place : Place) (key : Option String)
  | trigger (place : Place) (key : Option String)
  | track (place : Place) (key : Option String)
  | describeKey (key : Option String)
  | scope (name : String)
  | child (name parent : String)
  | inScope (name : String) (body : List Stmt)
  | onDispose (name : String) (body : List Stmt)
  | dispose (name : String)
  | currentScope (name : String)
  | drop (name : String)
  | when (test : Expr) (yes no : List Stmt)
  | untracked (body : List Stmt)
  | seq (body : List Stmt)
  | throw (message : String)
  | catch (body : List Stmt)
  | debugOf (name : String)
  | container (name tag : String)
  | render (container : String) (view : List ViewTerm)
  | hasTree (container : String)
  | treeDebug (container : String)
  | mountedNode (name container : String)
  | unmount (view : ViewTerm)
  | unmountClone (container : String)
  | unmountMounted (container : String)
  | descend (name node : String) (path : List Nat)
  | parent (node name : String)
  | sameNode (a b : String)
  | query (q : NodeQuery) (node : String)
  | create (form : NodeForm) (name content : String)
  | setContent (form : NodeForm) (node content : String)
  | insertNode (node parent : String) (anchor : Option String)
  | removeNode (parent node : String)
  | patchProp (node key : String) (prop : List PropTerm)
  | countOps (label : String)
  | clearOps
  | handler (name : String) (body : List Stmt)
  | click (node : String)
  | dispatch (node kind : String) (time : Option Int)
  | stopPropagation
  | advance (ms : Int)
  | now

end

instance : Inhabited Expr := ⟨.const .undefined⟩
instance : Inhabited Place := ⟨.object default⟩
instance : Inhabited PropTerm := ⟨.const .null⟩
instance : Inhabited Content := ⟨.keep⟩
instance : Inhabited ViewTerm := ⟨.cond default [] []⟩
instance : Inhabited Stmt := ⟨.expr default⟩

end Script
end ReactiveView
