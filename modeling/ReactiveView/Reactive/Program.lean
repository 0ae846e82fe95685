/-
# Programs

A program is what a body, a getter, a cleanup or a top-level operation does, as a
tree: each node is one operation and what follows for every answer.  Programs
read and change the reactive world and a *host state* `σ` of their own, and hold
the bodies of the effects that they create.
-/

import ReactiveView.Reactive.Registry

namespace ReactiveView
namespace Reactive

/-- The identity of a scope. -/
structure ScopeId where
  index : Nat
  deriving DecidableEq, Repr

/-- The identity of a callback. -/
structure CallbackId where
  index : Nat
  deriving DecidableEq, Repr

/-- An operation that runs no other program. -/
inductive Op where
  /-- Reads a property through the wrapper of an object. -/
  | get (o : ObjectId) (name : String)
  /-- Asks through the wrapper of an object whether it has a property. -/
  | has (o : ObjectId) (name : String)
  /-- Lists the keys through the wrapper of an object. -/
  | keys (o : ObjectId)
  /-- Reads a cell. -/
  | load (c : CellId)
  /-- Registers the active effect at an entry. -/
  | track (entry : Entry)
  /-- The properties of an object, unrecorded. -/
  | peekTable (o : ObjectId)
  /-- The value of a cell, unrecorded. -/
  | peek (c : CellId)
  /-- A new object with these properties. -/
  | newObject (table : KeyTable Value)
  /-- Stores a property, telling nobody; answers the value it had. -/
  | insert (o : ObjectId) (name : String) (value : Value)
  /-- Takes a property away, telling nobody; answers the value it had. -/
  | remove (o : ObjectId) (name : String)
  /-- A new cell. -/
  | newCell (value : Value)
  /-- The last handle of a cell goes: nobody observes it and it takes no value any more. -/
  | endCell (c : CellId)
  /-- A handle of an object goes.  It was the last one if neither a value that is still at
  hand nor another object holds the object: then nobody observes it any more. -/
  | letGo (o : ObjectId) (atHand : List Value)
  /-- How many effects are registered at an entry. -/
  | observerCount (entry : Entry)
  /-- The effect has not been stopped. -/
  | isActive (id : EffectId)
  /-- In how many entries the effect is registered. -/
  | dependencyCount (id : EffectId)
  /-- Stops an effect. -/
  | stop (id : EffectId)
  /-- A new scope with one handle. -/
  | newScope
  /-- A new scope owned by another one, with a handle besides. -/
  | newChild (parent : ScopeId)
  /-- The current scope, if it is alive. -/
  | currentScope
  /-- One more handle of a scope. -/
  | hold (s : ScopeId)
  deriving Inhabited

/-- What an operation answers. -/
@[reducible] def Op.Answer : Op → Type
  | get .. => Value
  | has .. => Bool
  | keys .. => List String
  | load .. => Value
  | track .. => Unit
  | peekTable .. => KeyTable Value
  | peek .. => Value
  | newObject .. => ObjectId
  | insert .. => Option Value
  | remove .. => Option Value
  | newCell .. => CellId
  | endCell .. => Unit
  | letGo .. => Unit
  | observerCount .. => Nat
  | isActive .. => Bool
  | dependencyCount .. => Nat
  | stop .. => Unit
  | newScope => ScopeId
  | newChild .. => ScopeId
  | currentScope => Option ScopeId
  | hold .. => Unit

/-- The entry that an operation reads, if its reads are recorded. -/
def Op.entry? : Op → Option Entry
  | get o name => some (.property o name)
  | has o name => some (.property o name)
  | keys o => some (.keySet o)
  | load c => some (.cell c)
  | track entry => some entry
  | _ => none

/-- A change of a place that can be observed. -/
inductive Write where
  /-- Stores a property through the wrapper of an object. -/
  | set (o : ObjectId) (name : String) (value : Value)
  /-- Takes a property away through the wrapper of an object. -/
  | delete (o : ObjectId) (name : String)
  /-- Stores the value of a cell. -/
  | store (c : CellId) (value : Value)

/-- A program over host states `σ`. -/
inductive Program (σ : Type) : Type where
  /-- Ends with a value. -/
  | ret (value : Value)
  /-- Fails with a message. -/
  | throw (message : String)
  /-- An operation. -/
  | op (op : Op) (next : op.Answer → Program σ)
  /-- Reads the host state. -/
  | readHost (next : σ → Program σ)
  /-- Changes the host state. -/
  | changeHost (change : σ → σ) (next : Program σ)
  /-- Writes, running the observers of what changes; answers whether anything
  did. -/
  | write (write : Write) (next : Bool → Program σ)
  /-- Runs the observers of an entry. -/
  | trigger (entry : Entry) (next : Program σ)
  /-- Creates an effect and runs it once. -/
  | effect (body : Program σ) (next : EffectId → Program σ)
  /-- Runs an effect now. -/
  | rerun (id : EffectId) (next : Program σ)
  /-- Runs a program whose reads are not recorded. -/
  | untracked (body : Program σ) (next : Value → Program σ)
  /-- Runs a program with a scope current. -/
  | inScope (s : ScopeId) (body : Program σ) (next : Value → Program σ)
  /-- Registers a cleanup with a scope. -/
  | onDispose (s : ScopeId) (cleanup : Program σ) (next : Program σ)
  /-- Disposes what a scope owns now. -/
  | dispose (s : ScopeId) (next : Program σ)
  /-- Gives a handle of a scope back; the last one disposes it. -/
  | release (s : ScopeId) (next : Program σ)
  /-- Runs a program and answers the message it fails with, if it fails. -/
  | catch (body : Program σ) (next : Option String → Program σ)
  /-- Registers a callback. -/
  | callback (body : Nat → Program σ) (next : CallbackId → Program σ)
  /-- Runs a callback. -/
  | call (callback : CallbackId) (argument : Nat) (next : Program σ)

/-- The cell and the effect of a computed value. -/
structure Computed where
  cell : CellId
  effect : EffectId
  deriving DecidableEq, Repr

namespace Program

variable {σ : Type}

/-- Runs one program and goes on with another from its value. -/
def bind : Program σ → (Value → Program σ) → Program σ
  | ret value, f => f value
  | throw message, _ => throw message
  | op o next, f => op o fun a => (next a).bind f
  | readHost next, f => readHost fun s => (next s).bind f
  | changeHost change next, f => changeHost change (next.bind f)
  | write w next, f => write w fun b => (next b).bind f
  | trigger entry next, f => trigger entry (next.bind f)
  | effect body next, f => effect body fun id => (next id).bind f
  | rerun id next, f => rerun id (next.bind f)
  | untracked body next, f => untracked body fun v => (next v).bind f
  | inScope s body next, f => inScope s body fun v => (next v).bind f
  | onDispose s cleanup next, f => onDispose s cleanup (next.bind f)
  | dispose s next, f => dispose s (next.bind f)
  | release s next, f => release s (next.bind f)
  | .catch body next, f => .catch body fun m => (next m).bind f
  | callback body next, f => callback body fun c => (next c).bind f
  | call c argument next, f => call c argument (next.bind f)

/-- The program that does nothing. -/
def done : Program σ := ret .undefined

/-- Reads a property through whatever a value is: through a wrapper recorded, of
a raw object unrecorded; other values have no properties. -/
def getProperty (value : Value) (name : String) (next : Value → Program σ) : Program σ :=
  match value with
  | .reactive o => op (.get o name) next
  | .object o => op (.peekTable o) fun table => next ((table.get? name).getD .undefined)
  | _ => next .undefined

/-- Stores a property through whatever a value is.  On a raw object nobody is
told; nothing is stored if the property has the value already. -/
def setProperty (target : Value) (name : String) (value : Value) (next : Bool → Program σ) :
    Program σ :=
  match target with
  | .reactive o => write (.set o name value) next
  | .object o => op (.peekTable o) fun table =>
    if ((table.get? name).getD .undefined) == value.raw then next false
    else op (.insert o name value.raw) fun _ => next true
  | _ => next false

/-- Creates a computed value: a cell that an effect of its own keeps equal to
what the getter returns. -/
def computed (getter : Program σ) (next : Computed → Program σ) : Program σ :=
  op (.newCell .undefined) fun cell =>
    effect (getter.bind fun value => write (.store cell value) fun _ => done) fun id =>
      next ⟨cell, id⟩

/-- Gives up a computed value: its effect is stopped and its cell ends. -/
def dropComputed (c : Computed) (next : Program σ) : Program σ :=
  op (.stop c.effect) fun _ => op (.endCell c.cell) fun _ => next

end Program
end Reactive
end ReactiveView
