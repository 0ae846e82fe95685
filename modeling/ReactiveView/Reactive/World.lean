/-
# The reactive world

Everything that programs share: objects, cells, the registry of observers, the
effects with the entries in which each is registered, the stack of observers, the
scopes, the callbacks, and the host state.  This module holds the changes of the
world that run no program.
-/

import ReactiveView.Reactive.Arena
import ReactiveView.Reactive.Program

namespace ReactiveView
namespace Reactive

/-- An effect: its body and the entries in which it is registered, last first. -/
structure Effect (σ : Type) where
  body : Program σ
  entries : List Entry

/-- What a scope does when it is disposed. -/
inductive Cleanup (σ : Type) where
  /-- Stops an effect. -/
  | stop (id : EffectId)
  /-- Runs a program. -/
  | program (body : Program σ)

/-- What a scope owns. -/
inductive Owned (σ : Type) where
  /-- A child scope, by a handle. -/
  | scope (child : ScopeId)
  | cleanup (cleanup : Cleanup σ)

/-- The child scope that is owned. -/
def Owned.scope? {σ : Type} : Owned σ → Option ScopeId
  | scope child => some child
  | cleanup _ => none

/-- The cleanup that is owned. -/
def Owned.cleanup? {σ : Type} : Owned σ → Option (Cleanup σ)
  | scope _ => none
  | cleanup c => some c

/-- A scope: what it owns, in the order in which that was added, and the number
of its handles.  Without handles it is dead. -/
structure Scope (σ : Type) where
  owned : List (Owned σ)
  handles : Nat

/-- The state that programs run in. -/
structure World (σ : Type) where
  objects : Array (KeyTable Value)
  /-- The objects that have ended: nobody has a handle of them, only perhaps their
  identities. -/
  gone : List ObjectId
  /-- The values of the cells; a cell that has ended holds none. -/
  cells : Array (Option Value)
  registry : Registry
  effects : Arena (Effect σ)
  /-- The effects whose bodies are running, innermost first; `none` stands for a
  stretch in which reads are not recorded. -/
  observers : List (Option EffectId)
  scopes : Array (Scope σ)
  /-- The scope that a running program made current; it may be dead. -/
  currentScope : Option ScopeId
  callbacks : Array (Nat → Program σ)
  host : σ

namespace World

variable {σ : Type}

/-- The world at the beginning. -/
def start (host : σ) : World σ where
  objects := #[]
  gone := []
  cells := #[]
  registry := .empty
  effects := .empty
  observers := []
  scopes := #[]
  currentScope := none
  callbacks := #[]
  host := host

/-! ## Objects and cells -/

/-- The properties of an object. -/
def table (w : World σ) (o : ObjectId) : KeyTable Value := w.objects.getD o.index .empty

/-- The value of a property, undefined if there is none. -/
def property (w : World σ) (o : ObjectId) (name : String) : Value :=
  ((w.table o).get? name).getD .undefined

/-- Changes the properties of an object. -/
def setTable (w : World σ) (o : ObjectId) (table : KeyTable Value) : World σ :=
  { w with objects := w.objects.setIfInBounds o.index table }

/-- The value of a cell, if it has not ended. -/
def cell? (w : World σ) (c : CellId) : Option Value := (w.cells[c.index]?).join

/-- The value of a cell. -/
def cell (w : World σ) (c : CellId) : Value := (w.cell? c).getD .undefined

/-- Changes the content of a cell. -/
def setCell (w : World σ) (c : CellId) (content : Option Value) : World σ :=
  { w with cells := w.cells.setIfInBounds c.index content }

/-! ## Targets -/

/-- The target is there: it was made and has not ended. -/
def Has (w : World σ) : Target → Prop
  | .object o => o.index < w.objects.size ∧ o ∉ w.gone
  | .cell c => (w.cell? c).isSome = true

instance (w : World σ) : DecidablePred w.Has
  | .object _ => inferInstanceAs (Decidable (_ ∧ _))
  | .cell _ => inferInstanceAs (Decidable (_ = true))

/-- Ends a target: the registry forgets it, and a cell gives its value up. -/
def endTarget (w : World σ) : Target → World σ
  | .object o => { w with gone := o :: w.gone, registry := w.registry.forget (.object o) }
  | .cell c => { w.setCell c none with registry := w.registry.forget (.cell c) }

/-- Ends a target that is there, unless it is held. -/
def finish (w : World σ) (target : Target) (held : Bool) : World σ :=
  if w.Has target ∧ held = false then w.endTarget target else w

/-- The objects that the properties of an object hold. -/
def links (w : World σ) (o : ObjectId) : List ObjectId := (w.table o).values.filterMap Value.target?

/-- What some objects lead to over properties, these included, in so many rounds. -/
def reachTo (w : World σ) : (rounds : Nat) → List ObjectId → List ObjectId
  | 0, os => os
  | rounds + 1, os => reachTo w rounds (os ++ ((os.flatMap w.links).eraseDups.filter (· ∉ os)))

/-- What some objects lead to over properties, these included. -/
def reach (w : World σ) (os : List ObjectId) : List ObjectId := w.reachTo w.objects.size os

/-- The object is held: one of the values leads to it, or an object that leads to itself does.
Such a circle of objects never ends. -/
def isHeld (w : World σ) (atHand : List Value) (o : ObjectId) : Bool :=
  (w.reach (atHand.filterMap Value.target?)).contains o ||
    (List.range w.objects.size).any fun i =>
      (w.reach (w.links ⟨i⟩)).contains ⟨i⟩ && (w.reach (w.links ⟨i⟩)).contains o

/-! ## Tracking -/

/-- The effect is there and has not been stopped. -/
def isLive (w : World σ) (id : EffectId) : Bool := w.effects.contains id

/-- The effect on top of the stack. -/
def active (w : World σ) : Option EffectId := w.observers.head?.join

/-- Registers an effect at an entry and notes the entry with the effect, unless
it is registered there already. -/
def register (w : World σ) (id : EffectId) (entry : Entry) : World σ :=
  if id ∈ w.registry.observers entry then w
  else
    { w with
      registry := w.registry.register id entry
      effects := w.effects.modify id fun e => { e with entries := entry :: e.entries } }

/-- Registers the active effect, if there is one and it is live. -/
def track (w : World σ) (entry : Entry) : World σ :=
  match w.active with
  | some id => if w.isLive id then w.register id entry else w
  | none => w

/-- Stops an effect: it leaves the arena and every entry that it noted. -/
def stop (w : World σ) (id : EffectId) : World σ :=
  match w.effects.get? id with
  | some e =>
    { w with
      effects := w.effects.remove id
      registry := w.registry.unregisterAll id e.entries }
  | none => w

/-- Begins a run of an effect: it leaves every entry that it noted and becomes the
active one.  Answers its body, or nothing for a stopped effect. -/
def beginRun (w : World σ) (id : EffectId) : Option (Program σ × World σ) :=
  match w.effects.get? id with
  | some e =>
    some (e.body,
      { w with
        effects := w.effects.modify id fun e => { e with entries := [] }
        registry := w.registry.unregisterAll id e.entries
        observers := some id :: w.observers })
  | none => none

/-- The body of the effect is running. -/
def isRunning (w : World σ) (id : EffectId) : Bool := w.observers.contains (some id)

/-! ## Writing -/

/-- The world after a write, and the entries whose observers are to run, in
order; nothing when the write changes nothing.  A new or lost property changes the
key set as well. -/
def write (w : World σ) : Write → Option (World σ × List Entry)
  | .set o name value =>
    let table := w.table o
    if w.property o name == value.raw then none
    else
      some (w.setTable o (table.insert name value.raw),
        .property o name :: if table.contains name then [] else [.keySet o])
  | .delete o name =>
    let table := w.table o
    if table.contains name then
      some (w.setTable o (table.erase name), [.property o name, .keySet o])
    else none
  | .store c value =>
    match w.cell? c with
    | some old =>
      if old == value.raw then none else some (w.setCell c (some value.raw), [.cell c])
    | none => none

/-- What a write that changes something leaves behind, and whom it tells. -/
inductive Wrote (w : World σ) : Write → World σ → List Entry → Prop where
  | set (o : ObjectId) (name : String) (value : Value)
      (differs : (w.property o name == value.raw) = false) :
      Wrote w (.set o name value) (w.setTable o ((w.table o).insert name value.raw))
        (.property o name :: if (w.table o).contains name then [] else [.keySet o])
  | delete (o : ObjectId) (name : String) (held : (w.table o).contains name = true) :
      Wrote w (.delete o name) (w.setTable o ((w.table o).erase name))
        [.property o name, .keySet o]
  | store (c : CellId) (value : Value) {old : Value} (held : w.cell? c = some old)
      (differs : (old == value.raw) = false) :
      Wrote w (.store c value) (w.setCell c (some value.raw)) [.cell c]

/-- **There are three ways to change something**, one for each kind of write. -/
theorem wrote_of_write {w w' : World σ} {write : Write} {entries : List Entry}
    (h : w.write write = some (w', entries)) : Wrote w write w' entries := by
  cases write with
  | set o name value =>
    simp only [World.write] at h
    split at h
    · exact absurd h (by simp)
    · rename_i hdiffers
      obtain ⟨rfl, rfl⟩ := Prod.mk.inj (Option.some.inj h)
      exact .set o name value (Bool.not_eq_true _ ▸ hdiffers)
  | delete o name =>
    simp only [World.write] at h
    split at h
    · rename_i hheld
      obtain ⟨rfl, rfl⟩ := Prod.mk.inj (Option.some.inj h)
      exact .delete o name hheld
    · exact absurd h (by simp)
  | store c value =>
    simp only [World.write] at h
    split at h
    · rename_i old hheld
      split at h
      · exact absurd h (by simp)
      · rename_i hdiffers
        obtain ⟨rfl, rfl⟩ := Prod.mk.inj (Option.some.inj h)
        exact .store c value hheld (Bool.not_eq_true _ ▸ hdiffers)
    · exact absurd h (by simp)

/-! ## Scopes -/

/-- The scope has handles. -/
def isAlive (w : World σ) (s : ScopeId) : Bool :=
  match w.scopes[s.index]? with
  | some scope => scope.handles != 0
  | none => false

/-- The current scope, if it is alive. -/
def liveScope (w : World σ) : Option ScopeId := w.currentScope.filter w.isAlive

/-- Changes a scope. -/
def modifyScope (w : World σ) (s : ScopeId) (change : Scope σ → Scope σ) : World σ :=
  { w with scopes := w.scopes.modify s.index change }

/-- Adds to what a scope owns. -/
def own (w : World σ) (s : ScopeId) (owned : Owned σ) : World σ :=
  w.modifyScope s fun scope => { scope with owned := scope.owned ++ [owned] }

/-- One more handle of a scope.  A dead scope stays dead. -/
def hold (w : World σ) (s : ScopeId) : World σ :=
  w.modifyScope s fun scope =>
    if scope.handles = 0 then scope else { scope with handles := scope.handles + 1 }

/-- A new scope with some handles. -/
def newScope (w : World σ) (handles : Nat) : ScopeId × World σ :=
  (⟨w.scopes.size⟩, { w with scopes := w.scopes.push ⟨[], handles⟩ })

/-- A new scope owned by another one, with a handle besides. -/
def newChild (w : World σ) (parent : ScopeId) : ScopeId × World σ :=
  let made := w.newScope 2
  (made.1, made.2.own parent (.scope made.1))

/-- Takes out what a scope owns: the child scopes and the cleanups, each in
order. -/
def takeOwned (w : World σ) (s : ScopeId) : List ScopeId × List (Cleanup σ) × World σ :=
  match w.scopes[s.index]? with
  | some scope =>
    (scope.owned.filterMap Owned.scope?, scope.owned.filterMap Owned.cleanup?,
      w.modifyScope s fun scope => { scope with owned := [] })
  | none => ([], [], w)

/-- Gives a handle of a scope back.  Answers whether it was the last one. -/
def giveBack (w : World σ) (s : ScopeId) : Bool × World σ :=
  match w.scopes[s.index]? with
  | some scope =>
    (scope.handles == 1, w.modifyScope s fun scope => { scope with handles := scope.handles - 1 })
  | none => (false, w)

/-- A new effect, owned by the current scope if that is alive. -/
def newEffect (w : World σ) (body : Program σ) : EffectId × World σ :=
  let made := w.effects.insert ⟨body, []⟩
  let w := { w with effects := made.2 }
  (made.1,
    match w.liveScope with
    | some s => w.own s (.cleanup (.stop made.1))
    | none => w)

/-! ## Operations -/

/-- The answer of an operation, apart from its tracking, and the world after
it. -/
def answer (w : World σ) : (op : Op) → op.Answer × World σ
  | .get o name => ((w.property o name).wrap, w)
  | .has o name => ((w.table o).contains name, w)
  | .keys o => ((w.table o).keys, w)
  | .load c => ((w.cell c).wrap, w)
  | .track _ => ((), w)
  | .peekTable o => (w.table o, w)
  | .peek c => ((w.cell c).wrap, w)
  | .newObject table => (⟨w.objects.size⟩, { w with objects := w.objects.push table })
  | .insert o name value =>
    ((w.table o).get? name, w.setTable o ((w.table o).insert name value))
  | .remove o name => ((w.table o).get? name, w.setTable o ((w.table o).erase name))
  | .newCell value => (⟨w.cells.size⟩, { w with cells := w.cells.push (some value.raw) })
  | .endCell c => ((), w.finish (.cell c) false)
  | .letGo o atHand => ((), w.finish (.object o) (w.isHeld atHand o))
  | .observerCount entry => ((w.registry.observers entry).length, w)
  | .isActive id => (w.isLive id, w)
  | .dependencyCount id => (((w.effects.get? id).map fun e => e.entries.length).getD 0, w)
  | .stop id => ((), w.stop id)
  | .newScope => w.newScope 1
  | .newChild parent => w.newChild parent
  | .currentScope => (w.liveScope, w)
  | .hold s => ((), w.hold s)

/-- Performs an operation: a recorded read is tracked first. -/
def perform (w : World σ) (op : Op) : op.Answer × World σ :=
  (match op.entry? with
    | some entry => w.track entry
    | none => w).answer op

end World
end Reactive
end ReactiveView
