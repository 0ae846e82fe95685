/-
# The arena of effects

Effects live in numbered places.  A stopped effect gives its place back, and the
place given back last is used first; its generation has then gone up, so an old
identity never leads to a new effect.
-/

import ReactiveView.Reactive.Registry

namespace ReactiveView
namespace Reactive

/-- A place of the arena. -/
structure Place (α : Type) where
  /-- How often the place was given back. -/
  generation : Nat
  /-- What lives there. -/
  content : Option α

/-- Numbered places, and the numbers of the empty ones, the one to use next
first. -/
structure Arena (α : Type) where
  places : Array (Place α)
  free : List Nat

namespace Arena

variable {α : Type}

/-- The arena without places. -/
def empty : Arena α := ⟨#[], []⟩

instance : Inhabited (Arena α) := ⟨empty⟩

/-- What an identity leads to. -/
def get? (arena : Arena α) (id : EffectId) : Option α :=
  match arena.places[id.index]? with
  | some place => if place.generation = id.generation then place.content else none
  | none => none

/-- The identity leads to something. -/
def contains (arena : Arena α) (id : EffectId) : Bool := (arena.get? id).isSome

/-- Puts a value into the place that is free since the shortest time, or into a
new one. -/
def insert (arena : Arena α) (value : α) : EffectId × Arena α :=
  match arena.free with
  | [] => (⟨arena.places.size, 0⟩, { arena with places := arena.places.push ⟨0, some value⟩ })
  | index :: free =>
    let generation := (arena.places[index]?.map Place.generation).getD 0
    (⟨index, generation⟩,
      { places := arena.places.setIfInBounds index ⟨generation, some value⟩, free })

/-- Empties the place that an identity leads to. -/
def remove (arena : Arena α) (id : EffectId) : Arena α :=
  if arena.contains id then
    { places := arena.places.setIfInBounds id.index ⟨id.generation + 1, none⟩
      free := id.index :: arena.free }
  else arena

/-- Changes what an identity leads to. -/
def modify (arena : Arena α) (id : EffectId) (change : α → α) : Arena α :=
  match arena.get? id with
  | some value =>
    { arena with places := arena.places.setIfInBounds id.index ⟨id.generation, some (change value)⟩ }
  | none => arena

end Arena
end Reactive
end ReactiveView
