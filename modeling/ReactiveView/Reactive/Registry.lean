/-
# Who observes what

An *entry* is a place that can be read: a property of an object, the set of its
keys, or a cell.  The registry keeps, for every entry, the effects that are
registered there, in ascending order.  Entries may be empty, and an unknown entry
counts as empty.
-/

import ReactiveView.Reactive.Value

namespace ReactiveView
namespace Reactive

/-- The identity of an effect: its place in the arena and the generation of that
place, so that a place used again gives a new identity. -/
structure EffectId where
  index : Nat
  generation : Nat
  deriving DecidableEq, Repr

namespace EffectId

/-- Effects are ordered by place, then by generation. -/
def before (a b : EffectId) : Bool :=
  a.index < b.index || (a.index == b.index && a.generation < b.generation)

end EffectId

/-- What owns entries. -/
inductive Target where
  | object (id : ObjectId)
  | cell (id : CellId)
  deriving DecidableEq, Repr

/-- What is read of a target. -/
inductive Key where
  /-- The value at a name. -/
  | property (name : String)
  /-- The set of keys. -/
  | iterate
  deriving DecidableEq, Repr

/-- The key in words. -/
def Key.describe : Key → String
  | property name => name
  | iterate => "<iterate>"

/-- A place that can be read. -/
structure Entry where
  target : Target
  key : Key
  deriving DecidableEq, Repr

namespace Entry

/-- A property of an object. -/
def property (o : ObjectId) (name : String) : Entry := ⟨.object o, .property name⟩

/-- The key set of an object. -/
def keySet (o : ObjectId) : Entry := ⟨.object o, .iterate⟩

/-- The value of a cell. -/
def cell (c : CellId) : Entry := ⟨.cell c, .property "value"⟩

end Entry

/-- The effects registered at each entry. -/
structure Registry where
  sets : List (Entry × List EffectId)
  deriving Inhabited

namespace Registry

/-- No effect is registered anywhere. -/
def empty : Registry := ⟨[]⟩

/-- The effects registered at an entry, ascending. -/
def observersIn (entry : Entry) : List (Entry × List EffectId) → List EffectId
  | [] => []
  | (entry', ids) :: rest => if entry' = entry then ids else observersIn entry rest

/-- The effects registered at an entry, ascending. -/
def observers (registry : Registry) (entry : Entry) : List EffectId :=
  observersIn entry registry.sets

/-- Puts an effect at its place in an ascending list, once. -/
def insertId (id : EffectId) : List EffectId → List EffectId
  | [] => [id]
  | first :: rest =>
    if id = first then first :: rest
    else if id.before first then id :: first :: rest
    else first :: insertId id rest

/-- Changes the effects at one entry. -/
def updateIn (entry : Entry) (change : List EffectId → List EffectId) :
    List (Entry × List EffectId) → List (Entry × List EffectId)
  | [] => [(entry, change [])]
  | (entry', ids) :: rest =>
    if entry' = entry then (entry', change ids) :: rest
    else (entry', ids) :: updateIn entry change rest

/-- Changes the effects at one entry. -/
def update (registry : Registry) (entry : Entry) (change : List EffectId → List EffectId) :
    Registry :=
  ⟨updateIn entry change registry.sets⟩

/-- Registers an effect at an entry. -/
def register (registry : Registry) (id : EffectId) (entry : Entry) : Registry :=
  registry.update entry (insertId id)

/-- Takes an effect out of an entry. -/
def unregister (registry : Registry) (id : EffectId) (entry : Entry) : Registry :=
  registry.update entry (List.filter (· ≠ id))

/-- Takes an effect out of several entries. -/
def unregisterAll (registry : Registry) (id : EffectId) (entries : List Entry) : Registry :=
  entries.foldl (fun registry entry => registry.unregister id entry) registry

/-- Forgets every entry of a target. -/
def forget (registry : Registry) (target : Target) : Registry :=
  ⟨registry.sets.filter fun (entry, _) => entry.target ≠ target⟩

@[simp] theorem observers_empty (entry : Entry) : empty.observers entry = [] := rfl

/-- A change at an entry is seen at this entry alone. -/
theorem observersIn_updateIn (entry : Entry) (change : List EffectId → List EffectId)
    (sets : List (Entry × List EffectId)) (entry' : Entry) :
    observersIn entry' (updateIn entry change sets) =
      if entry = entry' then change (observersIn entry' sets) else observersIn entry' sets := by
  induction sets with
  | nil => simp only [updateIn, observersIn]
  | cons first rest ih =>
    obtain ⟨e, ids⟩ := first
    by_cases h : e = entry
    · subst h
      simp only [updateIn, if_true, observersIn]
      split <;> rfl
    · simp only [updateIn, if_neg h, observersIn, ih]
      by_cases he : e = entry'
      · have : entry ≠ entry' := fun hee => h (he.trans hee.symm)
        simp [he, this]
      · simp [he]

/-- **An update changes one entry.** -/
@[simp] theorem observers_update (registry : Registry) (entry : Entry)
    (change : List EffectId → List EffectId) (entry' : Entry) :
    (registry.update entry change).observers entry' =
      if entry = entry' then change (registry.observers entry') else registry.observers entry' :=
  observersIn_updateIn entry change registry.sets entry'

/-- An ascending list keeps what it held and holds the new effect. -/
@[simp] theorem mem_insertId {id id' : EffectId} {ids : List EffectId} :
    id' ∈ insertId id ids ↔ id' = id ∨ id' ∈ ids := by
  induction ids with
  | nil => simp [insertId]
  | cons first rest ih =>
    simp only [insertId]
    split
    case isTrue h => subst h; simp
    case isFalse h =>
      split
      · simp
      · simp only [List.mem_cons, ih]
        constructor <;> rintro (h | h | h) <;> simp [h]

end Registry
end Reactive
end ReactiveView
