/-
# Live views

A *template* is a view of the store: it reads recorded places, one after the other, and
shows a tree in which it may bind handlers that it makes along with it (`Template`).
Every answer may decide what is read next and what is shown.  A handler looks at what it
likes and writes recorded places (`Handler`).

A program renders the view into a container (`Template.program`).  What is shown depends
on what the entries that were read hold, and on nothing else (`Template.tree_congr`).
-/

import ReactiveView.Proofs.Effects.Updates
import ReactiveView.Proofs.Rendering.Html

namespace ReactiveView
namespace View

open Reactive (CallbackId Entry ObjectId Op Program Value World Write)

variable {τ : Type}

/-- The operation is a recorded read, or it answers and does nothing else. -/
def looks : Op → Bool
  | .get .. => true
  | .has .. => true
  | .keys .. => true
  | .load .. => true
  | .track .. => true
  | .peekTable .. => true
  | .peek .. => true
  | .observerCount .. => true
  | .isActive .. => true
  | .dependencyCount .. => true
  | .currentScope => true
  | _ => false

/-- What a handler does: it reads, makes objects, writes recorded places, looks at the
stage, and changes no more of the stage than events and the rest.  An object that it makes
is empty at first. -/
inductive Writes : Program (Stage τ) → Prop
  | ret (value : Value) : Writes (.ret value)
  | look (op : Op) (next : op.Answer → Program (Stage τ)) (looks : looks op = true)
      (later : ∀ answer, Writes (next answer)) : Writes (.op op next)
  | make (next : ObjectId → Program (Stage τ)) (later : ∀ o, Writes (next o)) :
      Writes (.op (.newObject .empty) next)
  | write (write : Write) (next : Bool → Program (Stage τ)) (later : ∀ done, Writes (next done)) :
      Writes (.write write next)
  | lookHost (next : Stage τ → Program (Stage τ)) (later : ∀ s, Writes (next s)) :
      Writes (.readHost next)
  | note (change : Stage τ → Stage τ) (next : Program (Stage τ))
      (document : ∀ s, (change s).document = s.document)
      (containers : ∀ s, (change s).containers = s.containers) (later : Writes next) :
      Writes (.changeHost change next)

/-- A handler, by the event that it is called with. -/
structure Handler (τ : Type) where
  run : Nat → Program (Stage τ)
  writes : ∀ event, Writes (run event)

/-- A view of the store.  In the tree, the handlers that the view makes are known by
their places in the list, and those that were there before by the numbers after. -/
inductive Template (τ : Type) where
  | shows (tree : VNode) (plain : tree.Plain) (handlers : List (Handler τ))
  | reads (op : Op) (recorded : op.entry?.isSome = true) (next : op.Answer → Template τ)

namespace Template

/-- What a handler is called once the view has made its own. -/
def nameOf (made : List CallbackId) (callback : CallbackId) : CallbackId :=
  made.getD callback.index ⟨callback.index - made.length⟩

/-- Makes handlers and goes on with what they are called. -/
def makeHandlers (made : List CallbackId) (next : List CallbackId → Program (Stage τ)) :
    List (Handler τ) → Program (Stage τ)
  | [] => next made
  | handler :: rest =>
    .callback handler.run fun callback => makeHandlers (made ++ [callback]) next rest

/-- Renders a tree into a container, and fails if that fails. -/
def renderTree (c : ContainerId) (tree : VNode) : Program (Stage τ) :=
  .readHost fun s => .changeHost (fun s => (s.render c (some tree)).2)
    (match (s.render c (some tree)).1 with
      | .ok () => .done
      | .error error => .throw error.message)

/-- Renders the view into a container. -/
def program (c : ContainerId) : Template τ → Program (Stage τ)
  | shows tree _ handlers =>
    makeHandlers [] (fun made => renderTree c (tree.rename (nameOf made))) handlers
  | reads op _ next => .op op fun answer => (next answer).program c

/-- The tree that the view shows of a world. -/
def tree (w : World (Stage τ)) : Template τ → VNode
  | shows tree _ _ => tree
  | reads op _ next => (next (w.answer op).1).tree w

/-- The entries that the view reads in a world. -/
def entries (w : World (Stage τ)) : Template τ → List Entry
  | shows _ _ _ => []
  | reads op _ next => op.entry?.toList ++ (next (w.answer op).1).entries w

/-- A template gives trees without components. -/
theorem plain_tree (w : World (Stage τ)) (t : Template τ) : (t.tree w).Plain := by
  induction t with
  | shows tree plain handlers => exact plain
  | reads op recorded next ih => exact ih (w.answer op).1

end Template

/-- The answer to a recorded read is what the entry holds. -/
theorem answer_congr {σ : Type} {w w' : World σ} {op : Op} {x : Entry} (hop : op.entry? = some x)
    (h : w'.content x = w.content x) : (w'.answer op).1 = (w.answer op).1 := by
  cases op with
  | get o name =>
    obtain rfl := Option.some.inj hop
    have htable : (w'.table o).get? name = (w.table o).get? name := by
      simpa [World.content, Entry.property] using h
    simp only [World.answer, World.property, htable]
  | has o name =>
    obtain rfl := Option.some.inj hop
    have htable : (w'.table o).get? name = (w.table o).get? name := by
      simpa [World.content, Entry.property] using h
    simp only [World.answer, KeyTable.contains, htable]
  | keys o =>
    obtain rfl := Option.some.inj hop
    have hkeys : (w'.table o).keys = (w.table o).keys := by
      simpa [World.content, Entry.keySet] using h
    exact hkeys
  | load c =>
    obtain rfl := Option.some.inj hop
    have hcell : w'.cell? c = w.cell? c := by simpa [World.content, Entry.cell] using h
    simp only [World.answer, World.cell, hcell]
  | track entry => rfl
  | _ => exact absurd hop (by simp [Op.entry?])

/-- A recorded read answers what is there. -/
theorem perform_answer {σ : Type} {w : World σ} {op : Op} (recorded : op.entry?.isSome = true) :
    (w.perform op).1 = (w.answer op).1 := by
  obtain ⟨x, hx⟩ := Option.isSome_iff_exists.1 recorded
  simp only [World.perform, hx]
  exact answer_congr hx (World.content_track x)

namespace Template

/-- **A view shows the same as long as the entries that it read hold the same**, and it
reads the same. -/
theorem tree_congr {w w' : World (Stage τ)} (t : Template τ)
    (h : ∀ x ∈ t.entries w, w'.content x = w.content x) :
    t.tree w' = t.tree w ∧ t.entries w' = t.entries w := by
  induction t with
  | shows tree plain handlers => exact ⟨rfl, rfl⟩
  | reads op recorded next ih =>
    obtain ⟨x, hx⟩ := Option.isSome_iff_exists.1 recorded
    have hanswer : (w'.answer op).1 = (w.answer op).1 := by
      refine answer_congr hx (h x ?_)
      rw [entries, hx]
      exact List.mem_append_left _ (List.mem_singleton_self x)
    have hnext := ih (w.answer op).1 fun y hy => h y (by
      rw [entries]
      exact List.mem_append_right _ hy)
    simp only [tree, entries, hanswer]
    exact ⟨hnext.1, by rw [hnext.2]⟩

end Template
end View
end ReactiveView
