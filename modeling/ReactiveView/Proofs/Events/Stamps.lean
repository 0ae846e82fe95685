/-
# Time stamps

The clock of a document never goes back, and every reading moves it on by its step.  So what
was stamped before a reading bears an earlier time, if the step is not zero, and what is
stamped after it a later one.

A later document (`Document.Ages`) has the listeners of the earlier one, bound to the same
events at the same times, and the others were bound in between.  Whatever changes a stage is
made of its operations (`Stage.Operation`), and none of them takes back a listener or an
event, or changes a time stamp (`Stage.Operated.ages`).
-/

import ReactiveView.Proofs.Rendering.Operations
import ReactiveView.View.Dispatch

namespace ReactiveView
namespace View

open Relation (ReflTransGen)

namespace Document

variable {d d' d'' : Document}

/-! ## Later documents -/

/-- The second document is a later one.  The listeners of the first one are there with the
same events and times, and the others were bound after the first document and before the
second one. -/
structure Ages (d d' : Document) : Prop where
  step : d'.clock.step = d.clock.step
  now : d.clock.now ≤ d'.clock.now
  size : d.listeners.size ≤ d'.listeners.size
  kept : ∀ l : ListenerId, l.index < d.listeners.size →
    (d'.listener l).event = (d.listener l).event ∧
      (d'.listener l).attached = (d.listener l).attached
  fresh : ∀ l : ListenerId, d.listeners.size ≤ l.index → l.index < d'.listeners.size →
    d.clock.now ≤ (d'.listener l).attached ∧
      (d'.listener l).attached + d.clock.step ≤ d'.clock.now

namespace Ages

/-- The listeners and the clock say how old a document is. -/
theorem of_same (listeners : d'.listeners = d.listeners) (clock : d'.clock = d.clock) :
    Ages d d' where
  step := by rw [clock]
  now := Int.le_of_eq (by rw [clock])
  size := Nat.le_of_eq (by rw [listeners])
  kept l _ := by rw [listener, listeners, listener]; exact ⟨rfl, rfl⟩
  fresh l hold hnew := by
    rw [listeners] at hnew
    omega

/-- A document is as late as itself. -/
theorem refl (d : Document) : Ages d d := of_same rfl rfl

/-- Later than later is later: a listener was bound in the first stage or in the second one. -/
theorem trans (h : Ages d d') (h' : Ages d' d'') : Ages d d'' where
  step := h'.step.trans h.step
  now := Int.le_trans h.now h'.now
  size := Nat.le_trans h.size h'.size
  kept l hl := by
    obtain ⟨hevent, hattached⟩ := h.kept l hl
    obtain ⟨hevent', hattached'⟩ := h'.kept l (Nat.lt_of_lt_of_le hl h.size)
    exact ⟨hevent'.trans hevent, hattached'.trans hattached⟩
  fresh l hold hnew := by
    have hstep := h.step
    have hnow := h.now
    have hnow' := h'.now
    by_cases hl : l.index < d'.listeners.size
    · obtain ⟨hlow, hhigh⟩ := h.fresh l hold hl
      rw [(h'.kept l hl).2]
      omega
    · obtain ⟨hlow, hhigh⟩ := h'.fresh l (Nat.le_of_not_lt hl) hnew
      omega

/-- To write in the journal takes no time. -/
theorem record (d : Document) (op : HostOp) : Ages d (d.record op) := of_same rfl rfl

/-- A change of a node binds nothing. -/
theorem modifyNode (d : Document) (n : NodeId) (change : DomNode → DomNode) :
    Ages d (d.modifyNode n change) :=
  of_same rfl rfl

/-- **Reading the clock moves it on by one step.** -/
theorem readClock (d : Document) : Ages d d.readClock.2 where
  step := rfl
  now := by
    show d.clock.now ≤ d.clock.now + d.clock.step
    omega
  size := Nat.le_refl _
  kept _ _ := ⟨rfl, rfl⟩
  fresh _ hold hnew := absurd hnew (Nat.not_lt_of_le hold)

/-- Time may also pass by itself. -/
theorem advance (d : Document) (ms : Nat) : Ages d (d.advance ms) where
  step := rfl
  now := by
    show d.clock.now ≤ d.clock.now + ms
    omega
  size := Nat.le_refl _
  kept _ _ := ⟨rfl, rfl⟩
  fresh _ hold hnew := absurd hnew (Nat.not_lt_of_le hold)

/-- Exchanging handlers leaves the age of a listener. -/
theorem exchange (d : Document) (l : ListenerId) (callbacks : List Reactive.CallbackId) :
    Ages d { d with
      listeners := d.listeners.modify l.index fun listener => { listener with callbacks } } where
  step := rfl
  now := Int.le_refl _
  size := by simp
  kept l' _ := by
    simp only [listener, Array.getD_eq_getD_getElem?, Array.getElem?_modify]
    split
    · cases d.listeners[l'.index]? <;> exact ⟨rfl, rfl⟩
    · exact ⟨rfl, rfl⟩
  fresh _ hold hnew := by
    rw [Array.size_modify] at hnew
    omega

/-- A listener that is bound gets the reading of the clock. -/
theorem bind (d : Document) (event : String) (callbacks : List Reactive.CallbackId) :
    Ages d { d.readClock.2 with
      listeners := d.listeners.push ⟨event, callbacks, d.readClock.1⟩ } where
  step := rfl
  now := (readClock d).now
  size := by simp
  kept l hl := by
    have hsame := listener_push hl ⟨event, callbacks, d.readClock.1⟩
    exact ⟨congrArg Listener.event hsame, congrArg Listener.attached hsame⟩
  fresh l hold hnew := by
    obtain ⟨index⟩ := l
    obtain rfl : index = d.listeners.size := by
      rw [Array.size_push] at hnew
      exact Nat.le_antisymm (Nat.le_of_lt_succ hnew) hold
    simp only [listener, Array.getD_eq_getD_getElem?, Array.getElem?_push_size, Option.getD_some]
    exact ⟨Int.le_refl _, Int.le_refl _⟩

/-- A prop may bind one listener, with the time that is read for it; the others keep theirs. -/
theorem patchProp (d : Document) (n : NodeId) (key : String) (next : Option PropValue) :
    Ages d (d.patchProp n key next) := by
  refine (record d (.patchProp key)).trans ?_
  cases he : d.element? n with
  | none =>
    rw [patchProp_of_none he]
    exact refl _
  | some e =>
    generalize hd' : d.patchProp n key next = d'
    cases propChange_of_patchProp he hd' with
    | exchange => exact exchange _ _ _
    | bind => exact (bind _ _ _).trans (modifyNode _ _ _)
    | unbind | restyle => exact modifyNode _ _ _
    | still => exact refl _

/-- No change goes back in time. -/
theorem touches {K : NodeId → Prop} (h : Touches K d d') : Ages d d' := by
  cases h with
  | tick ms => exact advance d ms
  | patchProp n _ key next => exact patchProp d n key next
  | ops | create | children | parent | content => exact of_same rfl rfl

/-- No sequence of changes goes back in time. -/
theorem touched {K : NodeId → Prop} (h : Touched K d d') : Ages d d' := by
  induction h with
  | refl => exact refl d
  | tail _ htouches ih => exact ih.trans (touches htouches)

/-- **An operation makes a later document.** -/
theorem operation (op : Operation) (d : Document) : Ages d (op.apply d) :=
  touched (K := fun _ => False) (.operation op (fun _ => False.elim) d)

end Ages

/-- **After any operations the document is a later one.** -/
theorem Operated.ages (h : Operated d d') : Ages d d' := by
  induction h with
  | refl => exact .refl d
  | tail _ hop ih =>
    obtain ⟨op, rfl⟩ := hop
    exact ih.trans (.operation op _)

end Document

/-! ## Later stages -/

namespace Stage

variable {τ : Type} {s s' s'' : Stage τ}

/-- An operation on a stage. -/
inductive Operation (τ : Type) where
  | document (op : Document.Operation)
  | render (c : ContainerId) (tree : Option VNode)
  /-- A tree is taken down that no container keeps. -/
  | unmount (v : VNode)
  | newContainer (node : NodeId)
  | newEvent (kind : String) (time : Int)
  | stopEvent (e : EventId)
  | rest (change : τ → τ)

/-- The stage after an operation. -/
def Operation.apply : Operation τ → Stage τ → Stage τ
  | document op, s => s.modifyDocument op.apply
  | render c tree, s => (s.render c tree).2
  | unmount v, s => s.modifyDocument fun d => (v.unmount.run.run d).2
  | newContainer node, s => { s with containers := s.containers.push ⟨node, none⟩ }
  | newEvent kind time, s => (s.newEvent kind time).2
  | stopEvent e, s => s.stopEvent e
  | rest change, s => s.modifyRest change

/-- Some operations lead from the one stage to the other. -/
def Operated (s s' : Stage τ) : Prop :=
  ReflTransGen (fun s s' => ∃ op : Operation τ, s' = op.apply s) s s'

/-- One operation is a sequence of operations. -/
theorem Operated.single (op : Operation τ) (s : Stage τ) : Operated s (op.apply s) :=
  ReflTransGen.single ⟨op, rfl⟩

/-- The second stage is a later one: so is its document, and the events of the first one are
there, of the same kinds and times. -/
structure Ages (s s' : Stage τ) : Prop where
  document : s.document.Ages s'.document
  size : s.events.size ≤ s'.events.size
  events : ∀ e : EventId, e.index < s.events.size →
    (s'.event e).kind = (s.event e).kind ∧ (s'.event e).time = (s.event e).time

namespace Ages

/-- A later document with the same events makes a later stage. -/
theorem of_events (document : s.document.Ages s'.document) (events : s'.events = s.events) :
    Ages s s' where
  document := document
  size := Nat.le_of_eq (by rw [events])
  events e _ := by rw [event, events, event]; exact ⟨rfl, rfl⟩

/-- A stage is as late as itself. -/
theorem refl (s : Stage τ) : Ages s s := of_events (.refl _) rfl

/-- The relation goes on. -/
theorem trans (h : Ages s s') (h' : Ages s' s'') : Ages s s'' where
  document := h.document.trans h'.document
  size := Nat.le_trans h.size h'.size
  events e he := by
    obtain ⟨hkind, htime⟩ := h.events e he
    obtain ⟨hkind', htime'⟩ := h'.events e (Nat.lt_of_lt_of_le he h.size)
    exact ⟨hkind'.trans hkind, htime'.trans htime⟩

/-- An event is added behind the others; its time is given with it. -/
theorem newEvent (s : Stage τ) (kind : String) (time : Int) :
    Ages s (s.newEvent kind time).2 where
  document := .refl _
  size := by simp [Stage.newEvent]
  events e he := by
    have hsame : (s.newEvent kind time).2.event e = s.event e := by
      simp only [event, Stage.newEvent, Array.getD_eq_getD_getElem?, Array.getElem?_push_lt he,
        Array.getElem?_eq_getElem he]
    exact ⟨congrArg Event.kind hsame, congrArg Event.time hsame⟩

/-- A stopped event is the same event at the same time. -/
theorem stopEvent (s : Stage τ) (e : EventId) : Ages s (s.stopEvent e) where
  document := .refl _
  size := by simp [Stage.stopEvent]
  events e' _ := by
    simp only [event, Stage.stopEvent, Array.getD_eq_getD_getElem?, Array.getElem?_modify]
    split
    · cases s.events[e'.index]? <;> exact ⟨rfl, rfl⟩
    · exact ⟨rfl, rfl⟩

/-- Rendering changes the document by operations, and no event. -/
theorem render (s : Stage τ) (c : ContainerId) (tree : Option VNode) :
    Ages s (s.render c tree).2 := by
  unfold Stage.render
  split
  · exact refl s
  · rename_i container _
    exact of_events (container.render_operated tree s.document).ages rfl

/-- **An operation makes a later stage.** -/
theorem operation (op : Operation τ) (s : Stage τ) : Ages s (op.apply s) := by
  cases op with
  | document op => exact of_events (.operation op s.document) rfl
  | render c tree => exact render s c tree
  | unmount v => exact of_events (v.unmount_operated s.document).ages rfl
  | newEvent kind time => exact newEvent s kind time
  | stopEvent e => exact stopEvent s e
  | newContainer | rest => exact of_events (.refl _) rfl

end Ages

/-- **Whatever happens to a stage, it is a later one afterwards.** -/
theorem Operated.ages (h : Operated s s') : Ages s s' := by
  induction h with
  | refl => exact .refl s
  | tail _ hop ih =>
    obtain ⟨op, rfl⟩ := hop
    exact ih.trans (.operation op _)

end Stage
end View
end ReactiveView
