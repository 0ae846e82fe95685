/-
# Nothing is bound twice

A listener gets a new identity when it is bound, and when it has been taken off no key ever binds
it again.  So a later document binds, of the listeners that were there before, only those that
the earlier one bound, each on the same node under the same key (`Document.Retains`); and each
listener is bound once (`Document.Owns`).  An event that was stopped stays so.

Whatever happens to a stage it retains (`Stage.Operated.retains`), and so in every stage that
comes out of an empty one each listener is bound once (`Stage.Operated.owns`).
-/

import ReactiveView.Proofs.Events.Stamps

namespace ReactiveView
namespace View

open Relation (ReflTransGen)

namespace Document

variable {d d' d'' : Document} {n : NodeId}

/-! ## Documents -/

/-- What the second document binds of the listeners of the first one, the first one bound too;
and no listener is bound twice if none was before. -/
structure Retains (d d' : Document) : Prop where
  size : d.listeners.size ≤ d'.listeners.size
  binds : ∀ n key l, l.index < d.listeners.size → d'.Binds n key l → d.Binds n key l
  owns : (d.Owns fun _ => True) → d'.Owns fun _ => True

namespace Retains

/-- Nothing is bound that was not bound before. -/
theorem of_binds (size : d'.listeners.size = d.listeners.size)
    (binds : ∀ n key l, d'.Binds n key l → d.Binds n key l) : Retains d d' where
  size := Nat.le_of_eq size.symm
  binds n key l _ := binds n key l
  owns howns n key l _ hbinds := by
    obtain ⟨hlt, hunique⟩ := howns n key l trivial (binds n key l hbinds)
    exact ⟨size ▸ hlt, fun n' key' _ hbinds' => hunique n' key' trivial (binds n' key' l hbinds')⟩

/-- A document retains what it binds. -/
theorem refl (d : Document) : Retains d d := of_binds rfl fun _ _ _ => id

/-- What the last document binds of the first, the one between them binds. -/
theorem trans (h : Retains d d') (h' : Retains d' d'') : Retains d d'' where
  size := Nat.le_trans h.size h'.size
  binds n key l hl hbinds :=
    h.binds n key l hl (h'.binds n key l (Nat.lt_of_lt_of_le hl h.size) hbinds)
  owns := h'.owns ∘ h.owns

/-- The nodes tell what is bound. -/
theorem of_same (nodes : d'.nodes = d.nodes) (size : d'.listeners.size = d.listeners.size) :
    Retains d d' := by
  refine of_binds size fun n key l hbinds => ?_
  rwa [Binds, node, nodes] at hbinds

/-- The journal binds nothing. -/
theorem record (d : Document) (op : HostOp) : Retains d (d.record op) := of_same rfl rfl

/-- Data of a node that bind nothing new. -/
theorem modifyNode {change : DomNode → DomNode}
    (hbinds : ∀ key l e, (change (d.node n)).data = .element e → e.listeners.get? key = some l →
      d.Binds n key l) : Retains d (d.modifyNode n change) := by
  refine of_binds rfl fun m key l hbind => ?_
  obtain ⟨e, hdata, hget⟩ := hbind
  rw [node_modifyNode] at hdata
  split at hdata
  · rename_i h
    obtain ⟨rfl, -⟩ := h
    exact hbinds key l e hdata hget
  · exact ⟨e, hdata, hget⟩

/-- A new node binds nothing. -/
theorem create {data : DomData}
    (hdata : ∀ e, data = .element e → ∀ key, e.listeners.get? key = none) :
    Retains d (d.create data).2 := by
  refine of_binds rfl fun m key l hbind => ?_
  obtain ⟨e, he, hget⟩ := hbind
  rw [node_create] at he
  split at he
  · rw [hdata e he] at hget
    exact absurd hget (by simp)
  · exact ⟨e, he, hget⟩

/-- A listener that is newly bound has a new identity. -/
theorem bound {e : Element} (has : d.Has n) (hdata : (d.node n).data = .element e) (key : String)
    (listener : Listener) : Retains d (d.bound n e key listener) where
  size := by
    show d.listeners.size ≤ (d.listeners.push listener).size
    rw [Array.size_push]
    exact Nat.le_succ _
  binds m key' l hl hbinds := by
    rcases binds_bound has hdata hbinds with ⟨-, -, rfl⟩ | hold
    · exact absurd hl (Nat.lt_irrefl _)
    · exact hold
  owns := (redresses_bound (S := fun _ => True) has hdata key listener).within.owns

/-- **A change of a prop binds a new listener at most**, and what it takes off is not bound
again. -/
theorem patchProp (d : Document) (n : NodeId) (key : String) (next : Option PropValue) :
    Retains d (d.patchProp n key next) := by
  refine (record d (.patchProp key)).trans ?_
  cases he : d.element? n with
  | none =>
    rw [patchProp_of_none he]
    exact refl _
  | some e =>
    have hdata := element?_eq_some_iff.1 he
    generalize hd' : d.patchProp n key next = d'
    cases propChange_of_patchProp he hd' with
    | exchange => exact of_same rfl (Array.size_modify ..)
    | bind =>
      have hclock : Retains (d.record (.patchProp key)) (d.record (.patchProp key)).readClock.2 :=
        of_same rfl rfl
      exact hclock.trans
        (bound (d := (d.record (.patchProp key)).readClock.2) (has_of_element? he) hdata key _)
    | unbind =>
      refine modifyNode fun key' l e' he' hget => ?_
      obtain rfl := DomData.element.inj he'
      rw [KeyTable.get?_erase] at hget
      split at hget
      · exact absurd hget (by simp)
      · exact ⟨e, hdata, hget⟩
    | still => exact refl _
    | restyle =>
      refine modifyNode fun key' l e' he' hget => ?_
      obtain rfl := DomData.element.inj he'
      rw [Element.listeners_withProp] at hget
      exact ⟨e, hdata, hget⟩

/-- Every change retains. -/
theorem touches {K : NodeId → Prop} (h : Touches K d d') : Retains d d' := by
  cases h with
  | ops | tick => exact of_same rfl rfl
  | create data bare =>
    refine create fun e he key => ?_
    obtain ⟨tag, rfl⟩ := bare e he
    rfl
  | children | parent => exact modifyNode fun _ _ e hdata hget => ⟨e, hdata, hget⟩
  | content n data _ hnew => exact modifyNode fun _ _ e hdata => absurd hdata (hnew e)
  | patchProp n _ key next => exact patchProp d n key next

/-- A document retains what it binds through any sequence of changes. -/
theorem touched {K : NodeId → Prop} (h : Touched K d d') : Retains d d' := by
  induction h with
  | refl => exact refl d
  | tail _ htouches ih => exact ih.trans (touches htouches)

/-- **No operation binds what was there before.** -/
theorem operation (op : Operation) (d : Document) : Retains d (op.apply d) :=
  touched (K := fun _ => False) (.operation op (fun _ => False.elim) d)

end Retains

/-- **After any operations nothing that was taken off is bound again.** -/
theorem Operated.retains (h : Operated d d') : Retains d d' := by
  induction h with
  | refl => exact .refl d
  | tail _ hop ih =>
    obtain ⟨op, rfl⟩ := hop
    exact ih.trans (.operation op _)

/-- Where there are no nodes nothing is bound. -/
theorem owns_empty (clock : Clock) : (empty clock).Owns fun _ => True := by
  rintro n key l - ⟨e, he, -⟩
  exact absurd he (by simp [node, empty, default])

end Document

/-! ## Stages -/

namespace Stage

variable {τ : Type} {s s' s'' : Stage τ}

/-- What the second stage binds of the listeners of the first one, the first one bound too; and
what was stopped is stopped. -/
structure Retains (s s' : Stage τ) : Prop where
  document : s.document.Retains s'.document
  stopped : ∀ e, (s.event e).stopped = true → (s'.event e).stopped = true

namespace Retains

/-- A stage retains as its document does, if its events are the same ones. -/
theorem of_events (document : s.document.Retains s'.document) (events : s'.events = s.events) :
    Retains s s' where
  document := document
  stopped e h := by rwa [event, events]

/-- A stage retains what it is. -/
theorem refl (s : Stage τ) : Retains s s := of_events (.refl _) rfl

/-- The relation goes on from stage to stage. -/
theorem trans (h : Retains s s') (h' : Retains s' s'') : Retains s s'' where
  document := h.document.trans h'.document
  stopped e := h'.stopped e ∘ h.stopped e

/-- A new event has not been stopped, and the others are as they were. -/
theorem newEvent (s : Stage τ) (kind : String) (time : Int) :
    Retains s (s.newEvent kind time).2 where
  document := .refl _
  stopped e h := by
    by_cases he : e.index < s.events.size
    · simpa only [event, Stage.newEvent, Array.getD_eq_getD_getElem?, Array.getElem?_push_lt he,
        Array.getElem?_eq_getElem he] using h
    · rw [event, Array.getD_eq_getD_getElem?, Array.getElem?_eq_none (Nat.le_of_not_lt he)] at h
      exact absurd h (by decide)

/-- A stopped event is not resumed. -/
theorem stopEvent (s : Stage τ) (e : EventId) : Retains s (s.stopEvent e) where
  document := .refl _
  stopped e' h := by
    simp only [event, Stage.stopEvent, Array.getD_eq_getD_getElem?, Array.getElem?_modify] at h ⊢
    split
    · cases hevent : s.events[e'.index]? with
      | none =>
        rw [hevent] at h
        exact h
      | some => rfl
    · exact h

/-- **No operation binds what was there before, or lets an event go on.** -/
theorem operation (op : Operation τ) (s : Stage τ) : Retains s (op.apply s) := by
  cases op with
  | document op => exact of_events (.operation op s.document) rfl
  | render c tree =>
    simp only [Operation.apply, Stage.render]
    split
    · exact refl s
    · rename_i container _
      exact of_events (container.render_operated tree s.document).retains rfl
  | unmount v => exact of_events (v.unmount_operated s.document).retains rfl
  | newEvent kind time => exact newEvent s kind time
  | stopEvent e => exact stopEvent s e
  | newContainer | rest => exact of_events (.refl _) rfl

end Retains

/-- **Whatever happens to a stage, it retains.** -/
theorem Operated.retains (h : ReflTransGen Operated s s') : Retains s s' := by
  induction h with
  | refl => exact .refl s
  | tail _ hop ih =>
    refine ih.trans ?_
    induction hop with
    | refl => exact .refl _
    | tail _ hop ih =>
      obtain ⟨op, rfl⟩ := hop
      exact ih.trans (.operation op _)

/-- Where nothing was at first, each listener is bound once. -/
theorem Operated.owns {clock : Clock} {containers : Array Container} {events : Array Event}
    {rest : τ} (h : ReflTransGen Operated ⟨.empty clock, containers, events, rest⟩ s) :
    s.document.Owns fun _ => True :=
  (Operated.retains h).document.owns (Document.owns_empty clock)

end Stage
end View
end ReactiveView
