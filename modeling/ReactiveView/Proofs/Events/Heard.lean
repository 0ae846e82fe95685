/-
# Which handlers hear of an event

Of the handlers that were bound to an element one after the other, those hear of an event whose
names are its kind in small letters, unless a later one has taken their key: the key of a name
tells the name but for the case of its first character, and what the element binds is told by its
props (`Document.Dressed.binds_onEach_iff`).  They are called in the order of the bytes of their
keys, each once, and each as soon as those before it have returned (`on_handlers_called`).

So it goes while nothing changes the props of the element.  A handler that fails, an event that
was stopped before, and a handler that binds another one to the element keep handlers from being
called (`handlers_not_called`).
-/

import ReactiveView.Proofs.Events.Keys
import ReactiveView.Proofs.Events.Target
import ReactiveView.Proofs.Text.ByteOrder

namespace ReactiveView
namespace View

open Reactive (CallbackId Frame Machine Program World)
open Reactive.Machine (Leads)

variable {τ : Type} {e : EventId} {n : NodeId} {w : World (Stage τ)}

/-! ## An element with handlers -/

/-- The handlers that a prop gives, and their event, are told by its key and by the prop alone. -/
theorem bind_handlersOf (tag key : String) (prop : Option PropValue) :
    prop.bind (handlersOf tag key) =
      (eventName? key).bind fun event => (prop.bind PropValue.callbacks?).map (event, ·) := by
  cases prop with
  | none => cases eventName? key <;> rfl
  | some prop =>
    simp only [Option.bind_some, handlersOf, slot]
    cases eventName? key with
    | some event => rfl
    | none =>
      dsimp only
      split_ifs
      · rfl
      · cases propForm? tag key <;> rfl

namespace Document

variable {d : Document} {tag key event : String} {f : String → Option PropValue}
  {callbacks : List CallbackId}

/-- **An element binds what its props say**: the handlers under the keys of events, each to its
event. -/
theorem Dressed.binds_iff (h : d.Dressed n tag f) :
    (∃ l, d.Binds n key l ∧ (d.listener l).event = event ∧ (d.listener l).callbacks = callbacks) ↔
      eventName? key = some event ∧ (f key).bind PropValue.callbacks? = some callbacks := by
  obtain ⟨element, hdata, rfl, hwears⟩ := h
  have htells := congrArg (·.2.2) (hwears.tells key)
  simp only [tells, said, bind_handlersOf] at htells
  have hbinds (l : ListenerId) : d.Binds n key l ↔ element.listeners.get? key = some l := by
    constructor
    · rintro ⟨element', hdata', hl⟩
      obtain rfl := DomData.element.inj (hdata.symm.trans hdata')
      exact hl
    · exact fun hl => ⟨element, hdata, hl⟩
  have hpair : (∃ l, d.Binds n key l ∧ (d.listener l).event = event ∧
      (d.listener l).callbacks = callbacks) ↔
      (element.listeners.get? key).map
        (fun l => ((d.listener l).event, (d.listener l).callbacks)) = some (event, callbacks) := by
    simp only [hbinds, Option.map_eq_some_iff, Prod.mk.injEq]
  rw [hpair, htells]
  simp only [Option.bind_eq_some_iff, Option.map_eq_some_iff, Prod.mk.injEq]
  constructor
  · rintro ⟨_, hevent, _, hcallbacks, rfl, rfl⟩
    exact ⟨hevent, hcallbacks⟩
  · rintro ⟨hevent, hcallbacks⟩
    exact ⟨event, hevent, callbacks, hcallbacks, rfl, rfl⟩

variable {calls : List (String × CallbackId)} {base : VNode}

/-- An element whose handlers were bound one after the other binds, under each key, the last one
of the key to the event of its name. -/
theorem Dressed.binds_onEach_iff (h : d.Dressed n tag (base.onEach calls).props.get?)
    (hsilent : base.Silent) (hnames : ∀ call ∈ calls, call.1 ≠ "") :
    (∃ l, d.Binds n key l ∧ (d.listener l).event = event ∧ (d.listener l).callbacks = callbacks) ↔
      ∃ i : Fin calls.length, eventKey (calls.get i).1 = key ∧ asciiLower (calls.get i).1 = event ∧
        (∀ j, i < j → ¬ SameButFirst (calls.get i).1 (calls.get j).1) ∧
        callbacks = [(calls.get i).2] := by
  have hname (i : Fin calls.length) : (calls.get i).1 ≠ "" := hnames _ (calls.get_mem i)
  rw [h.binds_iff]
  constructor
  · rintro ⟨hevent, hcallbacks⟩
    obtain ⟨i, rfl, hlast, rfl⟩ := (VNode.get?_onEach_iff (hsilent key event hevent)).1 hcallbacks
    rw [eventName?_eventKey (hname i)] at hevent
    refine ⟨i, rfl, Option.some.inj hevent, fun j hj hsame => ?_, rfl⟩
    exact hlast j hj (eventKey_eq_iff.2 hsame).symm
  · rintro ⟨i, rfl, rfl, hlast, rfl⟩
    have hevent := eventName?_eventKey (hname i)
    have hlast' : ∀ j, i < j → eventKey (calls.get j).1 ≠ eventKey (calls.get i).1 :=
      fun j hj hkey => hlast j hj (eventKey_eq_iff.1 hkey.symm)
    exact ⟨hevent, (VNode.get?_onEach_iff (hsilent _ _ hevent)).2 ⟨i, rfl, hlast', rfl⟩⟩

/-- **Which of the handlers an element has for an event**: those whose names are the event in
small letters, but for those under the key of a later one, in the order of the bytes of the
keys. -/
theorem Dressed.exists_order (h : d.Dressed n tag (base.onEach calls).props.get?)
    (hsilent : base.Silent) (hnames : ∀ call ∈ calls, call.1 ≠ "") (kind : String) :
    ∃ order : List (Fin calls.length),
      (order.Pairwise fun i j =>
        Text.bytes (eventKey (calls.get i).1) < Text.bytes (eventKey (calls.get j).1)) ∧
      (∀ i, i ∈ order ↔ asciiLower (calls.get i).1 = kind ∧
        ∀ j, i < j → ¬ SameButFirst (calls.get i).1 (calls.get j).1) ∧
      (d.listenersFor n kind).map (fun l => (d.listener l).callbacks) =
        order.map fun i => [(calls.get i).2] := by
  obtain ⟨bindings, hlisteners, hsorted, hmem⟩ := d.candidates_listenersFor n kind
  have hcall : ∀ b ∈ bindings, ∃ i : Fin calls.length, eventKey (calls.get i).1 = b.1 ∧
      asciiLower (calls.get i).1 = kind ∧
      (∀ j, i < j → ¬ SameButFirst (calls.get i).1 (calls.get j).1) ∧
        (d.listener b.2).callbacks = [(calls.get i).2] := by
    rintro ⟨key, l⟩ hb
    obtain ⟨hbinds, hevent⟩ := (hmem key l).1 hb
    exact (h.binds_onEach_iff hsilent hnames).1 ⟨l, hbinds, hevent, rfl⟩
  choose position hposition using hcall
  refine ⟨bindings.attach.map fun b => position b.1 b.2, ?sorted, fun i => ⟨?mem, ?there⟩, ?bound⟩
  case sorted =>
    rw [← List.attach_map_subtype_val bindings, List.pairwise_map] at hsorted
    rw [List.pairwise_map]
    refine hsorted.imp fun {a b} hlt => ?_
    rwa [(hposition a.1 a.2).1, (hposition b.1 b.2).1, ← Text.lt_iff_bytes_lt]
  case mem =>
    intro hi
    obtain ⟨b, -, rfl⟩ := List.mem_map.1 hi
    obtain ⟨-, hevent, hlast, -⟩ := hposition b.1 b.2
    exact ⟨hevent, hlast⟩
  case there =>
    rintro ⟨hevent, hlast⟩
    obtain ⟨l, hbinds, hl, -⟩ := (h.binds_onEach_iff hsilent hnames).2 ⟨i, rfl, hevent, hlast, rfl⟩
    have hb := (hmem _ l).2 ⟨hbinds, hl⟩
    refine List.mem_map.2 ⟨⟨_, hb⟩, List.mem_attach .., ?_⟩
    -- neither of two under one key can be before the other
    obtain ⟨hkey, -, hlast', -⟩ := hposition _ hb
    rcases lt_trichotomy (position _ hb) i with hlt | heq | hgt
    · exact absurd (eventKey_eq_iff.1 hkey) (hlast' i hlt)
    · exact heq
    · exact absurd (eventKey_eq_iff.1 hkey.symm) (hlast _ hgt)
  case bound =>
    rw [← hlisteners, List.map_map, List.map_map, ← List.attach_map_val]
    exact List.map_congr_left fun b _ => (hposition b.1 b.2).2.2.2

end Document

/-- **Which handlers hear of an event.**  Take any handlers that were bound one after the other,
under names that are not empty, to a virtual element without handlers, which was then mounted into
any document.  Take any event that is dispatched at the element, neither stopped nor older than what
the element binds, while nothing has changed the props of the element since; and let its handlers
leave these props alone, whatever else they do, renders into containers included that do not show
the element as their tree.

Then the handlers that are called at the element are those whose name in small letters is the kind
of the event and whose name is not that of a later one but for the case of its first character.
They are called in the order of the bytes of their keys, each once, as far as they return.  If no
node is above itself the dispatch does not come back to the element. -/
theorem on_handlers_called {clock : Clock} {d d' : Document} {n p : NodeId} {tag : String}
    {base v' : VNode} {calls : List (String × CallbackId)}
    (hd : Document.Operated (.empty clock) d) (hkind : base.kind = .element tag)
    (hsilent : base.Silent) (hnames : ∀ call ∈ calls, call.1 ≠ "")
    (hmount : Runs (VNode.mount p (base.onEach calls)) d v' d') (hel : v'.el = some n)
    (hsince : d'.Spared (· = n) w.host.document)
    (hevent : e.index < w.host.events.size) (hgoing : (w.host.event e).stopped = false)
    (hearly : ∀ key l, w.host.document.Binds n key l → ¬ w.host.Late e l)
    (hspares : ∀ cs w', cs ⊆ calls.map Prod.snd → ReturnEach e cs w w' →
      w.host.Spared n w'.host)
    (next : Nat → Program (Stage τ)) (frames : List (Frame (Stage τ))) :
    ∃ order : List (Fin calls.length),
      (order.Pairwise fun i j =>
        Text.bytes (eventKey (calls.get i).1) < Text.bytes (eventKey (calls.get j).1)) ∧
      (∀ i, i ∈ order ↔ asciiLower (calls.get i).1 = (w.host.event e).kind ∧
        ∀ j, i < j → ¬ SameButFirst (calls.get i).1 (calls.get j).1) ∧
      CallsAtTarget e w n (order.map fun i => (calls.get i).2) order.length next frames ∧
      (w.host.document.Acyclic → n ∉ w.host.document.ancestors n) := by
  -- the element has been left alone since it was mounted
  obtain ⟨m, hm, howns', hmounted⟩ := VNode.mount_dressed
    ((VNode.kind_onEach calls base).trans hkind)
    (hd.retains.owns (Document.owns_empty clock)) hmount
  obtain rfl : m = n := Option.some.inj (hm.symm.trans hel)
  have hleaves := hsince.leaves rfl
  have howns := hleaves.owns howns'
  have hdressed := hmounted.leaves howns' hleaves
  obtain ⟨order, hsorted, hmem, hbound⟩ :=
    hdressed.exists_order hsilent hnames (w.host.event e).kind
  have hhandlers : (w.host.document.listenersFor m (w.host.event e).kind).flatMap
      w.host.handlers = order.map fun i => (calls.get i).2 :=
    (congrArg List.flatten hbound).trans List.map_eq_flatMap.symm
  refine ⟨order, hsorted, hmem, ?_, fun hacyclic => ?_⟩
  · have hls : ∀ l ∈ w.host.document.listenersFor m (w.host.event e).kind,
        ∃ key, w.host.document.Binds m key l := fun l hl => by
      obtain ⟨key, hbinds, -⟩ := (Document.candidates_listenersFor ..).mem_iff.1 hl
      exact ⟨key, hbinds⟩
    have hsteady := steady_of_spared howns hevent hearly hls fun done hdone w' => by
      refine hspares _ w' fun c hc => ?_
      obtain ⟨l, hl, hc⟩ := List.mem_flatMap.1 hc
      have hours := List.mem_flatMap.2 ⟨l, hdone.subset hl, hc⟩
      rw [hhandlers] at hours
      obtain ⟨i, -, rfl⟩ := List.mem_map.1 hours
      exact List.mem_map_of_mem (calls.get_mem i)
    have hcalls := callsAtTarget_of_steady hgoing hsteady next frames
    have hlength := congrArg List.length hbound
    rw [List.length_map, List.length_map] at hlength
    rwa [hhandlers, hlength] at hcalls
  · exact (List.nodup_cons.1 ((hacyclic.lineage_ancestors m).nodup hacyclic)).1

/-! ## A paragraph with handlers -/

/-- Handlers to be bound one after the other.  The third one takes the place of the first one, and
the last one is for another event. -/
def bindingCalls : List (String × CallbackId) :=
  [("click", ⟨0⟩), ("cLick", ⟨1⟩), ("Click", ⟨2⟩), ("input", ⟨0⟩)]

/-- A paragraph with these handlers. -/
def boundParagraph : VNode := (VNode.element "p").onEach bindingCalls

/-- A document with a division, and a clock that stands still. -/
def divided : Document := ((Document.empty ⟨0, 0⟩).mountPoint "div").2

/-- The document after the paragraph was mounted into the division. -/
def mountedDocument : Document := ((VNode.mount ⟨0⟩ boundParagraph).run.run divided).2

/-- The paragraph is mounted into the division. -/
theorem boundParagraph_mounts :
    Runs (VNode.mount ⟨0⟩ boundParagraph) divided (boundParagraph.withEl ⟨1⟩) mountedDocument :=
  rfl

/-- The division was made by operations. -/
theorem operated_divided : Document.Operated (.empty ⟨0, 0⟩) divided :=
  .single (.mountPoint "div") _

/-- A new element has no handlers. -/
theorem silent_element (tag : String) : (VNode.element tag).Silent := fun _ _ _ => rfl

/-- The second and the third call hold for clicks, and no other one. -/
theorem bindingCalls_click (i : Fin bindingCalls.length) :
    (asciiLower (bindingCalls.get i).1 = "click" ∧
      ∀ j, i < j → ¬ SameButFirst (bindingCalls.get i).1 (bindingCalls.get j).1) ↔
        i.val = 1 ∨ i.val = 2 := by
  decide +revert

/-- The paragraph is clicked, after something that may be done with the event. -/
def clicksParagraph (first second : Nat → Program (Stage (List String)))
    (meanwhile : EventId → Program (Stage (List String)) → Program (Stage (List String))) :
    Program (Stage (List String)) :=
  .callback (fun _ => mark "other" .done) fun _ =>
    .callback first fun _ =>
      .callback second fun _ =>
        withEvent "click" 0 fun e =>
          meanwhile e (dispatch e ⟨1⟩ fun ran => .ret (.bool (ran == 2)))

/-- The states of the run of `clicksParagraph`. -/
def clickedStates (first second : Nat → Program (Stage (List String)))
    (meanwhile : EventId → Program (Stage (List String)) → Program (Stage (List String))) :
    Nat → Machine (Stage (List String)) :=
  Machine.states ⟨mountedDocument, #[], #[], []⟩ (clicksParagraph first second meanwhile)

/-- What the mounted paragraph binds is as old as an event of the same time. -/
theorem early_of_mountedDocument {s : Stage (List String)}
    (hdocument : s.document = mountedDocument)
    (htime : (s.event e).time = 0) (key : String) (l : ListenerId)
    (hbinds : s.document.Binds ⟨1⟩ key l) : ¬ s.Late e l := by
  have howns : mountedDocument.Owns fun _ => True := by
    obtain ⟨_, _, howns, -⟩ := VNode.mount_dressed rfl
      (operated_divided.retains.owns (Document.owns_empty _)) boundParagraph_mounts
    exact howns
  have hattached : ∀ i < mountedDocument.listeners.size,
      (mountedDocument.listener ⟨i⟩).attached = 0 := by
    decide
  rw [hdocument] at hbinds
  rw [Stage.Late, htime, hdocument, hattached _ (howns _ key l trivial hbinds).1]
  exact Int.lt_irrefl 0

/-- The world in which a click of the paragraph is dispatched, and both handlers leave marks. -/
def heardWorld : World (Stage (List String)) :=
  (clickedStates (fun _ => mark "first" .done) (fun _ => mark "second" .done) (fun _ => id) 6).world

/-- In this world nothing changes the props of the paragraph. -/
theorem heardWorld_confined :
    heardWorld.Confined (Stage.Spared ⟨1⟩) ∧
      mountedDocument.Spared (· = ⟨1⟩) heardWorld.host.document := by
  have hmark (text : String) : (mark text .done).Confined (Stage.Spared ⟨1⟩) none :=
    ⟨fun _ _ => .single (.rest _) trivial, trivial⟩
  have hconfined : (clicksParagraph (fun _ => mark "first" .done) (fun _ => mark "second" .done)
      fun _ => id).Confined (Stage.Spared ⟨1⟩) none :=
    ⟨fun _ => hmark _, fun _ => ⟨fun _ => hmark _, fun _ => ⟨fun _ => hmark _, fun _ _ =>
      ⟨fun _ _ => .single (.newEvent _ _) trivial, dispatch_confined _ fun _ => trivial⟩⟩⟩⟩
  obtain ⟨hmachine, hhost⟩ : (clickedStates (fun _ => mark "first" .done)
      (fun _ => mark "second" .done) (fun _ => id) 6).Confined (Stage.Spared ⟨1⟩) ∧ _ :=
    (Machine.occurs_states hconfined 6).host
  exact ⟨hmachine.world, (Stage.Spared.of_reflTransGen hhost).document (by decide)⟩

/-- The second and the third handler of the paragraph hear of the click: `onCLick` comes before
`onClick`, and the first handler has lost its key to the third one. -/
theorem on_handlers_called_boundParagraph :
    Document.Operated (.empty ⟨0, 0⟩) divided ∧ (VNode.element "p").Silent ∧
      (∀ call ∈ bindingCalls, call.1 ≠ "") ∧
      Runs (VNode.mount ⟨0⟩ boundParagraph) divided (boundParagraph.withEl ⟨1⟩) mountedDocument ∧
      mountedDocument.Spared (· = ⟨1⟩) heardWorld.host.document ∧
      0 < heardWorld.host.events.size ∧ heardWorld.host.event ⟨0⟩ = ⟨"click", 0, false⟩ ∧
      (∀ key l, heardWorld.host.document.Binds ⟨1⟩ key l → ¬ heardWorld.host.Late ⟨0⟩ l) ∧
      (∀ cs w', cs ⊆ bindingCalls.map Prod.snd → ReturnEach ⟨0⟩ cs heardWorld w' →
        heardWorld.host.Spared ⟨1⟩ w'.host) ∧
      CallsAtTarget ⟨0⟩ heardWorld ⟨1⟩ [⟨1⟩, ⟨2⟩] 2 (fun ran => .ret (.bool (ran == 2))) [] ∧
      (⟨1⟩ : NodeId) ∉ heardWorld.host.document.ancestors ⟨1⟩ := by
  obtain ⟨hconfined, hsince⟩ := heardWorld_confined
  have hnames : ∀ call ∈ bindingCalls, call.1 ≠ "" := by decide
  have hevent : 0 < heardWorld.host.events.size := Nat.zero_lt_one
  have hearly := early_of_mountedDocument (e := ⟨0⟩) (s := heardWorld.host) rfl rfl
  have hspares (cs : List CallbackId) (w' : World (Stage (List String)))
      (_ : cs ⊆ bindingCalls.map Prod.snd) (h : ReturnEach ⟨0⟩ cs heardWorld w') :
      heardWorld.host.Spared ⟨1⟩ w'.host := .of_reflTransGen (h.host hconfined)
  obtain ⟨order, hsorted, hmem, hcalls, hancestors⟩ := on_handlers_called operated_divided rfl
    (silent_element "p") hnames boundParagraph_mounts rfl hsince hevent rfl hearly hspares
    (fun ran => .ret (.bool (ran == 2))) []
  -- the two calls that hold are in the order of their keys
  have horder : order = [⟨1, by decide⟩, ⟨2, by decide⟩] := by
    have hdifferent : order.Nodup := by
      refine hsorted.imp fun {i j} hlt heq => ?_
      rw [heq] at hlt
      exact List.lt_irrefl _ hlt
    have hperm : order.Perm [⟨1, by decide⟩, ⟨2, by decide⟩] := by
      refine (List.perm_ext_iff_of_nodup hdifferent (by decide)).2 fun i => ?_
      rw [hmem i, List.mem_pair, Fin.ext_iff, Fin.ext_iff]
      exact bindingCalls_click i
    refine hperm.eq_of_pairwise (fun i j _ _ hij hji => ?_) hsorted (by decide)
    exact absurd hji (List.lt_asymm hij)
  rw [horder] at hcalls
  exact ⟨operated_divided, silent_element "p", hnames, boundParagraph_mounts, hsince, hevent, rfl,
    hearly, hspares, hcalls, hancestors (Document.acyclic_of_lt (by decide))⟩

/-! ## Handlers that are not called -/

/-- A click is dispatched at the mounted paragraph, and is not older than what that binds. -/
structure ClicksMounted (m : Machine (Stage (List String))) : Prop where
  focus : m.focus = .run (dispatch ⟨0⟩ ⟨1⟩ fun ran => .ret (.bool (ran == 2)))
  document : m.world.host.document = mountedDocument
  kind : (m.world.host.event ⟨0⟩).kind = "click"
  early : ∀ key l, m.world.host.document.Binds ⟨1⟩ key l → ¬ m.world.host.Late ⟨0⟩ l

/-- The first handler fails. -/
def failedClick : Nat → Machine (Stage (List String)) :=
  clickedStates (fun _ => mark "first" (.throw "failed")) (fun _ => mark "second" .done) fun _ => id

/-- The click is stopped before it is dispatched. -/
def stoppedClick : Nat → Machine (Stage (List String)) :=
  clickedStates (fun _ => mark "first" .done) (fun _ => mark "second" .done) fun e next =>
    .changeHost (Stage.Operation.apply (.stopEvent e)) next

/-- The first handler puts another one in the place of the second one, without a render. -/
def exchangedClick : Nat → Machine (Stage (List String)) :=
  clickedStates (fun _ => mark "first" <| .changeHost (Stage.Operation.apply (.document
      (.patchProp ⟨1⟩ "onClick" (some (.handler ⟨0⟩))))) .done)
    (fun _ => mark "second" .done) fun _ => id

/-- Handlers whose names are the kind of the event, and whose keys nothing has taken, are not always
called.  Two of the handlers of the mounted paragraph are such for a click, and neither renders.
The second one is not called if the first one fails, nor if that puts another handler in its place;
and if the click was stopped before, none of the two is. -/
theorem handlers_not_called :
    Runs (VNode.mount ⟨0⟩ boundParagraph) divided (boundParagraph.withEl ⟨1⟩) mountedDocument ∧
      (∀ call ∈ bindingCalls, call.1 ≠ "") ∧
      (∀ i : Fin bindingCalls.length, (asciiLower (bindingCalls.get i).1 = "click" ∧
        ∀ j, i < j → ¬ SameButFirst (bindingCalls.get i).1 (bindingCalls.get j).1) ↔
          i.val = 1 ∨ i.val = 2) ∧
      (ClicksMounted (failedClick 6) ∧
        ∃ w, Leads (failedClick 6) ⟨w, .throwing "failed", []⟩ ∧ w.host.rest = ["first"]) ∧
      (ClicksMounted (exchangedClick 6) ∧
        ∃ w, Leads (exchangedClick 6) ⟨w, .value (.bool true), []⟩ ∧
          w.host.rest = ["first", "other"]) ∧
      ClicksMounted (stoppedClick 7) ∧
        ∃ w, Leads (stoppedClick 7) ⟨w, .value (.bool false), []⟩ ∧ w.host.rest = [] := by
  have hfailed : Machine.run 20 (failedClick 6) =
      some ⟨(failedClick 26).world, .throwing "failed", []⟩ := rfl
  have hexchanged : Machine.run 30 (exchangedClick 6) =
      some ⟨(exchangedClick 36).world, .value (.bool true), []⟩ := rfl
  have hstopped : Machine.run 10 (stoppedClick 7) =
      some ⟨(stoppedClick 17).world, .value (.bool false), []⟩ := rfl
  exact ⟨boundParagraph_mounts, by decide, bindingCalls_click,
    ⟨⟨rfl, rfl, rfl, early_of_mountedDocument rfl rfl⟩, _, Machine.leads_of_run_eq hfailed, rfl⟩,
    ⟨⟨rfl, rfl, rfl, early_of_mountedDocument rfl rfl⟩, _, Machine.leads_of_run_eq hexchanged, rfl⟩,
    ⟨rfl, rfl, rfl, early_of_mountedDocument rfl rfl⟩, _, Machine.leads_of_run_eq hstopped, rfl⟩

end View
end ReactiveView
