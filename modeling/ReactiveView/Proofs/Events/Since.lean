/-
# Since when a handler is bound

Under the key of an event an element binds the handlers of the last value of the key, if that
holds any, since the last change from no handler to a handler (`BoundSince`).  Other handlers
take the place of the old ones and leave the time as it is; a value that holds none takes the
listener off, and with it the time.

One call to change a prop is one step of that (`Listener.renewed`,
`Document.binding?_patchProp`), and it reads the clock exactly if it makes a new listener
(`Document.clock_patchProp`).  Hence what is bound after any calls to change props of a new
element, with the clock put to anything in between, and which of the calls have read the clock
(`Document.patchTimed_boundSince`, `Document.clock_patchTimed`).
-/

import Mathlib.Order.Bounds.Basic
import ReactiveView.Proofs.Rendering.LastProps

namespace ReactiveView
namespace View

open Reactive (CallbackId)

/-! ## Step by step -/

section Steps

variable {event : String} {f f' : Nat → Option PropValue} {time time' : Nat → Int} {k : Nat}
  {bound : Option Listener}

/-- Before the step the value holds no handler, and after it one or more. -/
def Turns (f : Nat → Option PropValue) (i : Nat) : Prop :=
  (f i).bind PropValue.callbacks? = none ∧ ((f (i + 1)).bind PropValue.callbacks?).isSome

/-- The value is `f i` after `i` steps, and `time i` is the time of the step behind these.  What
is bound after `k` steps are the handlers of the value, if it holds any, and they are bound since
the last step that turned from no handler to a handler. -/
structure BoundSince (event : String) (f : Nat → Option PropValue) (time : Nat → Int) (k : Nat)
    (bound : Option Listener) : Prop where
  handlers : bound.map (fun l => (l.event, l.callbacks)) =
    ((f k).bind PropValue.callbacks?).map (event, ·)
  since : ∀ l ∈ bound, ∃ i, IsGreatest {i | i < k ∧ Turns f i} i ∧ l.attached = time i

/-- What is bound once the value is `next`: the listener that was bound, with other handlers, or
one that is bound now, or none. -/
def Listener.renewed (event : String) (now : Int) (next : Option PropValue)
    (bound : Option Listener) : Option Listener :=
  (next.bind PropValue.callbacks?).map fun callbacks =>
    match bound with
    | some l => { l with callbacks }
    | none => ⟨event, callbacks, now⟩

namespace BoundSince

/-- Without steps nothing is bound. -/
theorem zero (h : (f 0).bind PropValue.callbacks? = none) : BoundSince event f time 0 none where
  handlers := by rw [h]; rfl
  since l hl := absurd hl (by simp)

/-- Values and times behind the last step do not matter. -/
theorem congr (h : BoundSince event f time k bound) (hf : ∀ i ≤ k, f' i = f i)
    (htime : ∀ i < k, time' i = time i) : BoundSince event f' time' k bound where
  handlers := by rw [hf k (Nat.le_refl k), h.handlers]
  since l hl := by
    obtain ⟨i, hgreatest, hattached⟩ := h.since l hl
    have hset : {i | i < k ∧ Turns f' i} = {i | i < k ∧ Turns f i} := by
      ext j
      refine and_congr_right fun hj => ?_
      rw [Turns, Turns, hf j (Nat.le_of_lt hj), hf (j + 1) hj]
    refine ⟨i, hset ▸ hgreatest, ?_⟩
    rw [hattached, htime i hgreatest.1.1]

/-- Nothing is bound under the key exactly if its last value holds no handlers. -/
theorem eq_none_iff (h : BoundSince event f time k bound) :
    bound = none ↔ (f k).bind PropValue.callbacks? = none := by
  rw [← Option.map_eq_none_iff (f := fun l : Listener => (l.event, l.callbacks)), h.handlers,
    Option.map_eq_none_iff]

/-- **One more step.** -/
theorem step (h : BoundSince event f time k bound) :
    BoundSince event f time (k + 1) (Listener.renewed event (time k) (f (k + 1)) bound) := by
  cases hnext : (f (k + 1)).bind PropValue.callbacks? with
  | none =>
    rw [Listener.renewed, hnext]
    exact ⟨by rw [hnext]; rfl, fun l hl => absurd hl (by simp)⟩
  | some callbacks =>
    rw [Listener.renewed, hnext, Option.map_some]
    cases hbound : bound with
    | none =>
      -- this is the step that turns, so it is the last one
      have hturns : Turns f k := ⟨h.eq_none_iff.1 hbound, by rw [hnext]; rfl⟩
      refine ⟨by rw [hnext]; rfl, ?_⟩
      rintro l ⟨rfl⟩
      exact ⟨k, ⟨⟨Nat.lt_succ_self k, hturns⟩, fun j hj => Nat.le_of_lt_succ hj.1⟩, rfl⟩
    | some l =>
      have hhandlers := h.handlers
      rw [hbound, Option.map_some] at hhandlers
      obtain ⟨before, hbefore, hpair⟩ := Option.map_eq_some_iff.1 hhandlers.symm
      have hevent : l.event = event := (Prod.mk.inj hpair).1.symm
      refine ⟨by rw [hnext, Option.map_some, Option.map_some, hevent], ?_⟩
      rintro l' ⟨rfl⟩
      obtain ⟨i, ⟨⟨hi, hturns⟩, hlast⟩, hattached⟩ := h.since l hbound
      refine ⟨i, ⟨⟨Nat.lt_succ_of_lt hi, hturns⟩, ?_⟩, hattached⟩
      rintro j ⟨hj, hturnsj⟩
      -- the new step does not turn: there were handlers before it
      have hjk : j ≠ k := by
        rintro rfl
        exact absurd (hbefore.symm.trans hturnsj.1) (by simp)
      exact hlast ⟨by omega, hturnsj⟩

/-- A value with the same handlers changes nothing. -/
theorem renewed_eq (h : BoundSince event f time k bound) {next : Option PropValue}
    (hnext : next.bind PropValue.callbacks? = (f k).bind PropValue.callbacks?) (now : Int) :
    Listener.renewed event now next bound = bound := by
  have hhandlers := h.handlers
  rw [Listener.renewed, hnext]
  cases hbound : bound with
  | none => rw [h.eq_none_iff.1 hbound, Option.map_none]
  | some l =>
    rw [hbound, Option.map_some] at hhandlers
    obtain ⟨callbacks, hcallbacks, hpair⟩ := Option.map_eq_some_iff.1 hhandlers.symm
    obtain rfl : callbacks = l.callbacks := (Prod.mk.inj hpair).2
    rw [hcallbacks, Option.map_some]

end BoundSince
end Steps

/-! ## One call -/

/-- The clock after a reading. -/
def Clock.read (clock : Clock) : Clock := { clock with now := clock.now + clock.step }

namespace Document

variable {d d' : Document} {n : NodeId} {S : NodeId → Prop} {e : Element} {key key' event : String}
  {next : Option PropValue}

/-- What an element binds under a key. -/
def binding? (d : Document) (n : NodeId) (key : String) : Option Listener :=
  (d.element? n).bind fun e => (e.listeners.get? key).map d.listener

/-- Under a key an element binds the listener that stands there. -/
theorem binding?_of_element? (h : d.element? n = some e) (key : String) :
    d.binding? n key = (e.listeners.get? key).map d.listener := by
  rw [binding?, h, Option.bind_some]

/-- What is bound under a key depends on the listeners of the element alone. -/
theorem binding?_congr (h : d.element? n = some e) {e' : Element} (h' : d'.element? n = some e')
    (hget : e'.listeners.get? key = e.listeners.get? key)
    (hlistener : ∀ l, e.listeners.get? key = some l → d'.listener l = d.listener l) :
    d'.binding? n key = d.binding? n key := by
  rw [binding?_of_element? h, binding?_of_element? h', hget]
  cases hl : e.listeners.get? key with
  | none => rfl
  | some l => rw [Option.map_some, Option.map_some, hlistener l hl]

/-- The element is exchanged for another one. -/
theorem element?_setData (has : d.Has n) (e : Element) :
    (d.setData n (.element e)).element? n = some e := by
  rw [element?_eq_some_iff, node_setData has]

/-- Binding a listener makes it an element with one key more. -/
theorem element?_bound (has : d.Has n) (e : Element) (key : String) (listener : Listener) :
    (d.bound n e key listener).element? n =
      some { e with listeners := e.listeners.insert key ⟨d.listeners.size⟩ } := by
  rw [element?_eq_some_iff, node_bound_self has]

/-- **The key of an event that is changed binds the handlers of its new value.** -/
theorem binding?_patchProp (hS : S n) (howns : d.Owns S) (h : d.element? n = some e)
    (hevent : eventName? key = some event) (next : Option PropValue) :
    (d.patchProp n key next).binding? n key =
      Listener.renewed event d.clock.now next (d.binding? n key) := by
  have has := has_of_element? h
  rw [binding?_of_element? h, Listener.renewed]
  generalize hd' : d.patchProp n key next = d'
  cases propChange_of_patchProp h hd' with
  | @exchange _ callbacks l _ hnext hl =>
    have hlt := lt_size_of_listener hS howns (element?_eq_some_iff.1 h) hl
    have hself := listener_modify_self hlt fun listener => { listener with callbacks }
    have helement : element? { d.record (.patchProp key) with
        listeners := d.listeners.modify l.index fun listener =>
          { listener with callbacks } } n = some e := h
    refine (binding?_of_element? helement key).trans ?_
    rw [hnext, hl, Option.map_some]
    exact congrArg some hself
  | @bind event' callbacks hevent' hnext hl =>
    obtain rfl := Option.some.inj (hevent.symm.trans hevent')
    refine (binding?_of_element?
      (element?_bound (d := (d.record (.patchProp key)).readClock.2) has e key _) key).trans ?_
    rw [hnext, hl]
    simp [KeyTable.get?_insert, Document.listener, bound, setData, modifyNode, readClock, record]
  | unbind _ hnext =>
    rw [binding?_of_element? (element?_setData (d := d.record _) has _), KeyTable.get?_erase,
      if_pos rfl, hnext]
    rfl
  | still _ hnext hl =>
    refine (binding?_of_element? (d := d.record (.patchProp key)) h key).trans ?_
    rw [hnext, hl]
    rfl
  | restyle hnone => exact absurd (hevent.symm.trans hnone) (Option.some_ne_none _)

/-- **The keys that are not changed bind what they did.** -/
theorem binding?_patchProp_ne (hS : S n) (howns : d.Owns S) (h : d.element? n = some e)
    (hne : key ≠ key') (next : Option PropValue) :
    (d.patchProp n key next).binding? n key' = d.binding? n key' := by
  have has := has_of_element? h
  generalize hd' : d.patchProp n key next = d'
  cases propChange_of_patchProp h hd' with
  | exchange _ _ hl =>
    refine binding?_congr h h rfl fun l' hl' => listener_modify_ne ?_ _
    have hdata := element?_eq_some_iff.1 h
    rintro rfl
    exact hne ((howns n key _ hS ⟨e, hdata, hl⟩).2 n key' hS ⟨e, hdata, hl'⟩).2.symm
  | bind =>
    refine binding?_congr h
      (element?_bound (d := (d.record (.patchProp key)).readClock.2) has e key _)
      (by rw [KeyTable.get?_insert, if_neg hne]) fun l' hl' => ?_
    exact listener_push (lt_size_of_listener hS howns (element?_eq_some_iff.1 h) hl') _
  | unbind =>
    exact binding?_congr h (element?_setData (d := d.record _) has _)
      (by rw [KeyTable.get?_erase, if_neg hne]) fun _ _ => rfl
  | still => rfl
  | restyle =>
    exact binding?_congr h (element?_setData (d := d.record _) has _)
      (by rw [Element.listeners_withProp]) fun _ _ => rfl

/-- A call makes a new listener: it gives handlers to the key of an event that binds none. -/
def attaches (d : Document) (n : NodeId) (key : String) (next : Option PropValue) : Bool :=
  (eventName? key).isSome && (d.binding? n key).isNone &&
    (next.bind PropValue.callbacks?).isSome

/-- **The clock is read for a new listener, and for nothing else.** -/
theorem clock_patchProp (h : d.element? n = some e) (key : String) (next : Option PropValue) :
    (d.patchProp n key next).clock = if d.attaches n key next then d.clock.read else d.clock := by
  rw [attaches, binding?_of_element? h]
  generalize hd' : d.patchProp n key next = d'
  cases propChange_of_patchProp h hd' with
  | exchange hevent hnext hl | bind hevent hnext hl | unbind hevent hnext hl
  | still hevent hnext hl =>
    rw [hevent, hnext, hl]
    rfl
  | restyle hevent =>
    rw [hevent]
    rfl

/-! ## Calls at any times -/

end Document

/-- A call to change a prop of an element, and what the clock is when it is made. -/
structure TimedCall extends PropCall where
  clock : Clock

namespace Document

variable {d : Document} {n : NodeId} {tag key event : String}

/-- The document with the clock put to a time. -/
def withClock (d : Document) (clock : Clock) : Document := { d with clock }

/-- The document after the calls for a node, the clock put to its time before each of them. -/
def patchTimed (d : Document) (n : NodeId) (calls : List TimedCall) : Document :=
  calls.foldl (fun d call => (d.withClock call.clock).patchProp n call.key call.next) d

/-- The value of a key after some of the calls. -/
def valueAt (calls : List TimedCall) (key : String) (i : Nat) : Option PropValue :=
  lastNext ((calls.take i).map TimedCall.toPropCall) key

/-- What the clock is when a call is made. -/
def timeOf (calls : List TimedCall) (i : Nat) : Int := (calls[i]?.map (·.clock.now)).getD 0

/-- After one call more the value of its key is the last one. -/
theorem valueAt_succ {calls : List TimedCall} {i : Nat} {call : TimedCall}
    (h : calls[i]? = some call) :
    (fun key => valueAt calls key (i + 1)) =
      dress (fun key => valueAt calls key i) call.key call.next := by
  funext key
  rw [valueAt, List.take_add_one, h, Option.toList_some, List.map_append]
  exact congrFun (lastNext_append_single _ _) key

/-- The next call is made at the time that its own clock shows. -/
theorem patchTimed_take_succ {calls : List TimedCall} {i : Nat} {call : TimedCall}
    (h : calls[i]? = some call) (d : Document) (n : NodeId) :
    d.patchTimed n (calls.take (i + 1)) =
      ((d.patchTimed n (calls.take i)).withClock call.clock).patchProp n call.key call.next := by
  rw [List.take_add_one, h, Option.toList_some, patchTimed, List.foldl_append]
  rfl

/-- After each call the element wears the last values, and its listeners are its own. -/
theorem patchTimed_dressed (hnew : d.element? n = some (.new tag)) (calls : List TimedCall)
    (i : Nat) : ((d.patchTimed n (calls.take i)).Owns (· = n)) ∧
      (d.patchTimed n (calls.take i)).Has n ∧
      (d.patchTimed n (calls.take i)).Dressed n tag fun key => valueAt calls key i := by
  have hdata := element?_eq_some_iff.1 hnew
  induction i with
  | zero =>
    refine ⟨?_, has_of_element? hnew, _, hdata, rfl, wears_new d tag⟩
    rintro m key l rfl ⟨e, he, hl⟩
    obtain rfl := DomData.element.inj (hdata.symm.trans he)
    exact absurd hl (Option.some_ne_none l).symm
  | succ i ih =>
    obtain ⟨howns, has, hdressed⟩ := ih
    cases hcall : calls[i]? with
    | none =>
      -- there are no more calls
      have hsize : calls.length ≤ i := List.getElem?_eq_none_iff.1 hcall
      have htake : calls.take (i + 1) = calls.take i := by
        rw [List.take_of_length_le hsize, List.take_of_length_le (Nat.le_succ_of_le hsize)]
      simp only [valueAt, htake]
      exact ⟨howns, has, hdressed⟩
    | some call =>
      obtain ⟨e, hdata, htag, hwears⟩ := hdressed
      have hclock : ((d.patchTimed n (calls.take i)).withClock call.clock).Dressed n tag
          fun key => valueAt calls key i := ⟨e, hdata, htag, hwears.congr fun _ _ _ => rfl⟩
      obtain ⟨hredresses, hdressed⟩ := patchProp_dressed (S := (· = n))
        (d := (d.patchTimed n (calls.take i)).withClock call.clock) rfl howns hclock call.key call.next
      rw [patchTimed_take_succ hcall, valueAt_succ hcall]
      exact ⟨hredresses.within.owns howns, hredresses.within.has n has, hdressed⟩

/-- Under the key of an event an element binds something exactly if the value holds handlers. -/
theorem Dressed.binding?_isNone {f : String → Option PropValue} (h : d.Dressed n tag f)
    (hevent : eventName? key = some event) :
    (d.binding? n key).isNone = ((f key).bind PropValue.callbacks?).isNone := by
  obtain ⟨e, hdata, -, hwears⟩ := h
  have hhandlers := congrArg Option.isNone (hwears.event hevent).2.2
  rw [Option.isNone_map, Option.isNone_map] at hhandlers
  rw [binding?_of_element? (element?_eq_some_iff.2 hdata), Option.isNone_map, hhandlers]

/-- **Since when a handler is bound, after any calls.** -/
theorem patchTimed_boundSince (hnew : d.element? n = some (.new tag)) (calls : List TimedCall)
    (hevent : eventName? key = some event) :
    ∀ i ≤ calls.length, BoundSince event (valueAt calls key) (timeOf calls) i
      ((d.patchTimed n (calls.take i)).binding? n key) := by
  intro i hi
  induction i with
  | zero =>
    have hnone : (d.patchTimed n (calls.take 0)).binding? n key = none :=
      binding?_of_element? hnew key
    rw [hnone]
    exact .zero rfl
  | succ i ih =>
    have hcall : calls[i]? = some calls[i] := List.getElem?_eq_getElem hi
    obtain ⟨howns, -, e, hdata, -, -⟩ := patchTimed_dressed hnew calls i
    have helement := element?_eq_some_iff.2 hdata
    have htime : timeOf calls i = calls[i].clock.now := by rw [timeOf, hcall]; rfl
    have hstep := (ih (Nat.le_of_succ_le hi)).step
    have hvalue := congrFun (valueAt_succ hcall) key
    rw [patchTimed_take_succ hcall]
    -- the clock is put to its time, and then the call is made
    generalize hd : (d.patchTimed n (calls.take i)).withClock calls[i].clock = d₁
    have hnow : d₁.clock.now = timeOf calls i := by rw [← hd, htime]; rfl
    have hbinding : d₁.binding? n key = (d.patchTimed n (calls.take i)).binding? n key := by
      rw [← hd]; rfl
    replace howns : d₁.Owns (· = n) := by rw [← hd]; exact howns
    replace helement : d₁.element? n = some e := by rw [← hd]; exact helement
    by_cases hkey : calls[i].key = key
    · rw [dress, if_pos hkey] at hvalue
      rw [hkey, binding?_patchProp (S := (· = n)) rfl howns helement hevent, hnow, hbinding,
        ← hvalue]
      exact hstep
    · rw [dress, if_neg hkey] at hvalue
      rw [(ih (Nat.le_of_succ_le hi)).renewed_eq (by rw [hvalue])] at hstep
      rwa [binding?_patchProp_ne (S := (· = n)) rfl howns helement hkey, hbinding]

/-- **Which calls read the clock**: those that turn the key of an event from no handler to a
handler, once each. -/
theorem clock_patchTimed (hnew : d.element? n = some (.new tag)) (calls : List TimedCall)
    {i : Nat} {call : TimedCall} (hcall : calls[i]? = some call) :
    ((eventName? call.key).isSome ∧ Turns (valueAt calls call.key) i →
      (d.patchTimed n (calls.take (i + 1))).clock = call.clock.read) ∧
    (¬ ((eventName? call.key).isSome ∧ Turns (valueAt calls call.key) i) →
      (d.patchTimed n (calls.take (i + 1))).clock = call.clock) := by
  obtain ⟨-, -, hdressed⟩ := patchTimed_dressed hnew calls i
  have hnone := fun event (hevent : eventName? call.key = some event) =>
    hdressed.binding?_isNone hevent
  obtain ⟨e, hdata, -, -⟩ := hdressed
  have hclock := clock_patchProp
    (d := (d.patchTimed n (calls.take i)).withClock call.clock) (element?_eq_some_iff.2 hdata)
    call.key call.next
  have hnext := congrFun (valueAt_succ hcall) call.key
  rw [dress, if_pos rfl] at hnext
  have hattaches : ((d.patchTimed n (calls.take i)).withClock call.clock).attaches n call.key
      call.next = true ↔
      ((eventName? call.key).isSome ∧ Turns (valueAt calls call.key) i) := by
    cases hevent : eventName? call.key with
    | none => simp [attaches, hevent]
    | some event =>
      have hbinding := hnone event hevent
      rw [Turns, hnext, ← Option.isNone_iff_eq_none, ← hbinding]
      simp only [attaches, hevent, Option.isSome_some, Bool.true_and, Bool.and_eq_true, true_and]
      rfl
  rw [patchTimed_take_succ hcall, hclock]
  exact ⟨fun h => if_pos (hattaches.2 h), fun h => if_neg fun hpos => h (hattaches.1 hpos)⟩

end Document
end View
end ReactiveView
