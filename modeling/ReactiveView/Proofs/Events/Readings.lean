/-
# Readings of the clock

The clock is read for every new listener, and for nothing else that rendering does.  Calls that
change props under different keys read it for those that make new listeners, in turn
(`Document.binding?_patchEach_of_mem`).  So where new props take the place of old ones it is read
for the keys of events that had no handler and get some (`VNode.newlyBound`), in their order, and
what each key binds is renewed at its reading (`VNode.binding?_propCalls`).

A tree that is mounted reads it once for each listener in it (`VNode.listenerCount`), the
children of an element before the element itself (`VNode.mount_clock`,
`VNode.mountElement_runs`).
-/

import Mathlib.Tactic.Ring
import ReactiveView.Proofs.Events.Spared
import ReactiveView.Proofs.Rendering.Reuse

namespace ReactiveView
namespace View

/-! ## Readings of the clock -/

/-- The clock after some readings. -/
def Clock.after (clock : Clock) (readings : Nat) : Clock :=
  { clock with now := clock.now + readings * clock.step }

namespace Clock

variable (clock : Clock)

@[simp] theorem after_zero : clock.after 0 = clock := by simp [after]

@[simp] theorem read_after (readings : Nat) :
    clock.read.after readings = clock.after (readings + 1) := by
  simp only [after, read, mk.injEq, and_true]
  push_cast
  ring

@[simp] theorem after_after (readings readings' : Nat) :
    (clock.after readings).after readings' = clock.after (readings + readings') := by
  simp only [after, mk.injEq, and_true]
  push_cast
  ring

end Clock

/-- Without a new listener the time does not matter. -/
theorem Listener.renewed_now {event : String} {next : Option PropValue} {bound : Option Listener}
    (h : (bound.isNone && (next.bind PropValue.callbacks?).isSome) = false) (now now' : Int) :
    Listener.renewed event now next bound = Listener.renewed event now' next bound := by
  unfold Listener.renewed
  cases bound with
  | some l => rfl
  | none =>
    cases hnext : next.bind PropValue.callbacks? with
    | none => rfl
    | some callbacks =>
      rw [hnext] at h
      exact absurd h (by simp)

namespace Document

variable {d : Document} {n : NodeId} {e : Element} {calls : List PropCall} {call : PropCall}
  {key event : String} {old new : Props}

/-! ## Calls for different keys -/

/-- The keys for which calls make new listeners. -/
def attaching (d : Document) (n : NodeId) (calls : List PropCall) : List String :=
  (calls.filter fun call => d.attaches n call.key call.next).map PropCall.key

/-- Each call is looked at by itself: it makes a listener or it makes none. -/
theorem attaching_cons (d : Document) (n : NodeId) (call : PropCall) (rest : List PropCall) :
    d.attaching n (call :: rest) =
      if d.attaches n call.key call.next then call.key :: d.attaching n rest
      else d.attaching n rest := by
  unfold attaching
  rw [List.filter_cons]
  split <;> rfl

/-- An element stays one of its tag. -/
theorem element?_patchProp (h : d.element? n = some e) (key : String) (next : Option PropValue) :
    ∃ e', (d.patchProp n key next).element? n = some e' ∧ e'.tag = e.tag := by
  have has := has_of_element? h
  generalize hd' : d.patchProp n key next = d'
  cases propChange_of_patchProp h hd' with
  | exchange | still => exact ⟨e, h, rfl⟩
  | bind =>
    exact ⟨_, element?_bound (d := (d.record (.patchProp key)).readClock.2) has e key _, rfl⟩
  | unbind => exact ⟨_, element?_setData (d := d.record _) has _, rfl⟩
  | restyle =>
    exact ⟨_, element?_setData (d := d.record _) has _, Element.tag_withProp ..⟩

/-- A call for one key makes no difference to which of the others make new listeners. -/
theorem attaching_patchProp (howns : d.Owns fun _ => True) (h : d.element? n = some e)
    (hkey : key ∉ calls.map PropCall.key) (next : Option PropValue) :
    (d.patchProp n key next).attaching n calls = d.attaching n calls := by
  have hfilter : (calls.filter fun call => (d.patchProp n key next).attaches n call.key call.next) =
      calls.filter fun call => d.attaches n call.key call.next := by
    refine List.filter_congr fun call hcall => ?_
    have hne : key ≠ call.key := by
      rintro rfl
      exact hkey (List.mem_map_of_mem hcall)
    simp only [attaches, binding?_patchProp_ne (S := fun _ => True) trivial howns h hne next]
  rw [attaching, hfilter, attaching]

/-- The element goes on being one, and listeners are bound once. -/
theorem patchEach_element? (howns : d.Owns fun _ => True) (h : d.element? n = some e)
    (calls : List PropCall) :
    ((d.patchEach n calls).Owns fun _ => True) ∧
      ∃ e', (d.patchEach n calls).element? n = some e' ∧ e'.tag = e.tag := by
  induction calls generalizing d e with
  | nil => exact ⟨howns, e, h, rfl⟩
  | cons call rest ih =>
    obtain ⟨e₁, h₁, htag⟩ := element?_patchProp h call.key call.next
    obtain ⟨howns', e', h', htag'⟩ := ih ((Retains.patchProp d n call.key call.next).owns howns) h₁
    exact ⟨howns', e', h', htag'.trans htag⟩

/-- The clock is read once for each new listener. -/
theorem clock_patchEach (howns : d.Owns fun _ => True) (h : d.element? n = some e)
    (hkeys : (calls.map PropCall.key).Nodup) :
    (d.patchEach n calls).clock = d.clock.after (d.attaching n calls).length := by
  induction calls generalizing d e with
  | nil => exact (Clock.after_zero _).symm
  | cons call rest ih =>
    obtain ⟨hnot, hkeys⟩ := List.nodup_cons.1 hkeys
    obtain ⟨e₁, h₁, -⟩ := element?_patchProp h call.key call.next
    have hrest := ih ((Retains.patchProp d n call.key call.next).owns howns) h₁ hkeys
    rw [attaching_patchProp howns h hnot, clock_patchProp h] at hrest
    refine hrest.trans ?_
    rw [attaching_cons]
    split
    · rw [Clock.read_after, List.length_cons]
    · rfl

/-- Keys for which no call is made bind what they did. -/
theorem binding?_patchEach_of_not_mem (howns : d.Owns fun _ => True) (h : d.element? n = some e)
    (hkey : key ∉ calls.map PropCall.key) :
    (d.patchEach n calls).binding? n key = d.binding? n key := by
  induction calls generalizing d e with
  | nil => rfl
  | cons call rest ih =>
    rw [List.map_cons, List.mem_cons, not_or] at hkey
    obtain ⟨e₁, h₁, -⟩ := element?_patchProp h call.key call.next
    exact (ih ((Retains.patchProp d n call.key call.next).owns howns) h₁ hkey.2).trans
      (binding?_patchProp_ne (S := fun _ => True) trivial howns h (Ne.symm hkey.1) call.next)

/-- **A call for the key of an event renews what the key binds**, at the reading that falls to
it. -/
theorem binding?_patchEach_of_mem (howns : d.Owns fun _ => True) (h : d.element? n = some e)
    (hkeys : (calls.map PropCall.key).Nodup) (hcall : call ∈ calls)
    (hevent : eventName? call.key = some event) :
    (d.patchEach n calls).binding? n call.key =
      Listener.renewed event (d.clock.after ((d.attaching n calls).idxOf call.key)).now call.next
        (d.binding? n call.key) := by
  induction calls generalizing d e with
  | nil => exact absurd hcall List.not_mem_nil
  | cons first rest ih =>
    obtain ⟨hnot, hkeys⟩ := List.nodup_cons.1 hkeys
    obtain ⟨e₁, h₁, -⟩ := element?_patchProp h first.key first.next
    have howns₁ := (Retains.patchProp d n first.key first.next).owns howns
    have hattaching := attaching_patchProp howns h hnot first.next
    rw [attaching_cons]
    rcases List.mem_cons.1 hcall with rfl | hcall
    · -- the first call; the others leave the key alone
      refine (binding?_patchEach_of_not_mem howns₁ h₁ hnot).trans ?_
      rw [binding?_patchProp (S := fun _ => True) trivial howns h hevent]
      split
      · rw [List.idxOf_cons_self, Clock.after_zero]
      · rename_i hattaches
        refine Listener.renewed_now ?_ _ _
        simpa [attaches, hevent] using hattaches
    · have hne : first.key ≠ call.key := by
        intro heq
        exact hnot (heq ▸ List.mem_map_of_mem hcall)
      have hrest := ih howns₁ h₁ hkeys hcall
      rw [hattaching, clock_patchProp h,
        binding?_patchProp_ne (S := fun _ => True) trivial howns h hne] at hrest
      refine hrest.trans ?_
      split
      · rw [List.idxOf_cons_ne _ hne, Clock.read_after]
      · rfl

end Document

namespace VNode

variable {d : Document} {n p : NodeId} {e : Element} {tag key event : String} {old new : Props}

/-! ## The props of an element -/

/-- The keys of events that have no handler by the old props and get some by the new ones, in
their order. -/
def newlyBound (old new : Props) : List String :=
  new.keys.filter fun key => (eventName? key).isSome &&
    ((old.get? key).bind PropValue.callbacks?).isNone &&
      ((new.get? key).bind PropValue.callbacks?).isSome

/-- The calls that put new props in place of old ones: those that differ are changed, then those
that are gone are taken away. -/
def propCalls (old new : Props) : List PropCall :=
  (changedProps old new).entries.map (fun prop => ⟨prop.1, old.get? prop.1, some prop.2⟩) ++
    (goneProps old new).entries.map fun prop => ⟨prop.1, some prop.2, none⟩

/-- The keys that are changed come first, and then those that are gone, each in order. -/
theorem keys_propCalls (old new : Props) :
    (propCalls old new).map PropCall.key =
      (changedProps old new).keys ++ (goneProps old new).keys := by
  rw [propCalls, List.map_append, List.map_map, List.map_map]
  rfl

/-- No key has its turn twice. -/
theorem nodup_keys_propCalls (old new : Props) :
    ((propCalls old new).map PropCall.key).Nodup := by
  rw [keys_propCalls, List.nodup_append]
  refine ⟨(changedProps old new).nodup_keys, (goneProps old new).nodup_keys, ?_⟩
  rintro key hchanged _ hgone rfl
  obtain ⟨value, hvalue⟩ := Option.isSome_iff_exists.1 (KeyTable.mem_keys_iff.1 hchanged)
  obtain ⟨value', hvalue'⟩ := Option.isSome_iff_exists.1 (KeyTable.mem_keys_iff.1 hgone)
  have hnew := (get?_changedProps.1 hvalue).1
  rw [(get?_goneProps.1 hvalue').2] at hnew
  exact absurd hnew (by simp)

/-- **New props take the place of old ones by such calls.** -/
theorem patchProps_calls (n : NodeId) (old new : Props) (d : Document) :
    Runs (patchProps n old new) d () (d.patchEach n (propCalls old new)) := by
  have hperforms := patchProps_performs n old new d
  rw [Performs, Document.perform_append] at hperforms
  simp only [Document.perform, Document.Operation.setEach, KeyTable.keys, List.foldl_map]
    at hperforms
  rw [Document.patchEach, propCalls, List.foldl_append, List.foldl_map, List.foldl_map]
  exact hperforms

/-- A new element has all its props to be set. -/
theorem mountProps_calls (n : NodeId) (props : Props) (d : Document) :
    Runs (props.entries.forM fun (key, value) => Work.change (·.patchProp n key (some value))) d ()
      (d.patchEach n (propCalls .empty props)) := by
  have hchanged : changedProps .empty props = props := KeyTable.ext_get? fun key => by
    rw [changedProps, KeyTable.get?_filterMap]
    simp
  have hperforms := mountProps_performs n props d
  simp only [Performs, Document.perform, Document.Operation.setEach, List.foldl_map] at hperforms
  rw [Document.patchEach, propCalls, hchanged, List.foldl_append, List.foldl_map, List.foldl_map]
  exact hperforms

/-- Props that count as equal hold the same handlers. -/
theorem callbacks?_of_beq {a b : PropValue} (h : (a == b) = true) :
    a.callbacks? = b.callbacks? := by
  rcases eq_or_number_of_beq h with rfl | ⟨x, y, rfl, rfl, -⟩ <;> rfl

/-- What is left of entries that are passed over or not, and what is looked for is never passed
over. -/
theorem filter_filterMap {skip wanted wanted' : String × PropValue → Bool}
    (entries : List (String × PropValue))
    (h : ∀ entry ∈ entries, if skip entry then wanted' entry = false
      else wanted entry = wanted' entry) :
    (entries.filterMap fun entry =>
        (if skip entry then none else some entry.2).map (entry.1, ·)).filter wanted =
      entries.filter wanted' := by
  induction entries with
  | nil => rfl
  | cons entry rest ih =>
    obtain ⟨hentry, hrest⟩ := List.forall_mem_cons.1 h
    rw [List.filterMap_cons, List.filter_cons (p := wanted')]
    cases hskip : skip entry with
    | true =>
      simp only [hskip, if_true] at hentry
      simp [hentry, ih hrest]
    | false =>
      simp only [hskip, Bool.false_eq_true, if_false] at hentry
      simp only [Bool.false_eq_true, if_false, Option.map_some, Prod.mk.eta, List.filter_cons,
        hentry, ih hrest]

/-- **New listeners are made for the keys that are newly bound**, in their order. -/
theorem attaching_propCalls (hbinds : ∀ key event, eventName? key = some event →
      ((d.binding? n key).isNone = ((old.get? key).bind PropValue.callbacks?).isNone)) :
    d.attaching n (propCalls old new) = newlyBound old new := by
  have hgone : ((goneProps old new).entries.map fun prop : String × PropValue =>
      (⟨prop.1, some prop.2, none⟩ : PropCall)).filter
        (fun call => d.attaches n call.key call.next) = [] := by
    rw [List.filter_eq_nil_iff]
    intro call hcall
    obtain ⟨prop, -, rfl⟩ := List.mem_map.1 hcall
    simp [Document.attaches]
  rw [Document.attaching, propCalls, List.filter_append, hgone, List.append_nil, List.filter_map,
    List.map_map, newlyBound, KeyTable.keys, List.filter_map]
  refine congrArg (List.map Prod.fst) (filter_filterMap new.entries ?_)
  rintro ⟨key, value⟩ hentry
  have hget : new.get? key = some value := KeyTable.get?_eq_some_iff.2 hentry
  split
  · -- what is passed over had the same handlers before
    rename_i hskip
    obtain ⟨before, hbefore, hsame⟩ := (Option.any_eq_true ..).1 hskip
    simp only [Function.comp_apply, hget, hbefore, Option.bind_some, callbacks?_of_beq hsame]
    cases value.callbacks? <;> simp
  · simp only [Function.comp_apply, Document.attaches, hget, Option.bind_some]
    cases hevent : eventName? key with
    | none => rfl
    | some event => rw [hbinds key event hevent]

/-- A key that is neither changed nor gone keeps its handlers. -/
theorem handlers_kept (hchanged : (changedProps old new).get? key = none)
    (hgone : (goneProps old new).get? key = none) :
    (new.get? key).bind PropValue.callbacks? = (old.get? key).bind PropValue.callbacks? := by
  cases hnew : new.get? key with
  | none =>
    -- the key was not there either, or else it would be gone
    cases hold : old.get? key with
    | none => rfl
    | some before =>
      have hleave := (@get?_goneProps old new key before).2 ⟨hold, hnew⟩
      rw [hgone] at hleave
      exact absurd hleave (by simp)
  | some value =>
    -- the value counts as equal to the one before, or else it would be changed
    have hbefore : ∃ before ∈ old.get? key, (before == value) = true := by
      by_contra hdiffers
      have hchange := (@get?_changedProps old new key value).2
        ⟨hnew, fun before hbefore => Bool.eq_false_iff.2 fun hsame =>
          hdiffers ⟨before, hbefore, hsame⟩⟩
      rw [hchanged] at hchange
      exact absurd hchange (by simp)
    obtain ⟨before, hbefore, hsame⟩ := hbefore
    rw [Option.mem_def.1 hbefore, Option.bind_some, Option.bind_some, callbacks?_of_beq hsame]

/-- For a key a call with its new value is made, or else the key keeps its handlers. -/
theorem call_or_kept (old new : Props) (key : String) :
    (∃ call ∈ propCalls old new, call.key = key ∧ call.next = new.get? key) ∨
      key ∉ (propCalls old new).map PropCall.key ∧
        (new.get? key).bind PropValue.callbacks? = (old.get? key).bind PropValue.callbacks? := by
  cases hchanged : (changedProps old new).get? key with
  | some value =>
    have hcall : (⟨key, old.get? key, some value⟩ : PropCall) ∈ propCalls old new :=
      List.mem_append_left _ (List.mem_map.2 ⟨_, KeyTable.get?_eq_some_iff.1 hchanged, rfl⟩)
    exact .inl ⟨_, hcall, rfl, (get?_changedProps.1 hchanged).1.symm⟩
  | none =>
    cases hgone : (goneProps old new).get? key with
    | some value =>
      have hcall : (⟨key, some value, none⟩ : PropCall) ∈ propCalls old new :=
        List.mem_append_right _ (List.mem_map.2 ⟨_, KeyTable.get?_eq_some_iff.1 hgone, rfl⟩)
      exact .inl ⟨_, hcall, rfl, (get?_goneProps.1 hgone).2.symm⟩
    | none =>
      refine .inr ⟨?_, handlers_kept hchanged hgone⟩
      rw [keys_propCalls, List.mem_append, KeyTable.keys, KeyTable.keys, KeyTable.mem_keys_iff,
        KeyTable.mem_keys_iff, KeyTable.contains, KeyTable.contains, hchanged, hgone]
      simp

/-- **New props renew what the key of an event binds.** -/
theorem binding?_propCalls {f : String → Nat → Option PropValue} {time : String → Nat → Int}
    {k : Nat} (new : Props) (howns : d.Owns fun _ => True) (h : d.element? n = some e)
    (hf : ∀ key, f key k = old.get? key)
    (hbound : ∀ key event, eventName? key = some event →
      BoundSince event (f key) (time key) k (d.binding? n key))
    (hevent : eventName? key = some event) :
    (d.patchEach n (propCalls old new)).binding? n key =
      Listener.renewed event (d.clock.after ((newlyBound old new).idxOf key)).now (new.get? key)
        (d.binding? n key) := by
  have hattaching : d.attaching n (propCalls old new) = newlyBound old new := by
    refine attaching_propCalls fun key event hevent => ?_
    rw [← hf key, Bool.eq_iff_iff, Option.isNone_iff_eq_none, Option.isNone_iff_eq_none]
    exact (hbound key event hevent).eq_none_iff
  rcases call_or_kept old new key with ⟨call, hcall, rfl, hnext⟩ | ⟨hnot, hsame⟩
  · rw [Document.binding?_patchEach_of_mem howns h (nodup_keys_propCalls old new) hcall hevent,
      hattaching, hnext]
  · rw [Document.binding?_patchEach_of_not_mem howns h hnot,
      (hbound key event hevent).renewed_eq (by rw [hsame, hf])]

/-! ## Mounting -/

mutual

/-- How many listeners are made when a tree is mounted. -/
def listenerCount : VNode → Nat
  | mk (.element _) props children _ =>
    listenerCountIn children + (newlyBound .empty (props.getD .empty)).length
  | mk .text _ _ _ => 0
  | mk .comment _ _ _ => 0
  | mk .fragment _ children _ => listenerCountIn children
  | mk (.component _) _ _ _ => 0

/-- How many listeners are made when children are mounted. -/
def listenerCountIn : Children → Nat
  | .none => 0
  | .text _ => 0
  | .nodes nodes => listenerCountEach nodes

/-- How many listeners are made when several trees are mounted. -/
def listenerCountEach : List VNode → Nat
  | [] => 0
  | v :: rest => listenerCount v + listenerCountEach rest

end

/-- Setting a text does not read the clock. -/
theorem clock_setElementText (d : Document) (n : NodeId) (content : String) :
    (d.setElementText n content).clock = d.clock := by
  unfold Document.setElementText
  dsimp only
  split <;> exact (Document.rest_foldl_setParent _ _).2.1

/-- Taking nodes out does not read the clock. -/
theorem clock_takeOut (nodes : List NodeId) (d : Document) :
    (nodes.foldl Document.takeOut d).clock = d.clock := by
  induction nodes generalizing d with
  | nil => rfl
  | cons first rest ih =>
    rw [List.foldl_cons, ih, Document.takeOut]
    split <;> rfl

/-- Putting a node in does not either. -/
theorem clock_insert (d : Document) (n p : NodeId) (anchor : Option NodeId) :
    (d.insert n p anchor).clock = d.clock := by
  simp only [Document.insert, Document.detach]
  split <;> rfl

/-- The work reads the clock a number of times, and listeners go on being bound once. -/
def Reads {α : Type} (work : Work α) (d : Document) (readings : Nat) : Prop :=
  ∃ a d', Runs work d a d' ∧ d'.clock = d.clock.after readings ∧ d'.Owns fun _ => True

/-- **What is bound where an element is mounted**, if its children read the clock a number of
times: the handlers of the keys of events, each at the reading that falls to it. -/
theorem mountElement_runs {children : Children} {readings : Nat} (props : Option Props)
    (el : Option NodeId) (howns : d.Owns fun _ => True)
    (hfill : Reads (fill children (d.createElement tag).1) (d.createElement tag).2 readings) :
    ∃ v' d' e', Runs (mount p (mk (.element tag) props children el)) d v' d' ∧
      v'.el = some (d.createElement tag).1 ∧
      d'.clock = d.clock.after (readings + (newlyBound .empty (props.getD .empty)).length) ∧
      (d'.Owns fun _ => True) ∧
      d'.element? (d.createElement tag).1 = some e' ∧ e'.tag = tag ∧
      ∀ key event, eventName? key = some event →
        d'.binding? (d.createElement tag).1 key = Listener.renewed event
          (d.clock.after (readings + (newlyBound .empty (props.getD .empty)).idxOf key)).now
          ((props.getD .empty).get? key) none := by
  have hcreate : Runs (Work.create (·.createElement tag)) d (d.createElement tag).1
      (d.createElement tag).2 := .create _ d
  have howns₁ := (Document.Retains.operation (.createElement tag) d).owns howns
  have hnew₁ : (d.createElement tag).2.element? (d.createElement tag).1 = some (.new tag) := by
    rw [Document.element?_eq_some_iff, Document.createElement, Document.node_create, if_pos rfl]
  have hclock₁ : (d.createElement tag).2.clock = d.clock := rfl
  change (Document.Owns (d.createElement tag).2 fun _ => True) at howns₁
  generalize (d.createElement tag).1 = n at *
  generalize (d.createElement tag).2 = d₁ at *
  -- filling leaves the element as it is, new
  obtain ⟨children', d₂, hfill, hclock₂, howns₂⟩ := hfill
  have hleaves := hfill.leaves (fill_operates children n) (Document.has_of_element? hnew₁)
  have hnew₂ := (hleaves.element (Document.has_of_element? hnew₁)).trans hnew₁
  have hnone (key : String) : d₂.binding? n key = none := Document.binding?_of_element? hnew₂ key
  -- then it gets its props
  have hprops := mountProps_calls n (props.getD .empty) d₂
  have hclock₃ := Document.clock_patchEach howns₂ hnew₂
    (nodup_keys_propCalls .empty (props.getD .empty))
  have hzero : ∀ key event, eventName? key = some event →
      BoundSince event (fun _ => (KeyTable.empty : Props).get? key) (fun _ => 0) 0
        (d₂.binding? n key) := fun key event _ => by
    rw [hnone]
    exact .zero rfl
  have hbinding₃ := fun key event (hevent : eventName? key = some event) =>
    binding?_propCalls (props.getD .empty) howns₂ hnew₂ (fun _ => rfl) hzero hevent
  rw [attaching_propCalls fun key event _ => by rw [hnone]; rfl] at hclock₃
  obtain ⟨howns₃, e', helement₃, htag⟩ := Document.patchEach_element? howns₂ hnew₂
    (propCalls .empty (props.getD .empty))
  generalize d₂.patchEach n (propCalls .empty (props.getD .empty)) = d₃ at *
  -- and is put in
  have hinsert : Document.Leaves n d₃ (d₃.insert n p none) :=
    .operation (.insert n p none) (fun _ _ => by simp) d₃
  have has₃ := Document.has_of_element? helement₃
  refine ⟨mk (.element tag) props children' (some n), d₃.insert n p none, e', ?_, rfl, ?_,
    hinsert.owns howns₃, (hinsert.element has₃).trans helement₃, htag, fun key event hevent => ?_⟩
  · rw [mount_element]
    exact hcreate.bind (hfill.bind (hprops.bind ((Runs.change _ d₃).bind (.pure _ _))))
  · rw [clock_insert, hclock₃, hclock₂, hclock₁, Clock.after_after]
  · rw [hinsert.binding howns₃ has₃, hbinding₃ key event hevent, hnone, hclock₂, hclock₁,
      Clock.after_after]

mutual

/-- **Mounting reads the clock once for each listener.** -/
theorem mount_clock : ∀ (v : VNode) (p : NodeId) (d : Document), v.component? = none →
    (d.Owns fun _ => True) → Reads (mount p v) d v.listenerCount
  | mk (.element tag) props children el, p, d, h, howns => by
    have howns₁ := (Document.Retains.operation (.createElement tag) d).owns howns
    have hfill := fill_clock children (d.createElement tag).1 (d.createElement tag).2
      (component?_mk h).2 howns₁
    obtain ⟨v', d', -, hruns, -, hclock, howns', -⟩ :=
      mountElement_runs props el howns hfill
    exact ⟨v', d', hruns, hclock, howns'⟩
  | mk .text props children el, p, d, _, howns => by
    have howns₁ := (Document.Retains.operation (.createText (children.text?.getD "")) d).owns howns
    refine ⟨_, _, (Runs.create _ d).bind ((Runs.change _ _).bind (.pure _ _)), ?_,
      (Document.Retains.operation (.insert _ p none) _).owns howns₁⟩
    rw [clock_insert, listenerCount, Clock.after_zero]
    rfl
  | mk .comment props children el, p, d, _, howns => by
    have howns₁ :=
      (Document.Retains.operation (.createComment (children.text?.getD "")) d).owns howns
    refine ⟨_, _, (Runs.create _ d).bind ((Runs.change _ _).bind (.pure _ _)), ?_,
      (Document.Retains.operation (.insert _ p none) _).owns howns₁⟩
    rw [clock_insert, listenerCount, Clock.after_zero]
    rfl
  | mk .fragment props .none el, p, d, _, howns =>
    ⟨mk .fragment props .none none, d, .pure _ d, (Clock.after_zero _).symm, howns⟩
  | mk .fragment props (.text content) el, p, d, _, howns =>
    ⟨mk .fragment props (.text content) none, d, .pure _ d, (Clock.after_zero _).symm, howns⟩
  | mk .fragment props (.nodes nodes) el, p, d, h, howns => by
    obtain ⟨nodes', d', hruns, hclock, howns'⟩ :=
      mountEach_clock nodes p d (component?_mk h).2 howns
    exact ⟨_, d', (hruns.map Children.nodes).bind (.pure _ d'), hclock, howns'⟩
  | mk (.component name) _ _ _, _, _, h, _ =>
    absurd (component?_mk h).1 (by simp [VKind.isComponent])

/-- Several trees read the clock as often as each of them does. -/
theorem mountEach_clock : ∀ (nodes : List VNode) (p : NodeId) (d : Document),
    componentOf? nodes = none → (d.Owns fun _ => True) →
      Reads (mountEach p nodes) d (listenerCountEach nodes)
  | [], p, d, _, howns => ⟨[], d, .pure _ d, (Clock.after_zero _).symm, howns⟩
  | v :: rest, p, d, h, howns => by
    obtain ⟨hv, hrest⟩ := componentOf?_cons h
    obtain ⟨v', d₁, hmount, hclock₁, howns₁⟩ := mount_clock v p d hv howns
    obtain ⟨rest', d', hmount', hclock', howns'⟩ := mountEach_clock rest p d₁ hrest howns₁
    refine ⟨v' :: rest', d', hmount.bind (hmount'.bind (.pure _ d')), ?_, howns'⟩
    rw [hclock', hclock₁, Clock.after_after, listenerCountEach]

/-- Mounting children reads the clock once for each listener below them. -/
theorem fill_clock : ∀ (children : Children) (n : NodeId) (d : Document),
    componentIn? children = none → (d.Owns fun _ => True) →
      Reads (fill children n) d (listenerCountIn children)
  | .none, _, d, _, howns => ⟨.none, d, .pure _ d, (Clock.after_zero _).symm, howns⟩
  | .text content, n, d, _, howns => by
    refine ⟨.text content, _, (Runs.change _ d).bind (.pure _ _), ?_,
      (Document.Retains.operation (.setElementText n content) d).owns howns⟩
    rw [clock_setElementText, listenerCountIn, Clock.after_zero]
  | .nodes nodes, n, d, h, howns => by
    obtain ⟨nodes', d', hruns, hclock, howns'⟩ := mountEach_clock nodes n d h howns
    exact ⟨.nodes nodes', d', hruns.map _, hclock, howns'⟩

end

end VNode
end View
end ReactiveView
