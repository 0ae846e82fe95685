/-
# The keys of handlers

A handler is bound to an event under a key that is made of the name: `on`, and then the name with
its first character in capitals.  The event that the key binds is the name in small letters
(`eventName?_eventKey`), so names that differ in capitals bind the same event; but they do so
under different keys, unless it is the first character alone in which they differ
(`eventKey_eq_iff`).  All this is about the letters of ASCII.

Of the handlers that are bound one after the other under one key the last one holds
(`VNode.get?_onEach_iff`).
-/

import Mathlib.Data.Fintype.EquivFin
import Mathlib.Order.WellFounded
import ReactiveView.View.VNode

namespace ReactiveView
namespace View

open Reactive (CallbackId)

/-! ## Capitals -/

/-- Small letters of ASCII lie 32 places above the capitals, and only they are changed. -/
theorem toNat_toUpper (c : Char) :
    c.toUpper.toNat = if 97 ≤ c.toNat ∧ c.toNat ≤ 122 then c.toNat - 32 else c.toNat := by
  unfold Char.toUpper
  split <;> rename_i h
  · have h : 97 ≤ c.toNat ∧ c.toNat ≤ 122 := by simpa [UInt32.le_iff_toNat_le] using h
    rw [if_pos h, ← Char.toNat_val, UInt32.toNat_add]
    simp only [Char.toNat_val, UInt32.reduceSub, Char.reduceVal, UInt32.reduceToNat, Nat.reducePow]
    omega
  · have h : ¬ (97 ≤ c.toNat ∧ c.toNat ≤ 122) := by simpa [UInt32.le_iff_toNat_le] using h
    rw [if_neg h]

/-- Lower case moves the capitals up by 32 and leaves the other characters. -/
theorem toNat_toLower (c : Char) :
    c.toLower.toNat = if 65 ≤ c.toNat ∧ c.toNat ≤ 90 then c.toNat + 32 else c.toNat := by
  unfold Char.toLower
  split <;> rename_i h
  · have h : 65 ≤ c.toNat ∧ c.toNat ≤ 90 := by simpa [UInt32.le_iff_toNat_le] using h
    rw [if_pos h, ← Char.toNat_val, UInt32.toNat_add]
    simp only [Char.toNat_val, UInt32.reduceSub, Char.reduceVal, UInt32.reduceToNat, Nat.reducePow]
    omega
  · have h : ¬ (65 ≤ c.toNat ∧ c.toNat ≤ 90) := by simpa [UInt32.le_iff_toNat_le] using h
    rw [if_neg h]

/-- Characters have the same capital if they have the same small letter. -/
theorem toUpper_eq_toUpper_iff {c c' : Char} :
    c.toUpper = c'.toUpper ↔ c.toLower = c'.toLower := by
  simp only [← Char.toNat_inj, toNat_toUpper, toNat_toLower]
  split_ifs <;> omega

/-- Through its capital a character has the small letter that it has. -/
theorem toLower_toUpper (c : Char) : c.toUpper.toLower = c.toLower := by
  simp only [← Char.toNat_inj, toNat_toUpper, toNat_toLower]
  split_ifs <;> omega

/-! ## Keys -/

/-- The names are the same but for the case of the first character at most. -/
def SameButFirst (name name' : String) : Prop :=
  name.toList.head?.map Char.toLower = name'.toList.head?.map Char.toLower ∧
    name.toList.tail = name'.toList.tail

instance (name name' : String) : Decidable (SameButFirst name name') :=
  inferInstanceAs (Decidable (_ ∧ _))

/-- **The key of an event**, character by character. -/
theorem eventKey_eq (name : String) :
    eventKey name = String.ofList
      ('o' :: 'n' :: ((name.toList.head?.map Char.toUpper).toList ++ name.toList.tail)) := by
  unfold eventKey
  cases name.toList <;> rfl

/-- **Two names have the same key exactly if they are the same but for the case of the first
character.** -/
theorem eventKey_eq_iff {name name' : String} :
    eventKey name = eventKey name' ↔ SameButFirst name name' := by
  rw [eventKey_eq, eventKey_eq, String.ofList_inj, SameButFirst]
  cases name.toList with
  | nil => cases name'.toList <;> simp
  | cons c rest => cases name'.toList <;> simp [toUpper_eq_toUpper_iff]

/-- **The key of a name binds the event of the name in small letters.** -/
theorem eventName?_eventKey {name : String} (h : name ≠ "") :
    eventName? (eventKey name) = some (asciiLower name) := by
  obtain ⟨c, rest, hname⟩ :=
    List.exists_cons_of_ne_nil fun hnil => h (String.toList_eq_nil_iff.1 hnil)
  simp only [eventKey, eventName?, asciiLower, hname, String.toList_ofList, List.map_cons,
    toLower_toUpper]

/-! ## Handlers one after the other -/

namespace VNode

/-- The virtual node has no handlers. -/
def Silent (v : VNode) : Prop :=
  ∀ key event, eventName? key = some event → (v.props.get? key).bind PropValue.callbacks? = none

/-- The virtual node with handlers bound to events one after the other. -/
def onEach (calls : List (String × CallbackId)) (v : VNode) : VNode :=
  calls.foldl (fun v call => v.on call.1 call.2) v

variable {calls : List (String × CallbackId)} {key : String}

/-- Handlers are bound one after the other. -/
theorem onEach_append (calls calls' : List (String × CallbackId)) (v : VNode) :
    v.onEach (calls ++ calls') = (v.onEach calls).onEach calls' :=
  List.foldl_append ..

/-- Binding a handler leaves the kind of node. -/
theorem kind_on (event : String) (handler : CallbackId) (v : VNode) :
    (v.on event handler).kind = v.kind := by
  cases v
  rfl

/-- **The handler is found under its key**, and the other props are as they were. -/
theorem get?_on (event : String) (handler : CallbackId) (v : VNode) (key : String) :
    (v.on event handler).props.get? key =
      if eventKey event = key then some (.handler handler) else v.props.get? key := by
  obtain ⟨kind, props, children, el⟩ := v
  exact KeyTable.get?_insert ..

/-- Any number of handlers leave the kind of node. -/
theorem kind_onEach (calls : List (String × CallbackId)) (v : VNode) :
    (v.onEach calls).kind = v.kind := by
  induction calls generalizing v with
  | nil => rfl
  | cons call rest ih => exact (ih _).trans (kind_on ..)

/-- Other keys hold what they did. -/
theorem get?_onEach_of_ne (h : ∀ call ∈ calls, eventKey call.1 ≠ key) (v : VNode) :
    (v.onEach calls).props.get? key = v.props.get? key := by
  induction calls generalizing v with
  | nil => rfl
  | cons call rest ih =>
    obtain ⟨hcall, hrest⟩ := List.forall_mem_cons.1 h
    exact (ih hrest _).trans ((get?_on ..).trans (if_neg hcall))

/-- A handler holds under its key if none after it is bound under the same one. -/
theorem get?_onEach_of_last (i : Fin calls.length)
    (hlast : ∀ j, i < j → eventKey (calls.get j).1 ≠ eventKey (calls.get i).1) (v : VNode) :
    (v.onEach calls).props.get? (eventKey (calls.get i).1) = some (.handler (calls.get i).2) := by
  have hafter : ∀ call ∈ calls.drop (i + 1), eventKey call.1 ≠ eventKey (calls.get i).1 := by
    intro call hcall
    obtain ⟨j, hj, rfl⟩ := List.mem_drop_iff_getElem.1 hcall
    exact hlast ⟨i + 1 + j, by omega⟩
      (Nat.lt_of_lt_of_le (Nat.lt_succ_self i) (Nat.le_add_right _ j))
  have hsplit : calls.take i ++ calls.get i :: calls.drop (i + 1) = calls := by simp
  have hcalls := onEach_append (calls.take i) (calls.get i :: calls.drop (i + 1)) v
  rw [hsplit] at hcalls
  rw [hcalls]
  refine (get?_onEach_of_ne hafter _).trans ?_
  rw [get?_on, if_pos rfl]

/-- **Under a key the last handler holds that was bound under it**, or what was there before. -/
theorem get?_onEach_iff {v : VNode} {callbacks : List CallbackId}
    (hv : (v.props.get? key).bind PropValue.callbacks? = none) :
    ((v.onEach calls).props.get? key).bind PropValue.callbacks? = some callbacks ↔
      ∃ i : Fin calls.length, eventKey (calls.get i).1 = key ∧
        (∀ j, i < j → eventKey (calls.get j).1 ≠ key) ∧ callbacks = [(calls.get i).2] := by
  constructor
  · intro h
    by_cases hbound : ∃ i : Fin calls.length, eventKey (calls.get i).1 = key
    · -- the last of the calls for the key
      obtain ⟨i, hi, hlast⟩ := (wellFounded_gt (α := Fin calls.length)).has_min
        {i | eventKey (calls.get i).1 = key} hbound
      have hlast : ∀ j, i < j → eventKey (calls.get j).1 ≠ key := fun j hj hkey => hlast j hkey hj
      have hi : eventKey (calls.get i).1 = key := hi
      refine ⟨i, hi, hlast, ?_⟩
      rw [← hi, get?_onEach_of_last i fun j hj => hi ▸ hlast j hj] at h
      exact (Option.some.inj h).symm
    · have hother : ∀ call ∈ calls, eventKey call.1 ≠ key := by
        intro call hcall hkey
        obtain ⟨i, hi, rfl⟩ := List.mem_iff_getElem.1 hcall
        exact hbound ⟨⟨i, hi⟩, hkey⟩
      rw [get?_onEach_of_ne hother, hv] at h
      exact absurd h (by simp)
  · rintro ⟨i, rfl, hlast, rfl⟩
    rw [get?_onEach_of_last i hlast]
    rfl

end VNode
end View
end ReactiveView
