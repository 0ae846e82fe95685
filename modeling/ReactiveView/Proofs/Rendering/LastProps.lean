/-
# The last prop under each key

Changing a prop looks at what the element is under that one key and at nothing else, and what it
makes of it depends on the new value alone: not on the value before, which the caller names, nor
on what was there.  So a new element wears in the end the last value under each key
(`Document.patchEach_dressed`), whatever was there in between: a handler that was taken off by a
text and bound again, a property that was set and emptied, an attribute that came and went.

Elements with one tag that wear the same look the same (`Document.Wears.look_congr`), and so do
new elements after calls that agree on the last value under each key
(`Document.look_patchEach`).
-/

import Mathlib.Data.List.Induction
import ReactiveView.Proofs.Rendering.Dress

namespace ReactiveView
namespace View

/-! ## Calls -/

/-- A call to change a prop of an element. -/
structure PropCall where
  key : String
  /-- The value before, as the caller has it. -/
  prev : Option PropValue
  /-- The value from now on, if there is one. -/
  next : Option PropValue

/-- The value of a key after some calls: that of the last call for it, and none without such a
call. -/
def lastNext (calls : List PropCall) (key : String) : Option PropValue :=
  (calls.reverse.find? (·.key = key)).bind PropCall.next

/-- One more call dresses what the calls before it left. -/
theorem lastNext_append_single (calls : List PropCall) (call : PropCall) :
    lastNext (calls ++ [call]) = dress (lastNext calls) call.key call.next := by
  funext key
  by_cases hkey : call.key = key <;> simp [lastNext, dress, hkey]

namespace Document

variable {d d' : Document} {n n' : NodeId} {e e' : Element} {tag : String}
  {f : String → Option PropValue} {calls calls' : List PropCall}

/-- The document after the calls for a node.  What the calls take for the values before is not
looked at. -/
def patchEach (d : Document) (n : NodeId) (calls : List PropCall) : Document :=
  calls.foldl (fun d call => d.patchProp n call.key call.next) d

/-! ## What is worn in the end -/

/-- **A new element wears the last value under each key.** -/
theorem patchEach_dressed (h : d.element? n = some (.new tag)) (calls : List PropCall) :
    Redresses (· = n) n d (d.patchEach n calls) ∧
      (d.patchEach n calls).Dressed n tag (lastNext calls) := by
  have hdata := element?_eq_some_iff.1 h
  -- a new element binds nothing
  have howns : d.Owns (· = n) := by
    rintro m key l rfl ⟨e, he, hl⟩
    obtain rfl := DomData.element.inj (hdata.symm.trans he)
    exact absurd hl (Option.some_ne_none l).symm
  induction calls using List.reverseRecOn with
  | nil => exact ⟨.refl .., _, hdata, rfl, wears_new d tag⟩
  | append_singleton calls call ih =>
    obtain ⟨hredresses, hdressed⟩ := ih
    obtain ⟨hlast, hdressed⟩ := patchProp_dressed (S := (· = n)) rfl (hredresses.within.owns howns)
      hdressed call.key call.next
    rw [patchEach, List.foldl_append, lastNext_append_single]
    exact ⟨hredresses.trans hlast, hdressed⟩

/-- Elements with one tag that wear the same look the same. -/
theorem Wears.look_congr (h : d.Wears e f) (h' : d'.Wears e' f) (htag : e'.tag = e.tag) :
    d'.look e' = d.look e := by
  have htells (key : String) : d'.tells e' key = d.tells e key := by
    rw [h'.tells, h.tells, htag]
  simp only [Document.tells, Prod.mk.injEq] at htells
  have hattributes : e'.attributes = e.attributes := KeyTable.ext_get? fun key => (htells key).1
  have hproperties : (e'.properties.filterMap fun _ prop => prop.shown) =
      e.properties.filterMap fun _ prop => prop.shown :=
    KeyTable.ext_get? fun key => by
      rw [KeyTable.get?_filterMap, KeyTable.get?_filterMap]
      exact (htells key).2.1
  have hhandlers : (e'.listeners.filterMap fun _ l =>
        some ((d'.listener l).event, (d'.listener l).callbacks)) =
      e.listeners.filterMap fun _ l => some ((d.listener l).event, (d.listener l).callbacks) :=
    KeyTable.ext_get? fun key => by
      rw [KeyTable.get?_filterMap, KeyTable.get?_filterMap]
      simpa only [Option.map_eq_bind, Function.comp_def] using (htells key).2.2
  simp only [look, htag, h'.className.trans h.className.symm, hattributes, hproperties, hhandlers]

/-- **The last value under each key is all that matters.**  Take a new element, and another new
one with the same tag, in any documents.  After calls for the one and calls for the other that
agree on the last value under each key the two look the same: they have the same class, the same
attributes, the same properties that are on or not empty, and under the same keys the same events
and handlers.  What each key says is what its last value says. -/
theorem look_patchEach (h : d.element? n = some (.new tag)) (h' : d'.element? n' = some (.new tag))
    (hlast : ∀ key, lastNext calls key = lastNext calls' key) :
    ∃ e e', (d.patchEach n calls).element? n = some e ∧
      (d'.patchEach n' calls').element? n' = some e' ∧
      (d'.patchEach n' calls').look e' = (d.patchEach n calls).look e ∧
      (d.patchEach n calls).Wears e (lastNext calls) := by
  obtain ⟨-, e, hdata, htag, hwears⟩ := patchEach_dressed h calls
  obtain ⟨-, e', hdata', htag', hwears'⟩ := patchEach_dressed h' calls'
  rw [← funext hlast] at hwears'
  exact ⟨e, e', element?_eq_some_iff.2 hdata, element?_eq_some_iff.2 hdata',
    hwears.look_congr hwears' (htag'.trans htag.symm), hwears⟩

/-- Every kind of key is changed more than once. -/
def longWay : List PropCall :=
  [⟨"onClick", none, some (.handler ⟨0⟩)⟩, ⟨"title", none, some (.text "a")⟩,
    ⟨"class", none, some (.text "b")⟩, ⟨"onClick", some (.handler ⟨0⟩), some (.text "c")⟩,
    ⟨"checked", none, some (.text "")⟩, ⟨"data-d", none, some (.bool false)⟩,
    ⟨"onClick", none, some (.handler ⟨1⟩)⟩, ⟨"title", some (.text "a"), none⟩,
    ⟨"class", none, some .null⟩, ⟨"data-d", none, some (.text "e")⟩]

/-- Each key is changed at most once, to its last value. -/
def shortWay : List PropCall :=
  [⟨"data-d", none, some (.text "e")⟩, ⟨"class", none, some .null⟩,
    ⟨"checked", none, some (.text "")⟩, ⟨"onClick", some .null, some (.handler ⟨1⟩)⟩]

/-- An input that was changed back and forth looks like one that was changed at once. -/
theorem look_patchEach_input :
    ((empty ⟨0, 1⟩).createElement "input").2.element? ⟨0⟩ = some (.new "input") ∧
      (∀ key, lastNext longWay key = lastNext shortWay key) ∧
      ∃ e e',
        (((empty ⟨0, 1⟩).createElement "input").2.patchEach ⟨0⟩ longWay).element? ⟨0⟩ = some e ∧
        (((empty ⟨0, 1⟩).createElement "input").2.patchEach ⟨0⟩ shortWay).element? ⟨0⟩ = some e' ∧
        (((empty ⟨0, 1⟩).createElement "input").2.patchEach ⟨0⟩ shortWay).look e' =
          (((empty ⟨0, 1⟩).createElement "input").2.patchEach ⟨0⟩ longWay).look e ∧
        (((empty ⟨0, 1⟩).createElement "input").2.patchEach ⟨0⟩ longWay).Wears e
          (lastNext longWay) := by
  have hlast : ∀ key, lastNext longWay key = lastNext shortWay key := by
    intro key
    by_cases hkey : key ∈ ["onClick", "title", "class", "checked", "data-d"]
    · simp only [List.mem_cons, List.not_mem_nil, or_false] at hkey
      rcases hkey with rfl | rfl | rfl | rfl | rfl <;> rfl
    · simp only [List.mem_cons, List.not_mem_nil, or_false, not_or, eq_comm (a := key)] at hkey
      simp [lastNext, longWay, shortWay, hkey]
  exact ⟨rfl, hlast, look_patchEach rfl rfl hlast⟩

end Document
end View
end ReactiveView
