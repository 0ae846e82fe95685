/-
# More about key tables

What an insertion does to the keys of a table, and tables made from the values of
another one.
-/

import ReactiveView.KeyTable

namespace ReactiveView
namespace KeyTable

variable {α : Type}

/-- A value is exchanged under its key. -/
theorem insertEntry_keys {key : String} {old : α} (value : α) {entries : List (String × α)}
    (hsorted : entries.Pairwise fun a b => a.1 < b.1) (h : find? key entries = some old) :
    (insertEntry key value entries).map Prod.fst = entries.map Prod.fst := by
  induction entries with
  | nil => exact absurd h (by simp [find?])
  | cons first rest ih =>
    obtain ⟨hfirst, hrest⟩ := List.pairwise_cons.1 hsorted
    by_cases hkey : first.1 = key
    · simp [insertEntry, hkey]
    · have hfind : find? key rest = some old := by
        simpa [find?, hkey] using h
      have hlt : ¬ key < first.1 := by
        intro hlt
        have hnone : find? key rest = none :=
          find?_eq_none_of_forall_lt fun entry he => String.lt_trans hlt (hfirst entry he)
        rw [hnone] at hfind
        exact absurd hfind (by simp)
      simp [insertEntry, hlt, Ne.symm hkey, ih hrest hfind]

/-- A new value for a key that is there leaves the keys as they are. -/
theorem keys_insert_of_contains {table : KeyTable α} {key : String} (value : α)
    (h : table.contains key = true) : (table.insert key value).keys = table.keys := by
  obtain ⟨old, hold⟩ := Option.isSome_iff_exists.1 h
  exact insertEntry_keys value table.sorted hold

/-- The value at a key is that of the one entry with the key. -/
theorem get?_eq_some_iff {table : KeyTable α} {key : String} {value : α} :
    table.get? key = some value ↔ (key, value) ∈ table.entries := by
  obtain ⟨entries, hsorted⟩ := table
  simp only [get?]
  induction entries with
  | nil => simp [find?]
  | cons first rest ih =>
    obtain ⟨hfirst, hrest⟩ := List.pairwise_cons.1 hsorted
    by_cases hkey : first.1 = key
    · subst hkey
      have hnot : (first.1, value) ∉ rest := fun hmem =>
        String.lt_irrefl _ (hfirst (first.1, value) hmem)
      simp only [find?, if_true, Option.some.injEq, List.mem_cons, hnot, or_false]
      constructor
      · rintro rfl
        rfl
      · intro h
        rw [← h]
    · have hne : (key, value) ≠ first := fun h => hkey (by rw [← h])
      simp [find?, hkey, hne, ih hrest]

/-- No key stands twice, since the keys ascend. -/
theorem nodup_keys (table : KeyTable α) : (table.entries.map Prod.fst).Nodup := by
  have hsorted : (table.entries.map Prod.fst).Pairwise (· < ·) := List.pairwise_map.2 table.sorted
  refine hsorted.imp ?_
  intro a b hlt
  rintro rfl
  exact String.lt_irrefl a hlt

/-- The keys are those under which something is found. -/
theorem mem_keys_iff {table : KeyTable α} {key : String} :
    key ∈ table.entries.map Prod.fst ↔ table.contains key = true := by
  rw [contains, Option.isSome_iff_exists, List.mem_map]
  constructor
  · rintro ⟨entry, hmem, rfl⟩
    exact ⟨entry.2, get?_eq_some_iff.2 hmem⟩
  · rintro ⟨value, hvalue⟩
    exact ⟨(key, value), get?_eq_some_iff.1 hvalue, rfl⟩

/-! ## Tables from tables -/

variable {β : Type}

/-- The table of what the entries become; an entry that becomes nothing is left out. -/
def filterMap (f : String → α → Option β) (table : KeyTable α) : KeyTable β where
  entries := table.entries.filterMap fun entry => (f entry.1 entry.2).map (entry.1, ·)
  sorted := by
    refine List.Pairwise.filterMap _ ?_ table.sorted
    intro a a' hlt b hb b' hb'
    obtain ⟨value, -, rfl⟩ := Option.map_eq_some_iff.1 hb
    obtain ⟨value', -, rfl⟩ := Option.map_eq_some_iff.1 hb'
    exact hlt

/-- A table is filtered key by key. -/
@[simp] theorem get?_filterMap (f : String → α → Option β) (table : KeyTable α) (key : String) :
    (table.filterMap f).get? key = (table.get? key).bind (f key) := by
  refine Option.ext ?_
  intro value
  rw [get?_eq_some_iff, Option.bind_eq_some_iff]
  simp only [filterMap, List.mem_filterMap, Option.map_eq_some_iff, Prod.mk.injEq]
  constructor
  · rintro ⟨entry, hmem, value', hvalue, rfl, rfl⟩
    exact ⟨entry.2, get?_eq_some_iff.2 hmem, hvalue⟩
  · rintro ⟨old, hold, hvalue⟩
    exact ⟨(key, old), get?_eq_some_iff.1 hold, value, hvalue, rfl, rfl⟩

end KeyTable
end ReactiveView
