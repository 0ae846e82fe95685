/-
# Key tables

Finite maps from texts, kept in the order of their keys: properties of objects,
attributes of elements, props of virtual nodes.  Keys are compared by code point.
Two tables that answer every look-up alike are equal (`KeyTable.ext_get?`).
-/

namespace ReactiveView

/-- A finite map from texts, its entries in the order of the keys. -/
structure KeyTable (α : Type) where
  /-- The keys with their values. -/
  entries : List (String × α)
  sorted : entries.Pairwise fun a b => a.1 < b.1

namespace KeyTable

variable {α : Type}

/-! ## Sorted lists of entries -/

/-- Puts an entry at its place, instead of an entry with the same key. -/
def insertEntry (key : String) (value : α) : List (String × α) → List (String × α)
  | [] => [(key, value)]
  | entry :: rest =>
    if key < entry.1 then (key, value) :: entry :: rest
    else if key = entry.1 then (key, value) :: rest
    else entry :: insertEntry key value rest

/-- The value at a key. -/
def find? (key : String) : List (String × α) → Option α
  | [] => none
  | entry :: rest => if entry.1 = key then some entry.2 else find? key rest

/-- What is in the list after an insertion was inserted or was there. -/
theorem mem_insertEntry {key : String} {value : α} {entry : String × α}
    {entries : List (String × α)} (h : entry ∈ insertEntry key value entries) :
    entry = (key, value) ∨ entry ∈ entries := by
  induction entries with
  | nil => exact .inl (by simpa [insertEntry] using h)
  | cons first rest ih =>
    simp only [insertEntry] at h
    split at h
    · simpa using h
    · split at h
      · rcases List.mem_cons.1 h with h | h
        · exact .inl h
        · exact .inr (List.mem_cons_of_mem _ h)
      · rcases List.mem_cons.1 h with h | h
        · exact .inr (h ▸ List.mem_cons_self)
        · exact (ih h).imp id (List.mem_cons_of_mem _)

/-- **Insertion keeps the order**, since it stops before the first greater key. -/
theorem sorted_insertEntry (key : String) (value : α) {entries : List (String × α)}
    (h : entries.Pairwise fun a b => a.1 < b.1) :
    (insertEntry key value entries).Pairwise fun a b => a.1 < b.1 := by
  induction entries with
  | nil => simp [insertEntry]
  | cons first rest ih =>
    obtain ⟨hfirst, hrest⟩ := List.pairwise_cons.1 h
    simp only [insertEntry]
    split
    case isTrue hlt =>
      refine List.pairwise_cons.2 ⟨fun b hb => ?_, h⟩
      rcases List.mem_cons.1 hb with rfl | hb
      · exact hlt
      · exact String.lt_trans hlt (hfirst b hb)
    case isFalse hlt =>
      split
      case isTrue heq => exact List.pairwise_cons.2 ⟨fun b hb => heq ▸ hfirst b hb, hrest⟩
      case isFalse hne =>
        refine List.pairwise_cons.2 ⟨fun b hb => ?_, ih hrest⟩
        rcases mem_insertEntry hb with rfl | hb
        · exact Decidable.byContradiction fun hn =>
            hne (String.le_antisymm (String.not_lt.1 hn) (String.not_lt.1 hlt))
        · exact hfirst b hb

/-- The inserted value is found under its key, and every other key finds what it found. -/
theorem find?_insertEntry (key : String) (value : α) (entries : List (String × α))
    (key' : String) :
    find? key' (insertEntry key value entries) =
      if key = key' then some value else find? key' entries := by
  induction entries with
  | nil => simp [insertEntry, find?]
  | cons first rest ih =>
    simp only [insertEntry]
    split
    · simp [find?]
    · split
      case isTrue heq =>
        subst heq
        simp only [find?]
        split <;> rfl
      case isFalse hne =>
        simp only [find?, ih]
        by_cases h : first.1 = key'
        · simp [h, show key ≠ key' from fun hk => hne (hk.trans h.symm)]
        · simp [h]

/-- A key that comes before all others is not in the list. -/
theorem find?_eq_none_of_forall_lt {key : String} {entries : List (String × α)}
    (h : ∀ entry ∈ entries, key < entry.1) : find? key entries = none := by
  induction entries with
  | nil => rfl
  | cons first rest ih =>
    have hne : first.1 ≠ key := fun he =>
      String.lt_irrefl key (he ▸ h first List.mem_cons_self)
    simp [find?, hne, ih fun entry he => h entry (List.mem_cons_of_mem _ he)]

/-- A key that is taken out finds nothing any more. -/
theorem find?_filter_ne {key : String} (entries : List (String × α)) (key' : String) :
    find? key' (entries.filter fun entry => entry.1 ≠ key) =
      if key = key' then none else find? key' entries := by
  induction entries with
  | nil => simp [find?]
  | cons first rest ih =>
    by_cases h : first.1 = key
    · rw [List.filter_cons_of_neg (by simpa using h), ih, find?, h]
      split <;> simp_all
    · rw [List.filter_cons_of_pos (by simpa using h), find?, ih, find?]
      by_cases hk : first.1 = key'
      · simp [hk, show key ≠ key' from fun hkk => h (hk.trans hkk.symm)]
      · simp [hk]

/-! ## Tables -/

/-- The table without entries. -/
def empty : KeyTable α := ⟨[], .nil⟩

instance : Inhabited (KeyTable α) := ⟨empty⟩
instance : EmptyCollection (KeyTable α) := ⟨empty⟩

/-- The value at a key. -/
def get? (table : KeyTable α) (key : String) : Option α := find? key table.entries

/-- The table has an entry at the key. -/
def contains (table : KeyTable α) (key : String) : Bool := (table.get? key).isSome

/-- The table with the value at the key, in place of an earlier one. -/
def insert (table : KeyTable α) (key : String) (value : α) : KeyTable α :=
  ⟨insertEntry key value table.entries, sorted_insertEntry key value table.sorted⟩

/-- The table without an entry at the key. -/
def erase (table : KeyTable α) (key : String) : KeyTable α :=
  ⟨table.entries.filter fun entry => entry.1 ≠ key, table.sorted.filter _⟩

/-- The keys in order. -/
def keys (table : KeyTable α) : List String := table.entries.map Prod.fst

/-- The values in the order of their keys. -/
def values (table : KeyTable α) : List α := table.entries.map Prod.snd

/-- The number of entries. -/
def size (table : KeyTable α) : Nat := table.entries.length

/-- The table of a list of entries; a later entry replaces an earlier one with
the same key. -/
def ofList (entries : List (String × α)) : KeyTable α :=
  entries.foldl (fun table entry => table.insert entry.1 entry.2) empty

@[simp] theorem get?_empty (key : String) : (empty : KeyTable α).get? key = none := rfl

@[simp] theorem get?_insert (table : KeyTable α) (key : String) (value : α) (key' : String) :
    (table.insert key value).get? key' = if key = key' then some value else table.get? key' :=
  find?_insertEntry key value table.entries key'

@[simp] theorem get?_erase (table : KeyTable α) (key key' : String) :
    (table.erase key).get? key' = if key = key' then none else table.get? key' :=
  find?_filter_ne table.entries key'

/-- **Sorted lists that answer alike are the same**: their first keys are equal, for the lesser
of them would not be found in the other list. -/
theorem entries_eq_of_find? {entries entries' : List (String × α)}
    (hs : entries.Pairwise fun a b => a.1 < b.1) (hs' : entries'.Pairwise fun a b => a.1 < b.1)
    (h : ∀ key, find? key entries = find? key entries') : entries = entries' := by
  induction entries generalizing entries' with
  | nil =>
    cases entries' with
    | nil => rfl
    | cons first rest => simpa [find?] using h first.1
  | cons first rest ih =>
    obtain ⟨hfirst, hrest⟩ := List.pairwise_cons.1 hs
    cases entries' with
    | nil => simpa [find?] using h first.1
    | cons first' rest' =>
      obtain ⟨hfirst', hrest'⟩ := List.pairwise_cons.1 hs'
      have hkey : first.1 = first'.1 := by
        refine String.le_antisymm (String.not_lt.1 fun hlt => ?_) (String.not_lt.1 fun hlt => ?_)
        · have hn : find? first'.1 (first :: rest) = none :=
            find?_eq_none_of_forall_lt fun e he => by
              rcases List.mem_cons.1 he with rfl | he
              · exact hlt
              · exact String.lt_trans hlt (hfirst e he)
          rw [h first'.1] at hn
          simp [find?] at hn
        · have hn : find? first.1 (first' :: rest') = none :=
            find?_eq_none_of_forall_lt fun e he => by
              rcases List.mem_cons.1 he with rfl | he
              · exact hlt
              · exact String.lt_trans hlt (hfirst' e he)
          rw [← h first.1] at hn
          simp [find?] at hn
      have hvalue : first.2 = first'.2 := by simpa [find?, hkey] using h first.1
      have hhead : first = first' := Prod.ext hkey hvalue
      subst hhead
      congr 1
      refine ih hrest hrest' fun key => ?_
      by_cases hk : first.1 = key
      · subst hk
        rw [find?_eq_none_of_forall_lt hfirst, find?_eq_none_of_forall_lt hfirst']
      · simpa [find?, hk] using h key

/-- **A table is its look-up function.** -/
theorem ext_get? {table table' : KeyTable α} (h : ∀ key, table.get? key = table'.get? key) :
    table = table' := by
  obtain ⟨entries, hs⟩ := table
  obtain ⟨entries', hs'⟩ := table'
  have : entries = entries' := entries_eq_of_find? hs hs' h
  subst this
  rfl

end KeyTable
end ReactiveView
