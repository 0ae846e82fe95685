/-
# What identities lead to

Three operations change an arena, and each of them shows in `Arena.get?` at one
identity only (`get?_insert`, `get?_remove`, `get?_modify`).  For an insertion this
needs the free places to be empty ones, each listed once (`Arena.Tidy`), which the
operations keep.

The generation of a place never falls, so an identity whose place was given back
leads to nothing for ever: it is *spent* (`Arena.Spent`).
-/

import ReactiveView.Reactive.Arena

namespace ReactiveView
namespace Reactive
namespace Arena

variable {α : Type} {arena : Arena α} {id id' : EffectId}

/-! ## Places -/

/-- The free places are empty, and each is listed once. -/
structure Tidy (arena : Arena α) : Prop where
  nodup : arena.free.Nodup
  vacant : ∀ index ∈ arena.free, ∃ g, arena.places[index]? = some ⟨g, none⟩

/-- The place of the identity was given back. -/
def Spent (arena : Arena α) (id : EffectId) : Prop :=
  ∃ place, arena.places[id.index]? = some place ∧ id.generation < place.generation

/-- A place that is found is one of the arena. -/
theorem lt_size_of_getElem? {index : Nat} {place : Place α}
    (h : arena.places[index]? = some place) : index < arena.places.size :=
  (Array.getElem?_eq_some_iff.1 h).1

/-- An identity leads to what its place holds, if the generations agree. -/
theorem get?_eq_some_iff {value : α} :
    arena.get? id = some value ↔ arena.places[id.index]? = some ⟨id.generation, some value⟩ := by
  unfold get?
  constructor
  · intro h
    split at h
    · rename_i place hplace
      split at h
      · rename_i hg
        rw [hplace, ← hg, ← h]
      · exact absurd h (by simp)
    · exact absurd h (by simp)
  · intro h
    rw [h]
    simp

/-- A spent identity leads nowhere. -/
theorem Spent.get? (h : arena.Spent id) : arena.get? id = none := by
  obtain ⟨place, hplace, hg⟩ := h
  rw [Option.eq_none_iff_forall_ne_some]
  intro value hvalue
  rw [get?_eq_some_iff, hplace, Option.some.injEq] at hvalue
  subst hvalue
  exact absurd hg (Nat.lt_irrefl _)

/-- Two identities with one place that both lead somewhere are one identity. -/
theorem eq_of_get? {a b : α} (ha : arena.get? id = some a) (hb : arena.get? id' = some b)
    (hindex : id'.index = id.index) : id' = id := by
  rw [get?_eq_some_iff] at ha hb
  rw [hindex, ha, Option.some.injEq, Place.mk.injEq] at hb
  obtain ⟨i, g⟩ := id
  obtain ⟨i', g'⟩ := id'
  simp_all

/-- The arena contains an identity if it leads somewhere. -/
theorem contains_eq_true_iff : arena.contains id = true ↔ ∃ value, arena.get? id = some value := by
  rw [contains, Option.isSome_iff_exists]

/-! ## The operations -/

/-- **A change shows at its identity alone.** -/
theorem get?_modify (arena : Arena α) (id : EffectId) (change : α → α) (id' : EffectId) :
    (arena.modify id change).get? id' =
      if id' = id then (arena.get? id).map change else arena.get? id' := by
  unfold modify
  cases h : arena.get? id with
  | none =>
    simp only
    split
    · simp_all
    · rfl
  | some value =>
    have hplace := get?_eq_some_iff.1 h
    have hlt := lt_size_of_getElem? hplace
    simp only
    split
    case isTrue he =>
      subst he
      rw [Option.map_some, get?_eq_some_iff, Array.getElem?_setIfInBounds_self_of_lt hlt]
    case isFalse hne =>
      by_cases hindex : id.index = id'.index
      · refine Option.ext ?_
        intro b
        rw [get?_eq_some_iff, get?_eq_some_iff, ← hindex,
          Array.getElem?_setIfInBounds_self_of_lt hlt, hplace]
        have hg : id.generation ≠ id'.generation := by
          intro hg
          obtain ⟨i, g⟩ := id
          obtain ⟨i', g'⟩ := id'
          simp_all
        simp [hg]
      · simp only [get?, Array.getElem?_setIfInBounds_ne hindex]

/-- **A removal shows at its identity alone.** -/
theorem get?_remove (arena : Arena α) (id id' : EffectId) :
    (arena.remove id).get? id' = if id' = id then none else arena.get? id' := by
  unfold remove
  split
  case isFalse h =>
    split
    · rename_i he
      rw [he]
      simpa [contains] using h
    · rfl
  case isTrue h =>
    obtain ⟨value, hvalue⟩ := contains_eq_true_iff.1 h
    have hplace := get?_eq_some_iff.1 hvalue
    have hlt := lt_size_of_getElem? hplace
    by_cases hindex : id.index = id'.index
    · have hnone : get? ⟨arena.places.setIfInBounds id.index ⟨id.generation + 1, none⟩,
          id.index :: arena.free⟩ id' = none := by
        simp only [get?, ← hindex, Array.getElem?_setIfInBounds_self_of_lt hlt]
        split <;> rfl
      rw [hnone]
      split
      · rfl
      · rename_i hne
        rw [eq_comm, Option.eq_none_iff_forall_ne_some]
        exact fun b hb => hne (eq_of_get? hvalue hb hindex.symm)
    · have hne : id' ≠ id := by
        rintro rfl
        exact hindex rfl
      simp only [get?, Array.getElem?_setIfInBounds_ne hindex, hne, if_false]

/-- A new identity led to nothing before. -/
theorem Tidy.get?_insert_fst (h : arena.Tidy) (value : α) :
    arena.get? (arena.insert value).1 = none := by
  rw [Option.eq_none_iff_forall_ne_some]
  intro b hb
  rw [get?_eq_some_iff] at hb
  unfold insert at hb
  split at hb
  · simp at hb
  · rename_i index free hfree
    obtain ⟨g, hg⟩ := h.vacant index (by simp [hfree])
    simp [hg] at hb

/-- **An insertion shows at its identity alone.** -/
theorem Tidy.get?_insert (h : arena.Tidy) (value : α) (id' : EffectId) :
    (arena.insert value).2.get? id' =
      if id' = (arena.insert value).1 then some value else arena.get? id' := by
  unfold insert
  split
  case h_1 hfree =>
    refine Option.ext ?_
    intro b
    by_cases hindex : id'.index = arena.places.size
    · have hold : arena.get? id' = none := by simp [get?, hindex]
      obtain ⟨i, g⟩ := id'
      simp only at hindex
      subst hindex
      by_cases hg : g = 0
      · simp [get?_eq_some_iff, hg]
      · simp [get?_eq_some_iff, hg, hold, Ne.symm hg]
    · have hne : id' ≠ ⟨arena.places.size, 0⟩ := fun he => hindex (by rw [he])
      simp only [hne, if_false, get?_eq_some_iff, Array.getElem?_push, hindex]
  case h_2 index free hfree =>
    obtain ⟨g, hg⟩ := h.vacant index (by simp [hfree])
    have hlt := lt_size_of_getElem? hg
    simp only [hg, Option.map_some, Option.getD_some]
    refine Option.ext ?_
    intro b
    by_cases hindex : index = id'.index
    · obtain ⟨i, g'⟩ := id'
      simp only at hindex
      subst hindex
      have hold : arena.get? ⟨index, g'⟩ = none := by
        simp only [get?, hg]
        split <;> rfl
      by_cases hg' : g' = g
      · simp [get?_eq_some_iff, Array.getElem?_setIfInBounds_self_of_lt hlt, hg']
      · simp [get?_eq_some_iff, Array.getElem?_setIfInBounds_self_of_lt hlt, hg', hold,
          Ne.symm hg']
    · have hne : id' ≠ ⟨index, g⟩ := fun he => hindex (by rw [he])
      simp only [hne, if_false, get?_eq_some_iff, Array.getElem?_setIfInBounds_ne hindex]

/-! ## Tidiness -/

/-- An arena without places is tidy. -/
theorem tidy_empty : (empty : Arena α).Tidy :=
  ⟨List.nodup_nil, fun _ h => absurd h List.not_mem_nil⟩

/-- A change of what a place holds frees no place. -/
theorem Tidy.modify (h : arena.Tidy) (id : EffectId) (change : α → α) :
    (arena.modify id change).Tidy := by
  unfold Arena.modify
  split
  · rename_i value hvalue
    refine ⟨h.nodup, ?_⟩
    intro index hindex
    obtain ⟨g, hg⟩ := h.vacant index hindex
    have hne : id.index ≠ index := by
      rintro rfl
      rw [get?_eq_some_iff, hg] at hvalue
      simp at hvalue
    exact ⟨g, by rw [Array.getElem?_setIfInBounds_ne hne, hg]⟩
  · exact h

/-- A place that is freed is listed as free once: before, it was taken. -/
theorem Tidy.remove (h : arena.Tidy) (id : EffectId) : (arena.remove id).Tidy := by
  unfold Arena.remove
  split
  case isFalse => exact h
  case isTrue hc =>
    obtain ⟨value, hvalue⟩ := contains_eq_true_iff.1 hc
    have hplace := get?_eq_some_iff.1 hvalue
    have hlt := lt_size_of_getElem? hplace
    have hnot : id.index ∉ arena.free := by
      intro hmem
      obtain ⟨g, hg⟩ := h.vacant _ hmem
      rw [hg] at hplace
      simp at hplace
    refine ⟨List.nodup_cons.2 ⟨hnot, h.nodup⟩, ?_⟩
    intro index hindex
    rcases List.mem_cons.1 hindex with rfl | hindex
    · exact ⟨_, Array.getElem?_setIfInBounds_self_of_lt hlt⟩
    · obtain ⟨g, hg⟩ := h.vacant index hindex
      have hne : id.index ≠ index := fun he => hnot (he ▸ hindex)
      exact ⟨g, by rw [Array.getElem?_setIfInBounds_ne hne, hg]⟩

/-- The place that was freed last is taken, or a new one is made. -/
theorem Tidy.insert (h : arena.Tidy) (value : α) : (arena.insert value).2.Tidy := by
  unfold Arena.insert
  split
  case h_1 hfree =>
    refine ⟨by rw [hfree]; exact List.nodup_nil, ?_⟩
    intro index hindex
    rw [hfree] at hindex
    exact absurd hindex List.not_mem_nil
  case h_2 index free hfree =>
    have hnodup := h.nodup
    rw [hfree] at hnodup
    obtain ⟨hnot, hrest⟩ := List.nodup_cons.1 hnodup
    refine ⟨hrest, ?_⟩
    intro index' hindex'
    obtain ⟨g, hg⟩ := h.vacant index' (by rw [hfree]; exact List.mem_cons_of_mem _ hindex')
    have hne : index ≠ index' := fun he => hnot (he ▸ hindex')
    exact ⟨g, by simp only [Array.getElem?_setIfInBounds_ne hne, hg]⟩

/-! ## Spent identities -/

/-- Taking an effect out spends its identity. -/
theorem spent_remove (h : arena.contains id = true) : (arena.remove id).Spent id := by
  obtain ⟨value, hvalue⟩ := contains_eq_true_iff.1 h
  have hplace := get?_eq_some_iff.1 hvalue
  have hlt := lt_size_of_getElem? hplace
  unfold remove
  rw [if_pos h]
  exact ⟨_, Array.getElem?_setIfInBounds_self_of_lt hlt, Nat.lt_succ_self _⟩

/-- A place that is filled or emptied with a generation not below the old one keeps
spent identities spent. -/
theorem Spent.setIfInBounds (h : arena.Spent id) {index : Nat} {place : Place α} {free : List Nat}
    (hplace : ∀ old, arena.places[index]? = some old → old.generation ≤ place.generation) :
    Spent ⟨arena.places.setIfInBounds index place, free⟩ id := by
  obtain ⟨old, hold, hg⟩ := h
  by_cases hindex : index = id.index
  · subst hindex
    have hlt := lt_size_of_getElem? hold
    exact ⟨place, Array.getElem?_setIfInBounds_self_of_lt hlt,
      Nat.lt_of_lt_of_le hg (hplace old hold)⟩
  · exact ⟨old, by simpa only [Array.getElem?_setIfInBounds_ne hindex] using hold, hg⟩

/-- A change does not touch generations. -/
theorem Spent.modify (h : arena.Spent id) (id' : EffectId) (change : α → α) :
    (arena.modify id' change).Spent id := by
  unfold Arena.modify
  split
  · rename_i value hvalue
    refine h.setIfInBounds ?_
    intro old hold
    rw [get?_eq_some_iff, hold, Option.some.injEq] at hvalue
    simp [hvalue]
  · exact h

/-- A removal raises one generation at most. -/
theorem Spent.remove (h : arena.Spent id) (id' : EffectId) : (arena.remove id').Spent id := by
  unfold Arena.remove
  split
  · rename_i hc
    obtain ⟨value, hvalue⟩ := contains_eq_true_iff.1 hc
    refine h.setIfInBounds ?_
    intro old hold
    rw [get?_eq_some_iff, hold, Option.some.injEq] at hvalue
    simp [hvalue]
  · exact h

/-- An insertion takes a place with the generation that it has. -/
theorem Spent.insert (h : arena.Spent id) (value : α) : (arena.insert value).2.Spent id := by
  unfold Arena.insert
  split
  · obtain ⟨old, hold, hg⟩ := h
    have hlt := lt_size_of_getElem? hold
    exact ⟨old, by rw [Array.getElem?_push_lt hlt]; simpa [hlt] using hold, hg⟩
  · refine h.setIfInBounds ?_
    intro old hold
    simp [hold]

end Arena
end Reactive
end ReactiveView
