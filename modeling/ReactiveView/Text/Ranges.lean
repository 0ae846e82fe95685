/-
# Tables of code points

A property of characters is given by the ranges of code points that have it, in
ascending order.  A search in such a table may stop at the first range that
begins behind the character (`inRanges_iff`).
-/

namespace ReactiveView
namespace Text

/-- Ranges of code points, ends included. -/
abbrev Ranges := List (Nat × Nat)

/-- The ranges begin at `bound` or later, none is empty, and every one begins
behind the end of the one before it. -/
def ascendingFrom (bound : Nat) : Ranges → Bool
  | [] => true
  | (low, high) :: rest => bound ≤ low && low ≤ high && ascendingFrom (high + 1) rest

/-- Some range of an ascending table holds the code point. -/
def inRanges : Ranges → Char → Bool
  | [], _ => false
  | (low, high) :: rest, c => low ≤ c.toNat && (c.toNat ≤ high || inRanges rest c)

/-- Ascending ranges lie above their bound. -/
theorem le_of_mem_of_ascendingFrom {bound : Nat} {ranges : Ranges} {range : Nat × Nat}
    (hasc : ascendingFrom bound ranges = true) (hmem : range ∈ ranges) : bound ≤ range.1 := by
  induction ranges generalizing bound with
  | nil => cases hmem
  | cons first rest ih =>
    simp only [ascendingFrom, Bool.and_eq_true, decide_eq_true_eq] at hasc
    rcases List.mem_cons.1 hmem with rfl | hmem
    · exact hasc.1.1
    · have := ih hasc.2 hmem
      omega

/-- **The search finds what an ascending table holds.** -/
theorem inRanges_iff {bound : Nat} {ranges : Ranges} (hasc : ascendingFrom bound ranges = true)
    {c : Char} :
    inRanges ranges c = true ↔ ∃ range ∈ ranges, range.1 ≤ c.toNat ∧ c.toNat ≤ range.2 := by
  induction ranges generalizing bound with
  | nil => simp [inRanges]
  | cons first rest ih =>
    simp only [ascendingFrom, Bool.and_eq_true, decide_eq_true_eq] at hasc
    simp only [inRanges, Bool.and_eq_true, Bool.or_eq_true, decide_eq_true_eq, ih hasc.2]
    constructor
    · rintro ⟨hlow, hhigh | ⟨range, hmem, hin⟩⟩
      · exact ⟨first, List.mem_cons_self, hlow, hhigh⟩
      · exact ⟨range, List.mem_cons_of_mem _ hmem, hin⟩
    · rintro ⟨range, hmem, hlow, hhigh⟩
      rcases List.mem_cons.1 hmem with rfl | hmem
      · exact ⟨hlow, .inl hhigh⟩
      · have := le_of_mem_of_ascendingFrom hasc.2 hmem
        exact ⟨by omega, .inr ⟨range, hmem, hlow, hhigh⟩⟩

end Text
end ReactiveView
