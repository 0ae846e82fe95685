/-
# White space

The characters with the Unicode property `White_Space`, and the texts made of
them alone.  The property is wider than ASCII blanks (`U+0085`, `U+00A0`, the
spaces of `U+2000` … `U+200A`) and leaves out the zero-width characters and the
separators `U+001C` … `U+001F`.
-/

import ReactiveView.Text.Ranges

namespace ReactiveView
namespace Text

/-- The ranges of code points with the property `White_Space`, ends included. -/
def whiteSpaceRanges : Ranges :=
  [(0x09, 0x0D), (0x20, 0x20), (0x85, 0x85), (0xA0, 0xA0), (0x1680, 0x1680),
   (0x2000, 0x200A), (0x2028, 0x2029), (0x202F, 0x202F), (0x205F, 0x205F), (0x3000, 0x3000)]

/-- The character has the property `White_Space`. -/
def isWhiteSpace (c : Char) : Bool :=
  inRanges whiteSpaceRanges c

/-- A character is white space exactly if a range of the table holds it. -/
theorem isWhiteSpace_iff {c : Char} :
    isWhiteSpace c = true ↔ ∃ range ∈ whiteSpaceRanges, range.1 ≤ c.toNat ∧ c.toNat ≤ range.2 :=
  inRanges_iff (show ascendingFrom 0 whiteSpaceRanges = true by decide)

/-- Every character of the text is white space; the empty text is blank. -/
def isBlank (s : String) : Bool :=
  s.toList.all isWhiteSpace

/-- The table extends the ASCII class of white space. -/
theorem isWhiteSpace_of_isWhitespace {c : Char} (h : c.isWhitespace = true) :
    isWhiteSpace c = true := by
  simp only [Char.isWhitespace, Bool.or_eq_true, decide_eq_true_eq] at h
  rcases h with ((h | h) | h) | h <;> subst h <;> decide

@[simp] theorem isBlank_empty : isBlank "" = true := by decide

end Text
end ReactiveView
