/-
# Texts in the order of their bytes

Texts are compared character by character, and so are their bytes one by one; the order is the
same (`lt_iff_bytes_lt`).  Of two characters the greater one has the greater bytes: its first byte
tells how many follow, and these are the digits of its number in base 64
(`bytes_lt_of_char_lt`).
-/

import Mathlib.Data.String.Basic

namespace ReactiveView
namespace Text

/-- The bytes of a text, as UTF-8. -/
def bytes (s : String) : List UInt8 := s.toUTF8.data.toList

/-! ## The bytes of a character -/

/-- The last digits of a number in base 64, each as a byte that follows another one. -/
def trail : (count : Nat) → Nat → List UInt8
  | 0, _ => []
  | count + 1, v => UInt8.ofNat (v / 64 ^ count % 64 + 128) :: trail count v

/-- The first byte of the character with a number, and how many follow. -/
def lead (v : Nat) : Nat × Nat :=
  if v ≤ 0x7f then (v, 0)
  else if v ≤ 0x7ff then (v / 64 + 192, 1)
  else if v ≤ 0xffff then (v / 4096 + 224, 2)
  else (v / 262144 + 240, 3)

/-- Characters have numbers below this one. -/
theorem val_lt (c : Char) : c.val.toNat < 0x110000 := by
  rcases c.valid with hsmall | ⟨-, hlarge⟩ <;> omega

/-- **A character as bytes**: a lead byte, which tells how many follow, and six bits in each of
these. -/
theorem utf8EncodeChar_eq (c : Char) :
    String.utf8EncodeChar c =
      UInt8.ofNat (lead c.val.toNat).1 :: trail (lead c.val.toNat).2 c.val.toNat := by
  have hlt := val_lt c
  simp only [String.utf8EncodeChar, lead]
  -- the number fits, so that the first byte has all of what is left of it
  split_ifs <;> simp (disch := omega) only [trail, Nat.mod_eq_of_lt, Nat.reducePow, Nat.div_one]

/-- The greater first byte decides, and what follows if there is none. -/
theorem ofNat_cons_lt {x x' : Nat} {l l' : List UInt8} (hx' : x' < 256)
    (h : x < x' ∨ x = x' ∧ l < l') : UInt8.ofNat x :: l < UInt8.ofNat x' :: l' := by
  rw [List.cons_lt_cons_iff]
  rcases h with hlt | ⟨rfl, hlt⟩
  · refine .inl (UInt8.lt_iff_toNat_lt.2 ?_)
    rwa [UInt8.toNat_ofNat_of_lt' hx', UInt8.toNat_ofNat_of_lt' (hlt.trans hx')]
  · exact .inr ⟨rfl, hlt⟩

/-- The greater number has the greater digits. -/
theorem trail_lt {v v' : Nat} {rest rest' : List UInt8} {count : Nat}
    (h : v % 64 ^ count < v' % 64 ^ count) : trail count v ++ rest < trail count v' ++ rest' := by
  induction count with
  | zero => exact absurd h (by simp [Nat.mod_one])
  | succ count ih =>
    refine ofNat_cons_lt (by omega) ?_
    rw [Nat.mod_pow_succ, Nat.mod_pow_succ] at h
    rcases Nat.lt_trichotomy (v / 64 ^ count % 64) (v' / 64 ^ count % 64) with hlt | heq | hgt
    · exact .inl (Nat.add_lt_add_right hlt _)
    · rw [heq] at h ⊢
      exact .inr ⟨rfl, ih (Nat.lt_of_add_lt_add_right h)⟩
    · -- a digit less cannot be made up for by the digits after it
      have hmul : 64 ^ count * (v' / 64 ^ count % 64) + 64 ^ count ≤
          64 ^ count * (v / 64 ^ count % 64) := Nat.mul_le_mul_left (64 ^ count) hgt
      have hdigits : v' % 64 ^ count < 64 ^ count := Nat.mod_lt _ (Nat.pow_pos (by decide))
      omega

/-- Of two characters the greater has the greater lead byte, or the same one and then more in
the bytes that follow. -/
theorem lead_lt {v v' : Nat} (h : v < v') (hv' : v' < 0x110000) :
    (lead v').1 < 256 ∧ ((lead v).1 < (lead v').1 ∨ (lead v).1 = (lead v').1 ∧
      (lead v).2 = (lead v').2 ∧ v % 64 ^ (lead v).2 < v' % 64 ^ (lead v).2) := by
  unfold lead
  split_ifs <;> simp only [Nat.reducePow, true_and] <;> omega

/-- **The greater character has the greater bytes.** -/
theorem bytes_lt_of_char_lt {c c' : Char} (h : c < c') (rest rest' : List UInt8) :
    String.utf8EncodeChar c ++ rest < String.utf8EncodeChar c' ++ rest' := by
  obtain ⟨hbyte, hlead⟩ := lead_lt (UInt32.lt_iff_toNat_lt.1 h) (val_lt c')
  rw [utf8EncodeChar_eq, utf8EncodeChar_eq]
  refine ofNat_cons_lt hbyte (hlead.imp_right fun ⟨hfirst, hcount, htrail⟩ => ⟨hfirst, ?_⟩)
  rw [← hcount]
  exact trail_lt htrail

/-! ## The bytes of a text -/

/-- The bytes of a text are those of its characters. -/
theorem bytes_eq (s : String) : bytes s = s.toList.flatMap String.utf8EncodeChar := by
  have h : s.toUTF8 = s.toList.utf8Encode := String.utf8Encode_toList.symm
  rw [bytes, h, List.utf8Encode, List.data_toByteArray]

/-- **Texts are in the order of their bytes.** The first characters that differ decide, and no
character has bytes that begin those of another one. -/
theorem flatMap_utf8EncodeChar_lt {l l' : List Char} (h : l < l') :
    l.flatMap String.utf8EncodeChar < l'.flatMap String.utf8EncodeChar := by
  induction l generalizing l' with
  | nil =>
    cases l' with
    | nil => exact absurd h (List.lt_irrefl _)
    | cons c' rest' =>
      rw [List.flatMap_nil, List.flatMap_cons, utf8EncodeChar_eq]
      exact List.nil_lt_cons ..
  | cons c rest ih =>
    cases l' with
    | nil => exact absurd h (List.not_lt_nil _)
    | cons c' rest' =>
      rw [List.flatMap_cons, List.flatMap_cons]
      rcases List.cons_lt_cons_iff.1 h with hlt | ⟨rfl, hlt⟩
      · exact bytes_lt_of_char_lt hlt _ _
      · exact List.append_left_lt (ih hlt)

/-- **The order of texts is that of their bytes.** -/
theorem lt_iff_bytes_lt {s s' : String} : s < s' ↔ bytes s < bytes s' := by
  have hlt {s s' : String} (h : s < s') : bytes s < bytes s' := by
    rw [bytes_eq, bytes_eq]
    exact flatMap_utf8EncodeChar_lt h
  refine ⟨hlt, fun h => ?_⟩
  by_contra hnot
  rcases eq_or_lt_of_le (not_lt.1 hnot) with rfl | hgt
  · exact List.lt_irrefl _ h
  · exact List.lt_asymm h (hlt hgt)

end Text
end ReactiveView
