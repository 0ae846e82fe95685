/-
# Numbers that count as equal

Props are compared like numbers of the standard: both zeros are equal, and an undefined
number differs from itself.  Two numbers that count as equal are one number or both are
zero (`Number.eq_or_zero_of_beq`), so readers see one text (`Number.display_eq_of_beq`).

The argument goes through the unpacked form of a number, which gives its sign, exponent
and mantissa back.
-/

import Mathlib.Algebra.Group.Nat.Defs
import ReactiveView.Number.Text

namespace ReactiveView

open Float.Model (UnpackedFloat Format)
open Float.Model.UnpackedFloat (Sign unpack unpackSign unpackExponent unpackMantissa)

/-! ## The parts of a number -/

/-- The sign is one bit. -/
theorem sign_ofBitVec_injective {a b : BitVec 1} (h : Sign.ofBitVec a = Sign.ofBitVec b) :
    a = b := by
  have hback : ∀ v : BitVec 1, (Sign.ofBitVec v).toBitVec = v := by decide
  rw [← hback a, h, hback b]

/-- The bits of a number are its sign, its exponent and its mantissa. -/
theorem eq_of_unpack_parts {spec : Format} {a b : BitVec spec.numBits}
    (sign : unpackSign a = unpackSign b) (exponent : unpackExponent a = unpackExponent b)
    (mantissa : unpackMantissa a = unpackMantissa b) : a = b := by
  refine BitVec.eq_of_getLsbD_eq ?_
  intro i hi
  have hnum : spec.numBits = 1 + spec.exponentBits + spec.mantissaBitsWithoutImplicit := rfl
  by_cases hm : i < spec.mantissaBitsWithoutImplicit
  · have hbit := congrArg (·.getLsbD i) mantissa
    have hle : i ≤ spec.mantissaBitsWithoutImplicit - 1 := by omega
    simpa [unpackMantissa, hm, hle] using hbit
  · by_cases he : i < spec.mantissaBitsWithoutImplicit + spec.exponentBits
    · have hbit := congrArg (·.getLsbD (i - spec.mantissaBitsWithoutImplicit)) exponent
      have hsum :
          spec.mantissaBitsWithoutImplicit + (i - spec.mantissaBitsWithoutImplicit) = i := by
        omega
      have hlt : i - spec.mantissaBitsWithoutImplicit < spec.exponentBits := by omega
      simpa [unpackExponent, hsum, hlt] using hbit
    · have hbit := congrArg (·.getLsbD 0) sign
      have hsum : spec.mantissaBitsWithoutImplicit + spec.exponentBits = i := by omega
      unfold unpackSign at hbit
      simpa [hsum] using hbit

/-- The hidden bit is added in front. -/
theorem toNat_one_append {w : Nat} (v : BitVec w) : (1#1 ++ v).toNat = 2 ^ w + v.toNat := by
  have hor := Nat.two_pow_add_eq_or_of_lt v.isLt 1
  rw [Nat.mul_one] at hor
  simp [BitVec.toNat_append, Nat.shiftLeft_eq, hor]

/-- What a number is, by its exponent and its mantissa. -/
theorem unpack_cases {spec : Format} (b : BitVec spec.numBits) :
    (unpackExponent b = -1#_ ∧ unpackMantissa b = 0#_ ∧
        unpack spec b = .infinity (Sign.ofBitVec (unpackSign b))) ∨
      unpack spec b = .notANumber ∨ unpack spec b = .zero (Sign.ofBitVec (unpackSign b)) ∨
      (unpackExponent b = 0#_ ∧ ∃ hm, unpack spec b =
        .finite (Sign.ofBitVec (unpackSign b)) (unpackMantissa b).toNat
          ((unpackExponent b).toNat - (spec.exponentBias + spec.mantissaBitsWithoutImplicit) + 1)
          hm) ∨
      ∃ hm, unpack spec b =
        .finite (Sign.ofBitVec (unpackSign b)) (1#1 ++ unpackMantissa b).toNat
          ((unpackExponent b).toNat - (spec.exponentBias + spec.mantissaBitsWithoutImplicit)) hm := by
  unfold unpack
  dsimp only
  by_cases hlast : unpackExponent b = -1#_
  · rw [if_pos hlast]
    by_cases hmantissa : unpackMantissa b = 0#_
    · rw [if_pos hmantissa]
      exact .inl ⟨hlast, hmantissa, rfl⟩
    · rw [if_neg hmantissa]
      exact .inr (.inl rfl)
  · rw [if_neg hlast]
    by_cases hfirst : unpackExponent b = 0#_
    · rw [if_pos hfirst]
      by_cases hmantissa : unpackMantissa b = 0#_
      · rw [dif_pos hmantissa]
        exact .inr (.inr (.inl rfl))
      · have hpos : 0 < (unpackMantissa b).toNat :=
          Nat.pos_of_ne_zero fun hzero => hmantissa (BitVec.eq_of_toNat_eq hzero)
        rw [dif_neg hmantissa]
        exact .inr (.inr (.inr (.inl ⟨hfirst, hpos, rfl⟩)))
    · have hpos : 0 < (1#1 ++ unpackMantissa b).toNat := by
        rw [toNat_one_append]
        exact Nat.add_pos_left (Nat.two_pow_pos _) _
      rw [if_neg hfirst]
      exact .inr (.inr (.inr (.inr ⟨hpos, rfl⟩)))

/-- Of an infinity all bits are known but the sign. -/
theorem parts_of_unpack_infinity {spec : Format} {b : BitVec spec.numBits} {s : Sign}
    (h : unpack spec b = .infinity s) :
    Sign.ofBitVec (unpackSign b) = s ∧ unpackExponent b = -1#_ ∧ unpackMantissa b = 0#_ := by
  rcases unpack_cases b with ⟨hexponent, hmantissa, hb⟩ | hb | hb | ⟨-, _, hb⟩ | ⟨_, hb⟩
  · exact ⟨UnpackedFloat.infinity.inj (hb.symm.trans h), hexponent, hmantissa⟩
  all_goals exact nomatch hb.symm.trans h

/-- A finite number is small, or its mantissa has a leading one that is not stored. -/
theorem parts_of_unpack_finite {spec : Format} {b : BitVec spec.numBits} {s : Sign} {m : Nat}
    {e : Int} {hm : 0 < m} (h : unpack spec b = .finite s m e hm) :
    Sign.ofBitVec (unpackSign b) = s ∧
      ((unpackExponent b = 0#_ ∧ (unpackMantissa b).toNat = m ∧
          e = 0 - (spec.exponentBias + spec.mantissaBitsWithoutImplicit) + 1) ∨
        2 ^ spec.mantissaBitsWithoutImplicit + (unpackMantissa b).toNat = m ∧
          e = (unpackExponent b).toNat -
            (spec.exponentBias + spec.mantissaBitsWithoutImplicit)) := by
  rcases unpack_cases b with ⟨-, -, hb⟩ | hb | hb | ⟨hexponent, _, hb⟩ | ⟨_, hb⟩
  iterate 3 exact nomatch hb.symm.trans h
  · obtain ⟨hsign, hmantissa, he⟩ := UnpackedFloat.finite.inj (hb.symm.trans h)
    refine ⟨hsign, .inl ⟨hexponent, hmantissa, ?_⟩⟩
    rw [← he, hexponent]
    simp
  · obtain ⟨hsign, hmantissa, he⟩ := UnpackedFloat.finite.inj (hb.symm.trans h)
    exact ⟨hsign, .inr ⟨by rw [← hmantissa, toNat_one_append], he.symm⟩⟩

/-- Infinities of one sign are the same. -/
theorem eq_of_unpack_infinity {spec : Format} {a b : BitVec spec.numBits} {s : Sign}
    (ha : unpack spec a = .infinity s) (hb : unpack spec b = .infinity s) : a = b := by
  obtain ⟨hsa, hea, hma⟩ := parts_of_unpack_infinity ha
  obtain ⟨hsb, heb, hmb⟩ := parts_of_unpack_infinity hb
  exact eq_of_unpack_parts (sign_ofBitVec_injective (hsa.trans hsb.symm)) (hea.trans heb.symm)
    (hma.trans hmb.symm)

/-- **A finite number is told by its sign, its mantissa and its exponent.** -/
theorem eq_of_unpack_finite {spec : Format} {a b : BitVec spec.numBits} {s : Sign} {m : Nat}
    {e : Int} {hm : 0 < m} (ha : unpack spec a = .finite s m e hm)
    (hb : unpack spec b = .finite s m e hm) : a = b := by
  obtain ⟨hsa, hpa⟩ := parts_of_unpack_finite ha
  obtain ⟨hsb, hpb⟩ := parts_of_unpack_finite hb
  have hlta := (unpackMantissa a).isLt
  have hltb := (unpackMantissa b).isLt
  have hparts : unpackExponent a = unpackExponent b ∧ unpackMantissa a = unpackMantissa b := by
    rw [← BitVec.toNat_inj, ← BitVec.toNat_inj]
    rcases hpa with ⟨hea, hma, -⟩ | ⟨hma, hea⟩ <;> rcases hpb with ⟨heb, hmb, -⟩ | ⟨hmb, heb⟩
    · exact ⟨by rw [hea, heb], hma.trans hmb.symm⟩
    · omega
    · omega
    · omega
  exact eq_of_unpack_parts (sign_ofBitVec_injective (hsa.trans hsb.symm)) hparts.1 hparts.2

/-! ## Equality -/

/-- Two unpacked numbers compare as equal if both are zero or both are one number that is
neither zero nor undefined. -/
theorem cases_of_compare_eq {a b : UnpackedFloat} (h : a.compare b = some .eq) :
    ((∃ s, a = .zero s) ∧ ∃ s, b = .zero s) ∨
      (∃ s, a = .infinity s ∧ b = .infinity s) ∨
        ∃ s m e hm, a = .finite s m e hm ∧ b = .finite s m e hm := by
  cases a with
  | notANumber => exact nomatch h
  | zero s =>
    cases b with
    | zero s' => exact .inl ⟨⟨s, rfl⟩, ⟨s', rfl⟩⟩
    | notANumber => exact nomatch h
    | infinity s' => cases s' <;> exact nomatch h
    | finite s' => cases s' <;> exact nomatch h
  | infinity s =>
    cases b with
    | infinity s' =>
      obtain rfl : s = s' := by cases s <;> cases s' <;> first | rfl | exact nomatch h
      exact .inr (.inl ⟨s, rfl, rfl⟩)
    | _ => cases s <;> exact nomatch h
  | finite s m e hm =>
    cases b with
    | finite s' m' e' hm' =>
      have hparts : s = s' ∧ e = e' ∧ m = m' := by
        cases s <;> cases s'
        case positive.positive =>
          have hsame : (compare e e').then (compare m m') = .eq := Option.some.inj h
          simpa [Ordering.then_eq_eq] using hsame
        case negative.negative =>
          have hsame : ((compare e e').then (compare m m')).swap = .eq := Option.some.inj h
          simpa [Ordering.then_eq_eq] using hsame
        all_goals exact nomatch h
      obtain ⟨rfl, rfl, rfl⟩ := hparts
      exact .inr (.inr ⟨s, m, e, hm, rfl, rfl⟩)
    | infinity s' => cases s' <;> cases s <;> exact nomatch h
    | _ => cases s <;> exact nomatch h

namespace Number

/-- A number is its bits. -/
theorem eq_of_toBits_eq {a b : Float}
    (h : a.toModel.toBits.toBitVec = b.toModel.toBits.toBitVec) : a = b := by
  obtain ⟨⟨bits, hvalid⟩⟩ := a
  obtain ⟨⟨bits', hvalid'⟩⟩ := b
  obtain rfl : bits = bits' := UInt64.toBitVec_inj.1 h
  rfl

/-- The number is a zero. -/
theorem beq_zero_of_unpack {a : Float} {s : Sign} (h : a.toModel.unpack = .zero s) :
    (a == 0) = true := by
  have hzero : (0 : Float).toModel.unpack = .zero .positive := rfl
  show (a.toModel.unpack.compare (0 : Float).toModel.unpack == some .eq) = true
  rw [h, hzero]
  rfl

/-- **Numbers that count as equal are one number, or both are zero.** -/
theorem eq_or_zero_of_beq {a b : Float} (h : (a == b) = true) :
    a = b ∨ (a == 0) = true ∧ (b == 0) = true := by
  have hcompare : a.toModel.unpack.compare b.toModel.unpack = some .eq := beq_iff_eq.1 h
  rcases cases_of_compare_eq hcompare with ⟨⟨s, ha⟩, ⟨s', hb⟩⟩ | ⟨s, ha, hb⟩ | ⟨s, m, e, hm, ha, hb⟩
  · exact .inr ⟨beq_zero_of_unpack ha, beq_zero_of_unpack hb⟩
  · exact .inl (eq_of_toBits_eq (eq_of_unpack_infinity ha hb))
  · exact .inl (eq_of_toBits_eq (eq_of_unpack_finite ha hb))

/-- Both zeros are equal. -/
theorem beq_of_beq_zero {a b : Float} (ha : (a == 0) = true) (hb : (b == 0) = true) :
    (a == b) = true := by
  have hzero {a : Float} (h : (a == 0) = true) : ∃ s, a.toModel.unpack = .zero s := by
    have hcompare : a.toModel.unpack.compare (.zero .positive) = some .eq := beq_iff_eq.1 h
    rcases cases_of_compare_eq hcompare with ⟨ha, -⟩ | ⟨s, -, hb⟩ | ⟨s, m, e, hm, -, hb⟩
    · exact ha
    · exact nomatch hb
    · exact nomatch hb
  obtain ⟨s, ha⟩ := hzero ha
  obtain ⟨s', hb⟩ := hzero hb
  show (a.toModel.unpack.compare b.toModel.unpack == some .eq) = true
  rw [ha, hb]
  rfl

/-- **Numbers that count as equal are shown alike**, the two zeros too. -/
theorem display_eq_of_beq {a b : Float} (h : (a == b) = true) : display a = display b := by
  rcases eq_or_zero_of_beq h with rfl | ⟨ha, hb⟩
  · rfl
  · simp [display, ha, hb]

end Number
end ReactiveView
