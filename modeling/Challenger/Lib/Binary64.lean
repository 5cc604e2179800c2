import Mathlib

/-! # Integers as binary64 floats

The conversion of an integer to a float rounds to the nearest one, on a tie to
the one with the even mantissa. A mantissa has 53 bits, so an integer below
`2 ^ 53` needs no rounding: it is the number its float stands for
(`value_ofInt64`). -/
namespace Challenger.Lib.Binary64
open Float.Model Float.Model.UnpackedFloat

/-- The number that a float stands for, if it is finite. -/
def value (f : Float.Model) : Option ℚ :=
  match f.unpack with
  | .infinity _ => none
  | .notANumber => none
  | .zero _ => some 0
  | .finite s m e _ => some (s.apply m * 2 ^ e)

variable {s : Sign} {m : Nat} {e : Int}

/-! ## Rounding -/

/-- How far the highest bit of a mantissa is from its place in a full one. -/
def room (m : Nat) : Nat := 52 - m.log2

theorem log2_full (hm : 0 < m) (h : m < 2 ^ 53) : (m <<< room m).log2 = 52 := by
  have hlog : m.log2 < 53 := (Nat.log2_lt hm.ne').mpr h
  have hlow := Nat.log2_self_le hm.ne'
  have hhigh := Nat.lt_log2_self (n := m)
  have hsum : m.log2 + room m = 52 := by unfold room; omega
  rw [Nat.shiftLeft_eq, Nat.log2_eq_iff (by positivity), ← hsum, Nat.pow_add, ← Nat.add_right_comm,
    Nat.pow_add]
  exact ⟨Nat.mul_le_mul_right _ hlow, (Nat.mul_lt_mul_right (by positivity)).mpr hhigh⟩

/-- A full mantissa stays as it is. -/
theorem roundWithAccuracy_full (h : 0 < m) (hm : m.log2 = 52) (he : -1074 ≤ e) :
    roundWithAccuracy .binary64 s m e .exact = .finite s m e h := by
  have htarget : Format.binary64.targetExponent (totalExponent m e) = e := by
    simp only [totalExponent, Format.targetExponent, Format.mantissaBits, Format.minExponent, hm]
    omega
  have hshift : shiftToTargetExponent .binary64 m e .exact = (⟨m, false, false⟩, e) := by
    simp [shiftToTargetExponent, htarget, shiftToExponent, ExtendedMantissa.ofMantissaAndAccuracy,
      HShiftRight.hShiftRight, Nat.repeat]
  have hrounded : ExtendedMantissa.roundedMantissa ⟨m, false, false⟩ = m := rfl
  simp only [roundWithAccuracy, hshift, hrounded, h.ne', dif_neg, not_false_eq_true]

/-- A smaller one is filled up with zeros. -/
theorem round_eq (hm : 0 < m) (h : m < 2 ^ 53) : ∃ hpos,
    UnpackedFloat.round .binary64 s m 0 = .finite s (m <<< room m) (-room m) hpos := by
  have hlog : m.log2 < 53 := (Nat.log2_lt hm.ne').mpr h
  have htarget : Format.binary64.targetExponent (totalExponent m 0) = -room m := by
    simp only [totalExponent, Format.targetExponent, Format.mantissaBits, Format.minExponent, room]
    omega
  have hpos : 0 < m <<< room m := by rw [Nat.shiftLeft_eq]; positivity
  have hdecrease : decreaseExponent m 0 (-(room m : Int)) = (m <<< room m, -(room m : Int)) := by
    simp [decreaseExponent]
  have hlow : -1074 ≤ -(room m : Int) := by unfold room; omega
  refine ⟨hpos, ?_⟩
  rw [UnpackedFloat.round, htarget, hdecrease]
  exact roundWithAccuracy_full hpos (log2_full hm h) hlow

/-! ## Bits -/

/-- The highest bit of a full mantissa is not stored. -/
theorem toNat_append_full (hm : m.log2 = 52) (h : 0 < m) :
    (1#1 ++ BitVec.ofNat 52 m).toNat = m := by
  obtain ⟨hmin, hmax⟩ := (Nat.log2_eq_iff h.ne').mp hm
  have hlow : m % 2 ^ 52 = m - 2 ^ 52 := by omega
  rw [BitVec.toNat_append, ← Nat.shiftLeft_add_eq_or_of_lt (BitVec.isLt _), BitVec.toNat_ofNat,
    BitVec.toNat_ofNat, hlow, Nat.shiftLeft_eq]
  omega

theorem pack_full {b : Nat} (h : 0 < m) (hm : m.log2 = 52) (hb : (b : Int) = e + 1075)
    (hmax : b < 2047) : UnpackedFloat.pack .binary64 (.finite s m e h) =
      packComponents .binary64 s (BitVec.ofNat 11 b) (BitVec.ofNat 52 m) := by
  have hbits : (e + Format.binary64.exponentBias +
      Format.binary64.mantissaBitsWithoutImplicit).toNat = b := by
    simp only [Format.exponentBias]
    omega
  have hfull : 52 + 1 = Format.binary64.mantissaBits := rfl
  simp only [UnpackedFloat.pack, hbits, hm]
  rw [if_neg (by omega), if_pos hfull]

/-- What is written with a full mantissa is read back. -/
theorem unpack_pack (h : 0 < m) (hm : m.log2 = 52) (hlow : -1074 ≤ e) (hhigh : e ≤ 971) :
    (Float.Model.pack (.finite s m e h)).unpack = .finite s m e h := by
  obtain ⟨b, hb⟩ : ∃ b : Nat, (b : Int) = e + 1075 := ⟨(e + 1075).toNat, by omega⟩
  have hexponent : (BitVec.ofNat 11 b).toNat = b := by
    rw [BitVec.toNat_ofNat, Nat.mod_eq_of_lt (by omega)]
  -- neither an infinity nor below the normal floats
  have hinf : BitVec.ofNat 11 b ≠ -1#11 := by
    intro he
    have hmax : b = 2047 := hexponent.symm.trans (congrArg BitVec.toNat he)
    omega
  have hzero : BitVec.ofNat 11 b ≠ 0#11 := by
    intro he
    have hmin : b = 0 := hexponent.symm.trans (congrArg BitVec.toNat he)
    omega
  have hfinite : ∀ m' e' hpos, m' = m → e' = e →
      UnpackedFloat.finite s m' e' hpos = .finite s m e h := by
    intro m' e' hpos hm' he'
    subst hm' he'
    rfl
  have hbias : Format.binary64.exponentBias = 1023 := rfl
  simp only [Float.Model.unpack, Float.Model.pack, pack_full h hm hb (by omega),
    UnpackedFloat.unpack, unpackExponent_packComponents, unpackMantissa_packComponents,
    unpackSign_packComponents, Sign.ofBitVec_toBitVec]
  rw [if_neg hinf, if_neg hzero]
  refine hfinite _ _ _ (toNat_append_full hm h) ?_
  simp only [hexponent, hbias, hb]
  omega

/-! ## Values -/

theorem value_round (hm : 0 < m) (h : m < 2 ^ 53) :
    value (.pack (UnpackedFloat.round .binary64 s m 0)) = some (s.apply m : ℚ) := by
  obtain ⟨hpos, hround⟩ := round_eq (s := s) hm h
  have hroom : room m ≤ 52 := Nat.sub_le _ _
  have happly : (s.apply (m <<< room m : Nat) : ℚ) = s.apply m * 2 ^ (room m : Int) := by
    cases s <;> simp [Sign.apply, Nat.shiftLeft_eq]
  unfold value
  rw [hround, unpack_pack hpos (log2_full hm h) (by omega) (by omega)]
  simp only [happly]
  rw [mul_assoc, ← zpow_add₀ two_ne_zero, add_neg_cancel, zpow_zero, mul_one]

/-- An integer whose bits fit into a mantissa is not rounded. -/
theorem value_ofInt64 {n : Int64} (h : n.toInt.natAbs < 2 ^ 53) :
    value (.ofInt64 n) = some (n.toInt : ℚ) := by
  have hn : Float.Model.ofInt64 n =
      .pack (UnpackedFloat.normalize .binary64 n.toInt 0 .positive) := rfl
  generalize n.toInt = z at h hn
  rw [hn, UnpackedFloat.normalize]
  rcases lt_trichotomy z 0 with hz | rfl | hz
  · have hval : Sign.negative.apply (-z).toNat = z := by simp only [Sign.apply]; omega
    rw [compare_lt_iff_lt.mpr hz]
    exact (value_round (by omega) (by omega)).trans (congrArg (fun z : Int => some (z : ℚ)) hval)
  · decide +kernel
  · have hval : Sign.positive.apply z.toNat = z := by simp only [Sign.apply]; omega
    rw [compare_gt_iff_gt.mpr hz]
    exact (value_round (by omega) (by omega)).trans (congrArg (fun z : Int => some (z : ℚ)) hval)

/-- One bit more is lost. -/
example : value (.ofInt64 (2 ^ 53 + 1)) = some (2 ^ 53) := by decide +kernel

end Challenger.Lib.Binary64
