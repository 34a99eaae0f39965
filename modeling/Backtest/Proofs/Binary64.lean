import Mathlib

/-!
The bits of floating point values taken apart and put together again. What is taken apart has a
mantissa of 53 bits, or the least exponent; a number of that form is put together, and rounded,
without any loss.
-/

namespace Backtest.Binary64

open Float.Model Float.Model.UnpackedFloat

/-- A mantissa of 53 bits, with fewer only at the least exponent. -/
structure Normalized (m : Nat) (e : Int) : Prop where
  mantissa_pos : 0 < m
  mantissa_lt : m < 2 ^ 53
  le_exponent : -1074 ≤ e
  normal : e = -1074 ∨ 2 ^ 52 ≤ m

def Canonical : UnpackedFloat → Prop
  | .finite _ m e _ => Normalized m e ∧ e ≤ 971
  | _ => True

/-! ## Bits -/

theorem toNat_unpackMantissa (b : BitVec 64) :
    (@unpackMantissa Format.binary64 b).toNat = b.toNat % 2 ^ 52 := by
  simp [unpackMantissa]

theorem toNat_unpackExponent (b : BitVec 64) :
    (@unpackExponent Format.binary64 b).toNat = b.toNat / 2 ^ 52 % 2 ^ 11 := by
  simp [unpackExponent, Nat.shiftRight_eq_div_pow]

theorem toNat_unpackSign (b : BitVec 64) :
    (@unpackSign Format.binary64 b).toNat = b.toNat / 2 ^ 63 := by
  have hb : b.toNat < 2 ^ 64 := b.isLt
  simp [unpackSign, Nat.shiftRight_eq_div_pow]
  omega

theorem toNat_one_append (m : BitVec 52) : (1#1 ++ m).toNat = 2 ^ 52 + m.toNat := by
  have hm : m.toNat < 2 ^ 52 := m.isLt
  rw [BitVec.toNat_append, ← Nat.shiftLeft_add_eq_or_of_lt hm]
  rfl

theorem exponent_eq_top_iff (exponent : BitVec 11) : exponent = -1#11 ↔ exponent.toNat = 2047 := by
  rw [← BitVec.toNat_inj]
  rfl

theorem eq_zero_iff {w : Nat} (b : BitVec w) : b = 0#w ↔ b.toNat = 0 := by
  rw [← BitVec.toNat_inj]
  rfl

theorem canonical_unpack (x : Float.Model) : Canonical x.unpack := by
  unfold Float.Model.unpack
  fun_cases UnpackedFloat.unpack Format.binary64 x.toBits.toBitVec with
  | case1 | case2 | case3 => trivial
  | case4 mantissa exponent e s sign htop hlow hzero =>
    have hm : mantissa.toNat < 2 ^ 52 := mantissa.isLt
    have hpos := (eq_zero_iff mantissa).not.1 hzero
    have he : e = (exponent.toNat : Int) - 1075 := rfl
    have hexponent := (eq_zero_iff exponent).1 hlow
    exact ⟨⟨by omega, by omega, by omega, by omega⟩, by omega⟩
  | case5 mantissa exponent e s sign htop hlow =>
    have hm : mantissa.toNat < 2 ^ 52 := mantissa.isLt
    have he : e = (exponent.toNat : Int) - 1075 := rfl
    have hone := toNat_one_append mantissa
    have hlt : exponent.toNat < 2 ^ 11 := exponent.isLt
    have hpos := (eq_zero_iff exponent).not.1 hlow
    have htop := (exponent_eq_top_iff exponent).not.1 htop
    exact ⟨⟨by omega, by omega, by omega, by omega⟩, by omega⟩

theorem log2_eq_iff {m : Nat} (hm : m < 2 ^ 53) : m.log2 + 1 = 53 ↔ 2 ^ 52 ≤ m := by
  constructor
  · intro h
    have hne : m ≠ 0 := by rintro rfl; simp at h
    exact (Nat.le_log2 hne).1 (by omega)
  · intro h
    have hne : m ≠ 0 := by omega
    have hlow := (Nat.le_log2 hne).2 h
    have hhigh := (Nat.log2_lt hne).2 hm
    omega

theorem unpack_pack {u : UnpackedFloat} (hu : Canonical u) : (Float.Model.pack u).unpack = u := by
  unfold Float.Model.unpack Float.Model.pack
  cases u with
  | infinity s => simp [UnpackedFloat.pack, packedInfinity, UnpackedFloat.unpack]
  | notANumber => simp [UnpackedFloat.pack, packedNaN, UnpackedFloat.unpack]
  | zero s => simp [UnpackedFloat.pack, packedZero, UnpackedFloat.unpack]
  | finite s m e hm =>
    obtain ⟨⟨-, hlt, hlow, hnormal⟩, hhigh⟩ := hu
    have hbias : (Format.binary64.exponentBias : Int) = 1023 := rfl
    obtain ⟨biased, hbiased⟩ : ∃ n : Nat, e + 1023 + 52 = n := ⟨(e + 1075).toNat, by omega⟩
    have hrange : ¬2048 ≤ biased + 1 := by omega
    by_cases hbig : 2 ^ 52 ≤ m
    · have hlog : m.log2 + 1 = Format.binary64.mantissaBits := (log2_eq_iff hlt).2 hbig
      have htop : ¬BitVec.ofNat 11 biased = 2047#11 := by
        rw [← BitVec.toNat_inj, BitVec.toNat_ofNat]
        simp
        omega
      have hbottom : ¬BitVec.ofNat 11 biased = 0#11 := by
        rw [eq_zero_iff, BitVec.toNat_ofNat]
        omega
      have hmantissa : (1#1 ++ BitVec.ofNat 52 m).toNat = m := by
        rw [toNat_one_append, BitVec.toNat_ofNat]
        omega
      simp [UnpackedFloat.pack, hlog, hbias, hbiased, hrange, UnpackedFloat.unpack, htop, hbottom,
        hmantissa]
      omega
    · have hlog : ¬m.log2 + 1 = Format.binary64.mantissaBits := (log2_eq_iff hlt).not.2 hbig
      have hmantissa : ¬BitVec.ofNat 52 m = 0#52 := by
        rw [eq_zero_iff, BitVec.toNat_ofNat]
        omega
      simp [UnpackedFloat.pack, hlog, hbias, hbiased, hrange, UnpackedFloat.unpack, hmantissa]
      omega

/-- Beyond the greatest exponent there is only infinity. -/
theorem unpack_pack_overflow {s : Sign} {m : Nat} {e : Int} {hm : 0 < m} (he : 971 < e) :
    (Float.Model.pack (.finite s m e hm)).unpack = .infinity s := by
  have hbias : (Format.binary64.exponentBias : Int) = 1023 := rfl
  obtain ⟨biased, hbiased⟩ : ∃ n : Nat, e + 1023 + 52 = n := ⟨(e + 1075).toNat, by omega⟩
  have hrange : 2048 ≤ biased + 1 := by omega
  simp [Float.Model.unpack, Float.Model.pack, UnpackedFloat.pack, hbias, hbiased, hrange,
    packedInfinity, UnpackedFloat.unpack]

/-! ## Rounding -/

theorem mantissa_shiftRight (em : ExtendedMantissa) (k : Nat) :
    (em >>> k).mantissa = em.mantissa / 2 ^ k := by
  change (k.repeat ExtendedMantissa.shiftRightOne em).mantissa = _
  induction k with
  | zero => simp [Nat.repeat]
  | succ k ih =>
    simp only [Nat.repeat, ExtendedMantissa.shiftRightOne, ih]
    rw [Nat.div_div_eq_div_mul, pow_succ]

/-- Zeros are shifted out without any loss. -/
theorem shiftRight_exact (m k : Nat) :
    (⟨m * 2 ^ k, false, false⟩ : ExtendedMantissa) >>> k = ⟨m, false, false⟩ := by
  change k.repeat ExtendedMantissa.shiftRightOne ⟨m * 2 ^ k, false, false⟩ = _
  induction k generalizing m with
  | zero => simp [Nat.repeat]
  | succ k ih =>
    have hm : m * 2 ^ (k + 1) = (2 * m) * 2 ^ k := by ring
    rw [hm, Nat.repeat, ih]
    simp [ExtendedMantissa.shiftRightOne]

theorem roundedMantissa_bounds (em : ExtendedMantissa) :
    em.mantissa ≤ em.roundedMantissa ∧ em.roundedMantissa ≤ em.mantissa + 1 := by
  obtain ⟨m, r, s⟩ := em
  cases r <;> cases s <;>
    simp [ExtendedMantissa.roundedMantissa, ExtendedMantissa.accuracy,
      Accuracy.roundToNearestEven]
  omega

theorem targetExponent_of_normalized {m : Nat} {e : Int} (h : Normalized m e) :
    Format.binary64.targetExponent (totalExponent m e) = e := by
  obtain ⟨hpos, hlt, hlow, hnormal⟩ := h
  have hbits : (Format.binary64.mantissaBits : Int) = 53 := rfl
  have hmin : Format.binary64.minExponent = -1074 := rfl
  have hlog : m.log2 < 53 := (Nat.log2_lt hpos.ne').2 hlt
  have hlog' : e = -1074 ∨ 52 ≤ m.log2 := hnormal.imp_right (Nat.le_log2 hpos.ne').2
  unfold Format.targetExponent totalExponent
  omega

theorem log2_mul_two_pow {m : Nat} (hm : 0 < m) (k : Nat) : (m * 2 ^ k).log2 = m.log2 + k := by
  induction k with
  | zero => simp
  | succ k ih =>
    have hne : m * 2 ^ k ≠ 0 := by positivity
    rw [pow_succ, ← mul_assoc, mul_comm, Nat.log2_two_mul hne, ih, Nat.add_assoc]

theorem totalExponent_mul {m : Nat} (hm : 0 < m) (e : Int) (k : Nat) :
    totalExponent (m * 2 ^ k) (e - k) = totalExponent m e := by
  unfold totalExponent
  rw [log2_mul_two_pow hm]
  omega

theorem shiftToTargetExponent_of_normalized {m : Nat} {e : Int} (h : Normalized m e) (k : Nat) :
    shiftToTargetExponent Format.binary64 (m * 2 ^ k) (e - k) .exact =
      (⟨m, false, false⟩, e) := by
  have hk : (e - (e - (k : Int))).toNat = k := by omega
  unfold shiftToTargetExponent shiftToExponent
  rw [totalExponent_mul h.mantissa_pos, targetExponent_of_normalized h]
  simp only [hk, ExtendedMantissa.ofMantissaAndAccuracy, shiftRight_exact]
  simp

/-- Rounding may carry into one more bit, which the second shift takes back. -/
theorem roundWithAccuracy_of_shift {s : Sign} {m₀ m k : Nat} {e₀ e₁ e : Int} {a : Accuracy}
    {em : ExtendedMantissa} (h : Normalized m e)
    (hfirst : shiftToTargetExponent Format.binary64 m₀ e₀ a = (em, e₁))
    (hmantissa : em.roundedMantissa = m * 2 ^ k) (hexponent : e₁ = e - k) :
    roundWithAccuracy Format.binary64 s m₀ e₀ a = .finite s m e h.mantissa_pos := by
  unfold roundWithAccuracy
  rw [hfirst]
  simp only [hmantissa, hexponent, shiftToTargetExponent_of_normalized h k, h.mantissa_pos.ne',
    dite_false]

/-- A mantissa that is rounded up to a further bit gives that bit back. -/
theorem exists_normalized_of_shift {s : Sign} {m₀ : Nat} {e₀ t : Int} {a : Accuracy}
    {em : ExtendedMantissa} (hfirst : shiftToTargetExponent Format.binary64 m₀ e₀ a = (em, t))
    (hlt : em.mantissa < 2 ^ 53) (hlow : -1074 ≤ t) (hfull : t = -1074 ∨ 2 ^ 52 ≤ em.mantissa)
    (hpos : 0 < em.roundedMantissa) :
    ∃ m k, ∃ h : Normalized m (t + (k : Nat)), em.roundedMantissa = m * 2 ^ k ∧
      roundWithAccuracy Format.binary64 s m₀ e₀ a = .finite s m (t + k) h.mantissa_pos := by
  obtain ⟨hbelow, habove⟩ := roundedMantissa_bounds em
  by_cases hcarry : em.roundedMantissa = 2 ^ 53
  · have h : Normalized (2 ^ 52) (t + (1 : Nat)) := ⟨by decide, by decide, by omega, .inr le_rfl⟩
    have hexponent : t = t + (1 : Nat) - (1 : Nat) := by omega
    exact ⟨2 ^ 52, 1, h, hcarry, roundWithAccuracy_of_shift h hfirst hcarry hexponent⟩
  · have h : Normalized em.roundedMantissa (t + (0 : Nat)) := ⟨hpos, by omega, by omega, by omega⟩
    have hrounded : em.roundedMantissa = em.roundedMantissa * 2 ^ 0 := (mul_one _).symm
    exact ⟨em.roundedMantissa, 0, h, hrounded,
      roundWithAccuracy_of_shift h hfirst hrounded (by omega)⟩

/-- A number that has an exact representation is not rounded. -/
theorem roundWithAccuracy_exact {s : Sign} {m : Nat} {e : Int} (h : Normalized m e) (k : Nat) :
    roundWithAccuracy Format.binary64 s (m * 2 ^ k) (e - k) .exact =
      .finite s m e h.mantissa_pos :=
  roundWithAccuracy_of_shift h (shiftToTargetExponent_of_normalized h k)
    (pow_zero 2 ▸ (mul_one m).symm) (Int.sub_zero e).symm

/-! ## Integers -/

theorem normalized_scaled {n : Nat} (hpos : 0 < n) (hn : n < 2 ^ 53) :
    Normalized (n * 2 ^ (52 - n.log2)) ((n.log2 : Int) - 52) := by
  have hlog : n.log2 < 53 := (Nat.log2_lt hpos.ne').2 hn
  have hlow := Nat.log2_self_le hpos.ne'
  have hhigh := @Nat.lt_log2_self n
  refine ⟨by positivity, ?_, by omega, .inr ?_⟩
  · calc n * 2 ^ (52 - n.log2) < 2 ^ (n.log2 + 1) * 2 ^ (52 - n.log2) := by gcongr
      _ = 2 ^ 53 := by rw [← pow_add]; congr 1; omega
  · calc 2 ^ 52 = 2 ^ n.log2 * 2 ^ (52 - n.log2) := by rw [← pow_add]; congr 1; omega
      _ ≤ n * 2 ^ (52 - n.log2) := by gcongr

theorem ofNat_of_lt {n : Nat} (hpos : 0 < n) (hn : n < 2 ^ 53) :
    UnpackedFloat.ofNat Format.binary64 n =
      .finite .positive (n * 2 ^ (52 - n.log2)) ((n.log2 : Int) - 52)
        (normalized_scaled hpos hn).mantissa_pos := by
  have h := normalized_scaled hpos hn
  have hlog : n.log2 < 53 := (Nat.log2_lt hpos.ne').2 hn
  have hexponent : (0 : Int) - ((52 - n.log2 : Nat) : Int) = n.log2 - 52 := by omega
  have hshift : (0 - ((n.log2 : Int) - 52)).toNat = 52 - n.log2 := by omega
  have htarget : Format.binary64.targetExponent (totalExponent n 0) = (n.log2 : Int) - 52 := by
    rw [← totalExponent_mul hpos 0 (52 - n.log2), hexponent, targetExponent_of_normalized h]
  have hgt : compare (n : Int) 0 = .gt := compare_gt_iff_gt.2 (by omega)
  simp only [UnpackedFloat.ofNat, UnpackedFloat.ofInt, UnpackedFloat.normalize, hgt,
    Int.toNat_natCast, UnpackedFloat.round, htarget, decreaseExponent]
  rw [hshift, Nat.shiftLeft_eq, hexponent]
  simpa using @roundWithAccuracy_exact .positive _ _ h 0

/-- The 53 leading bits of a longer integer. -/
theorem leading_bounds {n t : Nat} (hne : n ≠ 0) (ht : n.log2 = t + 52) :
    2 ^ 52 ≤ n / 2 ^ t ∧ n / 2 ^ t < 2 ^ 53 := by
  constructor
  · rw [Nat.le_div_iff_mul_le (by positivity)]
    calc 2 ^ 52 * 2 ^ t = 2 ^ n.log2 := by rw [← pow_add, ht]; congr 1; omega
      _ ≤ n := Nat.log2_self_le hne
  · rw [Nat.div_lt_iff_lt_mul (by positivity)]
    calc n < 2 ^ (n.log2 + 1) := Nat.lt_log2_self
      _ = 2 ^ 53 * 2 ^ t := by rw [← pow_add, ht]; congr 1; omega

/-- A longer integer keeps its 53 leading bits, up to the rounding. -/
theorem roundWithAccuracy_of_le {n : Nat} (hn : 2 ^ 53 ≤ n) :
    ∃ m e, ∃ h : Normalized m e, 1 ≤ e ∧
      roundWithAccuracy Format.binary64 .positive (n * 2 ^ 53) (-53) .exact =
        .finite .positive m e h.mantissa_pos := by
  have hne : n ≠ 0 := by omega
  have hlog : 53 ≤ n.log2 := (Nat.le_log2 hne).2 hn
  obtain ⟨t, ht⟩ : ∃ t, n.log2 = t + 52 := ⟨n.log2 - 52, by omega⟩
  obtain ⟨hlow, hhigh⟩ := leading_bounds hne ht
  have htarget : Format.binary64.targetExponent (totalExponent (n * 2 ^ 53) (-53)) = t := by
    have htotal := totalExponent_mul (Nat.pos_of_ne_zero hne) 0 53
    have hbits : (Format.binary64.mantissaBits : Int) = 53 := rfl
    have hmin : Format.binary64.minExponent = -1074 := rfl
    have hzero : (0 : Int) - (53 : Nat) = -53 := by omega
    rw [hzero] at htotal
    rw [htotal]
    unfold Format.targetExponent totalExponent
    omega
  obtain ⟨em, hem⟩ : ∃ em, em = (ExtendedMantissa.mk (n * 2 ^ 53) false false) >>> (t + 53) :=
    ⟨_, rfl⟩
  have hfirst : shiftToTargetExponent Format.binary64 (n * 2 ^ 53) (-53) .exact =
      (em, (t : Int)) := by
    have hshift : ((t : Int) - -53).toNat = t + 53 := by omega
    have hexponent : (-53 : Int) + ((t + 53 : Nat) : Int) = t := by omega
    unfold shiftToTargetExponent shiftToExponent
    simp only [htarget, hshift, hexponent, hem]
    rfl
  have hmantissa : em.mantissa = n / 2 ^ t := by
    rw [hem, mantissa_shiftRight, pow_add, Nat.mul_div_mul_right _ _ (by positivity)]
  have hbounds := roundedMantissa_bounds em
  rw [← hmantissa] at hlow hhigh
  obtain ⟨m, k, h, -, hround⟩ := exists_normalized_of_shift (s := .positive) hfirst hhigh (by omega)
    (.inr hlow) (by omega)
  exact ⟨m, t + k, h, by omega, hround⟩

theorem unpack_one : (Float.ofBits 0x3FF0000000000000).toModel.unpack =
    .finite .positive (2 ^ 52) (-52) (by decide) := by
  rfl

theorem unpack_toFloat {n : Nat} (hpos : 0 < n) (hn : n < 2 ^ 53) :
    n.toFloat.toModel.unpack =
      .finite .positive (n * 2 ^ (52 - n.log2)) ((n.log2 : Int) - 52)
        (normalized_scaled hpos hn).mantissa_pos := by
  have hlog : n.log2 < 53 := (Nat.log2_lt hpos.ne').2 hn
  have h : Canonical (.finite .positive _ _ (normalized_scaled hpos hn).mantissa_pos) :=
    ⟨normalized_scaled hpos hn, by omega⟩
  have hword : n.toUInt64.toNat = n := UInt64.toNat_ofNat_of_lt' (by simp [UInt64.size]; omega)
  have hwhole : n.toUInt64.toFloat.toModel.unpack = UnpackedFloat.ofNat Format.binary64 n := by
    change (Float.Model.pack (UnpackedFloat.ofNat Format.binary64 n.toUInt64.toNat)).unpack = _
    rw [hword, ofNat_of_lt hpos hn, unpack_pack h]
  -- Short integers are multiplied by the power of ten, which is one.
  have hmul : n.toFloat = n.toUInt64.toFloat * Float.ofBits 0x3FF0000000000000 := by
    have hfast : n < 2 ^ 53 ∧ 0 ≤ 22 := ⟨hn, by decide⟩
    change Float.ofScientific n false 0 = _
    unfold Float.ofScientific
    rw [dif_pos hfast]
    rfl
  have hproduct : n.toFloat.toModel.unpack =
      (Float.Model.pack (UnpackedFloat.mul Format.binary64 n.toUInt64.toFloat.toModel.unpack
        (Float.ofBits 0x3FF0000000000000).toModel.unpack)).unpack := by
    rw [hmul]
    rfl
  have hexponent : (n.log2 : Int) - 52 + -52 = (n.log2 : Int) - 52 - (52 : Nat) := by omega
  have hsign : (Sign.positive * Sign.positive) = Sign.positive := rfl
  rw [hproduct, hwhole, ofNat_of_lt hpos hn, unpack_one]
  simp only [UnpackedFloat.mul]
  rw [hexponent, hsign, roundWithAccuracy_exact h.1 52, unpack_pack h]

/-- Longer integers are rounded, and the longest become infinite. -/
theorem unpack_toFloat_of_le {n : Nat} (hn : 2 ^ 53 ≤ n) :
    n.toFloat.toModel.unpack = .infinity .positive ∨
      ∃ m e, ∃ h : Normalized m e, 1 ≤ e ∧
        n.toFloat.toModel.unpack = .finite .positive m e h.mantissa_pos := by
  obtain ⟨m, e, h, he, hround⟩ := roundWithAccuracy_of_le hn
  have hne : n ≠ 0 := by omega
  have hslow : ¬(n < 2 ^ 53 ∧ 0 ≤ 22) := by omega
  have hscientific : UnpackedFloat.ofScientific Format.binary64 n (Int.ofNat 0) =
      roundWithAccuracy Format.binary64 .positive (n * 2 ^ 53) (-53) .exact := by
    have hrange : ¬(2048 : Int) < -(n.log2 : Int) := by omega
    have hbits : Format.binary64.mantissaBits = 53 := rfl
    have hsign : (Sign.positive * Sign.positive) = Sign.positive := rfl
    simp [UnpackedFloat.ofScientific, UnpackedFloat.mul, hne, hrange, hbits, hsign,
      Nat.shiftLeft_eq]
  have hmodel : n.toFloat.toModel = Float.Model.pack (.finite .positive m e h.mantissa_pos) := by
    change (Float.ofScientific n false 0).toModel = _
    unfold Float.ofScientific
    rw [dif_neg hslow, ← hround, ← hscientific]
    rfl
  rw [hmodel]
  by_cases htop : 971 < e
  · exact .inl (unpack_pack_overflow htop)
  · have hcanonical : Canonical (.finite .positive m e h.mantissa_pos) := ⟨h, by omega⟩
    exact .inr ⟨m, e, h, he, unpack_pack hcanonical⟩

end Backtest.Binary64
