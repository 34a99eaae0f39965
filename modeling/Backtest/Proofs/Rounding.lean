import Mathlib
import Backtest.Proofs.ExactValue

/-!
Rounding errors. An operation gives its exact result but for half a unit in the last place, which is
a 2⁵³-th part of the result or of the least normal value. In this way magnitudes can be followed
through a chain of operations, and where they stay in the range all values are finite.
-/

namespace Backtest

open Float.Model Float.Model.UnpackedFloat

namespace Binary64

/-- The greatest relative error of an operation: half the step from one to the next value. -/
def epsilon : ℚ := 2 ^ (-53 : Int)

/-- The least normal value. -/
def tiny : ℚ := 2 ^ (-1022 : Int)

/-- From here on there are no finite values. -/
def huge : ℚ := 2 ^ (1024 : Int)

theorem epsilon_pos : 0 < epsilon := by unfold epsilon; positivity

theorem tiny_pos : 0 < tiny := by unfold tiny; positivity

/-- Half a unit at the least exponent is the error of the least normal value. -/
theorem least_unit : 2 * (epsilon * tiny) = 2 ^ (-1074 : Int) := by
  have hsum : (-1074 : Int) = 1 + (-53 + -1022) := rfl
  rw [hsum, zpow_add₀ two_ne_zero, zpow_one, zpow_add₀ two_ne_zero, epsilon, tiny]

/-! ## One rounding -/

section Rounding

variable {s : Sign} {m : Nat} {e : Int} {a : Accuracy}

theorem mantissa_ofMantissaAndAccuracy (m : Nat) (a : Accuracy) :
    (ExtendedMantissa.ofMantissaAndAccuracy m a).mantissa = m := by
  cases a with
  | exact => rfl
  | inexact position => cases position <;> rfl

/-- A mantissa in halves of its last unit. -/
def halves (em : ExtendedMantissa) : Nat := 2 * em.mantissa + em.roundBit.toNat

theorem halves_shiftRightOne (em : ExtendedMantissa) :
    halves em.shiftRightOne = em.mantissa := by
  have hbit : (em.mantissa % 2 != 0).toNat = em.mantissa % 2 := by
    rcases Nat.mod_two_eq_zero_or_one em.mantissa with h | h <;> rw [h] <;> rfl
  simp only [halves, ExtendedMantissa.shiftRightOne, hbit]
  omega

theorem halves_shiftRight (em : ExtendedMantissa) (k : Nat) :
    halves (em >>> k) * 2 ^ k ≤ halves em := by
  change halves (k.repeat ExtendedMantissa.shiftRightOne em) * 2 ^ k ≤ _
  induction k with
  | zero => simp [Nat.repeat]
  | succ k ih =>
    rw [Nat.repeat, halves_shiftRightOne]
    refine le_trans ?_ ih
    rw [pow_succ', ← mul_assoc]
    exact Nat.mul_le_mul_right _ (by unfold halves; omega)

theorem roundedMantissa_le_halves (em : ExtendedMantissa) :
    2 * em.roundedMantissa ≤ halves em + 1 := by
  obtain ⟨m, r, s⟩ := em
  cases r <;> cases s <;>
    simp [ExtendedMantissa.roundedMantissa, ExtendedMantissa.accuracy,
      Accuracy.roundToNearestEven, halves]
  · omega
  · omega

/-- How far a mantissa is shifted that is long enough, or stands at the least exponent. -/
theorem targetExponent_spec (henough : e ≤ -1074 ∨ 2 ^ 52 ≤ m) :
    ∃ k : Nat, Format.binary64.targetExponent (totalExponent m e) = e + k ∧
      -1074 ≤ e + k ∧ m.log2 ≤ k + 52 ∧ (e + k = -1074 ∨ m.log2 = k + 52) := by
  have hbits : (Format.binary64.mantissaBits : Int) = 53 := rfl
  have hmin : Format.binary64.minExponent = -1074 := rfl
  have hlog : 2 ^ 52 ≤ m → 52 ≤ m.log2 := fun h => (Nat.le_log2 (by omega)).2 h
  refine ⟨(Format.binary64.targetExponent (totalExponent m e) - e).toNat, ?_⟩
  unfold Format.targetExponent totalExponent
  omega

/-- The bits that are left make up a mantissa of full length, or one at the least exponent. -/
theorem shiftToTargetExponent_spec (henough : e ≤ -1074 ∨ 2 ^ 52 ≤ m) :
    ∃ em t, shiftToTargetExponent Format.binary64 m e a = (em, t) ∧ em.mantissa < 2 ^ 53 ∧
      -1074 ≤ t ∧ (t = -1074 ∨ 2 ^ 52 ≤ em.mantissa) ∧
      (halves em : ℚ) * 2 ^ t ≤ halves (ExtendedMantissa.ofMantissaAndAccuracy m a) * 2 ^ e := by
  obtain ⟨k, htarget, hlow, hshort, hfull⟩ := targetExponent_spec henough
  have hk : (e + (k : Int) - e).toNat = k := by omega
  have hmantissa : (ExtendedMantissa.ofMantissaAndAccuracy m a >>> k).mantissa = m / 2 ^ k := by
    rw [mantissa_shiftRight, mantissa_ofMantissaAndAccuracy]
  refine ⟨ExtendedMantissa.ofMantissaAndAccuracy m a >>> k, e + k, ?_, ?_, hlow, ?_, ?_⟩
  · simp only [shiftToTargetExponent, shiftToExponent, htarget, hk]
  · rw [hmantissa, Nat.div_lt_iff_lt_mul (by positivity), ← pow_add]
    calc m < 2 ^ (m.log2 + 1) := Nat.lt_log2_self
      _ ≤ 2 ^ (53 + k) := Nat.pow_le_pow_right (by decide) (by omega)
  · by_cases hbottom : e + (k : Int) = -1074
    · exact .inl hbottom
    · have hlog := hfull.resolve_left hbottom
      exact .inr (hmantissa ▸ (leading_bounds (by rintro rfl; simp at hlog) hlog).1)
  · have hshift : (halves (ExtendedMantissa.ofMantissaAndAccuracy m a >>> k) : ℚ) * 2 ^ k ≤
        halves (ExtendedMantissa.ofMantissaAndAccuracy m a) := by
      exact_mod_cast halves_shiftRight (ExtendedMantissa.ofMantissaAndAccuracy m a) k
    rw [zpow_add₀ two_ne_zero, zpow_natCast, mul_comm ((2 : ℚ) ^ e), ← mul_assoc]
    gcongr

/-- What a value is rounded to: a finite one unless it lies beyond the range. -/
structure RoundsTo (u : UnpackedFloat) (s : Sign) (q : ℚ) : Prop where
  toRat?_eq : toRat? u = some (signed s q)
  canonical : q < huge → Canonical u

theorem roundsTo_finite (h : Normalized m e) (s : Sign) :
    RoundsTo (.finite s m e h.mantissa_pos) s (m * 2 ^ e) where
  toRat?_eq := rfl
  canonical hq := by
    refine ⟨h, ?_⟩
    by_contra! hhigh
    have hm : (2 : ℚ) ^ 52 ≤ m := by exact_mod_cast h.normal.resolve_left (by omega)
    refine absurd hq (not_lt.2 ?_)
    calc huge = (2 : ℚ) ^ 52 * 2 ^ (972 : Int) := by
          have hsum : (1024 : Int) = (52 : Nat) + 972 := rfl
          rw [huge, hsum, zpow_add₀ two_ne_zero, zpow_natCast]
      _ ≤ m * 2 ^ e := mul_le_mul hm (zpow_le_zpow_right₀ one_le_two (by omega))
          (zpow_nonneg zero_le_two _) m.cast_nonneg

theorem roundsTo_zero (s : Sign) : RoundsTo (.zero s) s 0 where
  toRat?_eq := congrArg some (signed_zero s).symm
  canonical _ := trivial

theorem roundWithAccuracy_of_zero {em : ExtendedMantissa} {t : Int}
    (hfirst : shiftToTargetExponent Format.binary64 m e a = (em, t))
    (hzero : em.roundedMantissa = 0) :
    roundWithAccuracy Format.binary64 s m e a = .zero s := by
  have hshifted : (shiftToTargetExponent Format.binary64 0 t .exact).1.mantissa = 0 := by
    simp only [shiftToTargetExponent, shiftToExponent, mantissa_shiftRight,
      mantissa_ofMantissaAndAccuracy, Nat.zero_div]
  unfold roundWithAccuracy
  rw [hfirst]
  simp only [hzero, hshifted, dite_true]

/-- Half a unit in the last place is the greatest error. -/
theorem unit_le {em : ExtendedMantissa} {t : Int} {q : ℚ}
    (hfull : t = -1074 ∨ 2 ^ 52 ≤ em.mantissa) (hhalves : (halves em : ℚ) * 2 ^ t ≤ 2 * q) :
    (2 : ℚ) ^ t ≤ 2 * (epsilon * max q tiny) := by
  rcases hfull with rfl | hfull
  · rw [← least_unit]
    have := mul_le_mul_of_nonneg_left (le_max_right q tiny) epsilon_pos.le
    linarith
  · have hfull' : (2 : ℚ) ^ 53 ≤ halves em := by
      exact_mod_cast show 2 ^ 53 ≤ halves em by unfold halves; omega
    have hscaled : (2 : ℚ) ^ t = epsilon * (2 ^ 53 * 2 ^ t) := by
      rw [epsilon, ← mul_assoc, ← zpow_natCast, ← zpow_add₀ two_ne_zero]
      simp
    calc (2 : ℚ) ^ t = epsilon * (2 ^ 53 * 2 ^ t) := hscaled
      _ ≤ epsilon * (halves em * 2 ^ t) := by have := epsilon_pos; gcongr
      _ ≤ epsilon * (2 * q) := mul_le_mul_of_nonneg_left hhalves epsilon_pos.le
      _ ≤ 2 * (epsilon * max q tiny) := by
          have := mul_le_mul_of_nonneg_left (le_max_left q tiny) epsilon_pos.le
          linarith

/-- What is known of a number before its rounding is its mantissa, and the half unit behind it. -/
theorem roundWithAccuracy_spec {q : ℚ} (henough : e ≤ -1074 ∨ 2 ^ 52 ≤ m)
    (hq : (halves (ExtendedMantissa.ofMantissaAndAccuracy m a) : ℚ) * 2 ^ e ≤ 2 * q) :
    ∃ r, RoundsTo (roundWithAccuracy Format.binary64 s m e a) s r ∧ 0 ≤ r ∧
      r ≤ q + epsilon * max q tiny := by
  obtain ⟨em, t, hfirst, hlt, hlow, hfull, hvalue⟩ := @shiftToTargetExponent_spec m e a henough
  have hhalves : (halves em : ℚ) * 2 ^ t ≤ 2 * q := hvalue.trans hq
  have hunit := unit_le hfull hhalves
  have hsize : (em.roundedMantissa : ℚ) * 2 ^ t ≤ q + epsilon * max q tiny := by
    have hrounded : 2 * (em.roundedMantissa : ℚ) ≤ halves em + 1 := by
      exact_mod_cast roundedMantissa_le_halves em
    have hscaled : 2 * (em.roundedMantissa : ℚ) * 2 ^ t ≤ (halves em + 1) * 2 ^ t := by gcongr
    linarith
  refine ⟨em.roundedMantissa * 2 ^ t, ?_, by positivity, hsize⟩
  rcases Nat.eq_zero_or_pos em.roundedMantissa with hzero | hpos
  · rw [roundWithAccuracy_of_zero hfirst hzero, hzero, Nat.cast_zero, zero_mul]
    exact roundsTo_zero s
  · obtain ⟨m', k, h, hmantissa, hround⟩ :=
      exists_normalized_of_shift (s := s) hfirst hlt hlow hfull hpos
    have hvalue : (em.roundedMantissa : ℚ) * 2 ^ t = m' * 2 ^ (t + (k : Int)) := by
      rw [hmantissa, zpow_add₀ two_ne_zero, zpow_natCast]
      push_cast
      ring
    rw [hround, hvalue]
    exact roundsTo_finite h s

end Rounding

/-! ## Operations -/

section Operations

variable {u v : UnpackedFloat} {p q : ℚ} {m m₁ m₂ : Nat} {e e₁ e₂ : Int} {a : Accuracy}

theorem abs_signed (s : Sign) (q : ℚ) : |signed s q| = |q| := by
  cases s with
  | negative => exact abs_neg q
  | positive => rfl

/-- The outcome of an operation with an exact result. -/
def IsRounded (u : UnpackedFloat) (q : ℚ) : Prop :=
  ∃ r, toRat? u = some r ∧ |r| ≤ |q| + epsilon * max |q| tiny ∧ (|r| < huge → Canonical u)

theorem isRounded_zero (s : Sign) (q : ℚ) : IsRounded (.zero s) q := by
  refine ⟨0, rfl, ?_, fun _ => trivial⟩
  rw [abs_zero]
  exact add_nonneg (abs_nonneg q) (mul_nonneg epsilon_pos.le (le_max_of_le_right tiny_pos.le))

theorem isRounded_of_halves_le {s : Sign} (henough : e ≤ -1074 ∨ 2 ^ 52 ≤ m)
    (hq : (halves (ExtendedMantissa.ofMantissaAndAccuracy m a) : ℚ) * 2 ^ e ≤ 2 * |q|) :
    IsRounded (roundWithAccuracy Format.binary64 s m e a) q := by
  obtain ⟨r, hr, hnonneg, hle⟩ := @roundWithAccuracy_spec s m e a |q| henough hq
  have habs : |signed s r| = r := (abs_signed s r).trans (abs_of_nonneg hnonneg)
  exact ⟨signed s r, hr.toRat?_eq, habs.trans_le hle, fun h => hr.canonical (habs ▸ h)⟩

theorem isRounded_of_eq {s : Sign} (henough : e ≤ -1074 ∨ 2 ^ 52 ≤ m)
    (hq : (m : ℚ) * 2 ^ e = |q|) : IsRounded (roundWithAccuracy Format.binary64 s m e .exact) q := by
  refine isRounded_of_halves_le henough (le_of_eq ?_)
  rw [← hq, ← mul_assoc]
  exact congrArg (· * (2 : ℚ) ^ e) (by simp [halves, ExtendedMantissa.ofMantissaAndAccuracy])

theorem mul_isRounded (hu : Canonical u) (hv : Canonical v) (hp : toRat? u = some p)
    (hq : toRat? v = some q) : IsRounded (mul Format.binary64 u v) (p * q) := by
  cases u with
  | infinity | notANumber => cases hp
  | zero s =>
    cases v with
    | infinity | notANumber => cases hq
    | zero | finite => exact isRounded_zero _ _
  | finite s m₁ e₁ hm₁ =>
    cases v with
    | infinity | notANumber => cases hq
    | zero => exact isRounded_zero _ _
    | finite t m₂ e₂ hm₂ =>
      cases hp
      cases hq
      refine isRounded_of_eq ?_ ?_
      · have h₁ := hu.1.normal
        have h₂ := hv.1.normal
        rcases h₁ with h₁ | h₁
        · rcases h₂ with h₂ | h₂
          · exact .inl (by omega)
          · exact .inr (h₂.trans (Nat.le_mul_of_pos_left _ hm₁))
        · exact .inr (h₁.trans (Nat.le_mul_of_pos_right _ hm₂))
      · rw [abs_mul, abs_signed, abs_signed, abs_of_nonneg (by positivity),
          abs_of_nonneg (by positivity), zpow_add₀ two_ne_zero]
        push_cast
        ring

theorem halves_quotient (n d : Nat) :
    halves (ExtendedMantissa.ofMantissaAndAccuracy (n / d) (accuracyOfFraction (n % d) d)) * d ≤
      2 * n := by
  have hdiv := Nat.div_add_mod n d
  have hlow : 2 * (n / d) * d ≤ 2 * n := by
    rw [mul_assoc]
    exact Nat.mul_le_mul_left 2 (Nat.div_mul_le_self n d)
  have hhigh (h : d ≤ 2 * (n % d)) : (2 * (n / d) + 1) * d ≤ 2 * n := by
    rw [add_mul, one_mul, mul_assoc, mul_comm (n / d)]
    omega
  unfold accuracyOfFraction
  split
  · exact hlow
  · rcases lt_trichotomy (2 * (n % d)) d with h | h | h
    · rw [compare_lt_iff_lt.2 h]
      exact hlow
    · rw [compare_eq_iff_eq.2 h]
      exact hhigh h.ge
    · rw [compare_gt_iff_gt.2 h]
      exact hhigh h.le

/-- A quotient has enough bits, unless it stands at the least exponent. -/
theorem divCore_spec (hm₁ : 0 < m₁) (hm₂ : 0 < m₂) :
    ∃ m e a, divCore Format.binary64 m₁ e₁ m₂ e₂ = (m, e, a) ∧ (e ≤ -1074 ∨ 2 ^ 52 ≤ m) ∧
      (halves (ExtendedMantissa.ofMantissaAndAccuracy m a) : ℚ) * 2 ^ e ≤
        2 * (m₁ * 2 ^ e₁ / (m₂ * 2 ^ e₂)) := by
  have hbits : (Format.binary64.mantissaBits : Int) = 53 := rfl
  have hmin : Format.binary64.minExponent = -1074 := rfl
  obtain ⟨e, he⟩ : ∃ e, min (e₁ - e₂) (Format.binary64.targetExponent
    (totalExponent m₁ e₁ - totalExponent m₂ e₂)) = e := ⟨_, rfl⟩
  obtain ⟨k, hk⟩ : ∃ k : Nat, e₁ - e₂ = e + k := ⟨(e₁ - e₂ - e).toNat, by omega⟩
  have hshift : (e₁ - e₂ - e).toNat = k := by omega
  refine ⟨m₁ * 2 ^ k / m₂, e, accuracyOfFraction (m₁ * 2 ^ k % m₂) m₂, ?_, ?_, ?_⟩
  · simp only [divCore, he, hshift, Nat.shiftLeft_eq]
  · by_cases hlow : e ≤ -1074
    · exact .inl hlow
    · have hlog : m₂.log2 + 53 ≤ m₁.log2 + k := by
        unfold Format.targetExponent totalExponent at he
        omega
      refine .inr ((Nat.le_div_iff_mul_le hm₂).2 ?_)
      calc 2 ^ 52 * m₂ ≤ 2 ^ 52 * 2 ^ (m₂.log2 + 1) := by
            gcongr
            exact Nat.lt_log2_self.le
        _ = 2 ^ (m₂.log2 + 53) := by rw [← pow_add]; congr 1; omega
        _ ≤ 2 ^ (m₁.log2 + k) := Nat.pow_le_pow_right (by decide) hlog
        _ ≤ m₁ * 2 ^ k := by
            rw [pow_add]
            gcongr
            exact Nat.log2_self_le hm₁.ne'
  · have hquotient := halves_quotient (m₁ * 2 ^ k) m₂
    generalize halves _ = h at hquotient ⊢
    have hquotient' : (h : ℚ) * m₂ ≤ 2 * (m₁ * 2 ^ k) := by exact_mod_cast hquotient
    have hdenominator : (0 : ℚ) < m₂ * 2 ^ e₂ := by positivity
    have hexact : (m₁ : ℚ) * 2 ^ e₁ = m₁ * 2 ^ k * 2 ^ e * 2 ^ e₂ := by
      have hsum : e₁ = k + e + e₂ := by omega
      rw [hsum, zpow_add₀ two_ne_zero, zpow_add₀ two_ne_zero, zpow_natCast]
      ring
    rw [← mul_div_assoc, le_div_iff₀ hdenominator, hexact]
    calc (h : ℚ) * 2 ^ e * (m₂ * 2 ^ e₂) = h * m₂ * (2 ^ e * 2 ^ e₂) := by ring
      _ ≤ 2 * (m₁ * 2 ^ k) * (2 ^ e * 2 ^ e₂) := by gcongr
      _ = 2 * (m₁ * 2 ^ k * 2 ^ e * 2 ^ e₂) := by ring

theorem div_isRounded (hu : Canonical u) (hv : Canonical v) (hp : toRat? u = some p)
    (hq : toRat? v = some q) (hne : q ≠ 0) :
    IsRounded (UnpackedFloat.div Format.binary64 u v) (p / q) := by
  cases v with
  | infinity | notANumber => cases hq
  | zero s => exact absurd (Option.some.inj hq).symm hne
  | finite t m₂ e₂ hm₂ =>
    cases u with
    | infinity | notANumber => cases hp
    | zero => exact isRounded_zero _ _
    | finite s m₁ e₁ hm₁ =>
      cases hp
      cases hq
      obtain ⟨m, e, a, hcore, henough, hle⟩ := @divCore_spec m₁ m₂ e₁ e₂ hm₁ hm₂
      simp only [UnpackedFloat.div, hcore]
      refine isRounded_of_halves_le henough (hle.trans_eq ?_)
      rw [abs_div, abs_signed, abs_signed, abs_of_nonneg (by positivity),
        abs_of_nonneg (by positivity)]

theorem isRounded_of_canonical (hu : Canonical u) (hq : toRat? u = some q) : IsRounded u q :=
  ⟨q, hq, le_add_of_nonneg_right (mul_nonneg epsilon_pos.le (le_max_of_le_right tiny_pos.le)),
    fun _ => hu⟩

theorem round_isRounded {s : Sign} (hm : 0 < m) (hq : (m : ℚ) * 2 ^ e = |q|) :
    IsRounded (UnpackedFloat.round Format.binary64 s m e) q := by
  have hbits : (Format.binary64.mantissaBits : Int) = 53 := rfl
  have hmin : Format.binary64.minExponent = -1074 := rfl
  obtain ⟨t, ht⟩ : ∃ t, Format.binary64.targetExponent (totalExponent m e) = t := ⟨_, rfl⟩
  obtain ⟨k, hk⟩ : ∃ k, (e - t).toNat = k := ⟨_, rfl⟩
  simp only [UnpackedFloat.round, ht, decreaseExponent, hk, Nat.shiftLeft_eq]
  refine isRounded_of_eq ?_ ?_
  · by_cases hlow : e - (k : Int) ≤ -1074
    · exact .inl hlow
    · have hlog : 52 ≤ m.log2 + k := by
        unfold Format.targetExponent totalExponent at ht
        omega
      refine .inr ?_
      calc 2 ^ 52 ≤ 2 ^ (m.log2 + k) := Nat.pow_le_pow_right (by decide) hlog
        _ ≤ m * 2 ^ k := by
            rw [pow_add]
            gcongr
            exact Nat.log2_self_le hm.ne'
  · rw [← hq, zpow_sub₀ two_ne_zero, zpow_natCast]
    push_cast
    field_simp

theorem normalize_isRounded {n : Int} {s : Sign} (hq : (n : ℚ) * 2 ^ e = q) :
    IsRounded (UnpackedFloat.normalize Format.binary64 n e s) q := by
  have habs : ((n.natAbs : Nat) : ℚ) * 2 ^ e = |q| := by
    rw [← hq, abs_mul, abs_of_nonneg (zpow_nonneg (zero_le_two (α := ℚ)) e), Nat.cast_natAbs,
      Int.cast_abs]
  unfold UnpackedFloat.normalize
  rcases lt_trichotomy n 0 with h | rfl | h
  · rw [compare_lt_iff_lt.2 h]
    have hnat : (-n).toNat = n.natAbs := by omega
    exact hnat ▸ round_isRounded (by omega) habs
  · exact isRounded_zero _ _
  · rw [compare_gt_iff_gt.2 h]
    have hnat : n.toNat = n.natAbs := by omega
    exact hnat ▸ round_isRounded (by omega) habs

theorem apply_shiftLeft (s : Sign) (m : Nat) {e d : Int} (h : d ≤ e) :
    ((s.apply (m <<< (e - d).toNat : Nat) : Int) : ℚ) * 2 ^ d = signed s (m * 2 ^ e) := by
  obtain ⟨k, rfl⟩ : ∃ k : Nat, e = d + k := ⟨(e - d).toNat, by omega⟩
  have hvalue : (m : ℚ) * 2 ^ (d + (k : Int)) = m * 2 ^ k * 2 ^ d := by
    rw [zpow_add₀ two_ne_zero, zpow_natCast]
    ring
  rw [hvalue]
  cases s <;> simp [Sign.apply, signed, Nat.shiftLeft_eq]

theorem add_isRounded (hu : Canonical u) (hv : Canonical v) (hp : toRat? u = some p)
    (hq : toRat? v = some q) : IsRounded (add Format.binary64 u v) (p + q) := by
  cases u with
  | infinity | notANumber => cases hp
  | zero s =>
    cases v with
    | infinity | notANumber => cases hq
    | zero t => cases s <;> cases t <;> exact isRounded_zero _ _
    | finite =>
      cases hp
      exact isRounded_of_canonical hv (hq.trans (congrArg some (zero_add q).symm))
  | finite s m₁ e₁ hm₁ =>
    cases v with
    | infinity | notANumber => cases hq
    | zero =>
      cases hq
      exact isRounded_of_canonical hu (hp.trans (congrArg some (add_zero p).symm))
    | finite t m₂ e₂ hm₂ =>
      cases hp
      cases hq
      refine normalize_isRounded ?_
      rw [Int.cast_add, add_mul, apply_shiftLeft s m₁ (min_le_left e₁ e₂),
        apply_shiftLeft t m₂ (min_le_right e₁ e₂)]

theorem apply_neg (s : Sign) (n : Int) : (-s).apply n = -s.apply n := by
  cases s with
  | negative => exact (Int.neg_neg n).symm
  | positive => rfl

theorem sub_eq_add (u v : UnpackedFloat) :
    UnpackedFloat.sub Format.binary64 u v = UnpackedFloat.add Format.binary64 u v.neg := by
  cases u with
  | finite s m e hm =>
    cases v with
    | finite t m' e' hm' =>
      simp only [UnpackedFloat.sub, UnpackedFloat.add, UnpackedFloat.neg, apply_neg,
        Int.sub_eq_add_neg]
    | _ => rfl
  | _ => cases v <;> rfl

theorem sub_isRounded (hu : Canonical u) (hv : Canonical v) (hp : toRat? u = some p)
    (hq : toRat? v = some q) :
    IsRounded (UnpackedFloat.sub Format.binary64 u v) (p - q) := by
  rw [sub_eq_add, sub_eq_add_neg]
  exact add_isRounded hu (canonical_neg hv) hp (by rw [toRat?_neg, hq]; rfl)

end Operations

end Binary64

open Binary64

/-! ## Magnitudes -/

theorem isFinite_iff {x : Float} : x.isFinite = true ↔ ∃ q, exactValue? x = some q := by
  have hunpacked : x.isFinite = x.toModel.unpack.isFinite := rfl
  rw [hunpacked, exactValue?]
  cases x.toModel.unpack <;> simp [UnpackedFloat.isFinite, toRat?]

/-- A finite value of some magnitude at most. -/
def Within (x : Float) (bound : ℚ) : Prop := ∃ q, exactValue? x = some q ∧ |q| ≤ bound

section Magnitudes

variable {x y : Float} {p q a b bound : ℚ}

theorem Within.isFinite (h : Within x bound) : x.isFinite = true := by
  obtain ⟨q, hq, -⟩ := h
  exact isFinite_iff.mpr ⟨q, hq⟩

theorem Within.mono (h : Within x a) (hle : a ≤ b) : Within x b := by
  obtain ⟨q, hq, hbound⟩ := h
  exact ⟨q, hq, hbound.trans hle⟩

/-- The outcome of an operation is finite if its exact result stays in the range. -/
theorem within_of_isRounded {u : UnpackedFloat} (hu : IsRounded u q)
    (hx : x.toModel = Float.Model.pack u) (hq : |q| ≤ bound) (htiny : tiny ≤ bound)
    (hhuge : bound * (1 + epsilon) < huge) : Within x (bound * (1 + epsilon)) := by
  obtain ⟨r, hr, hle, hcanonical⟩ := hu
  have hbound : |r| ≤ bound * (1 + epsilon) := by
    have := mul_le_mul_of_nonneg_left (max_le hq htiny) epsilon_pos.le
    linarith
  refine ⟨r, ?_, hbound⟩
  rw [exactValue?, hx, unpack_pack (hcanonical (hbound.trans_lt hhuge)), hr]

theorem within_mul (hx : exactValue? x = some p) (hy : exactValue? y = some q)
    (hpq : |p * q| ≤ bound) (htiny : tiny ≤ bound) (hhuge : bound * (1 + epsilon) < huge) :
    Within (x * y) (bound * (1 + epsilon)) :=
  within_of_isRounded (mul_isRounded (canonical_unpack _) (canonical_unpack _) hx hy) rfl hpq htiny
    hhuge

theorem within_div (hx : exactValue? x = some p) (hy : exactValue? y = some q) (hne : q ≠ 0)
    (hpq : |p / q| ≤ bound) (htiny : tiny ≤ bound) (hhuge : bound * (1 + epsilon) < huge) :
    Within (x / y) (bound * (1 + epsilon)) :=
  within_of_isRounded (div_isRounded (canonical_unpack _) (canonical_unpack _) hx hy hne) rfl hpq
    htiny hhuge

theorem within_add (hx : exactValue? x = some p) (hy : exactValue? y = some q)
    (hpq : |p + q| ≤ bound) (htiny : tiny ≤ bound) (hhuge : bound * (1 + epsilon) < huge) :
    Within (x + y) (bound * (1 + epsilon)) :=
  within_of_isRounded (add_isRounded (canonical_unpack _) (canonical_unpack _) hx hy) rfl hpq htiny
    hhuge

theorem within_sub (hx : exactValue? x = some p) (hy : exactValue? y = some q)
    (hpq : |p - q| ≤ bound) (htiny : tiny ≤ bound) (hhuge : bound * (1 + epsilon) < huge) :
    Within (x - y) (bound * (1 + epsilon)) :=
  within_of_isRounded (sub_isRounded (canonical_unpack _) (canonical_unpack _) hx hy) rfl hpq htiny
    hhuge

theorem exists_normalized (hx : exactValue? x = some q) (hne : q ≠ 0) :
    ∃ m e, Normalized m e ∧ e ≤ 971 ∧ |q| = m * 2 ^ e := by
  have hcanonical := canonical_unpack x.toModel
  unfold exactValue? at hx
  cases hu : x.toModel.unpack with
  | infinity | notANumber => simp [hu, toRat?] at hx
  | zero s =>
    rw [hu] at hx
    exact absurd (Option.some.inj hx).symm hne
  | finite s m e hm =>
    rw [hu] at hx hcanonical
    refine ⟨m, e, hcanonical.1, hcanonical.2, ?_⟩
    rw [← Option.some.inj hx, abs_signed, abs_of_nonneg (by positivity)]

/-- Zero aside, no value is closer to zero than the least one. -/
theorem le_abs_of_ne_zero (hx : exactValue? x = some q) (hne : q ≠ 0) :
    2 * (epsilon * tiny) ≤ |q| := by
  obtain ⟨m, e, hnormalized, -, hq⟩ := exists_normalized hx hne
  have hm : (1 : ℚ) ≤ m := by exact_mod_cast hnormalized.mantissa_pos
  have he : (2 : ℚ) ^ (-1074 : Int) ≤ 2 ^ e :=
    zpow_le_zpow_right₀ one_le_two hnormalized.le_exponent
  rw [hq, least_unit]
  exact he.trans (le_mul_of_one_le_left (zpow_nonneg zero_le_two e) hm)

/-- The greatest value is so far from the end of the range that another error does no harm. -/
theorem abs_mul_lt_huge (hx : exactValue? x = some q) : |q| * (1 + epsilon) < huge := by
  by_cases hne : q = 0
  · rw [hne, abs_zero, zero_mul]
    exact zpow_pos two_pos _
  · obtain ⟨m, e, hnormalized, he, hq⟩ := exists_normalized hx hne
    have hm : (m : ℚ) ≤ 2 ^ 53 - 1 := by
      have hlt : m + 1 ≤ 2 ^ 53 := hnormalized.mantissa_lt
      have hlt' : ((m + 1 : Nat) : ℚ) ≤ ((2 ^ 53 : Nat) : ℚ) := by exact_mod_cast hlt
      push_cast at hlt'
      linarith
    have hhuge : huge = 2 ^ 53 * 2 ^ (971 : Int) := by
      have hsum : (1024 : Int) = (53 : Nat) + 971 := rfl
      rw [huge, hsum, zpow_add₀ two_ne_zero, zpow_natCast]
    have hlast : ((2 : ℚ) ^ 53 - 1) * (1 + epsilon) < 2 ^ 53 := by
      norm_num [epsilon]
    have hscale : (2 : ℚ) ^ e ≤ 2 ^ (971 : Int) := zpow_le_zpow_right₀ one_le_two he
    have hpos : (0 : ℚ) < 2 ^ (971 : Int) := zpow_pos two_pos _
    have heps := epsilon_pos
    generalize (2 : ℚ) ^ (971 : Int) = scale at *
    rw [hq, hhuge]
    calc (m : ℚ) * 2 ^ e * (1 + epsilon) ≤ (2 ^ 53 - 1) * scale * (1 + epsilon) := by
          gcongr
      _ = (2 ^ 53 - 1) * (1 + epsilon) * scale := by ring
      _ < 2 ^ 53 * scale := by gcongr

end Magnitudes

end Backtest
