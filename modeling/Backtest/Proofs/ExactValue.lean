import Mathlib
import Backtest.Decimal.Binary
import Backtest.Proofs.Binary64

/-!
The rational numbers that floating point values stand for. Comparisons of values are comparisons
of these numbers, and an integer keeps its number unless it is longer than 53 bits.
-/

namespace Backtest

open Float.Model Float.Model.UnpackedFloat Binary64

namespace Binary64

def signed (s : Sign) (q : ℚ) : ℚ :=
  match s with
  | .negative => -q
  | .positive => q

def toRat? : UnpackedFloat → Option ℚ
  | .finite s m e _ => some (signed s (m * 2 ^ e))
  | .zero _ => some 0
  | _ => none

theorem signed_zero (s : Sign) : signed s 0 = 0 := by
  cases s <;> simp [signed]

end Binary64

/-- The number that a value stands for, unless it is infinite or no number. -/
def exactValue? (x : Float) : Option ℚ := toRat? x.toModel.unpack

def Decimal.Binary.toRat (b : Decimal.Binary) : ℚ :=
  signed (if b.negative then .negative else .positive) (b.mantissa * 2 ^ b.exponent)

/-! ## Taking bits apart -/

theorem Binary64.ofBitVec_unpackSign (x : Float) :
    Sign.ofBitVec (@unpackSign Format.binary64 x.toModel.toBits.toBitVec) =
      if x.toBits.toNat / 2 ^ 63 = 1 then .negative else .positive := by
  have hs := toNat_unpackSign x.toModel.toBits.toBitVec
  have hlt := (@unpackSign Format.binary64 x.toModel.toBits.toBitVec).isLt
  have hbits : x.toBits.toNat = x.toModel.toBits.toBitVec.toNat := rfl
  unfold Sign.ofBitVec
  rw [hbits, ← hs]
  by_cases h : (@unpackSign Format.binary64 x.toModel.toBits.toBitVec).toNat = 1
  · rw [if_neg (by rw [eq_zero_iff]; omega), if_pos h]
  · rw [if_pos (by rw [eq_zero_iff]; omega), if_neg h]

theorem exactValue?_eq (x : Float) :
    exactValue? x =
      match Decimal.reading x with
      | .finite b => some b.toRat
      | _ => none := by
  have hbits : x.toBits.toNat = x.toModel.toBits.toBitVec.toNat := rfl
  have hsign : Sign.ofBitVec (@unpackSign Format.binary64 x.toModel.toBits.toBitVec) =
      if decide (x.toModel.toBits.toBitVec.toNat / Nat.pow 2 63 = 1) = true
        then .negative else .positive := by
    simpa [← hbits] using ofBitVec_unpackSign x
  have he : x.toModel.toBits.toBitVec.toNat / Nat.pow 2 52 % Nat.pow 2 11 =
      (@unpackExponent Format.binary64 x.toModel.toBits.toBitVec).toNat :=
    (toNat_unpackExponent _).symm
  have hm : x.toModel.toBits.toBitVec.toNat % Nat.pow 2 52 =
      (@unpackMantissa Format.binary64 x.toModel.toBits.toBitVec).toNat :=
    (toNat_unpackMantissa _).symm
  unfold exactValue? Float.Model.unpack Decimal.reading
  rw [hbits]
  simp only [he, hm]
  fun_cases UnpackedFloat.unpack Format.binary64 x.toModel.toBits.toBitVec with
  | case1 mantissa exponent s sign htop hzero =>
    rw [if_pos ((exponent_eq_top_iff exponent).1 htop), if_pos ((eq_zero_iff mantissa).1 hzero)]
    rfl
  | case2 mantissa exponent htop hzero =>
    rw [if_pos ((exponent_eq_top_iff exponent).1 htop),
      if_neg ((eq_zero_iff mantissa).not.1 hzero)]
    rfl
  | case3 mantissa exponent s sign htop hlow hzero =>
    rw [if_neg ((exponent_eq_top_iff exponent).not.1 htop),
      if_pos ((eq_zero_iff exponent).1 hlow), (eq_zero_iff mantissa).1 hzero]
    simp [toRat?, Decimal.Binary.toRat, signed_zero]
  | case4 mantissa exponent e s sign htop hlow hzero =>
    have he : e = (exponent.toNat : Int) - 1075 := rfl
    have he' : e + 1 = -1074 := by rw [he, (eq_zero_iff exponent).1 hlow]; rfl
    rw [if_neg ((exponent_eq_top_iff exponent).not.1 htop),
      if_pos ((eq_zero_iff exponent).1 hlow)]
    simp only [toRat?, Decimal.Binary.toRat, ← hsign, he']
    rfl
  | case5 mantissa exponent e s sign htop hlow =>
    have hone : (1#1 ++ mantissa).toNat = Nat.pow 2 52 + mantissa.toNat := toNat_one_append mantissa
    rw [if_neg ((exponent_eq_top_iff exponent).not.1 htop),
      if_neg ((eq_zero_iff exponent).not.1 hlow)]
    simp only [toRat?, Decimal.Binary.toRat, ← hsign, hone]
    rfl

theorem exactValue?_eq_some_iff {x : Float} {q : ℚ} :
    exactValue? x = some q ↔ ∃ b, Decimal.reading x = .finite b ∧ b.toRat = q := by
  rw [exactValue?_eq]
  cases Decimal.reading x with
  | notANumber | infinite => simp
  | finite b => simp

/-! ## Order -/

theorem Binary64.magnitude_lt {m₁ m₂ : Nat} {e₁ e₂ : Int} (h₁ : m₁ < 2 ^ 53) (h₂ : 2 ^ 52 ≤ m₂)
    (h : e₁ < e₂) : (m₁ : ℚ) * 2 ^ e₁ < m₂ * 2 ^ e₂ := by
  have hm₁ : (m₁ : ℚ) < 2 ^ 53 := by exact_mod_cast h₁
  have hm₂ : (2 : ℚ) ^ 52 ≤ m₂ := by exact_mod_cast h₂
  calc (m₁ : ℚ) * 2 ^ e₁ < 2 ^ 53 * 2 ^ e₁ := by gcongr
    _ = 2 ^ 52 * 2 ^ (e₁ + 1) := by rw [zpow_add₀ (by norm_num)]; norm_num; ring
    _ ≤ 2 ^ 52 * 2 ^ e₂ := by gcongr <;> [norm_num; omega]
    _ ≤ m₂ * 2 ^ e₂ := by gcongr

/-- Exponents decide first, since all mantissas above the least exponent have the same length. -/
theorem Binary64.compare_magnitude {m₁ m₂ : Nat} {e₁ e₂ : Int} (h₁ : Normalized m₁ e₁)
    (h₂ : Normalized m₂ e₂) :
    (compare e₁ e₂).then (compare m₁ m₂) = compare ((m₁ : ℚ) * 2 ^ e₁) (m₂ * 2 ^ e₂) := by
  obtain ⟨-, hm₁, hlow₁, hnormal₁⟩ := h₁
  obtain ⟨-, hm₂, hlow₂, hnormal₂⟩ := h₂
  rcases lt_trichotomy e₁ e₂ with h | rfl | h
  · have hlt : (m₁ : ℚ) * 2 ^ e₁ < m₂ * 2 ^ e₂ := magnitude_lt hm₁ (by omega) h
    rw [compare_lt_iff_lt.2 h, compare_lt_iff_lt.2 hlt]
    rfl
  · rw [compare_eq_iff_eq.2 rfl]
    rcases lt_trichotomy m₁ m₂ with hm | rfl | hm
    · have hlt : (m₁ : ℚ) * 2 ^ e₁ < m₂ * 2 ^ e₁ := by gcongr
      rw [compare_lt_iff_lt.2 hm, compare_lt_iff_lt.2 hlt]
      rfl
    · rw [compare_eq_iff_eq.2 rfl, compare_eq_iff_eq.2 rfl]
      rfl
    · have hlt : (m₂ : ℚ) * 2 ^ e₁ < m₁ * 2 ^ e₁ := by gcongr
      rw [compare_gt_iff_gt.2 hm, compare_gt_iff_gt.2 hlt]
      rfl
  · have hlt : (m₂ : ℚ) * 2 ^ e₂ < m₁ * 2 ^ e₁ := magnitude_lt hm₂ (by omega) h
    rw [compare_gt_iff_gt.2 h, compare_gt_iff_gt.2 hlt]
    rfl

theorem Binary64.compare_neg (p q : ℚ) : compare (-p) (-q) = compare q p := by
  rcases lt_trichotomy q p with h | rfl | h
  · rw [compare_lt_iff_lt.2 h, compare_lt_iff_lt.2 (neg_lt_neg h)]
  · rw [compare_eq_iff_eq.2 rfl, compare_eq_iff_eq.2 rfl]
  · rw [compare_gt_iff_gt.2 h, compare_gt_iff_gt.2 (neg_lt_neg h)]

theorem Binary64.compare_eq {u v : UnpackedFloat} {p q : ℚ} (hu : Canonical u) (hv : Canonical v)
    (hp : toRat? u = some p) (hq : toRat? v = some q) : u.compare v = some (compare p q) := by
  have hpos (m : Nat) (e : Int) (hm : 0 < m) : (0 : ℚ) < m * 2 ^ e := by positivity
  cases u with
  | infinity | notANumber => cases hp
  | zero s =>
    cases hp
    cases v with
    | infinity | notANumber => cases hq
    | zero t => cases hq; rfl
    | finite t m e hm =>
      cases hq
      cases t with
      | positive => exact congrArg some (compare_lt_iff_lt.2 (hpos m e hm)).symm
      | negative => exact congrArg some (compare_gt_iff_gt.2 (neg_lt_zero.2 (hpos m e hm))).symm
  | finite s m e hm =>
    cases hp
    cases v with
    | infinity | notANumber => cases hq
    | zero t =>
      cases hq
      cases s with
      | positive => exact congrArg some (compare_gt_iff_gt.2 (hpos m e hm)).symm
      | negative => exact congrArg some (compare_lt_iff_lt.2 (neg_lt_zero.2 (hpos m e hm))).symm
    | finite t m' e' hm' =>
      cases hq
      have hu' := hpos m e hm
      have hv' := hpos m' e' hm'
      cases s with
      | positive =>
        cases t with
        | positive => exact congrArg some (compare_magnitude hu.1 hv.1)
        | negative =>
          exact congrArg some (compare_gt_iff_gt.2 ((neg_lt_zero.2 hv').trans hu')).symm
      | negative =>
        cases t with
        | positive =>
          exact congrArg some (compare_lt_iff_lt.2 ((neg_lt_zero.2 hu').trans hv')).symm
        | negative =>
          refine congrArg some ?_
          rw [compare_magnitude hu.1 hv.1, ← Std.OrientedOrd.eq_swap]
          exact (compare_neg _ _).symm

section Order

variable {x y z : Float} {p q : ℚ}

theorem le_iff_exactValue_le (hx : exactValue? x = some p) (hy : exactValue? y = some q) :
    x ≤ y ↔ p ≤ q := by
  have hcompare := compare_eq (canonical_unpack _) (canonical_unpack _) hx hy
  have hle : x ≤ y ↔ x.toModel.unpack.le y.toModel.unpack = true := decide_eq_true_iff
  rw [hle, UnpackedFloat.le, hcompare]
  simp [← Ordering.ne_gt_iff_isLE, compare_le_iff_le]

theorem lt_iff_exactValue_lt (hx : exactValue? x = some p) (hy : exactValue? y = some q) :
    x < y ↔ p < q := by
  have hcompare := compare_eq (canonical_unpack _) (canonical_unpack _) hx hy
  have hlt : x < y ↔ x.toModel.unpack.lt y.toModel.unpack = true := decide_eq_true_iff
  rw [hlt, UnpackedFloat.lt, hcompare]
  simp [compare_lt_iff_lt]

/-- Nothing but finite values lies between finite values. -/
theorem exists_exactValue_of_between (hx : exactValue? x = some p) (hz : exactValue? z = some q)
    (hxy : x ≤ y) (hyz : y ≤ z) : ∃ r, exactValue? y = some r := by
  have hxy' : x.toModel.unpack.le y.toModel.unpack = true := decide_eq_true_iff.1 hxy
  have hyz' : y.toModel.unpack.le z.toModel.unpack = true := decide_eq_true_iff.1 hyz
  unfold exactValue? at *
  generalize x.toModel.unpack = u at *
  generalize y.toModel.unpack = v at *
  generalize z.toModel.unpack = w at *
  cases v with
  | zero | finite => exact ⟨_, rfl⟩
  | notANumber => simp [UnpackedFloat.le, UnpackedFloat.compare] at hyz'
  | infinity s =>
    cases s with
    | positive =>
      cases w with
      | infinity | notANumber => cases hz
      | zero | finite => simp [UnpackedFloat.le, UnpackedFloat.compare] at hyz'
    | negative =>
      cases u with
      | infinity | notANumber => cases hx
      | zero | finite => simp [UnpackedFloat.le, UnpackedFloat.compare] at hxy'

end Order

/-! ## Integers -/

theorem Binary64.canonical_neg {u : UnpackedFloat} (hu : Canonical u) : Canonical u.neg := by
  cases u with
  | infinity | notANumber | zero => trivial
  | finite => exact hu

theorem Binary64.toRat?_neg (u : UnpackedFloat) : toRat? u.neg = (toRat? u).map (-·) := by
  cases u with
  | infinity | notANumber => rfl
  | zero s => simp [UnpackedFloat.neg, toRat?]
  | finite s m e hm =>
    cases s with
    | positive => rfl
    | negative => exact congrArg some (neg_neg _).symm

theorem exactValue?_neg (x : Float) : exactValue? (-x) = (exactValue? x).map (-·) := by
  have hneg : (-x).toModel.unpack = x.toModel.unpack.neg :=
    unpack_pack (canonical_neg (canonical_unpack x.toModel))
  unfold exactValue?
  rw [hneg, toRat?_neg]

theorem exactValue?_toFloat {n : Nat} (hn : n < 2 ^ 53) : exactValue? n.toFloat = some (n : ℚ) := by
  by_cases hpos : 0 < n
  · have hlog : n.log2 < 53 := (Nat.log2_lt hpos.ne').2 hn
    have hcancel : (2 : ℚ) ^ (52 - n.log2) * 2 ^ ((n.log2 : Int) - 52) = 1 := by
      have hsum : ((52 - n.log2 : Nat) : Int) + ((n.log2 : Int) - 52) = 0 := by omega
      rw [← zpow_natCast, ← zpow_add₀ (by norm_num), hsum, zpow_zero]
    unfold exactValue?
    rw [unpack_toFloat hpos hn]
    refine congrArg some ?_
    simp only [signed]
    push_cast
    rw [mul_assoc, hcancel, mul_one]
  · obtain rfl : n = 0 := by omega
    have hzero : (Nat.toFloat 0).toModel.unpack = .zero .positive := rfl
    unfold exactValue?
    rw [hzero]
    simp [toRat?]

theorem le_exactValue_toFloat {n : Nat} (hn : 2 ^ 53 ≤ n) {q : ℚ}
    (hq : exactValue? n.toFloat = some q) : 2 ^ 53 ≤ q := by
  unfold exactValue? at hq
  rcases unpack_toFloat_of_le hn with h | ⟨m, e, hnormalized, he, h⟩
  · rw [h] at hq
    cases hq
  · rw [h] at hq
    cases hq
    have hm : (2 : ℚ) ^ 52 ≤ m := by exact_mod_cast hnormalized.normal.resolve_left (by omega)
    calc (2 : ℚ) ^ 53 = 2 ^ 52 * (2 : ℚ) ^ (1 : Int) := by norm_num
      _ ≤ (m : ℚ) * 2 ^ e := by gcongr; norm_num

end Backtest
