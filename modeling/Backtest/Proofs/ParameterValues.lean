import Backtest.Proofs.ExactValue
import Backtest.Proofs.Outcomes
import Backtest.Strategy.Parameters

/-!
What a parameter of a rule may be, said of its value alone: a number by the rational number it
stands for, a word by the list of its spellings. Reading a parameter succeeds on these values and
on no other.
-/

namespace Backtest

open Json Text

/-! ## Spellings -/

def Polarity.spellings : Polarity → List String
  | .above => ["above", "price_above", "cross_above", "up"]
  | .below => ["below", "price_below", "cross_below", "down"]

def MovingAverage.spellings : MovingAverage → List String
  | .sma => ["sma", "simple"]
  | .ema => ["ema", "exponential"]

theorem Polarity.ofKeyword?_eq_some_iff {s : String} {polarity : Polarity} :
    Polarity.ofKeyword? s = some polarity ↔ s ∈ polarity.spellings := by
  cases polarity with
  | above | below =>
    unfold Polarity.ofKeyword? spellings
    split <;> grind

theorem MovingAverage.ofKeyword?_eq_some_iff {s : String} {average : MovingAverage} :
    MovingAverage.ofKeyword? s = some average ↔ s ∈ average.spellings := by
  cases average with
  | sma | ema =>
    unfold MovingAverage.ofKeyword? spellings
    split <;> grind

/-! ## Values -/

/-- The floating point value of a number, or of text that is one but for blanks around it. -/
def Json.numeric? : Json → Option Float
  | .number n => some n.toFloat
  | .string s => Decimal.read? (trim s)
  | _ => none

def IsPeriod (value : Json) (period : Nat) : Prop :=
  1 ≤ period ∧ period ≤ 100000 ∧
    ∃ x, value.numeric? = some x ∧ exactValue? x = some (period : ℚ)

def OnScale (level : Float) : Prop := ∃ q, exactValue? level = some q ∧ 0 ≤ q ∧ q ≤ 100

def IsThreshold (value : Json) (level : Float) : Prop :=
  value.numeric? = some level ∧ OnScale level

def IsPolarity (value : Json) (polarity : Polarity) : Prop :=
  ∃ s, value = .string s ∧ keyword s ∈ polarity.spellings

def IsAverage (value : Json) (average : MovingAverage) : Prop :=
  ∃ s, value = .string s ∧ lowercase (trim s) ∈ average.spellings

theorem Quantity.ofFloat?_eq_some_iff {x : Float} {quantity : Quantity} :
    Quantity.ofFloat? x = some quantity ↔
      quantity.value = x ∧ Decimal.reading x = .finite quantity.exact := by
  obtain ⟨value, exact⟩ := quantity
  unfold Quantity.ofFloat?
  cases Decimal.reading x with
  | notANumber | infinite => simp
  | finite b => simp [eq_comm]

theorem Quantity.value_of_ofJson? {value : Json} {quantity : Quantity}
    (h : Quantity.ofJson? value = some quantity) : value.numeric? = some quantity.value := by
  unfold Quantity.ofJson? at h
  split at h
  · rename_i n
    cases n with
    | natural n | negative n => cases h; rfl
    | real x => exact congrArg some (Quantity.ofFloat?_eq_some_iff.1 h).1.symm
  · rename_i s
    obtain ⟨x, hx, hquantity⟩ := Option.bind_eq_some_iff.1 h
    exact hx.trans (congrArg some (Quantity.ofFloat?_eq_some_iff.1 hquantity).1.symm)
  · cases h

/-- The number kept beside a floating point value is the one before any rounding, which no period
notices. -/
theorem Quantity.exactValue?_value_eq {value : Json} {quantity : Quantity} {period : Nat}
    (h : Quantity.ofJson? value = some quantity) (hpos : 1 ≤ period) (hmax : period ≤ 100000) :
    exactValue? quantity.value = some (period : ℚ) ↔ quantity.exact.toRat = period := by
  have hreal {x : Float} (hx : Quantity.ofFloat? x = some quantity) :
      exactValue? quantity.value = some (period : ℚ) ↔ quantity.exact.toRat = period := by
    obtain ⟨rfl, hreading⟩ := Quantity.ofFloat?_eq_some_iff.1 hx
    rw [exactValue?_eq, hreading]
    exact Option.some_inj
  have hpos' : (1 : ℚ) ≤ period := by exact_mod_cast hpos
  have hmax' : (period : ℚ) ≤ 100000 := by exact_mod_cast hmax
  unfold Quantity.ofJson? at h
  split at h
  · rename_i n
    cases n with
    | natural n =>
      cases h
      have hexact : (⟨false, n, 0⟩ : Decimal.Binary).toRat = n := by
        simp [Decimal.Binary.toRat, Binary64.signed]
      rw [hexact]
      by_cases hn : n < 2 ^ 53
      · rw [Json.Number.toFloat, exactValue?_toFloat hn]
        exact Option.some_inj
      · have hn' : (2 : ℚ) ^ 53 ≤ n := by exact_mod_cast Nat.not_lt.1 hn
        constructor
        · intro hvalue
          have hle := le_exactValue_toFloat (Nat.not_lt.1 hn) hvalue
          linarith
        · intro hvalue
          linarith
    | negative n =>
      cases h
      have hexact : (⟨true, n, 0⟩ : Decimal.Binary).toRat = -n := by
        simp [Decimal.Binary.toRat, Binary64.signed]
      have hn' : (0 : ℚ) ≤ n := n.cast_nonneg
      rw [hexact, Json.Number.toFloat, exactValue?_neg]
      constructor
      · intro hvalue
        obtain ⟨q, hq, hneg⟩ := Option.map_eq_some_iff.1 hvalue
        by_cases hn : n < 2 ^ 53
        · rw [exactValue?_toFloat hn] at hq
          cases hq
          linarith
        · have hle := le_exactValue_toFloat (Nat.not_lt.1 hn) hq
          linarith
      · intro hvalue
        linarith
    | real x => exact hreal h
  · obtain ⟨x, -, hx⟩ := Option.bind_eq_some_iff.1 h
    exact hreal hx
  · cases h

/-! ## Whole numbers -/

namespace Decimal.Binary

theorem denominator_pos (b : Binary) : 0 < b.denominator := Nat.pow_pos (by decide)

theorem magnitude_eq_div (b : Binary) :
    (b.mantissa : ℚ) * 2 ^ b.exponent = b.numerator / b.denominator := by
  unfold numerator denominator
  simp only [Nat.pow_eq, Nat.cast_mul, Nat.cast_pow, Nat.cast_ofNat]
  rcases le_total 0 b.exponent with h | h
  · obtain ⟨k, hk⟩ := Int.eq_ofNat_of_zero_le h
    simp [hk]
  · obtain ⟨k, hk⟩ := Int.eq_ofNat_of_zero_le (Int.neg_nonneg_of_nonpos h)
    have hexponent : b.exponent = -k := by omega
    simp [hexponent, div_eq_mul_inv]

theorem toRat_eq_natCast_iff {b : Binary} {n : Nat} (hn : 1 ≤ n) :
    b.toRat = n ↔ b.isPositive = true ∧ b.isWhole = true ∧ b.floor = n := by
  have hden : (0 : ℚ) < b.denominator := by exact_mod_cast b.denominator_pos
  have hn' : (1 : ℚ) ≤ n := by exact_mod_cast hn
  unfold toRat isPositive isWhole floor
  rw [magnitude_eq_div]
  cases b.negative with
  | true =>
    have hnonneg : (0 : ℚ) ≤ b.numerator / b.denominator := by positivity
    simp [Binary64.signed]
    linarith
  | false =>
    have hmantissa : b.mantissa ≠ 0 ↔ b.numerator ≠ 0 := by simp [numerator]
    have hquotient : (b.numerator : ℚ) / b.denominator = n ↔ b.numerator = n * b.denominator := by
      rw [div_eq_iff hden.ne']
      exact_mod_cast Iff.rfl
    simp only [Binary64.signed, Bool.false_eq_true, if_false, hquotient, Bool.not_false,
      Bool.true_and, decide_eq_true_eq, hmantissa]
    constructor
    · intro h
      have hpos : 0 < b.numerator := h ▸ Nat.mul_pos hn b.denominator_pos
      refine ⟨hpos.ne', ?_, ?_⟩
      · rw [h, Nat.mul_mod_left]
      · rw [h, Nat.mul_div_cancel _ b.denominator_pos]
    · rintro ⟨-, hwhole, hfloor⟩
      rw [← hfloor, Nat.div_mul_cancel (Nat.dvd_of_mod_eq_zero hwhole)]

theorem one_le_floor {b : Binary} (hpositive : b.isPositive = true) (hwhole : b.isWhole = true) :
    1 ≤ b.floor := by
  have hmantissa : b.mantissa ≠ 0 := by simp [isPositive] at hpositive; exact hpositive.2
  have hpos : 0 < b.numerator :=
    Nat.mul_pos (Nat.pos_of_ne_zero hmantissa) (Nat.pow_pos (by decide))
  have hdvd : b.denominator ∣ b.numerator := by
    simp [isWhole] at hwhole
    exact Nat.dvd_of_mod_eq_zero hwhole
  exact Nat.div_pos (Nat.le_of_dvd hpos hdvd) b.denominator_pos

end Decimal.Binary

/-! ## Reading -/

theorem Quantity.exists_of_exactValue? {value : Json} {x : Float} {q : ℚ}
    (hx : value.numeric? = some x) (hq : exactValue? x = some q) :
    ∃ quantity, Quantity.ofJson? value = some quantity ∧ quantity.value = x := by
  obtain ⟨b, hb, -⟩ := exactValue?_eq_some_iff.1 hq
  have hreal : Quantity.ofFloat? x = some ⟨x, b⟩ := Quantity.ofFloat?_eq_some_iff.2 ⟨rfl, hb⟩
  cases value with
  | number n =>
    have hn : n.toFloat = x := Option.some.inj hx
    cases n with
    | natural n => exact ⟨⟨_, ⟨false, n, 0⟩⟩, rfl, hn⟩
    | negative n => exact ⟨⟨_, ⟨true, n, 0⟩⟩, rfl, hn⟩
    | real y => exact ⟨⟨x, b⟩, hn ▸ hreal, rfl⟩
  | string s =>
    simp only [Json.numeric?] at hx
    simp only [Quantity.ofJson?, hx, Option.bind_some]
    exact ⟨⟨x, b⟩, hreal, rfl⟩
  | null | bool | array | object => cases hx

theorem numberOf_eq_ok_iff {value : Json} {quantity : Quantity} :
    numberOf value = .ok quantity ↔ Quantity.ofJson? value = some quantity := by
  unfold numberOf
  cases Quantity.ofJson? value with
  | none => simp
  | some q => simp

/-- The checks that a number has to pass for a period. -/
theorem checked_eq_ok_iff {x : Float} {exact : Decimal.Binary} {period : Nat} :
    (if (!exact.isPositive) = true then .error (.notPositive x)
      else if (!exact.isWhole) = true then .error (.notWhole x)
      else if maxPeriod < exact.floor then .error (.tooLong x)
      else .ok exact.floor : Except ParameterFault Nat) = .ok period ↔
    1 ≤ period ∧ period ≤ 100000 ∧ exact.toRat = period := by
  rw [show maxPeriod = 100000 from rfl]
  constructor
  · intro h
    split at h
    · cases h
    · rename_i hpositive
      split at h
      · cases h
      · rename_i hwhole
        split at h
        · cases h
        · rename_i hmax
          cases h
          simp only [Bool.not_eq_true', Bool.not_eq_false] at hpositive hwhole
          have hpos : 1 ≤ exact.floor := exact.one_le_floor hpositive hwhole
          refine ⟨hpos, Nat.not_lt.1 hmax, ?_⟩
          exact (Decimal.Binary.toRat_eq_natCast_iff hpos).2 ⟨hpositive, hwhole, rfl⟩
  · rintro ⟨hpos, hmax, hexact⟩
    obtain ⟨hpositive, hwhole, hfloor⟩ := (Decimal.Binary.toRat_eq_natCast_iff hpos).1 hexact
    have hmax' : ¬100000 < period := Nat.not_lt.2 hmax
    rw [hfloor, if_neg (by simp [hpositive]), if_neg (by simp [hwhole]), if_neg hmax']

theorem periodOf_eq_ok_iff (value : Json) (period : Nat) :
    periodOf value = .ok period ↔ IsPeriod value period := by
  unfold periodOf
  rw [bind_eq_ok_iff]
  constructor
  · rintro ⟨quantity, hquantity, h⟩
    rw [numberOf_eq_ok_iff] at hquantity
    obtain ⟨hpos, hmax, hexact⟩ := checked_eq_ok_iff.1 h
    exact ⟨hpos, hmax, quantity.value, Quantity.value_of_ofJson? hquantity,
      (Quantity.exactValue?_value_eq hquantity hpos hmax).2 hexact⟩
  · rintro ⟨hpos, hmax, x, hx, hvalue⟩
    obtain ⟨quantity, hquantity, rfl⟩ := Quantity.exists_of_exactValue? hx hvalue
    refine ⟨quantity, numberOf_eq_ok_iff.2 hquantity, checked_eq_ok_iff.2 ⟨hpos, hmax, ?_⟩⟩
    exact (Quantity.exactValue?_value_eq hquantity hpos hmax).1 hvalue

theorem exactValue?_ofNat {n : Nat} (hn : n < 2 ^ 53) :
    exactValue? (Scalar.ofNat n : Float) = some (n : ℚ) := exactValue?_toFloat hn

theorem onScale_iff {level : Float} :
    OnScale level ↔
      (Scalar.le Scalar.zero level && Scalar.le level Scalar.hundred) = true := by
  have hzero := exactValue?_ofNat (show 0 < 2 ^ 53 by norm_num)
  have hhundred := exactValue?_ofNat (show 100 < 2 ^ 53 by norm_num)
  have hle (a b : Float) : Scalar.le a b = true ↔ a ≤ b := decide_eq_true_iff
  rw [Bool.and_eq_true, hle, hle]
  constructor
  · rintro ⟨q, hq, hlow, hhigh⟩
    exact ⟨(le_iff_exactValue_le hzero hq).2 (by simpa using hlow),
      (le_iff_exactValue_le hq hhundred).2 (by simpa using hhigh)⟩
  · rintro ⟨hlow, hhigh⟩
    obtain ⟨q, hq⟩ := exists_exactValue_of_between hzero hhundred hlow hhigh
    exact ⟨q, hq, by simpa using (le_iff_exactValue_le hzero hq).1 hlow,
      by simpa using (le_iff_exactValue_le hq hhundred).1 hhigh⟩

theorem thresholdOf_eq_ok_iff (value : Json) (level : Float) :
    thresholdOf value = .ok level ↔ IsThreshold value level := by
  have hchecks (x : Float) :
      (if (Scalar.le Scalar.zero x && Scalar.le x Scalar.hundred) = true then .ok x
        else .error (.outsideScale x) : Except ParameterFault Float) = .ok level ↔
      x = level ∧ OnScale x := by
    rw [onScale_iff]
    split <;> simp [*]
  unfold thresholdOf
  rw [bind_eq_ok_iff]
  constructor
  · rintro ⟨quantity, hquantity, h⟩
    rw [numberOf_eq_ok_iff] at hquantity
    obtain ⟨rfl, hscale⟩ := (hchecks quantity.value).1 h
    exact ⟨Quantity.value_of_ofJson? hquantity, hscale⟩
  · rintro ⟨hvalue, q, hq, hrange⟩
    obtain ⟨quantity, hquantity, rfl⟩ := Quantity.exists_of_exactValue? hvalue hq
    exact ⟨quantity, numberOf_eq_ok_iff.2 hquantity,
      (hchecks quantity.value).2 ⟨rfl, q, hq, hrange⟩⟩

/-- Words are read from text alone. -/
theorem eq_ok_iff_of_string {β : Type} {read : Json → Except ParameterFault β}
    {spelled? : String → Option β}
    (hstring : ∀ s b, read (.string s) = .ok b ↔ spelled? s = some b)
    (hother : ∀ value b, read value = .ok b → ∃ s, value = .string s) {value : Json} {b : β} :
    read value = .ok b ↔ ∃ s, value = .string s ∧ spelled? s = some b := by
  constructor
  · intro h
    obtain ⟨s, rfl⟩ := hother value b h
    exact ⟨s, rfl, (hstring s b).1 h⟩
  · rintro ⟨s, rfl, h⟩
    exact (hstring s b).2 h

theorem polarityOf_eq_ok_iff (value : Json) (polarity : Polarity) :
    polarityOf value = .ok polarity ↔ IsPolarity value polarity := by
  unfold IsPolarity
  simp only [← Polarity.ofKeyword?_eq_some_iff]
  refine eq_ok_iff_of_string ?_ ?_
  · intro s b
    unfold polarityOf
    cases h : Polarity.ofKeyword? (keyword s) with
    | none => simp only [h, reduceCtorEq]
    | some found => simp only [h, Except.ok.injEq, Option.some.injEq]
  · intro value b h
    cases value with
    | string s => exact ⟨s, rfl⟩
    | null | bool | number | array | object => cases h

theorem averageOf_eq_ok_iff (value : Json) (average : MovingAverage) :
    averageOf value = .ok average ↔ IsAverage value average := by
  unfold IsAverage
  simp only [← MovingAverage.ofKeyword?_eq_some_iff]
  refine eq_ok_iff_of_string ?_ ?_
  · intro s b
    unfold averageOf
    cases h : MovingAverage.ofKeyword? (lowercase (trim s)) with
    | none => simp only [h, reduceCtorEq]
    | some found => simp only [h, Except.ok.injEq, Option.some.injEq]
  · intro value b h
    cases value with
    | string s => exact ⟨s, rfl⟩
    | null | bool | number | array | object => cases h

end Backtest
