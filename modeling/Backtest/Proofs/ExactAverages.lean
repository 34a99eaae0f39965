import Backtest.Proofs.ExactArithmetic
import Backtest.Proofs.FadingAverage
import Backtest.Proofs.Pointwise
import Mathlib.Algebra.BigOperators.Group.List.Basic
import Mathlib.Algebra.BigOperators.Intervals
import Mathlib.Algebra.Order.BigOperators.Group.Finset
import Mathlib.Data.Finset.Max
import Mathlib.Data.List.GetD

/-!
Moving averages in exact arithmetic. A running sum holds what has entered the window less what has
left it, which is the sum of the prices inside. So a simple average is the mean of these prices and
of nothing else. An exponential average weighs all prices so far: the first one is its seed, and each
later one takes its share of it and fades.
-/

namespace Backtest.Indicator

theorem windowSum?_rat {period : Nat} (hp : period ≠ 0) {prices : List ℚ} {i : Nat}
    (hlen : i < prices.length) :
    windowSum? period prices i =
      some ((prices.take (i + 1)).sum - (prices.take (i + 1 - period)).sum) := by
  induction i with
  | zero =>
    have hnone : 0 + 1 - period = 0 := by omega
    simp [windowSum?, hlen, hnone, Scalar.zero_rat, List.sum_take_succ prices 0 hlen]
  | succ i ih =>
    rw [windowSum?, ih (Nat.lt_of_succ_lt hlen), List.sum_take_succ prices (i + 1) hlen]
    by_cases hi : i + 1 < period
    · -- nothing has left yet
      have hbefore : i + 1 - period = 0 := by omega
      have hnow : i + 1 + 1 - period = 0 := by omega
      simp [hi, hlen, hbefore, hnow]
    · have hnow : i + 1 + 1 - period = i + 1 - period + 1 := by omega
      have hleft : i + 1 - period < prices.length := by omega
      simp only [hi, if_false, hnow, List.sum_take_succ prices _ hleft,
        List.getElem?_eq_getElem hlen, List.getElem?_eq_getElem hleft]
      refine congrArg some ?_
      ring

/-- From the end of its warm-up on, the simple average is that of the last prices. -/
theorem at?_smaLine_rat {period i : Nat} {prices : List ℚ} (hp : period ≠ 0) (hi : period ≤ i + 1)
    (hlen : i < prices.length) :
    (smaLine period prices).at? i =
      some (((prices.take (i + 1)).sum - (prices.take (i + 1 - period)).sum) / period) := by
  rw [at?_smaLine hp, if_neg (by omega), windowSum?_rat hp hlen]
  rfl

def window (period i : Nat) (prices : List ℚ) : List ℚ :=
  (prices.take (i + 1)).drop (i + 1 - period)

theorem at?_smaLine_window {period i : Nat} {prices : List ℚ} (hp : period ≠ 0)
    (hi : period ≤ i + 1) (hlen : i < prices.length) :
    (smaLine period prices).at? i = some ((window period i prices).sum / period) := by
  have hbefore : prices.take (i + 1 - period) = (prices.take (i + 1)).take (i + 1 - period) := by
    rw [List.take_take, Nat.min_eq_left (Nat.sub_le _ _)]
  rw [at?_smaLine_rat hp hi hlen, hbefore, window,
    ← List.sum_take_add_sum_drop (prices.take (i + 1)) (i + 1 - period), add_sub_cancel_left]

/-- The mean of the last `period` prices up to a bar, by their indices. -/
def windowMean (period : Nat) (prices : List ℚ) (i : Nat) : ℚ :=
  (∑ k ∈ Finset.Icc (i + 1 - period) i, prices.getD k 0) / period

theorem sum_take_eq (prices : List ℚ) (count : Nat) (h : count ≤ prices.length) :
    (prices.take count).sum = ∑ k ∈ Finset.range count, prices.getD k 0 := by
  induction count with
  | zero => simp
  | succ count ih =>
    rw [List.sum_take_succ prices count h, ih (Nat.le_of_succ_le h), Finset.sum_range_succ,
      List.getD_eq_getElem?_getD, List.getElem?_eq_getElem h, Option.getD_some]

theorem at?_smaLine_mean {period i : Nat} {prices : List ℚ} (hp : period ≠ 0) (hi : period ≤ i + 1)
    (hlen : i < prices.length) :
    (smaLine period prices).at? i = some (windowMean period prices i) := by
  rw [at?_smaLine_rat hp hi hlen, sum_take_eq prices (i + 1) hlen,
    sum_take_eq prices (i + 1 - period) (by omega), ← Finset.sum_Ico_eq_sub _ (Nat.sub_le _ _),
    Finset.Ico_add_one_right_eq_Icc, windowMean]

theorem windowMean_congr {period i : Nat} {prices prices' : List ℚ}
    (h : ∀ k ∈ Finset.Icc (i + 1 - period) i, prices'[k]? = prices[k]?) :
    windowMean period prices' i = windowMean period prices i := by
  refine congrArg (· / (period : ℚ)) (Finset.sum_congr rfl fun k hk => ?_)
  rw [List.getD_eq_getElem?_getD, h k hk, List.getD_eq_getElem?_getD]

/-- What bounds each price of a window bounds their mean. -/
theorem windowMean_mem {period i : Nat} {prices : List ℚ} (hp : period ≠ 0) (hi : period ≤ i + 1)
    {low high : ℚ}
    (h : ∀ k ∈ Finset.Icc (i + 1 - period) i, low ≤ prices.getD k 0 ∧ prices.getD k 0 ≤ high) :
    low ≤ windowMean period prices i ∧ windowMean period prices i ≤ high := by
  have hperiod : (0 : ℚ) < period := Nat.cast_pos.mpr (Nat.pos_of_ne_zero hp)
  have hcard : (Finset.Icc (i + 1 - period) i).card = period := by
    rw [Nat.card_Icc]
    omega
  have hlow := Finset.card_nsmul_le_sum _ _ low fun k hk => (h k hk).1
  have hhigh := Finset.sum_le_card_nsmul _ _ high fun k hk => (h k hk).2
  rw [hcard, nsmul_eq_mul] at hlow hhigh
  rw [windowMean, le_div_iff₀ hperiod, div_le_iff₀ hperiod, mul_comm low, mul_comm high]
  exact ⟨hlow, hhigh⟩

/-- Where a whole period lies behind it, the simple average is the mean of the prices of that
period: it depends on no other ones, and stays between the least and the greatest of them.
Elsewhere there is none. -/
theorem sma_is_mean_of_window (prices : List ℚ) (period : Nat) (hp : 1 ≤ period) :
    (smaLine period prices).length = prices.length ∧
    (∀ i, period - 1 ≤ i → i < prices.length →
      (smaLine period prices).at? i =
        some ((∑ k ∈ Finset.Icc (i + 1 - period) i, prices.getD k 0) / period) ∧
      (∀ prices' : List ℚ, (∀ k ∈ Finset.Icc (i + 1 - period) i, prices'[k]? = prices[k]?) →
        (smaLine period prices').at? i = (smaLine period prices).at? i) ∧
      ∃ least ∈ Finset.Icc (i + 1 - period) i, ∃ greatest ∈ Finset.Icc (i + 1 - period) i,
        ∃ mean ∈ (smaLine period prices).at? i,
          (∀ k ∈ Finset.Icc (i + 1 - period) i,
            prices.getD least 0 ≤ prices.getD k 0 ∧ prices.getD k 0 ≤ prices.getD greatest 0) ∧
          prices.getD least 0 ≤ mean ∧ mean ≤ prices.getD greatest 0) ∧
    ∀ i, i < period - 1 ∨ prices.length ≤ i → (smaLine period prices).at? i = none := by
  have hp' : period ≠ 0 := Nat.one_le_iff_ne_zero.mp hp
  have hlength := (causal_smaLine (α := ℚ) period).length_eq prices
  refine ⟨hlength, fun i hi hlen => ?_, fun i hout => ?_⟩
  · have hperiod : period ≤ i + 1 := by omega
    have hmean := at?_smaLine_mean hp' hperiod hlen
    have hhere : i ∈ Finset.Icc (i + 1 - period) i := Finset.mem_Icc.mpr ⟨by omega, le_rfl⟩
    refine ⟨hmean, fun prices' hsame => ?_, ?_⟩
    · have hprice := (hsame i hhere).trans (List.getElem?_eq_getElem hlen)
      have hlen' := (List.getElem?_eq_some_iff.mp hprice).1
      rw [at?_smaLine_mean hp' hperiod hlen', hmean, windowMean_congr hsame]
    · obtain ⟨least, hleast, hmin⟩ :=
        Finset.exists_min_image _ (fun k => prices.getD k 0) ⟨i, hhere⟩
      obtain ⟨greatest, hgreatest, hmax⟩ :=
        Finset.exists_max_image _ (fun k => prices.getD k 0) ⟨i, hhere⟩
      have hbounds : ∀ k ∈ Finset.Icc (i + 1 - period) i,
          prices.getD least 0 ≤ prices.getD k 0 ∧ prices.getD k 0 ≤ prices.getD greatest 0 :=
        fun k hk => ⟨hmin k hk, hmax k hk⟩
      exact ⟨least, hleast, greatest, hgreatest, _, hmean, hbounds,
        windowMean_mem hp' hperiod hbounds⟩
  · rw [Option.eq_none_iff_forall_ne_some]
    intro mean hmean
    have hdefined := ((definedFrom_smaLine hp' prices) i).mp ⟨mean, hmean⟩
    omega

/-- The first price has left the window, although the running sum has seen it. -/
theorem sma_is_mean_of_window_sliding :
    let prices : List ℚ := [100, 2, 4, 9, 3]
    let prices' : List ℚ := [7, 2, 4, 9]
    1 ≤ 3 ∧ 3 - 1 ≤ 3 ∧ 3 < prices.length ∧
    (∀ k ∈ Finset.Icc (3 + 1 - 3) 3, prices'[k]? = prices[k]?) ∧
    (smaLine 3 prices).at? 3 = some 5 ∧ (smaLine 3 prices').at? 3 = some 5 ∧
    (smaLine 3 prices).at? 1 = none := by
  intro prices prices'
  have hlen : 3 < prices.length := by decide
  have hsame : ∀ k ∈ Finset.Icc (3 + 1 - 3) 3, prices'[k]? = prices[k]? := by decide +kernel
  have hmean : (∑ k ∈ Finset.Icc (3 + 1 - 3) 3, prices.getD k 0) / ((3 : Nat) : ℚ) = 5 := by
    decide +kernel
  obtain ⟨_, hdefined, hundefined⟩ := sma_is_mean_of_window prices 3 (by decide)
  obtain ⟨hvalue, hlocal, _⟩ := hdefined 3 (by decide) hlen
  rw [hmean] at hvalue
  exact ⟨by decide, by decide, hlen, hsame, hvalue, (hlocal prices' hsame).trans hvalue,
    hundefined 1 (Or.inl (by decide))⟩

theorem smoothing_rat (period : Nat) : (smoothing period : ℚ) = 2 / (period + 1) := by
  rw [smoothing, Scalar.one_rat]
  rfl

theorem smoothing_le_one {period : Nat} (hp : 1 ≤ period) : (smoothing period : ℚ) ≤ 1 := by
  have hperiod : (1 : ℚ) ≤ period := Nat.one_le_cast.mpr hp
  rw [smoothing_rat, div_le_one (by positivity)]
  linarith

theorem smoothing_nonneg (period : Nat) : (0 : ℚ) ≤ smoothing period := by
  rw [smoothing_rat]
  positivity

/-- The exponential average of the prices up to a bar, by their indices. -/
def fadingPrices (period : Nat) (prices : List ℚ) (i : Nat) : ℚ :=
  fading (1 - smoothing period) (prices.getD 0 0) 0 (prices.getD · 0) i

theorem emaValue?_rat (period : Nat) {prices : List ℚ} {i : Nat} (hlen : i < prices.length) :
    emaValue? period prices i = some (fadingPrices period prices i) := by
  induction i with
  | zero =>
    rw [emaValue?, fadingPrices, fading_start, List.getElem?_eq_getElem hlen,
      List.getD_eq_getElem _ _ hlen]
  | succ i ih =>
    rw [emaValue?, ih (Nat.lt_of_succ_lt hlen), List.getElem?_eq_getElem hlen, fadingPrices,
      fadingPrices, fading_succ (Nat.zero_le i), List.getD_eq_getElem _ _ hlen, Scalar.one_rat]
    refine congrArg some ?_
    ring

/-- A convex set that holds all prices so far holds their exponential average: an interval, the
positive numbers, or a single number. -/
theorem fadingPrices_mem {period i : Nat} (hp : 1 ≤ period) {prices : List ℚ} {values : Set ℚ}
    (hvalues : Convex ℚ values)
    (hprices : ∀ j ∈ Finset.range (i + 1), prices.getD j 0 ∈ values) :
    fadingPrices period prices i ∈ values := by
  have hkeep : (0 : ℚ) ≤ 1 - smoothing period := sub_nonneg.mpr (smoothing_le_one hp)
  have hkeep' : (1 : ℚ) - smoothing period ≤ 1 := sub_le_self 1 (smoothing_nonneg period)
  refine fading_mem hkeep hkeep' hvalues (hprices 0 (Finset.mem_range.mpr i.succ_pos)) ?_
  exact fun j hj => hprices j (Finset.mem_range_succ_iff.mpr (Finset.mem_Icc.mp hj).2)

theorem fadingPrices_between {period : Nat} (hp : 1 ≤ period) (prices : List ℚ) (i : Nat) :
    (Finset.range (i + 1)).inf' Finset.nonempty_range_add_one (prices.getD · 0) ≤
        fadingPrices period prices i ∧
      fadingPrices period prices i ≤
        (Finset.range (i + 1)).sup' Finset.nonempty_range_add_one (prices.getD · 0) := by
  refine Set.mem_Icc.mp (fadingPrices_mem hp (convex_Icc _ _) fun j hj => Set.mem_Icc.mpr ⟨?_, ?_⟩)
  · exact Finset.inf'_le (prices.getD · 0) hj
  · exact Finset.le_sup' (prices.getD · 0) hj

/-- The exponential average weighs the prices so far. The first one is the seed, each later one takes
the same share, and all of them fade at the bars behind them. No share is negative, and all make up
one, so that the average is never outside the prices it has seen, is positive where they are, and is
their common value where they are all the same. What is shown of it begins with the warm-up. -/
theorem ema_is_convex_weighting (prices : List ℚ) (period : Nat) (hp : 1 ≤ period) :
    (emaValues period prices).length = prices.length ∧
    (emaLine period prices).length = prices.length ∧
    (∀ i, (emaLine period prices).at? i =
      if i < period - 1 then none else (emaValues period prices)[i]?) ∧
    ∀ i,
      let share : ℚ := 2 / (period + 1)
      0 ≤ (1 - share) ^ i ∧
      (∀ j ∈ Finset.Icc 1 i, 0 ≤ share * (1 - share) ^ (i - j)) ∧
      (1 - share) ^ i + ∑ j ∈ Finset.Icc 1 i, share * (1 - share) ^ (i - j) = 1 ∧
      (i < prices.length → ∃ average,
        (emaValues period prices)[i]? = some average ∧
        average = (1 - share) ^ i * prices.getD 0 0 +
          ∑ j ∈ Finset.Icc 1 i, share * (1 - share) ^ (i - j) * prices.getD j 0 ∧
        (Finset.range (i + 1)).inf' Finset.nonempty_range_add_one (prices.getD · 0) ≤ average ∧
        average ≤ (Finset.range (i + 1)).sup' Finset.nonempty_range_add_one (prices.getD · 0) ∧
        ((∀ j ∈ Finset.range (i + 1), 0 < prices.getD j 0) → 0 < average) ∧
        ∀ level, (∀ j ∈ Finset.range (i + 1), prices.getD j 0 = level) → average = level) := by
  refine ⟨(causal_emaValues period).length_eq prices, (causal_emaLine period).length_eq prices,
    fun i => ?_, fun i => ?_⟩
  · rw [at?_emaLine (Nat.one_le_iff_ne_zero.mp hp), getElem?_emaValues]
  · intro share
    have hshare : smoothing period = share := smoothing_rat period
    have htaken : 0 ≤ share := hshare ▸ smoothing_nonneg period
    have hkept : 0 ≤ 1 - share := sub_nonneg.mpr (hshare ▸ smoothing_le_one hp)
    refine ⟨pow_nonneg hkept i, fun j _ => mul_nonneg htaken (pow_nonneg hkept _), ?_,
      fun hlen => ?_⟩
    · simpa only [sub_sub_cancel, Nat.sub_zero, Nat.zero_add] using
        sum_shares hkept (sub_le_self 1 htaken) 0 i
    · have hvalue : (emaValues period prices)[i]? = some (fadingPrices period prices i) := by
        rw [getElem?_emaValues, emaValue?_rat period hlen]
      obtain ⟨hleast, hgreatest⟩ := fadingPrices_between hp prices i
      refine ⟨_, hvalue, ?_, hleast, hgreatest, fun hpos => ?_, fun level hlevel => ?_⟩
      · rw [fadingPrices, fading, hshare, sub_sub_cancel, Nat.sub_zero, Nat.zero_add]
      · exact fadingPrices_mem hp (convex_Ioi 0) hpos
      · exact fadingPrices_mem hp (convex_singleton level) hlevel

/-- The last price weighs one half, and the first one as much as the one behind it. -/
theorem ema_is_convex_weighting_alternating :
    let prices : List ℚ := [4, 10, 1, 7]
    let flat : List ℚ := [5, 5, 5]
    (1 ≤ 3 ∧ 3 < prices.length ∧ 2 < flat.length) ∧
    (∀ j ∈ Finset.range (3 + 1), 0 < prices.getD j 0) ∧
    (∀ j ∈ Finset.range (2 + 1), flat.getD j 0 = 5) ∧
    (emaLine 3 prices).at? 1 = none ∧
    (emaLine 3 prices).at? 3 = some (1 / 8 * 4 + (1 / 8 * 10 + 1 / 4 * 1 + 1 / 2 * 7)) ∧
    (1 : ℚ) ≤ 11 / 2 ∧ (11 / 2 : ℚ) ≤ 10 ∧ (0 : ℚ) < 11 / 2 ∧
    (emaLine 3 flat).at? 2 = some 5 := by
  intro prices flat
  have hlen : 1 ≤ 3 ∧ 3 < prices.length ∧ 2 < flat.length := by decide
  have hpositive : ∀ j ∈ Finset.range (3 + 1), 0 < prices.getD j 0 := by decide +kernel
  have hflat : ∀ j ∈ Finset.range (2 + 1), flat.getD j 0 = 5 := by decide +kernel
  obtain ⟨_, _, hshown, hweighed⟩ := ema_is_convex_weighting prices 3 hlen.1
  obtain ⟨_, _, _, hdefined⟩ := hweighed 3
  obtain ⟨average, hvalue, haverage, hleast, hgreatest, habove, _⟩ := hdefined hlen.2.1
  have hsum : average = 11 / 2 := haverage.trans (by decide +kernel)
  have hmin : (Finset.range (3 + 1)).inf' Finset.nonempty_range_add_one (prices.getD · 0) = 1 := by
    decide +kernel
  have hmax : (Finset.range (3 + 1)).sup' Finset.nonempty_range_add_one (prices.getD · 0) = 10 := by
    decide +kernel
  rw [hmin, hsum] at hleast
  rw [hmax, hsum] at hgreatest
  obtain ⟨_, _, hshownFlat, hweighedFlat⟩ := ema_is_convex_weighting flat 3 hlen.1
  obtain ⟨_, _, _, hdefinedFlat⟩ := hweighedFlat 2
  obtain ⟨level, hlevel, _, _, _, _, hcommon⟩ := hdefinedFlat hlen.2.2
  refine ⟨hlen, hpositive, hflat, hshown 1, ?_, hleast, hgreatest, hsum ▸ habove hpositive, ?_⟩
  · rw [hshown 3, if_neg (by decide), hvalue, hsum]
    norm_num
  · rw [hshownFlat 2, if_neg (by decide), hlevel, hcommon 5 hflat]

end Backtest.Indicator
