import Backtest.Proofs.PriceScale
import Backtest.Proofs.Warmup
import Mathlib.Algebra.Order.BigOperators.Group.List
import Mathlib.Data.List.GetD

/-!
Prices that only rise, or only fall. The faster of two averages stays on one side of the slower one
and relative strength at one end of its scale, so that no line is ever crossed.
-/

namespace Backtest

/-- Wherever both lines are defined they lie in the same order. -/
def Line.KeepSides (left right : Line ℚ) : Prop :=
  ∀ direction : Polarity, ∀ {i j l r l' r'}, left.at? i = some l → right.at? i = some r →
    left.at? j = some l' → right.at? j = some r' → direction.OnSide l r → direction.OnSide l' r'

theorem Line.KeepSides.crossings {left right : Line ℚ} (h : left.KeepSides right)
    (direction : Polarity) :
    crossings direction left right = List.replicate (min left.length right.length) false := by
  rw [List.eq_replicate_iff]
  refine ⟨length_crossings direction left right, fun fires hm => ?_⟩
  obtain ⟨i, hi⟩ := List.mem_iff_getElem?.mp hm
  cases fires with
  | false => rfl
  | true =>
    obtain ⟨j, l, r, l', r', _, hl, hr, hl', hr', hpasses⟩ := passes_of_crossings hi
    obtain ⟨hbefore, hnow⟩ := (passes_iff direction l r l' r').mp hpasses
    exact absurd (h direction.opposite hl hr hl' hr' hbefore) hnow

namespace Indicator

section Rising

variable {prices : List ℚ} (hrise : prices.Pairwise (· < ·))

/-- What is below each of some numbers is below their mean. -/
theorem length_mul_lt_sum {xs : List ℚ} (hxs : xs ≠ []) {c : ℚ} (h : ∀ x ∈ xs, c < x) :
    xs.length * c < xs.sum := by
  have hlt := List.sum_lt_sum_of_ne_nil hxs (fun _ => c) id h
  simpa using hlt

theorem sum_lt_length_mul {xs : List ℚ} (hxs : xs ≠ []) {c : ℚ} (h : ∀ x ∈ xs, x < c) :
    xs.sum < xs.length * c := by
  have hlt := List.sum_lt_sum_of_ne_nil hxs id (fun _ => c) h
  simpa using hlt

theorem length_window {period i : Nat} (hi : period ≤ i + 1) (hlen : i < prices.length) :
    (window period i prices).length = period := by
  rw [window, List.length_drop, List.length_take]
  omega

include hrise

theorem mean_window_lt {fast slow i : Nat} (hfast : 1 ≤ fast) (hslow : fast < slow)
    (hi : slow ≤ i + 1) (hlen : i < prices.length) :
    (window slow i prices).sum / slow < (window fast i prices).sum / fast := by
  let older := ((prices.take (i + 1)).drop (i + 1 - slow)).take (slow - fast)
  have hsplit : window slow i prices = older ++ window fast i prices := by
    have hskip : i + 1 - slow + (slow - fast) = i + 1 - fast := by omega
    rw [window, window, ← hskip, ← List.drop_drop, List.take_append_drop]
  have holder : older.length = slow - fast := by
    rw [List.length_take, List.length_drop, List.length_take]
    omega
  have hnewer : (window fast i prices).length = fast := length_window (by omega) hlen
  have hordered : (older ++ window fast i prices).Pairwise (· < ·) :=
    hsplit ▸ hrise.sublist ((List.drop_sublist _ _).trans (List.take_sublist _ _))
  have hfast' : (0 : ℚ) < fast := Nat.cast_pos.mpr hfast
  have hslow' : (0 : ℚ) < slow := Nat.cast_pos.mpr (by omega)
  have hbelow : ∀ x ∈ older, x < (window fast i prices).sum / fast := by
    intro x hx
    have hne : window fast i prices ≠ [] := List.ne_nil_of_length_pos (by omega)
    have hlt := length_mul_lt_sum hne fun y hy => (List.pairwise_append.mp hordered).2.2 x hx y hy
    rw [hnewer] at hlt
    rwa [lt_div_iff₀' hfast']
  have hsum := sum_lt_length_mul (List.ne_nil_of_length_pos (by omega)) hbelow
  rw [holder, Nat.cast_sub hslow.le] at hsum
  rw [div_lt_iff₀' hslow', hsplit, List.sum_append]
  calc older.sum + (window fast i prices).sum
      < (slow - fast) * ((window fast i prices).sum / fast) + (window fast i prices).sum := by
        linarith
    _ = slow * ((window fast i prices).sum / fast) := by
        field_simp
        ring

end Rising

/-- On rising prices the average that takes the larger share of each price stays ahead. -/
theorem emaFrom_lt {weight weight' : ℚ} (hweight : weight < weight') (hone : weight' ≤ 1)
    {average average' : ℚ} (haverage : average ≤ average') {prices : List ℚ}
    (hrise : (average' :: prices).Pairwise (· < ·)) :
    List.Forall₂ (· < ·) (emaFrom weight average prices) (emaFrom weight' average' prices) := by
  induction prices generalizing average average' with
  | nil => exact .nil
  | cons price prices ih =>
    obtain ⟨habove, hrest⟩ := List.pairwise_cons.mp hrise
    obtain ⟨hlater, hrise'⟩ := List.pairwise_cons.mp hrest
    have hprice := habove price List.mem_cons_self
    have hnow : price * weight + average * (Scalar.one - weight) <
        price * weight' + average' * (Scalar.one - weight') := by
      rw [Scalar.one_rat]
      have hpull : (weight' - weight) * (price - average) > 0 :=
        mul_pos (by linarith) (by linarith)
      have hkeep : (1 - weight') * (average' - average) ≥ 0 :=
        mul_nonneg (by linarith) (by linarith)
      linarith
    have hbound : price * weight' + average' * (Scalar.one - weight') ≤ price := by
      rw [Scalar.one_rat]
      have hkeep : (1 - weight') * (price - average') ≥ 0 :=
        mul_nonneg (by linarith) (by linarith)
      linarith
    refine .cons hnow (ih hnow.le (List.pairwise_cons.mpr ⟨fun p hp => ?_, hrise'⟩))
    exact hbound.trans_lt (hlater p hp)

theorem smoothing_lt {fast slow : Nat} (h : fast < slow) :
    (smoothing slow : ℚ) < smoothing fast := by
  have hlt : (fast : ℚ) < slow := Nat.cast_lt.mpr h
  rw [smoothing_rat, smoothing_rat]
  exact div_lt_div_of_pos_left two_pos (by positivity) (by linarith)

section Rising

variable {prices : List ℚ} (hrise : prices.Pairwise (· < ·)) {i : Nat}

include hrise

/-- The two averages start at the same price, and part at the next one. -/
theorem emaValues_lt {fast slow : Nat} (hfast : 1 ≤ fast) (hslow : fast < slow) (hi : 1 ≤ i)
    {f s : ℚ} (hf : (emaValues fast prices)[i]? = some f)
    (hs : (emaValues slow prices)[i]? = some s) : s < f := by
  obtain ⟨k, rfl⟩ : ∃ k, i = k + 1 := ⟨i - 1, by omega⟩
  cases prices with
  | nil => simp [emaValues] at hf
  | cons price prices =>
    have hlt := emaFrom_lt (smoothing_lt hslow) (smoothing_le_one hfast) le_rfl hrise
    rw [emaValues, List.getElem?_cons_succ, List.getElem?_eq_some_iff] at hf hs
    obtain ⟨hflen, rfl⟩ := hf
    obtain ⟨hslen, rfl⟩ := hs
    exact (List.forall₂_iff_get.mp hlt).2 k hslen hflen

theorem gainAt_pos {j : Nat} (hj : j ∈ Finset.Icc 1 i) (hlen : i < prices.length) :
    0 < gainAt prices j ∧ lossAt prices j = 0 := by
  rw [Finset.mem_Icc] at hj
  have hlt := List.pairwise_iff_getElem.mp hrise (j - 1) j (by omega) (by omega) (by omega)
  rw [gainAt, lossAt, List.getD_eq_getElem _ _ (by omega), List.getD_eq_getElem _ _ (by omega)]
  exact ⟨lt_max_of_lt_left (by linarith), max_eq_right (by linarith)⟩

theorem rsiLine_of_rising {period : Nat} {value : ℚ}
    (h : (rsiLine period prices).at? i = some value) : value = 100 := by
  obtain ⟨hp, hi, hlen, rfl⟩ := at?_rsiLine_eq_some.mp h
  have hgain := smoothedAmount_pos hp hi fun j hj => (gainAt_pos hrise hj hlen).1
  have hloss := smoothedAmount_of_zero hi fun j hj => (gainAt_pos hrise hj hlen).2
  rw [Move.strength_eq_hundred_iff (nonnegative_smoothedMove hp prices i)]
  exact ⟨hgain.ne', hloss⟩

end Rising

end Indicator

theorem MovingAverage.line_lt_of_rising {prices : List ℚ} (hrise : prices.Pairwise (· < ·))
    (average : MovingAverage) {fast slow i : Nat} (hfast : 1 ≤ fast) (hslow : fast < slow) {f s : ℚ}
    (hf : (average.line fast prices).at? i = some f)
    (hs : (average.line slow prices).at? i = some s) : s < f := by
  have hfast' : fast ≠ 0 := by omega
  have hslow' : slow ≠ 0 := by omega
  obtain ⟨_, hwarm, hlen⟩ :=
    (Indicator.defined_iff (average.line_mem_lines slow prices) i).mp ⟨s, hs⟩
  cases average with
  | sma =>
    have hi : slow ≤ i + 1 := Nat.le_add_of_sub_le hwarm
    rw [line, Indicator.at?_smaLine_window hfast' (by omega) hlen] at hf
    rw [line, Indicator.at?_smaLine_window hslow' hi hlen] at hs
    rw [← Option.some.inj hf, ← Option.some.inj hs]
    exact Indicator.mean_window_lt hrise hfast hslow hi hlen
  | ema =>
    have hi : slow ≤ i + 1 := Nat.le_add_of_sub_le hwarm
    rw [line, Indicator.at?_emaLine hfast', if_neg (by omega),
      ← Indicator.getElem?_emaValues] at hf
    rw [line, Indicator.at?_emaLine hslow', if_neg (by omega),
      ← Indicator.getElem?_emaValues] at hs
    exact Indicator.emaValues_lt hrise hfast hslow (by omega) hf hs

/-- Rises become falls of the same size. -/
def Scale.upsideDown : Scale := ⟨-1, 0, by decide⟩

theorem Scale.upsideDown_apply (x : ℚ) : upsideDown.apply x = -x := by
  simp [apply, upsideDown]

theorem Scale.ofStrength_upsideDown_apply (x : ℚ) : upsideDown.ofStrength.apply x = 100 - x := by
  norm_num [apply, ofStrength, upsideDown]
  ring

section Falling

variable {prices : List ℚ} (hfall : prices.Pairwise (· > ·)) {i : Nat}

include hfall

theorem rising_upsideDown : (prices.map Scale.upsideDown.apply).Pairwise (· < ·) := by
  refine List.pairwise_map.mpr (hfall.imp fun {x y} h => ?_)
  rw [Scale.upsideDown_apply, Scale.upsideDown_apply]
  exact neg_lt_neg h

theorem MovingAverage.line_lt_of_falling (average : MovingAverage) {fast slow : Nat}
    (hfast : 1 ≤ fast) (hslow : fast < slow) {f s : ℚ}
    (hf : (average.line fast prices).at? i = some f)
    (hs : (average.line slow prices).at? i = some s) : f < s := by
  have hturned : ∀ {period : Nat} {x : ℚ}, (average.line period prices).at? i = some x →
      (average.line period (prices.map Scale.upsideDown.apply)).at? i = some (-x) := by
    intro period x hx
    rw [average.line_scaled, Line.at?_scaled, hx, Option.map_some, Scale.upsideDown_apply]
  exact neg_lt_neg_iff.mp
    (line_lt_of_rising (rising_upsideDown hfall) average hfast hslow (hturned hf) (hturned hs))

theorem Indicator.rsiLine_of_falling {period : Nat} {value : ℚ}
    (h : (rsiLine period prices).at? i = some value) : value = 0 := by
  have hturned : (rsiLine period (prices.map Scale.upsideDown.apply)).at? i =
      some (100 - value) := by
    rw [rsiLine_scaled, Line.at?_scaled, h, Option.map_some, Scale.ofStrength_upsideDown_apply]
  have hfull := rsiLine_of_rising (rising_upsideDown hfall) hturned
  linarith

end Falling

theorem Line.keepSides_of_lt {left right : Line ℚ}
    (h : ∀ i l r, left.at? i = some l → right.at? i = some r → r < l) : left.KeepSides right := by
  intro direction i j l r l' r' hl hr hl' hr' hside
  cases direction with
  | above => exact (h j l' r' hl' hr').le
  | below => exact absurd hside (h i l r hl hr).not_ge

theorem Line.keepSides_of_gt {left right : Line ℚ}
    (h : ∀ i l r, left.at? i = some l → right.at? i = some r → l < r) : left.KeepSides right := by
  intro direction i j l r l' r' hl hr hl' hr' hside
  cases direction with
  | above => exact absurd hside (h i l r hl hr).not_ge
  | below => exact (h j l' r' hl' hr').le

theorem Line.at?_constant {n i : Nat} {level x : ℚ} (h : (constant n level).at? i = some x) :
    x = level := by
  rw [at?_eq_some, constant] at h
  exact (Option.some.inj (List.eq_of_mem_replicate (List.mem_of_getElem? h)))

theorem Line.keepSides_constant {left : Line ℚ} {value : ℚ}
    (h : ∀ i l, left.at? i = some l → l = value) (n : Nat) (level : ℚ) :
    left.KeepSides (constant n level) := by
  intro direction i j l r l' r' hl hr hl' hr' hside
  rwa [h j l' hl', at?_constant hr', ← h i l hl, ← at?_constant hr]

/-- A fast average before a slower one, or relative strength: what a rule needs to watch to stay
silent while prices keep their direction. -/
def Pattern.FollowsTrend : Pattern ℚ → Prop
  | .maCross fast slow _ => 1 ≤ fast ∧ fast < slow
  | .rsiThreshold .. => True
  | .macdCross .. => False

section Steady

variable {prices : List ℚ} (hsteady : prices.Pairwise (· < ·) ∨ prices.Pairwise (· > ·))

include hsteady

theorem Pattern.keepSides {pattern : Pattern ℚ} (h : pattern.FollowsTrend) :
    (pattern.tracks prices).line.KeepSides (pattern.tracks prices).enterLine ∧
    (pattern.tracks prices).line.KeepSides (pattern.tracks prices).exitLine := by
  cases pattern with
  | maCross fast slow average =>
    have hlines : (average.line fast prices).KeepSides (average.line slow prices) := by
      rcases hsteady with hrise | hfall
      · exact Line.keepSides_of_lt fun i l r hl hr => average.line_lt_of_rising hrise h.1 h.2 hl hr
      · exact Line.keepSides_of_gt fun i l r hl hr => average.line_lt_of_falling hfall h.1 h.2 hl hr
    exact ⟨hlines, hlines⟩
  | rsiThreshold period low high =>
    have hvalue : ∃ value, ∀ i l, (Indicator.rsiLine period prices).at? i = some l → l = value := by
      rcases hsteady with hrise | hfall
      · exact ⟨100, fun i l hl => Indicator.rsiLine_of_rising hrise hl⟩
      · exact ⟨0, fun i l hl => Indicator.rsiLine_of_falling hfall hl⟩
    obtain ⟨value, hvalue⟩ := hvalue
    exact ⟨Line.keepSides_constant hvalue _ low, Line.keepSides_constant hvalue _ high⟩
  | macdCross fast slow signal => exact h.elim

theorem Rule.signals_of_steady {rule : Rule ℚ} (h : rule.pattern.FollowsTrend) :
    rule.signals prices = Signals.none prices.length := by
  obtain ⟨henter, hexit⟩ := rule.pattern.keepSides hsteady h
  obtain ⟨hline, henterLine, hexitLine⟩ := rule.pattern.causal_tracks
  rw [Rule.signals, henter.crossings, hexit.crossings, hline.length_eq, henterLine.length_eq,
    hexitLine.length_eq, Nat.min_self, Signals.none]

theorem Strategy.silent_of_steady {strategy : Strategy ℚ} (hrules : strategy.rules ≠ [])
    (h : ∀ rule ∈ strategy.rules, rule.pattern.FollowsTrend) :
    ∀ enter ∈ (strategy.signals prices).enter, enter = false := by
  intro enter hm
  obtain ⟨i, hi⟩ := List.mem_iff_getElem?.mp hm
  have hlen := (List.getElem?_eq_some_iff.mp hi).1
  rw [strategy.causal_signals.1.length_eq] at hlen
  have hvotes : ∀ vote ∈ strategy.rules.map (fun rule => (rule.votes prices i).1), vote = false := by
    intro vote hvote
    obtain ⟨rule, hr, rfl⟩ := List.mem_map.mp hvote
    simp [Rule.votes, Rule.signals_of_steady hsteady (h rule hr), Signals.none, hlen]
  rw [(Strategy.getElem?_signals hrules hlen).1,
    Combine.merge_eq_false (by simpa using hrules) (Or.inr hvotes)] at hi
  exact (Option.some.inj hi).symm

end Steady

/-- In exact arithmetic, prices that only rise, or only fall, keep the faster of two averages ahead
of the slower one and relative strength at one end of its scale, so that no rule of these two kinds
fires and no strategy of such rules trades. -/
theorem steady_prices_never_signal (prices : List ℚ) :
    (prices.Pairwise (· < ·) →
      (∀ (average : MovingAverage) (fast slow i : Nat) (f s : ℚ), 1 ≤ fast → fast < slow →
        (average.line fast prices).at? i = some f → (average.line slow prices).at? i = some s →
          s < f) ∧
      ∀ period i value, (Indicator.rsiLine period prices).at? i = some value → value = 100) ∧
    (prices.Pairwise (· > ·) →
      (∀ (average : MovingAverage) (fast slow i : Nat) (f s : ℚ), 1 ≤ fast → fast < slow →
        (average.line fast prices).at? i = some f → (average.line slow prices).at? i = some s →
          f < s) ∧
      ∀ period i value, (Indicator.rsiLine period prices).at? i = some value → value = 0) ∧
    (prices.Pairwise (· < ·) ∨ prices.Pairwise (· > ·) →
      (∀ rule : Rule ℚ, rule.pattern.FollowsTrend →
        rule.signals prices = Signals.none prices.length) ∧
      ∀ (strategy : Strategy ℚ) (bars : List (Bar ℚ)) (options : Options ℚ),
        closes bars = prices → strategy.rules ≠ [] →
        (∀ rule ∈ strategy.rules, rule.pattern.FollowsTrend) →
          (run strategy bars options).trades = [] ∧
          (run strategy bars options).openPosition = none) := by
  refine ⟨fun hrise => ⟨?_, ?_⟩, fun hfall => ⟨?_, ?_⟩, fun hsteady => ⟨?_, ?_⟩⟩
  · exact fun average fast slow i f s hfast hslow => average.line_lt_of_rising hrise hfast hslow
  · exact fun period i value => Indicator.rsiLine_of_rising hrise
  · exact fun average fast slow i f s hfast hslow => average.line_lt_of_falling hfall hfast hslow
  · exact fun period i value => Indicator.rsiLine_of_falling hfall
  · exact fun rule h => rule.signals_of_steady hsteady h
  · rintro strategy bars options rfl hrules h
    obtain ⟨htrades, hopen, _⟩ :=
      run_of_silent strategy options bars (Strategy.silent_of_steady hsteady hrules h)
    exact ⟨htrades, hopen⟩

def trendFollower : Strategy ℚ :=
  ⟨"trend follower",
    [⟨.maCross 1 3 .ema, .above, .below⟩, ⟨.rsiThreshold 2 0 100, .above, .above⟩], .any⟩

theorem steady_prices_never_signal_falling :
    let bars : List (Bar ℚ) := dailyBars [21, 13, 8, 5, 3, 2]
    (closes bars).Pairwise (· > ·) ∧
    (∀ rule ∈ trendFollower.rules, rule.pattern.FollowsTrend) ∧
    (Indicator.emaLine 1 (closes bars)).at? 3 = some 5 ∧
    (Indicator.emaLine 3 (closes bars)).at? 3 = some (35 / 4) ∧ (5 : ℚ) < 35 / 4 ∧
    (Indicator.rsiLine 2 (closes bars)).at? 3 = some 0 ∧
    (run trendFollower bars .standard).trades = [] := by
  intro bars
  have hfall : (closes bars).Pairwise (· > ·) := by decide +kernel
  have hrules : ∀ rule ∈ trendFollower.rules, rule.pattern.FollowsTrend := by
    simp [trendFollower, Pattern.FollowsTrend]
  have hfast : (Indicator.emaLine 1 (closes bars)).at? 3 = some 5 := by decide +kernel
  have hslow : (Indicator.emaLine 3 (closes bars)).at? 3 = some (35 / 4) := by decide +kernel
  obtain ⟨value, hvalue⟩ : ∃ value, (Indicator.rsiLine 2 (closes bars)).at? 3 = some value :=
    Option.isSome_iff_exists.mp (by decide +kernel)
  obtain ⟨_, hfalling, hsilent⟩ := steady_prices_never_signal (closes bars)
  obtain ⟨hlines, hstrength⟩ := hfalling hfall
  have hbehind := hlines .ema 1 3 3 5 (35 / 4) (by decide) (by decide) hfast hslow
  have hquiet := (hsilent (Or.inr hfall)).2 trendFollower bars .standard rfl
    (List.cons_ne_nil _ _) hrules
  exact ⟨hfall, hrules, hfast, hslow, hbehind, hstrength 2 3 value hvalue ▸ hvalue, hquiet.1⟩

end Backtest
