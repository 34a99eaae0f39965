import Backtest.Proofs.Convergence
import Backtest.Proofs.Crossings

/-!
The warm-up that an indicator declares is the index at which its lines begin. A period of zero leaves
them without any value, so that a rule with such a period never fires.
-/

namespace Backtest

namespace Indicator

open Scalar

variable {α : Type} [Scalar α]

/-- What the entries at an index are made of: each price, and each value that came before, is read
at an index at which there is one. -/
def ReadsAt (prices : List α) (i : Nat) : Indicator → Prop
  | sma period => ∃ total, windowSum? period prices i = some total ∧
      (smaLine period prices).at? i = some (total / ofNat period)
  | ema period => ∃ average, emaValue? period prices i = some average ∧
      (emaLine period prices).at? i = some average
  | rsi period => ∃ average, averageMove? period prices (i - period) = some average ∧
      (rsiLine period prices).at? i = some average.strength
  | macd fast slow signal =>
    let macd := macdLines fast slow signal prices
    ∃ f s average, emaValue? fast prices i = some f ∧ emaValue? slow prices i = some s ∧
      emaValue? signal (macd.line.map (·.getD zero)) i = some average ∧
      macd.line.at? i = some (f - s) ∧ macd.signal.at? i = some average ∧
      macd.histogram.at? i = some (f - s - average)

theorem readsAt {indicator : Indicator} (hperiods : 0 ∉ indicator.periods) {prices : List α}
    {i : Nat} (hwarm : indicator.warmup ≤ i) (hi : i < prices.length) :
    indicator.ReadsAt prices i := by
  cases indicator with
  | sma period =>
    have hp := ne_zero_of_mem_periods hperiods (List.mem_singleton_self period)
    obtain ⟨total, htotal⟩ := exists_windowSum? hp hi
    have hlate : ¬ i < period - 1 := Nat.not_lt.mpr hwarm
    exact ⟨total, htotal, by rw [at?_smaLine hp, if_neg hlate, htotal]; rfl⟩
  | ema period =>
    have hp := ne_zero_of_mem_periods hperiods (List.mem_singleton_self period)
    obtain ⟨average, haverage⟩ := exists_emaValue? period hi
    have hlate : ¬ i < period - 1 := Nat.not_lt.mpr hwarm
    exact ⟨average, haverage, by rw [at?_emaLine hp, if_neg hlate, haverage]⟩
  | rsi period =>
    have hp := ne_zero_of_mem_periods hperiods (List.mem_singleton_self period)
    obtain ⟨later, rfl⟩ : ∃ later, i = period + later := Nat.exists_eq_add_of_le hwarm
    obtain ⟨average, haverage⟩ := exists_averageMove? hi
    refine ⟨average, by rwa [Nat.add_sub_cancel_left], ?_⟩
    rw [at?_rsiLine hp (by omega), haverage]
    rfl
  | macd fast slow signal =>
    have hp := fun hp => hperiods (zero_mem_macd_periods.mpr hp)
    have hlate : ¬ i < max (max fast slow - 1) (signal - 1) := Nat.not_lt.mpr hwarm
    have hlate' : ¬ i < max fast slow - 1 := by omega
    obtain ⟨f, hf⟩ := exists_emaValue? fast hi
    obtain ⟨s, hs⟩ := exists_emaValue? slow hi
    have hfed : i < ((macdLines fast slow signal prices).line.map (·.getD zero)).length := by
      rwa [List.length_map, (length_macdLines fast slow signal prices).1]
    obtain ⟨average, haverage⟩ := exists_emaValue? signal hfed
    have hline := at?_macdLine hp prices i
    have hsignal := at?_macdSignal hp prices i
    rw [if_neg hlate', hf, hs] at hline
    rw [if_neg hlate, haverage] at hsignal
    refine ⟨f, s, average, hf, hs, haverage, hline, hsignal, ?_⟩
    rw [at?_macdHistogram hp, hline, hsignal]
    rfl

end Indicator

variable {α : Type} [Scalar α]

/-- Every line has one entry per price and is defined exactly from the warm-up of its indicator on,
where all that it is made of is there, and a rule is silent up to its warm-up and for good if it has a
period of zero. -/
theorem lines_begin_at_warmup (prices : List α) :
    (∀ indicator : Indicator,
      (∀ line ∈ indicator.lines prices, line.length = prices.length ∧
        ∀ i, (∃ x, line.at? i = some x) ↔
          (∀ period ∈ indicator.periods, 0 < period) ∧
            indicator.warmup ≤ i ∧ i < prices.length) ∧
      ∀ i, (∀ period ∈ indicator.periods, 0 < period) → indicator.warmup ≤ i →
        i < prices.length → indicator.ReadsAt prices i) ∧
    (∀ fast slow signal : Nat,
      let line := (Indicator.macdLines fast slow signal prices).line
      line.length = prices.length ∧
      ∀ i, (∃ x, line.at? i = some x) ↔
        (0 < fast ∧ 0 < slow ∧ 0 < signal) ∧ max fast slow - 1 ≤ i ∧ i < prices.length) ∧
    ∀ rule : Rule α,
      (rule.signals prices).enter.length = prices.length ∧
      (rule.signals prices).exit.length = prices.length ∧
      (rule.fullWarmup < Nat.pow 2 64 → rule.warmup = rule.fullWarmup) ∧
      ∀ i < prices.length, i < rule.warmup ∨ i < rule.fullWarmup ∨ 0 ∈ rule.periods →
        (rule.signals prices).enter[i]? = some false ∧
        (rule.signals prices).exit[i]? = some false := by
  have hpositive : ∀ periods : List Nat, (∀ period ∈ periods, 0 < period) ↔ 0 ∉ periods := by
    intro periods
    simp only [Nat.pos_iff_ne_zero]
    exact ⟨fun h hm => h 0 hm rfl, fun h period hm hp => h (hp ▸ hm)⟩
  refine ⟨fun indicator => ⟨fun line hm => ?_, fun i hperiods hwarm hi => ?_⟩,
    fun fast slow signal => ?_, fun rule => ?_⟩
  · refine ⟨Indicator.length_of_mem_lines hm, fun i => ?_⟩
    rw [hpositive, Indicator.defined_iff hm]
  · exact Indicator.readsAt ((hpositive _).mp hperiods) hwarm hi
  · refine ⟨(Indicator.length_macdLines fast slow signal prices).1, fun i => ?_⟩
    rw [Indicator.macdLine_defined_iff, ← hpositive]
    simp [Indicator.periods]
  · obtain ⟨henter, hexit⟩ := rule.causal_signals
    have hlengths := And.intro (henter.length_eq prices) (hexit.length_eq prices)
    refine ⟨hlengths.1, hlengths.2, Nat.mod_eq_of_lt, fun i hi h => ?_⟩
    have hearly : i < rule.fullWarmup ∨ 0 ∈ rule.periods :=
      h.elim (fun hlt => Or.inl (Nat.lt_of_lt_of_le hlt rule.warmup_le_fullWarmup)) id
    have hsilent := rule.silent_of_early hearly prices
    rw [List.getD_eq_getElem?_getD, List.getD_eq_getElem?_getD,
      List.getElem?_eq_getElem (by omega), List.getElem?_eq_getElem (by omega)] at hsilent
    rw [List.getElem?_eq_getElem (by omega), List.getElem?_eq_getElem (by omega)]
    exact ⟨congrArg some hsilent.1, congrArg some hsilent.2⟩

/-- The signal is slower than both averages, and begins two bars after their difference. -/
theorem lines_begin_at_warmup_long_signal :
    let prices : List ℚ := [10, 11, 13, 12]
    let macd := Indicator.macdLines 1 2 4 prices
    let rule : Rule ℚ := ⟨.macdCross 1 2 4, .above, .below⟩
    (∀ period ∈ (Indicator.macd 1 2 4).periods, 0 < period) ∧ (Indicator.macd 1 2 4).warmup = 3 ∧
    3 < prices.length ∧ macd.line.length = 4 ∧ (∃ x, macd.line.at? 1 = some x) ∧
    (¬ ∃ x, macd.signal.at? 2 = some x) ∧ (∃ x, macd.signal.at? 3 = some x) ∧
    (Indicator.macd 1 2 4).ReadsAt prices 3 ∧ rule.warmup = 4 ∧
    (rule.signals prices).enter[3]? = some false := by
  intro prices macd rule
  have hperiods : ∀ period ∈ (Indicator.macd 1 2 4).periods, 0 < period := by
    simp [Indicator.periods]
  have hwarm : (Indicator.macd 1 2 4).warmup = 3 := rfl
  have hlen : 3 < prices.length := Nat.lt_succ_self 3
  have hsignal : macd.signal ∈ (Indicator.macd 1 2 4).lines prices := List.mem_cons_self
  obtain ⟨hlines, hdifference, hrules⟩ := lines_begin_at_warmup prices
  obtain ⟨hbegins, hreads⟩ := hlines (.macd 1 2 4)
  obtain ⟨hlength, hline⟩ := hdifference 1 2 4
  obtain ⟨_, _, _, hsilent⟩ := hrules rule
  have hrule : rule.warmup = 4 := rfl
  refine ⟨hperiods, hwarm, hlen, hlength, (hline 1).mpr (by decide), fun hearly => ?_,
    ((hbegins _ hsignal).2 3).mpr ⟨hperiods, hwarm.le, hlen⟩, hreads 3 hperiods hwarm.le hlen, hrule,
    (hsilent 3 hlen (Or.inl (by rw [hrule]; exact Nat.lt_succ_self 3))).1⟩
  have hlate := (((hbegins _ hsignal).2 2).mp hearly).2.1
  exact absurd hlate (by decide)

end Backtest
