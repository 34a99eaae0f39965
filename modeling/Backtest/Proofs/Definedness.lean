import Backtest.Proofs.Causality

/-!
Where lines are defined: from some index on and then at every later price. Before the warm-up of
its indicator a line has no value, and with a zero period it never has one.
-/

namespace Backtest

variable {β : Type}

namespace Line

/-- Undefined up to an index, and defined from there to the end. -/
def DefinedFrom (line : Line β) (first : Nat) : Prop :=
  ∀ i, (∃ x, line.at? i = some x) ↔ first ≤ i ∧ i < line.length

theorem at?_eq_some {values : Line β} {i : Nat} {x : β} :
    values.at? i = some x ↔ values[i]? = some (some x) := by
  simp [at?, Option.join_eq_some_iff]

theorem at?_undefined (n i : Nat) : (undefined n : Line β).at? i = none := by
  by_cases hi : i < n <;> simp [at?, undefined, hi]

theorem definedFrom_undefined {n first : Nat} (h : n ≤ first) :
    (undefined n : Line β).DefinedFrom first := by
  intro i
  have hnone : (undefined n : Line β).at? i = none := at?_undefined n i
  simp only [hnone, length_undefined, reduceCtorEq, exists_false, false_iff]
  omega

theorem at?_after (warmup : Nat) (values : List β) (i : Nat) :
    (after warmup values).at? i = if i < warmup then none else values[i]? := by
  induction values generalizing warmup i with
  | nil => simp [after, at?]
  | cons x xs ih =>
    cases warmup with
    | zero =>
      have hmap : after 0 (x :: xs) = (x :: xs).map some := rfl
      cases hx : (x :: xs)[i]? <;> simp only [hmap, at?, List.getElem?_map, hx] <;> simp
    | succ warmup =>
      cases i with
      | zero => simp [after, at?]
      | succ i => simpa [after, at?] using ih warmup i

theorem definedFrom_after (warmup : Nat) (values : List β) :
    (after warmup values).DefinedFrom warmup := by
  intro i
  rw [at?_after, length_after]
  by_cases hi : i < warmup
  · have hnot : ¬ (warmup ≤ i ∧ i < values.length) := by omega
    simp [hi, hnot]
  · by_cases hlen : i < values.length <;> simp [hi, hlen, Nat.le_of_not_lt hi]

theorem definedFrom_padded (first : Nat) (values : List β) :
    (List.replicate first none ++ values.map some : Line β).DefinedFrom first := by
  intro i
  simp only [at?_eq_some, List.length_append, List.length_replicate, List.length_map]
  by_cases hi : i < first
  · have hnot : ¬ (first ≤ i ∧ i < first + values.length) := by omega
    simp [List.getElem?_append, hi, hnot]
  · by_cases hlt : i < first + values.length <;> simp [hlt, Nat.le_of_not_lt hi]

namespace DefinedFrom

variable {line : Line β} {first : Nat}

theorem first_le (h : line.DefinedFrom first) {i : Nat} {x : β} (hx : line.at? i = some x) :
    first ≤ i :=
  ((h i).mp ⟨x, hx⟩).1

theorem lt_length (h : line.DefinedFrom first) {i : Nat} {x : β} (hx : line.at? i = some x) :
    i < line.length :=
  ((h i).mp ⟨x, hx⟩).2

theorem eq_none (h : line.DefinedFrom first) {i : Nat} (hi : i < first) : line.at? i = none := by
  cases hx : line.at? i with
  | none => rfl
  | some x => exact absurd (h.first_le hx) (Nat.not_le_of_lt hi)

theorem later (h : line.DefinedFrom first) {i j : Nat} {x : β} (hx : line.at? i = some x)
    (hij : i ≤ j) (hj : j < line.length) : ∃ y, line.at? j = some y :=
  (h j).mpr ⟨Nat.le_trans (h.first_le hx) hij, hj⟩

end DefinedFrom

end Line

namespace Indicator

open Scalar

variable {α : Type} [Scalar α]

theorem definedFrom_smaLine {period : Nat} (hp : period ≠ 0) (prices : List α) :
    (smaLine period prices).DefinedFrom (period - 1) := by
  rw [smaLine_eq hp]
  exact Line.definedFrom_after _ _

theorem definedFrom_emaLine {period : Nat} (hp : period ≠ 0) (prices : List α) :
    (emaLine period prices).DefinedFrom (period - 1) := by
  rw [emaLine, if_neg hp]
  exact Line.definedFrom_after _ _

theorem definedFrom_rsiLine {period : Nat} (hp : period ≠ 0) (prices : List α) :
    (rsiLine period prices).DefinedFrom period := by
  by_cases hlong : period < prices.length
  · rw [rsiLine_of_long hp hlong, ← Function.comp_def some Move.strength, ← List.map_map]
    exact Line.definedFrom_padded _ _
  · rw [rsiLine_of_short (Nat.le_of_not_lt hlong)]
    exact Line.definedFrom_undefined (Nat.le_of_not_lt hlong)

theorem definedFrom_macdLines {fast slow signal : Nat} (hp : ¬ (fast = 0 ∨ slow = 0 ∨ signal = 0))
    (prices : List α) :
    (macdLines fast slow signal prices).line.DefinedFrom (max fast slow - 1) ∧
    (macdLines fast slow signal prices).signal.DefinedFrom
      (max (max fast slow - 1) (signal - 1)) := by
  rw [macdLines, if_neg hp]
  exact ⟨Line.definedFrom_after _ _, Line.definedFrom_after _ _⟩

theorem at?_spread (left right : Line α) (i : Nat) :
    (spread left right).at? i = do return (← left.at? i) - (← right.at? i) := by
  simp only [spread, Line.at?, List.getElem?_zipWith]
  cases left[i]? with
  | none => rfl
  | some l =>
    cases right[i]? with
    | none => cases l <;> rfl
    | some r => rfl

theorem length_spread (left right : Line α) :
    (spread left right).length = min left.length right.length :=
  List.length_zipWith

theorem definedFrom_spread {left right : Line α} {first second : Nat}
    (hlen : left.length = right.length) (hleft : left.DefinedFrom first)
    (hright : right.DefinedFrom second) :
    (spread left right).DefinedFrom (max first second) := by
  intro i
  have hboth : (∃ x, (spread left right).at? i = some x) ↔
      (∃ l, left.at? i = some l) ∧ ∃ r, right.at? i = some r := by
    rw [at?_spread]
    cases left.at? i with
    | none => simp
    | some l => cases right.at? i <;> simp
  rw [hboth, hleft i, hright i, length_spread]
  omega

theorem length_macdLines (fast slow signal : Nat) (prices : List α) :
    (macdLines fast slow signal prices).line.length = prices.length ∧
    (macdLines fast slow signal prices).signal.length = prices.length ∧
    (macdLines fast slow signal prices).histogram.length = prices.length := by
  obtain ⟨hline, hsignal⟩ := causal_macdLines (α := α) fast slow signal
  have hl := hline.length_eq prices
  have hs := hsignal.length_eq prices
  refine ⟨hl, hs, ?_⟩
  by_cases hp : fast = 0 ∨ slow = 0 ∨ signal = 0
  · rw [macdLines, if_pos hp]
    exact Line.length_undefined _
  · rw [macdLines, if_neg hp] at hl hs ⊢
    rw [length_spread, hl, hs, Nat.min_self]

def periods : Indicator → List Nat
  | sma period | ema period | rsi period => [period]
  | macd fast slow signal => [fast, slow, signal]

theorem ne_zero_of_mem_periods {indicator : Indicator} (h : 0 ∉ indicator.periods) {period : Nat}
    (hm : period ∈ indicator.periods) : period ≠ 0 :=
  fun hp => h (hp ▸ hm)

theorem zero_mem_macd_periods {fast slow signal : Nat} :
    0 ∈ (macd fast slow signal).periods ↔ fast = 0 ∨ slow = 0 ∨ signal = 0 := by
  simp [periods, eq_comm]

/-- The lines that begin at the warm-up. Of the three lines of a convergence, the difference itself
may begin before. -/
def lines (prices : List α) : Indicator → List (Line α)
  | sma period => [smaLine period prices]
  | ema period => [emaLine period prices]
  | rsi period => [rsiLine period prices]
  | macd fast slow signal =>
    [(macdLines fast slow signal prices).signal, (macdLines fast slow signal prices).histogram]

theorem length_of_mem_lines {indicator : Indicator} {prices : List α} {line : Line α}
    (h : line ∈ indicator.lines prices) : line.length = prices.length := by
  cases indicator with
  | sma period => exact List.mem_singleton.mp h ▸ (causal_smaLine period).length_eq prices
  | ema period => exact List.mem_singleton.mp h ▸ (causal_emaLine period).length_eq prices
  | rsi period => exact List.mem_singleton.mp h ▸ (causal_rsiLine period).length_eq prices
  | macd fast slow signal =>
    obtain ⟨_, hsignal, hhistogram⟩ := length_macdLines fast slow signal prices
    simp only [lines, List.mem_cons, List.not_mem_nil, or_false] at h
    rcases h with rfl | rfl
    · exact hsignal
    · exact hhistogram

theorem undefined_of_zero_mem {indicator : Indicator} (hzero : 0 ∈ indicator.periods)
    {prices : List α} {line : Line α} (h : line ∈ indicator.lines prices) :
    line = Line.undefined prices.length := by
  cases indicator with
  | sma period =>
    have hp : period = 0 := (List.mem_singleton.mp hzero).symm
    rw [List.mem_singleton.mp h, smaLine, if_pos (Or.inl hp)]
  | ema period =>
    have hp : period = 0 := (List.mem_singleton.mp hzero).symm
    rw [List.mem_singleton.mp h, emaLine, if_pos hp]
  | rsi period =>
    have hp : period = 0 := (List.mem_singleton.mp hzero).symm
    rw [List.mem_singleton.mp h, rsiLine, if_pos (Or.inl hp)]
  | macd fast slow signal =>
    simp only [lines, macdLines, if_pos (zero_mem_macd_periods.mp hzero), List.mem_cons,
      List.not_mem_nil, or_false, or_self] at h
    exact h

theorem definedFrom_warmup {indicator : Indicator} (hperiods : 0 ∉ indicator.periods)
    {prices : List α} {line : Line α} (h : line ∈ indicator.lines prices) :
    line.DefinedFrom indicator.warmup := by
  cases indicator with
  | sma period =>
    have hp := ne_zero_of_mem_periods hperiods (List.mem_singleton_self period)
    exact List.mem_singleton.mp h ▸ definedFrom_smaLine hp prices
  | ema period =>
    have hp := ne_zero_of_mem_periods hperiods (List.mem_singleton_self period)
    exact List.mem_singleton.mp h ▸ definedFrom_emaLine hp prices
  | rsi period =>
    have hp := ne_zero_of_mem_periods hperiods (List.mem_singleton_self period)
    exact List.mem_singleton.mp h ▸ definedFrom_rsiLine hp prices
  | macd fast slow signal =>
    have hp := fun hp => hperiods (zero_mem_macd_periods.mpr hp)
    obtain ⟨hline, hsignal⟩ := definedFrom_macdLines hp prices
    obtain ⟨hl, hs, _⟩ := length_macdLines fast slow signal prices
    simp only [lines, List.mem_cons, List.not_mem_nil, or_false] at h
    rcases h with rfl | rfl
    · exact hsignal
    · have hboth := definedFrom_spread (hl.trans hs.symm) hline hsignal
      rw [← Nat.max_assoc, Nat.max_self] at hboth
      rw [macdLines, if_neg hp] at hboth ⊢
      exact hboth

/-- A value at an index tells that no period is zero and that the warm-up is over. -/
theorem defined_iff {indicator : Indicator} {prices : List α} {line : Line α}
    (h : line ∈ indicator.lines prices) (i : Nat) :
    (∃ x, line.at? i = some x) ↔
      0 ∉ indicator.periods ∧ indicator.warmup ≤ i ∧ i < prices.length := by
  by_cases hzero : 0 ∈ indicator.periods
  · rw [undefined_of_zero_mem hzero h, Line.at?_undefined]
    simp [hzero]
  · rw [definedFrom_warmup hzero h i, length_of_mem_lines h]
    simp [hzero]

theorem macdLine_defined_iff (fast slow signal : Nat) (prices : List α) (i : Nat) :
    (∃ x, (macdLines fast slow signal prices).line.at? i = some x) ↔
      0 ∉ (macd fast slow signal).periods ∧ max fast slow - 1 ≤ i ∧ i < prices.length := by
  by_cases hp : fast = 0 ∨ slow = 0 ∨ signal = 0
  · rw [macdLines, if_pos hp, Line.at?_undefined]
    simp [zero_mem_macd_periods.mpr hp]
  · have hzero : 0 ∉ (macd fast slow signal).periods :=
      fun hzero => hp (zero_mem_macd_periods.mp hzero)
    rw [(definedFrom_macdLines hp prices).1 i, (length_macdLines fast slow signal prices).1]
    simp [hzero]

end Indicator

variable {α : Type} [Scalar α]

theorem MovingAverage.line_mem_lines (average : MovingAverage) (period : Nat) (prices : List α) :
    average.line period prices ∈ (average.indicator period).lines prices := by
  cases average <;> exact List.mem_singleton_self _

theorem Indicator.exists_definedFrom {indicator : Indicator} {prices : List α} {line : Line α}
    (h : line ∈ indicator.lines prices) : ∃ first, line.DefinedFrom first := by
  by_cases hzero : 0 ∈ indicator.periods
  · exact ⟨_, undefined_of_zero_mem hzero h ▸ Line.definedFrom_undefined (Nat.le_refl _)⟩
  · exact ⟨_, definedFrom_warmup hzero h⟩

theorem MovingAverage.definedFrom_line (average : MovingAverage) (period : Nat) (prices : List α) :
    ∃ first, (average.line period prices).DefinedFrom first :=
  Indicator.exists_definedFrom (average.line_mem_lines period prices)

theorem Indicator.exists_definedFrom_macdLines (fast slow signal : Nat) (prices : List α) :
    (∃ first, (macdLines fast slow signal prices).line.DefinedFrom first) ∧
    ∃ first, (macdLines fast slow signal prices).signal.DefinedFrom first := by
  have hsignal : (macdLines fast slow signal prices).signal ∈
      (macd fast slow signal).lines prices := List.mem_cons_self
  refine ⟨?_, exists_definedFrom hsignal⟩
  by_cases hp : fast = 0 ∨ slow = 0 ∨ signal = 0
  · rw [macdLines, if_pos hp]
    exact ⟨_, Line.definedFrom_undefined (Nat.le_refl _)⟩
  · exact ⟨_, (definedFrom_macdLines hp prices).1⟩

end Backtest
