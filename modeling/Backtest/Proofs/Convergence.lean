import Backtest.Proofs.ExactArithmetic
import Backtest.Proofs.Pointwise

/-!
Convergence and divergence as a composition of exponential averages. The three lines are worked out
from averages with no warm-up and hidden by bounds of their own; the same comes of averages that hide
their own warm-up.
-/

namespace Backtest.Indicator

open Scalar

variable {α : Type} [Scalar α]

section Macd

variable {fast slow signal : Nat} (hp : ¬ (fast = 0 ∨ slow = 0 ∨ signal = 0)) (prices : List α)
  (i : Nat)

include hp

theorem at?_macdLine :
    (macdLines fast slow signal prices).line.at? i =
      if i < max fast slow - 1 then none
      else do return (← emaValue? fast prices i) - (← emaValue? slow prices i) := by
  rw [macdLines, if_neg hp]
  simp only [Line.at?_after, List.getElem?_zipWith, getElem?_emaValues]
  by_cases hi : i < max fast slow - 1
  · simp [hi]
  · cases emaValue? fast prices i with
    | none => simp [hi]
    | some f => cases emaValue? slow prices i <;> simp [hi]

theorem at?_macdSignal :
    (macdLines fast slow signal prices).signal.at? i =
      if i < max (max fast slow - 1) (signal - 1) then none
      else emaValue? signal ((macdLines fast slow signal prices).line.map (·.getD zero)) i := by
  rw [macdLines, if_neg hp]
  simp only [Line.at?_after, getElem?_emaValues]

theorem at?_macdHistogram :
    (macdLines fast slow signal prices).histogram.at? i = do
      return (← (macdLines fast slow signal prices).line.at? i) -
        (← (macdLines fast slow signal prices).signal.at? i) := by
  rw [macdLines, if_neg hp]
  exact at?_spread _ _ i

theorem at?_macdLine_composed :
    (macdLines fast slow signal prices).line.at? i =
      do return (← (emaLine fast prices).at? i) - (← (emaLine slow prices).at? i) := by
  have hfast : fast ≠ 0 := fun h => hp (Or.inl h)
  have hslow : slow ≠ 0 := fun h => hp (Or.inr (Or.inl h))
  rw [at?_macdLine hp, at?_emaLine hfast, at?_emaLine hslow]
  by_cases hi : i < max fast slow - 1
  · have hearly : i < fast - 1 ∨ i < slow - 1 := by omega
    rw [if_pos hi]
    rcases hearly with hearly | hearly
    · rw [if_pos hearly]
      rfl
    · rw [if_pos hearly]
      cases (if i < fast - 1 then none else emaValue? fast prices i) <;> rfl
  · rw [if_neg hi, if_neg (by omega), if_neg (by omega)]

/-- Where the difference is defined, the later of the two bounds on the signal is that of its own
average. -/
theorem at?_macdSignal_composed :
    (macdLines fast slow signal prices).signal.at? i =
      if ((macdLines fast slow signal prices).line.at? i).isSome then
        (emaLine signal ((macdLines fast slow signal prices).line.map (·.getD zero))).at? i
      else none := by
  obtain ⟨hline, hsignal⟩ := definedFrom_macdLines hp prices
  obtain ⟨hlineLength, hsignalLength, _⟩ := length_macdLines fast slow signal prices
  by_cases hsome : ((macdLines fast slow signal prices).line.at? i).isSome
  · have hi := ((hline i).mp (Option.isSome_iff_exists.mp hsome)).1
    have hbound : i < max (max fast slow - 1) (signal - 1) ↔ i < signal - 1 := by omega
    rw [if_pos hsome, at?_macdSignal hp, at?_emaLine fun h => hp (Or.inr (Or.inr h))]
    simp only [hbound]
  · rw [if_neg hsome]
    by_contra hvalue
    obtain ⟨hi, hlen⟩ := (hsignal i).mp (Option.ne_none_iff_exists'.mp hvalue)
    exact hsome (Option.isSome_iff_exists.mpr ((hline i).mpr (by omega)))

end Macd

/-- The lines are those of the averages in full view: the difference where both are defined, the
average of the difference with zeros for its undefined start, and what is between the two. -/
theorem macd_composed_of_averages (prices : List α) {fast slow signal : Nat} (hfast : 0 < fast)
    (hslow : 0 < slow) (hsignal : 0 < signal) :
    ((macdLines fast slow signal prices).line.length = prices.length ∧
      (macdLines fast slow signal prices).signal.length = prices.length ∧
      (macdLines fast slow signal prices).histogram.length = prices.length) ∧
    ∀ i,
      let macd := macdLines fast slow signal prices
      let fed := macd.line.map (·.getD zero)
      macd.line.at? i =
        (do return (← (emaLine fast prices).at? i) - (← (emaLine slow prices).at? i)) ∧
      macd.signal.at? i =
        (if (macd.line.at? i).isSome then (emaLine signal fed).at? i else none) ∧
      macd.histogram.at? i = (do return (← macd.line.at? i) - (← macd.signal.at? i)) := by
  have hp : ¬ (fast = 0 ∨ slow = 0 ∨ signal = 0) := by omega
  refine ⟨length_macdLines fast slow signal prices, fun i => ?_⟩
  intro macd fed
  exact ⟨at?_macdLine_composed hp prices i, at?_macdSignal_composed hp prices i,
    at?_macdHistogram hp prices i⟩

/-- The slower average comes first, and the signal is slower still. -/
theorem macd_composed_of_averages_slow_signal :
    let prices : List ℚ := [10, 11, 13, 12, 15]
    let macd := macdLines 3 2 4 prices
    let fed : List ℚ := [0, 0, -17 / 36, -43 / 216, -761 / 1296]
    (0 < 3 ∧ 0 < 2 ∧ 0 < 4) ∧ (emaLine 3 prices).at? 2 = some (47 / 4) ∧
    (emaLine 2 prices).at? 2 = some (110 / 9) ∧ macd.line.at? 2 = some (47 / 4 - 110 / 9) ∧
    macd.signal.at? 2 = none ∧ macd.signal.at? 3 = (emaLine 4 fed).at? 3 ∧
    macd.histogram.at? 3 = some (-43 / 216 - -521 / 2700) := by
  intro prices macd fed
  have hpos : 0 < 3 ∧ 0 < 2 ∧ 0 < 4 := by decide
  have hfast : (emaLine 3 prices).at? 2 = some (47 / 4) := by decide +kernel
  have hslow : (emaLine 2 prices).at? 2 = some (110 / 9) := by decide +kernel
  have hfed : macd.line.map (·.getD zero) = fed := by decide +kernel
  have hdefined : (macd.line.at? 3).isSome = true := by decide +kernel
  have hsides : macd.line.at? 3 = some (-43 / 216) ∧ macd.signal.at? 3 = some (-521 / 2700) := by
    decide +kernel
  obtain ⟨_, hlines⟩ := macd_composed_of_averages prices hpos.1 hpos.2.1 hpos.2.2
  obtain ⟨hline, hearly, _⟩ := hlines 2
  obtain ⟨_, hsignal, hhistogram⟩ := hlines 3
  have hnone : (emaLine 4 (macd.line.map (·.getD zero))).at? 2 = none := by decide +kernel
  rw [hfast, hslow] at hline
  rw [if_pos hdefined, hfed] at hsignal
  rw [hsides.1, hsides.2] at hhistogram
  refine ⟨hpos, hfast, hslow, hline, ?_, hsignal, hhistogram⟩
  rw [hearly, hnone, ite_self]

end Backtest.Indicator
