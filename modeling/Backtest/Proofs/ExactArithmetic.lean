import Backtest.Run
import Mathlib.Algebra.Order.Field.Rat
import Mathlib.Tactic.FieldSimp
import Mathlib.Tactic.Ring
import Mathlib.Tactic.Positivity

/-!
Exact arithmetic: prices and returns as rational numbers, where no operation rounds and every
value is finite. The operations of a backtest are those of the field.
-/

namespace Backtest

instance : Scalar ℚ where
  ofNat n := n
  lt a b := decide (a < b)
  le a b := decide (a ≤ b)
  eq a b := decide (a = b)
  isFinite _ := true

namespace Scalar

theorem lt_rat (a b : ℚ) : lt a b = decide (a < b) := rfl

theorem zero_rat : (zero : ℚ) = 0 := Nat.cast_zero

theorem one_rat : (one : ℚ) = 1 := Nat.cast_one

theorem hundred_rat : (hundred : ℚ) = 100 := rfl

theorem isPositive_rat (a : ℚ) : isPositive a = decide (0 < a) := by
  simp only [isPositive, zero_rat, lt_rat]

end Scalar

theorem returnPct_rat {entryPrice : ℚ} (h : 0 < entryPrice) (exitPrice : ℚ) :
    returnPct entryPrice exitPrice = (exitPrice - entryPrice) / entryPrice * 100 := by
  simp only [returnPct, Scalar.isPositive_rat, h, decide_true, if_true, Scalar.hundred_rat]

theorem one_add_returnPct {entryPrice : ℚ} (h : 0 < entryPrice) (exitPrice : ℚ) :
    1 + returnPct entryPrice exitPrice / 100 = exitPrice / entryPrice := by
  rw [returnPct_rat h]
  field_simp
  ring

theorem compound_rat {before : ℚ} (h : 0 < before) (equity close : ℚ) :
    compound equity before close = equity * (close / before) := by
  simp only [compound, Scalar.isPositive_rat, h, decide_true, Bool.true_and]
  rfl

theorem totalReturnPct_rat {base : ℚ} (h : 0 < base) (returns : List ℚ) (final : ℚ) :
    (Stats.summarize returns base final).totalReturnPct = (final / base - 1) * 100 := by
  simp only [Stats.summarize, Scalar.isPositive_rat, h, decide_true, if_true, Scalar.one_rat,
    Scalar.hundred_rat]
  split <;> rfl

/-! ## Bars and a strategy to run on given prices, over any scalars -/

/-- One bar a day, at one price all day. -/
def dailyBars {α : Type} (prices : List α) : List (Bar α) :=
  prices.mapIdx fun i price => ⟨⟨i⟩, price, price, price, price, 0, none, none⟩

/-- Enters where the price turns up and leaves where it turns down. -/
def followTurns {α : Type} : Strategy α := ⟨"turns", [⟨.maCross 1 2 .sma, .above, .below⟩], .all⟩

end Backtest
