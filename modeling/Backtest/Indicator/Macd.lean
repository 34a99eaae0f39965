import Backtest.Indicator.Average

/-!
Convergence and divergence of two exponential averages. The signal averages the difference line,
whose undefined start counts as zero.
-/

namespace Backtest.Indicator

open Scalar

variable {α : Type} [Scalar α]

structure Macd (α : Type) where
  line : Line α
  signal : Line α
  histogram : Line α
  deriving DecidableEq, Repr

/-- The difference of two lines where both are defined. -/
def spread (left right : Line α) : Line α :=
  List.zipWith (fun l r => do return (← l) - (← r)) left right

def macdLines (fast slow signal : Nat) (prices : List α) : Macd α :=
  if fast = 0 ∨ slow = 0 ∨ signal = 0 then
    let none := Line.undefined prices.length
    ⟨none, none, none⟩
  else
    let difference := List.zipWith (· - ·) (emaValues fast prices) (emaValues slow prices)
    let lineWarmup := max fast slow - 1
    let line := Line.after lineWarmup difference
    let averaged := emaValues signal (line.map (·.getD zero))
    let signal := Line.after (max lineWarmup (signal - 1)) averaged
    ⟨line, signal, spread line signal⟩

end Backtest.Indicator
