import Backtest.Indicator

/-!
Moving averages. The simple average keeps a running sum of its window; the exponential average
starts at the first price and moves towards each later one by a fixed fraction.
-/

namespace Backtest.Indicator

open Scalar

variable {α : Type} [Scalar α]

/-- Sums of the windows that end at each price. The second list says which price leaves the
window as the next one enters. -/
def windowSums (total : α) : List α → List (Option α) → List α
  | price :: prices, leaving :: rest =>
    let entered := total + price
    let total' := match leaving with
      | some old => entered - old
      | none => entered
    total' :: windowSums total' prices rest
  | _, _ => []

def smaLine (period : Nat) (prices : List α) : Line α :=
  if period = 0 ∨ prices.length < period then
    Line.undefined prices.length
  else
    let leaving := List.replicate period none ++ prices.map some
    Line.after (period - 1) ((windowSums zero prices leaving).map (· / ofNat period))

def smoothing (period : Nat) : α := ofNat 2 / (ofNat period + one)

def emaFrom (weight average : α) : List α → List α
  | [] => []
  | price :: prices =>
    let average' := price * weight + average * (one - weight)
    average' :: emaFrom weight average' prices

def emaValues (period : Nat) : List α → List α
  | [] => []
  | price :: prices => price :: emaFrom (smoothing period) price prices

/-- The exponential moving average, shown from where a simple average of that period would be. -/
def emaLine (period : Nat) (prices : List α) : Line α :=
  if period = 0 then
    Line.undefined prices.length
  else
    Line.after (period - 1) (emaValues period prices)

end Backtest.Indicator
