import Backtest.Date
import Backtest.Scalar

/-!
Bars: one trading day of one instrument.
-/

namespace Backtest

structure Bar (α : Type) where
  date : Date
  openPrice : α
  high : α
  low : α
  close : α
  volume : Nat
  /-- The volume-weighted average price, where the source gives one. -/
  vwap : Option α := none
  transactions : Option Nat := none
  deriving DecidableEq, Repr

namespace Bar

variable {α : Type} [Scalar α]

def hasValidPrices (bar : Bar α) : Bool :=
  [bar.openPrice, bar.high, bar.low, bar.close].all
    (fun price => Scalar.isFinite price && Scalar.isPositive price)

end Bar

def closes {α : Type} (bars : List (Bar α)) : List α := bars.map (·.close)

end Backtest
