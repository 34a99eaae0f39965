import Backtest.Scalar

/-!
Summary figures of a run.
-/

namespace Backtest

open Scalar

variable {α : Type} [Scalar α]

structure Stats (α : Type) where
  totalReturnPct : α
  trades : Nat
  winRatePct : α
  avgTradePct : α
  deriving DecidableEq, Repr

namespace Stats

def empty : Stats α := ⟨zero, 0, zero, zero⟩

def isEmpty (stats : Stats α) : Bool :=
  eq stats.totalReturnPct zero && stats.trades = 0 && eq stats.winRatePct zero &&
    eq stats.avgTradePct zero

/-- The figures of closed trades, by their returns, and of the index, by its base and its last
value. Trades with a return of exactly nothing are no wins. -/
def summarize (returns : List α) (base final : α) : Stats α :=
  let total := if isPositive base then (final / base - one) * hundred else zero
  if returns.isEmpty then
    ⟨total, 0, zero, zero⟩
  else
    let count : α := ofNat returns.length
    let wins : α := ofNat (returns.countP isPositive)
    ⟨total, returns.length, wins / count * hundred, sum returns / count⟩

end Stats

end Backtest
