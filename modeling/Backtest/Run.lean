import Backtest.Equity
import Backtest.Position
import Backtest.Signals
import Backtest.Stats

/-!
A backtest: one pass of a strategy over the bars of an instrument.
-/

namespace Backtest

open Scalar

variable {α : Type} [Scalar α]

structure Options (α : Type) where
  equityBase : α
  reentry : Reentry
  endOfSeries : EndOfSeries
  deriving DecidableEq, Repr

/-- What holds unless something else is asked for. -/
def Options.standard : Options α := ⟨hundred, .sameBar, .markToMarket⟩

structure Result (α : Type) where
  stats : Stats α
  trades : List (Trade α)
  equity : List (EquityPoint α)
  openPosition : Option (OpenPosition α)
  deriving DecidableEq, Repr

namespace Result

def maxDrawdownPct (result : Result α) : α :=
  Backtest.maxDrawdownPct (result.equity.map (·.equity))

end Result

def marksFrom (index : Nat) : List (Bar α) → List (Mark α)
  | [] => []
  | bar :: bars => bar.mark index :: marksFrom (index + 1) bars

def Signals.onMarks (signals : Signals) (marks : List (Mark α)) : List (Mark α × Bool × Bool) :=
  marks.zip (signals.enter.zip signals.exit)

/-- The policy for the end of a series, applied at its last bar. -/
def EndOfSeries.settle (policy : EndOfSeries) (m : Machine α) (last : Option (Mark α)) :
    Machine α × Option (OpenPosition α) :=
  match last with
  | none => (m, none)
  | some here =>
    match policy with
    | .markToMarket => (m, m.openPosition here)
    | .liquidate => ((m.liquidate here).1, none)

def run (strategy : Strategy α) (bars : List (Bar α)) (options : Options α) : Result α :=
  let marks := marksFrom 0 bars
  let signals := strategy.signals (closes bars)
  let (walked, exposure) := (Machine.start options.reentry).walk (signals.onMarks marks)
  let (settled, openPosition) := options.endOfSeries.settle walked marks.getLast?
  let equity := equityCurve bars exposure options.equityBase
  let final := (equity.getLast?.map (·.equity)).getD options.equityBase
  { stats := Stats.summarize (settled.trades.map (·.returnPct)) options.equityBase final
    trades := settled.trades
    equity
    openPosition }

structure CodeResult (α : Type) where
  code : String
  result : Result α
  deriving DecidableEq, Repr

def runAll (strategy : Strategy α) (series : List (String × List (Bar α))) (options : Options α) :
    List (CodeResult α) :=
  series.map fun (code, bars) => ⟨code, run strategy bars options⟩

end Backtest
