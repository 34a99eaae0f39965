import Backtest.Decimal.Text
import Backtest.Run

/-!
The summary of a batch for people to read.
-/

namespace Backtest

open Decimal

def OpenPosition.summary (position : OpenPosition Float) : String :=
  let since := position.entryDate.text
  let price := fixed position.entryPrice 2
  let gain := fixed position.unrealizedPct 2 true
  s!"  Open Position:  since {since} at {price}, {gain}%"

def CodeResult.summary (entry : CodeResult Float) : List String :=
  let stats := entry.result.stats
  [entry.code ++ ":",
    "  Total Return:   " ++ fixed stats.totalReturnPct 2 ++ "%",
    "  Max Drawdown:   -" ++ fixed entry.result.maxDrawdownPct 2 ++ "%",
    "  Trades:         " ++ toString stats.trades,
    "  Win Rate:       " ++ fixed stats.winRatePct 1 ++ "%",
    "  Avg Trade:      " ++ fixed stats.avgTradePct 2 ++ "%"] ++
  (entry.result.openPosition.map OpenPosition.summary).toList

def summary (results : List (CodeResult Float)) : List String :=
  ["", "=== Results ==="] ++ results.flatMap CodeResult.summary

end Backtest
