import Backtest.Json.Printer
import Backtest.Run
import Backtest.Strategy.Written

/-!
Reports: a strategy and what it did with each instrument, as one document.
-/

namespace Backtest

def Stats.toJson (stats : Stats Float) : Json :=
  .object [("totalReturnPct", .real stats.totalReturnPct), ("trades", .natural stats.trades),
    ("winRatePct", .real stats.winRatePct), ("avgTradePct", .real stats.avgTradePct)]

def Trade.toJson (trade : Trade Float) : Json :=
  .object [("entryDate", .string trade.entryDate.text), ("entryPrice", .real trade.entryPrice),
    ("exitDate", .string trade.exitDate.text), ("exitPrice", .real trade.exitPrice),
    ("returnPct", .real trade.returnPct), ("barsHeld", .natural trade.barsHeld)]

def EquityPoint.toJson (point : EquityPoint Float) : Json :=
  .object [("date", .string point.date.text), ("equity", .real point.equity),
    ("inPosition", .bool point.inPosition)]

def OpenPosition.toJson (position : OpenPosition Float) : Json :=
  .object [("entryDate", .string position.entryDate.text),
    ("entryPrice", .real position.entryPrice), ("lastDate", .string position.lastDate.text),
    ("lastPrice", .real position.lastPrice), ("unrealizedPct", .real position.unrealizedPct),
    ("barsHeld", .natural position.barsHeld)]

/-- Without an open position the last member is left out. -/
def Result.toJson (result : Result Float) : Json :=
  .object ([("stats", result.stats.toJson), ("trades", .array (result.trades.map Trade.toJson)),
      ("equity", .array (result.equity.map EquityPoint.toJson))] ++
    (result.openPosition.map fun position => ("openPosition", position.toJson)).toList)

def CodeResult.toJson (entry : CodeResult Float) : Json :=
  .object [("code", .string entry.code), ("result", entry.result.toJson)]

def Json.page (document : Json) : String := document.pretty ++ "\n"

def report (strategy : Strategy Float) (results : List (CodeResult Float)) : String :=
  (Json.object [("strategy", strategy.toJson),
    ("results", .array (results.map CodeResult.toJson))]).page

end Backtest
