import Backtest.Decimal.Text
import Backtest.Rule

/-!
Rules in one line for people to read.
-/

namespace Backtest

def Rule.describe (rule : Rule Float) : String :=
  let enter := rule.enter.word
  let exit := rule.exit.word
  match rule.pattern with
  | .maCross fast slow average =>
    let fast := (average.indicator fast).name
    let slow := (average.indicator slow).name
    s!"{fast} x {slow} (enter {enter}, exit {exit})"
  | .rsiThreshold period low high =>
    let strength := (Indicator.rsi period).name
    let low := Decimal.plain low
    let high := Decimal.plain high
    s!"{strength} enter {enter} {low}, exit {exit} {high}"
  | .macdCross fast slow signal =>
    let lines := (Indicator.macd fast slow signal).name
    s!"{lines} line x signal (enter {enter}, exit {exit})"

end Backtest
