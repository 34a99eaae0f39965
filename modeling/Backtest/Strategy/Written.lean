import Backtest.Json
import Backtest.Strategy

/-!
The written form of strategies: a rule is an object whose tag names its kind, with the parameters
beside the tag.
-/

namespace Backtest

def Pattern.members : Pattern Float → List (String × Json)
  | .maCross fast slow average =>
    [("fast", .natural fast), ("slow", .natural slow), ("average", .string average.word)]
  | .rsiThreshold period low high =>
    [("period", .natural period), ("low", .real low), ("high", .real high)]
  | .macdCross fast slow signal =>
    [("fast", .natural fast), ("slow", .natural slow), ("signal", .natural signal)]

def Rule.members (rule : Rule Float) : List (String × Json) :=
  [("type", .string rule.kind)] ++ rule.pattern.members ++
    [("enter", .string rule.enter.word), ("exit", .string rule.exit.word)]

def Rule.toJson (rule : Rule Float) : Json := .object rule.members

def Strategy.toJson (strategy : Strategy Float) : Json :=
  .object [("name", .string strategy.name), ("rules", .array (strategy.rules.map Rule.toJson)),
    ("combine", .string strategy.combine.word)]

end Backtest
