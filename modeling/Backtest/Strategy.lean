import Backtest.Rule

/-!
Strategies: named lists of rules whose signals are combined by "and" or by "or".
-/

namespace Backtest

inductive Combine where
  | all
  | any
  deriving DecidableEq, Repr

namespace Combine

def values : List Combine := [all, any]

def word : Combine → String
  | all => "all"
  | any => "any"

def merge : Combine → List Bool → Bool
  | all, votes => votes.all id
  | any, votes => votes.any id

end Combine

structure Strategy (α : Type) where
  name : String
  rules : List (Rule α)
  combine : Combine
  deriving DecidableEq, Repr

/-- The longest warm-up among the rules. Under "or" a quicker rule may fire before it is over. -/
def Strategy.warmup {α : Type} (strategy : Strategy α) : Nat :=
  (strategy.rules.map Rule.warmup).foldl max 0

end Backtest
