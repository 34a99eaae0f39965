/-!
The arithmetic that prices, averages and returns are computed in. Nothing is assumed of the
operations: a backtest is the same chain of operations whether they are exact or rounded.
-/

namespace Backtest

/-- Numbers for prices and percentages. Comparisons answer with a `Bool`, so that an
unordered value may fail all three of them. -/
class Scalar (α : Type) extends Add α, Sub α, Mul α, Div α, Neg α where
  ofNat : Nat → α
  lt : α → α → Bool
  le : α → α → Bool
  eq : α → α → Bool
  isFinite : α → Bool

instance : Scalar Float where
  ofNat n := n.toFloat
  lt a b := a < b
  le a b := a ≤ b
  eq a b := a == b
  isFinite a := a.isFinite

namespace Scalar

variable {α : Type} [Scalar α]

def zero : α := ofNat 0

def one : α := ofNat 1

def hundred : α := ofNat 100

def isPositive (a : α) : Bool := lt zero a

/-- The larger of two values; `a` stays where `b` compares with nothing. -/
def larger (a b : α) : α := if lt a b then b else a

/-- The sum from left to right, which starts with the first term. -/
def sum : List α → α
  | [] => zero
  | x :: xs => xs.foldl (· + ·) x

end Scalar

end Backtest
