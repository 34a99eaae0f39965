import Backtest.Scalar

/-!
Indicators and their lines. A line has one entry per price, and an entry inside the warm-up is
undefined rather than zero, so that no comparison can succeed on it.
-/

namespace Backtest

inductive Indicator where
  | sma (period : Nat)
  | ema (period : Nat)
  | rsi (period : Nat)
  | macd (fast slow signal : Nat)
  deriving DecidableEq, Repr

namespace Indicator

/-- The first index at which all of the indicator's lines are defined. -/
def warmup : Indicator → Nat
  | sma period => period - 1
  | ema period => period - 1
  | rsi period => period
  | macd fast slow signal => max (max fast slow - 1) (signal - 1)

def name : Indicator → String
  | sma period => s!"SMA({period})"
  | ema period => s!"EMA({period})"
  | rsi period => s!"RSI({period})"
  | macd fast slow signal => s!"MACD({fast},{slow},{signal})"

end Indicator

abbrev Line (α : Type) := List (Option α)

namespace Line

variable {α : Type}

def undefined (length : Nat) : Line α := List.replicate length none

def constant (length : Nat) (level : α) : Line α := List.replicate length (some level)

/-- Hides the first `warmup` values. -/
def after : Nat → List α → Line α
  | _, [] => []
  | 0, values => values.map some
  | warmup + 1, _ :: values => none :: after warmup values

/-- The value at an index: none when it is undefined or past the end. -/
def at? (values : Line α) (index : Nat) : Option α := values[index]?.join

def firstDefined (line : Line α) : Option Nat := line.findIdx? Option.isSome

@[simp] theorem length_undefined (n : Nat) : (undefined n : Line α).length = n := by
  simp [undefined]

@[simp] theorem length_constant (n : Nat) (level : α) : (constant n level).length = n := by
  simp [constant]

@[simp] theorem length_after (warmup : Nat) (values : List α) :
    (after warmup values).length = values.length := by
  fun_induction after warmup values <;> simp_all

end Line

end Backtest
