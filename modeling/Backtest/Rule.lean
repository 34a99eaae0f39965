import Backtest.Indicator

/-!
Trading rules. A rule watches one line cross another, upwards or downwards, once for entering a
position and once for leaving it.
-/

namespace Backtest

inductive Polarity where
  | above
  | below
  deriving DecidableEq, Repr

namespace Polarity

def values : List Polarity := [above, below]

def word : Polarity → String
  | above => "above"
  | below => "below"

end Polarity

inductive MovingAverage where
  | sma
  | ema
  deriving DecidableEq, Repr

namespace MovingAverage

def values : List MovingAverage := [sma, ema]

def word : MovingAverage → String
  | sma => "sma"
  | ema => "ema"

def indicator : MovingAverage → Nat → Indicator
  | sma, period => .sma period
  | ema, period => .ema period

end MovingAverage

inductive Pattern (α : Type) where
  | maCross (fast slow : Nat) (average : MovingAverage)
  /-- Relative strength against a low level when entering and a high one when leaving. -/
  | rsiThreshold (period : Nat) (low high : α)
  | macdCross (fast slow signal : Nat)
  deriving DecidableEq, Repr

namespace Pattern

variable {α : Type}

def kind : Pattern α → String
  | maCross .. => "ma_cross"
  | rsiThreshold .. => "rsi_threshold"
  | macdCross .. => "macd_cross"

def indicators : Pattern α → List Indicator
  | maCross fast slow average => [average.indicator fast, average.indicator slow]
  | rsiThreshold period _ _ => [.rsi period]
  | macdCross fast slow signal => [.macd fast slow signal]

end Pattern

structure Rule (α : Type) where
  pattern : Pattern α
  enter : Polarity
  exit : Polarity
  deriving DecidableEq, Repr

namespace Rule

variable {α : Type}

def kind (rule : Rule α) : String := rule.pattern.kind

def indicators (rule : Rule α) : List Indicator := rule.pattern.indicators

/-- How many bars at the start can never fire. A cross looks at two bars, hence one more than
the indicators need. Bars are counted in words of 64 bits, so that no count is left for the
longest period of all: it wraps around to zero. -/
def warmup (rule : Rule α) : Nat :=
  ((rule.indicators.map Indicator.warmup).foldl max 0 + 1) % Nat.pow 2 64

end Rule

end Backtest
