import Backtest.Indicator.Strength
import Backtest.Indicator.Macd
import Backtest.Strategy

/-!
Signals: on which bars a rule or a strategy asks to enter and to leave.
-/

namespace Backtest

open Scalar

variable {α : Type} [Scalar α]

abbrev Sides (α : Type) := Option α × Option α

/-- Whether the left side passes the right one between two bars. It may touch before, but has to
be strictly past afterwards; an undefined side never passes. -/
def passes (direction : Polarity) : Sides α → Sides α → Bool
  | (some left, some right), (some left', some right') =>
    match direction with
    | .above => le left right && lt right' left'
    | .below => le right left && lt left' right'
  | _, _ => false

/-- The bars on which the left line crosses the right one. The first bar has no bar before it. -/
def crossings (direction : Polarity) (left right : Line α) : List Bool :=
  match left.zip right with
  | [] => []
  | sides :: rest => false :: List.zipWith (passes direction) (sides :: rest) rest

structure Tracks (α : Type) where
  line : Line α
  enterLine : Line α
  exitLine : Line α

def MovingAverage.line (average : MovingAverage) (period : Nat) (prices : List α) : Line α :=
  match average with
  | .sma => Indicator.smaLine period prices
  | .ema => Indicator.emaLine period prices

def Pattern.tracks (pattern : Pattern α) (prices : List α) : Tracks α :=
  match pattern with
  | .maCross fast slow average =>
    let slowLine := average.line slow prices
    ⟨average.line fast prices, slowLine, slowLine⟩
  | .rsiThreshold period low high =>
    ⟨Indicator.rsiLine period prices,
      Line.constant prices.length low, Line.constant prices.length high⟩
  | .macdCross fast slow signal =>
    let lines := Indicator.macdLines fast slow signal prices
    ⟨lines.line, lines.signal, lines.signal⟩

structure Signals where
  enter : List Bool
  exit : List Bool
  deriving DecidableEq, Repr

namespace Signals

def none (length : Nat) : Signals :=
  ⟨List.replicate length false, List.replicate length false⟩

def merge (combine : Combine) (a b : Signals) : Signals where
  enter := List.zipWith (fun x y => combine.merge [x, y]) a.enter b.enter
  exit := List.zipWith (fun x y => combine.merge [x, y]) a.exit b.exit

end Signals

def Rule.signals (rule : Rule α) (prices : List α) : Signals :=
  let tracks := rule.pattern.tracks prices
  ⟨crossings rule.enter tracks.line tracks.enterLine,
    crossings rule.exit tracks.line tracks.exitLine⟩

/-- The merged signals of all rules. A strategy without rules never asks for anything. -/
def Strategy.signals (strategy : Strategy α) (prices : List α) : Signals :=
  match strategy.rules.map (·.signals prices) with
  | [] => Signals.none prices.length
  | first :: rest => rest.foldl (Signals.merge strategy.combine) first

end Backtest
