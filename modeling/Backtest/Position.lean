import Backtest.Bar

/-!
The position: flat or long, one unit at a time. A machine takes the bars in order, leaves before
it enters, and writes every completed round trip into its log.
-/

namespace Backtest

open Scalar

variable {α : Type} [Scalar α]

/-- Whether a bar that closes a position may open the next one at the same close. -/
inductive Reentry where
  | sameBar
  | nextBar
  deriving DecidableEq, Repr

/-- What becomes of a position that is open on the last bar: it is valued, or it is sold. -/
inductive EndOfSeries where
  | markToMarket
  | liquidate
  deriving DecidableEq, Repr

structure Mark (α : Type) where
  index : Nat
  date : Date
  price : α
  deriving DecidableEq, Repr

def Bar.mark (bar : Bar α) (index : Nat) : Mark α := ⟨index, bar.date, bar.close⟩

inductive Position (α : Type) where
  | flat
  | long (entry : Mark α)
  deriving DecidableEq, Repr

def Position.isLong : Position α → Bool
  | .flat => false
  | .long _ => true

/-- The gain from one price to another in percent, and nothing where the first is not positive. -/
def returnPct (entryPrice exitPrice : α) : α :=
  if isPositive entryPrice then (exitPrice - entryPrice) / entryPrice * hundred else zero

structure Trade (α : Type) where
  entryDate : Date
  entryPrice : α
  exitDate : Date
  exitPrice : α
  returnPct : α
  barsHeld : Nat
  deriving DecidableEq, Repr

def Trade.between (entry exit : Mark α) : Trade α where
  entryDate := entry.date
  entryPrice := entry.price
  exitDate := exit.date
  exitPrice := exit.price
  returnPct := Backtest.returnPct entry.price exit.price
  barsHeld := exit.index - entry.index

structure OpenPosition (α : Type) where
  entryDate : Date
  entryPrice : α
  lastDate : Date
  lastPrice : α
  unrealizedPct : α
  barsHeld : Nat
  deriving DecidableEq, Repr

def OpenPosition.valued (entry last : Mark α) : OpenPosition α where
  entryDate := entry.date
  entryPrice := entry.price
  lastDate := last.date
  lastPrice := last.price
  unrealizedPct := returnPct entry.price last.price
  barsHeld := last.index - entry.index

structure Machine (α : Type) where
  reentry : Reentry
  position : Position α := .flat
  trades : List (Trade α) := []
  deriving DecidableEq, Repr

namespace Machine

def start (reentry : Reentry) : Machine α := { reentry }

def isLong (m : Machine α) : Bool := m.position.isLong

def close (m : Machine α) (here : Mark α) : Machine α × Option (Trade α) :=
  match m.position with
  | .flat => (m, none)
  | .long entry =>
    let trade := Trade.between entry here
    ({ m with position := .flat, trades := m.trades ++ [trade] }, some trade)

def enter (m : Machine α) (here : Mark α) : Machine α :=
  match m.position with
  | .flat => { m with position := .long here }
  | .long _ => m

def step (m : Machine α) (here : Mark α) (enter exit : Bool) : Machine α × Option (Trade α) :=
  let (closed, trade) := if exit then m.close here else (m, none)
  let mayEnter := trade.isNone || m.reentry = .sameBar
  (if enter && mayEnter then closed.enter here else closed, trade)

/-- Sells whatever is open. A position opened on the very same bar was never exposed to any
move: it is dropped and leaves no trade. -/
def liquidate (m : Machine α) (here : Mark α) : Machine α × Option (Trade α) :=
  match m.position with
  | .flat => (m, none)
  | .long entry =>
    if entry.index = here.index then ({ m with position := .flat }, none) else m.close here

def openPosition (m : Machine α) (here : Mark α) : Option (OpenPosition α) :=
  match m.position with
  | .flat => none
  | .long entry => some (OpenPosition.valued entry here)

/-- Takes a series of bars with their signals. Besides the machine after the last one, the
result tells for each bar whether a position was open when it began. -/
def walk (m : Machine α) : List (Mark α × Bool × Bool) → Machine α × List Bool
  | [] => (m, [])
  | (here, enter, exit) :: rest =>
    let (last, exposure) := walk (m.step here enter exit).1 rest
    (last, m.isLong :: exposure)

end Machine

end Backtest
