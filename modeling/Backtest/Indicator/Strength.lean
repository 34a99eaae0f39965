import Backtest.Indicator

/-!
Relative strength: the share of gains in the average move, on a scale from 0 to 100. The first
average is the mean of the first moves; each later move pulls it by one part in `period`.
-/

namespace Backtest.Indicator

open Scalar

variable {α : Type} [Scalar α]

structure Move (α : Type) where
  gain : α
  loss : α
  deriving DecidableEq, Repr

namespace Move

def ofChange (change : α) : Move α :=
  if isPositive change then ⟨change, zero⟩ else ⟨zero, -change⟩

def add (a b : Move α) : Move α := ⟨a.gain + b.gain, a.loss + b.loss⟩

def divide (a : Move α) (count : α) : Move α := ⟨a.gain / count, a.loss / count⟩

def smooth (count : α) (average move : Move α) : Move α :=
  ⟨(average.gain * (count - one) + move.gain) / count,
    (average.loss * (count - one) + move.loss) / count⟩

/-- Without losses the strength is full, and even when nothing moved at all. -/
def strength (average : Move α) : α :=
  if eq average.loss zero then
    if eq average.gain zero then ofNat 50 else hundred
  else
    hundred - hundred / (one + average.gain / average.loss)

end Move

def moves : List α → List (Move α)
  | before :: now :: prices => Move.ofChange (now - before) :: moves (now :: prices)
  | _ => []

def smoothed (count : α) (average : Move α) : List (Move α) → List (Move α)
  | [] => [average]
  | move :: rest => average :: smoothed count (average.smooth count move) rest

def rsiLine (period : Nat) (prices : List α) : Line α :=
  if period = 0 ∨ prices.length ≤ period then
    Line.undefined prices.length
  else
    let count : α := ofNat period
    let total := ((moves prices).take period).foldl Move.add ⟨zero, zero⟩
    List.replicate period none ++
      (smoothed count (total.divide count) ((moves prices).drop period)).map
        (fun average => some average.strength)

end Backtest.Indicator
