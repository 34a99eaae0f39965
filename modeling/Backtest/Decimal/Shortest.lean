import Backtest.Decimal.Binary

/-!
The fewest decimal digits that identify a floating point value: of all decimals that round to it,
those with the fewest digits, and of these the nearest.
-/

namespace Backtest.Decimal

inductive Tie where
  | toEven
  | up
  deriving DecidableEq, Repr

/-- The number `0.d₁d₂… * 10 ^ point`. -/
structure Digits where
  digits : List Char
  point : Int
  deriving DecidableEq, Repr

namespace Digits

def zero : Digits := ⟨['0'], 1⟩

def ofScaled (n : Nat) (exponent : Int) : Digits :=
  let all := Nat.toDigits 10 n
  let kept := (all.reverse.dropWhile (· = '0')).reverse
  if kept.isEmpty then zero else ⟨kept, exponent + all.length⟩

end Digits

namespace Binary

def compareScaled (n : Nat) (exponent : Int) (numerator denominator : Nat) : Ordering :=
  compare (n * Nat.pow 10 exponent.toNat * denominator) (numerator * Nat.pow 10 (-exponent).toNat)

/-- Whether `n * 10 ^ exponent` rounds to the value. The numbers that do lie between the midpoints
to the neighbours, and the midpoints count when the mantissa is even. Below a power of two the
neighbour is only half as far away. -/
def readsBack (x : Binary) (n : Nat) (exponent : Int) : Bool :=
  let narrow := x.mantissa = Nat.pow 2 52 && x.exponent > -1074
  let quarter : Binary := ⟨false, 1, x.exponent - 2⟩
  let below := (4 * x.mantissa - (if narrow then 1 else 2)) * quarter.numerator
  let above := (4 * x.mantissa + 2) * quarter.numerator
  let closed := x.mantissa % 2 = 0
  let low := compareScaled n exponent below quarter.denominator
  let high := compareScaled n exponent above quarter.denominator
  (low = .gt || closed && low = .eq) && (high = .lt || closed && high = .eq)

def magnitude (x : Binary) : Int :=
  if x.denominator ≤ x.numerator then
    (Nat.toDigits 10 x.floor).length
  else
    let inverse := (x.denominator - 1) / x.numerator
    1 - (Nat.toDigits 10 inverse).length

/-- The nearest candidate on the grid of multiples of `10 ^ exponent`, if any reads back. Only the
two neighbours of the value on the grid can. -/
def onGrid? (x : Binary) (tie : Tie) (exponent : Int) : Option Nat :=
  let n := x.numerator * Nat.pow 10 (-exponent).toNat / (x.denominator * Nat.pow 10 exponent.toNat)
  match x.readsBack n exponent, x.readsBack (n + 1) exponent with
  | false, false => none
  | true, false => some n
  | false, true => some (n + 1)
  | true, true =>
    match compareScaled (2 * n + 1) exponent (2 * x.numerator) x.denominator with
    | .lt => some (n + 1)
    | .gt => some n
    | .eq =>
      match tie with
      | .toEven => some (if n % 2 = 0 then n else n + 1)
      | .up => some (n + 1)

/-- The digits of the magnitude. Seventeen digits always suffice; were they not to, the exact
decimal expansion would stand in. -/
def shortest (x : Binary) (tie : Tie) : Digits :=
  if x.mantissa = 0 then Digits.zero
  else
    let top := x.magnitude
    let found := (List.range 17).findSome? fun (count : Nat) =>
      let exponent := top - (count + 1)
      (x.onGrid? tie exponent).map (Digits.ofScaled · exponent)
    found.getD
      (Digits.ofScaled (x.numerator * Nat.pow 5 (-x.exponent).toNat) (-(-x.exponent).toNat))

end Binary

end Backtest.Decimal
