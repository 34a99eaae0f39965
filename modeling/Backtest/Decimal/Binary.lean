/-!
Binary floating point values as exact numbers: a sign and a mantissa times a power of two.
-/

namespace Backtest.Decimal

/-- The number `mantissa * 2 ^ exponent`, with a sign that zero has too. -/
structure Binary where
  negative : Bool
  mantissa : Nat
  exponent : Int
  deriving DecidableEq, Repr

inductive Reading where
  | notANumber
  | infinite (negative : Bool)
  | finite (value : Binary)
  deriving DecidableEq, Repr

def reading (x : Float) : Reading :=
  let bits := x.toBits.toNat
  let negative : Bool := bits / Nat.pow 2 63 = 1
  let exponent : Nat := bits / Nat.pow 2 52 % Nat.pow 2 11
  let fraction : Nat := bits % Nat.pow 2 52
  if exponent = 2047 then
    if fraction = 0 then .infinite negative else .notANumber
  else if exponent = 0 then
    .finite ⟨negative, fraction, -1074⟩
  else
    .finite ⟨negative, Nat.pow 2 52 + fraction, (exponent : Int) - 1075⟩

namespace Binary

def numerator (x : Binary) : Nat := x.mantissa * Nat.pow 2 x.exponent.toNat

def denominator (x : Binary) : Nat := Nat.pow 2 (-x.exponent).toNat

def isWhole (x : Binary) : Bool := x.numerator % x.denominator = 0

def floor (x : Binary) : Nat := x.numerator / x.denominator

def isPositive (x : Binary) : Bool := !x.negative && x.mantissa ≠ 0

end Binary

end Backtest.Decimal
