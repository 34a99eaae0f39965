import Backtest.Decimal.Reader
import Backtest.Json

/-!
Numbers as JSON writes them. An integer of 64 bits is exact. Any other number is computed in
floating point from its leading digits and a power of ten, so that the result may be off the
nearest value by a rounding.
-/

namespace Backtest.Json

open Decimal

structure Exponent where
  negative : Bool
  digits : List Char
  deriving DecidableEq, Repr

structure Numeral where
  negative : Bool
  whole : List Char
  fraction : Option (List Char)
  exponent : Option Exponent
  deriving DecidableEq, Repr

namespace Numeral

def takeSign : List Char → Bool × List Char
  | '-' :: cs => (true, cs)
  | cs => (false, cs)

/-- Whether digits may stand before the point: a leading zero stands alone. -/
def isWhole (digits : List Char) : Bool :=
  !digits.isEmpty && (digits.head? ≠ some '0' || digits.length = 1)

def takeFraction? : List Char → Option (Option (List Char) × List Char)
  | '.' :: cs =>
    let (digits, cs) := spanDigits cs
    if digits.isEmpty then none else some (some digits, cs)
  | cs => some (none, cs)

def takeExponent? : List Char → Option (Option Exponent × List Char)
  | [] => some (none, [])
  | c :: cs =>
    if c = 'e' || c = 'E' then
      let (negative, cs) := spanSign cs
      let (digits, cs) := spanDigits cs
      if digits.isEmpty then none else some (some ⟨negative, digits⟩, cs)
    else some (none, c :: cs)

def take? (cs : List Char) : Option (Numeral × List Char) := do
  let (negative, cs) := takeSign cs
  let (whole, cs) := spanDigits cs
  guard (isWhole whole)
  let (fraction, cs) ← takeFraction? cs
  let (exponent, cs) ← takeExponent? cs
  return (⟨negative, whole, fraction, exponent⟩, cs)

end Numeral

/-- Appends digits to a significand as long as it stays within 64 bits; the digits left over come
second. -/
def absorb (significand : Nat) : List Char → Nat × List Char
  | [] => (significand, [])
  | c :: cs =>
    let next := ofDigits (c :: []) + 10 * significand
    if next < Nat.pow 2 64 then absorb next cs else (significand, c :: cs)

def topPower : Nat := 308

def tenTo (power : Nat) : Float := nearest 1 power

/-- Divides by a power of ten, in steps of a finite one. -/
def divideDown (x : Float) (power : Nat) : Float :=
  if power ≤ topPower then x / tenTo power
  else if x == 0 then x
  else divideDown (x / tenTo topPower) (power - topPower)
termination_by power
decreasing_by simp_all [topPower]; omega

def scaled? (significand : Nat) (power : Int) : Option Float :=
  let x := significand.toFloat
  if power < 0 then some (divideDown x power.natAbs)
  else if power ≤ topPower then
    let product := x * tenTo power.toNat
    if product.isInf then none else some product
  else if significand = 0 then some x
  else none

/-- The greatest exponent that is computed with. Beyond it a number is zero, or out of range. -/
def topExponent : Nat := Nat.pow 2 31 - 1

def Numeral.magnitude? (numeral : Numeral) : Option Float :=
  let (significand, dropped) := absorb 0 numeral.whole
  let fraction := numeral.fraction.getD []
  let (significand, ignored) := absorb significand fraction
  let shift : Int := dropped.length - (fraction.length - ignored.length : Nat)
  match numeral.exponent with
  | none => scaled? significand shift
  | some exponent =>
    let size := ofDigits exponent.digits
    if size ≤ topExponent then
      scaled? significand (if exponent.negative then shift - size else shift + size)
    else if exponent.negative || significand = 0 then some 0
    else none

def Numeral.value? (numeral : Numeral) : Option Number :=
  let n := ofDigits numeral.whole
  let isInteger := numeral.fraction.isNone && numeral.exponent.isNone
  if isInteger && !numeral.negative && n < Nat.pow 2 64 then some (.natural n)
  else if isInteger && numeral.negative && 0 < n && n ≤ Nat.pow 2 63 then some (.negative n)
  else numeral.magnitude?.map fun x => .real (if numeral.negative then -x else x)

end Backtest.Json
