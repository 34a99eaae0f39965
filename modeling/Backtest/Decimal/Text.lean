import Backtest.Decimal.Shortest

/-!
Layouts of floating point values: plain text, text inside documents, and a fixed number of places.
-/

namespace Backtest.Decimal

def Digits.positional (d : Digits) (whole : String) : String :=
  let zeros (n : Int) := List.replicate n.toNat '0'
  if d.point ≤ 0 then
    "0." ++ String.ofList (zeros (-d.point) ++ d.digits)
  else
    let rest := d.digits.drop d.point.toNat
    let head := d.digits.take d.point.toNat ++ zeros (d.point - d.digits.length)
    String.ofList head ++ (if rest.isEmpty then whole else "." ++ String.ofList rest)

def Digits.scientific (d : Digits) : String :=
  let exponent := d.point - 1
  let head := String.ofList (d.digits.take 1)
  let rest := d.digits.drop 1
  let tail := if rest.isEmpty then "" else "." ++ String.ofList rest
  let sign := if exponent < 0 then "-" else "+"
  head ++ tail ++ "e" ++ sign ++ toString exponent.natAbs

structure Layout where
  tie : Tie
  isPositional : Int → Bool
  whole : String

def signText (negative : Bool) : String := if negative then "-" else ""

def Layout.text (layout : Layout) (x : Binary) : String :=
  let d := x.shortest layout.tie
  signText x.negative ++
    if layout.isPositional d.point then d.positional layout.whole else d.scientific

/-- In messages digits are always written out, and whole numbers stand without a point. -/
def plainLayout : Layout where
  tie := .up
  isPositional _ := true
  whole := ""

/-- In documents values from 1e-5 up to 1e16 are written out, with one place at least. -/
def documentLayout : Layout where
  tie := .toEven
  isPositional point := -5 < point && point ≤ 16
  whole := ".0"

def plain (x : Float) : String :=
  match reading x with
  | .notANumber => "NaN"
  | .infinite negative => signText negative ++ "inf"
  | .finite value => plainLayout.text value

def document? (x : Float) : Option String :=
  match reading x with
  | .finite value => some (documentLayout.text value)
  | _ => none

/-- A half goes to the even neighbour. -/
def roundDiv (numerator denominator : Nat) : Nat :=
  let quotient := numerator / denominator
  match compare (2 * (numerator % denominator)) denominator with
  | .lt => quotient
  | .gt => quotient + 1
  | .eq => if quotient % 2 = 0 then quotient else quotient + 1

def Binary.fixed (x : Binary) (places : Nat) : String :=
  let digits := Nat.toDigits 10 (roundDiv (x.numerator * Nat.pow 10 places) x.denominator)
  let padded := List.replicate (places + 1 - digits.length) '0' ++ digits
  let split := padded.length - places
  String.ofList (padded.take split) ++ "." ++ String.ofList (padded.drop split)

/-- There is one place at least. The sign is that of the value, also where all digits are zero; a plus
is written on demand. -/
def fixed (x : Float) (places : Nat) (plus : Bool := false) : String :=
  let sign (negative : Bool) := if negative then "-" else if plus then "+" else ""
  match reading x with
  | .notANumber => "NaN"
  | .infinite negative => sign negative ++ "inf"
  | .finite value => sign value.negative ++ value.fixed places

end Backtest.Decimal
