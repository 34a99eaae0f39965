import Backtest.Decimal.Text
import Backtest.Decimal.Reader
import Backtest.Error
import Backtest.Json.Printer
import Backtest.Rule
import Backtest.Text.Lowercase
import Backtest.Text.Pieces

/-!
Parameters of a rule as people write them: beside the rule's tag or in an object of their own, as
numbers or as text, and all of them optional.
-/

namespace Backtest

open Text

/-- A finite number, with the exact value beside the floating point one. -/
structure Quantity where
  value : Float
  exact : Decimal.Binary

namespace Quantity

def ofFloat? (x : Float) : Option Quantity :=
  match Decimal.reading x with
  | .finite exact => some ⟨x, exact⟩
  | _ => none

def ofNumber? : Json.Number → Option Quantity
  | .natural n => some ⟨(Json.Number.natural n).toFloat, ⟨false, n, 0⟩⟩
  | .negative n => some ⟨(Json.Number.negative n).toFloat, ⟨true, n, 0⟩⟩
  | .real x => ofFloat? x

/-- A number, or text that reads as one. -/
def ofJson? : Json → Option Quantity
  | .number n => ofNumber? n
  | .string s => (Decimal.read? (trim s)).bind ofFloat?
  | _ => none

end Quantity

inductive ParameterFault where
  | notANumber (got : Json)
  | notPositive (got : Float)
  | notWhole (got : Float)
  | tooLong (got : Float)
  | outsideScale (got : Float)
  | notAPolarity (got : Json)
  | notAnAverage (got : Json)
  | notBelow (low high : Float)

def maxPeriod : Nat := 100000

def ParameterFault.reason : ParameterFault → String
  | notANumber got => "expected a number, got " ++ got.compact
  | notPositive got => "period must be positive, got " ++ Decimal.plain got
  | notWhole got => "period must be an integer, got " ++ Decimal.plain got
  | tooLong got => "period " ++ Decimal.plain got ++ " exceeds " ++ toString maxPeriod
  | outsideScale got => "threshold must be within 0..=100, got " ++ Decimal.plain got
  | notAPolarity got => "expected 'above' or 'below', got " ++ got.compact
  | notAnAverage got => "expected 'sma' or 'ema', got " ++ got.compact
  | notBelow low high =>
    "low (" ++ Decimal.plain low ++ ") must be below high (" ++ Decimal.plain high ++ ")"

/-- A word in any case, with a dash for an underscore, and with blanks around it. -/
def keyword (s : String) : String := underscored (lowercase (trim s))

def numberOf (value : Json) : Except ParameterFault Quantity :=
  match Quantity.ofJson? value with
  | some quantity => .ok quantity
  | none => .error (.notANumber value)

def periodOf (value : Json) : Except ParameterFault Nat := do
  let ⟨x, exact⟩ ← numberOf value
  if !exact.isPositive then .error (.notPositive x)
  else if !exact.isWhole then .error (.notWhole x)
  else if maxPeriod < exact.floor then .error (.tooLong x)
  else .ok exact.floor

def thresholdOf (value : Json) : Except ParameterFault Float := do
  let ⟨x, _⟩ ← numberOf value
  if Scalar.le Scalar.zero x && Scalar.le x Scalar.hundred then .ok x
  else .error (.outsideScale x)

def Polarity.ofKeyword? (s : String) : Option Polarity :=
  if s ∈ ["above", "price_above", "cross_above", "up"] then some .above
  else if s ∈ ["below", "price_below", "cross_below", "down"] then some .below
  else none

def polarityOf (value : Json) : Except ParameterFault Polarity :=
  match value with
  | .string s =>
    match Polarity.ofKeyword? (keyword s) with
    | some polarity => .ok polarity
    | none => .error (.notAPolarity value)
  | _ => .error (.notAPolarity value)

def MovingAverage.ofKeyword? (s : String) : Option MovingAverage :=
  if s ∈ ["sma", "simple"] then some .sma
  else if s ∈ ["ema", "exponential"] then some .ema
  else none

def averageOf (value : Json) : Except ParameterFault MovingAverage :=
  match value with
  | .string s =>
    match MovingAverage.ofKeyword? (lowercase (trim s)) with
    | some average => .ok average
    | none => .error (.notAnAverage value)
  | _ => .error (.notAnAverage value)

/-- Where the parameters of a rule are looked up: in an object of their own first, and then among
the members of the rule. -/
structure Parameters where
  rule : Nat
  own : List (String × Json)
  inline : List (String × Json)

namespace Parameters

def find? (p : Parameters) (name : String) : Option Json :=
  (Json.present? name p.own).or (Json.present? name p.inline)

def refuse (p : Parameters) (name : String) (fault : ParameterFault) : Refusal :=
  .badParameter p.rule name fault.reason

def get {β : Type} (p : Parameters) (name : String) (standard : β)
    (read : Json → Except ParameterFault β) : Except Refusal β :=
  match p.find? name with
  | none => .ok standard
  | some value => (read value).mapError (p.refuse name)

end Parameters

end Backtest
