import Backtest.Date
import Backtest.Decimal.Reader
import Backtest.Text.Blank

/-!
Reading dates: a year, a month and a day, with dashes between them. Blanks in front of each of the
three are skipped everywhere; data files may have them in front of the dashes and at the end too.
-/

namespace Backtest.Date

open Decimal Text

abbrev Taking (β : Type) := List Char → Option (β × List Char)

def takeNumber (width : Nat) : Taking Nat := fun cs =>
  let digits := (spanDigits (cs.take width)).1
  if digits.isEmpty then none else some (ofDigits digits, cs.drop digits.length)

/-- A year has at most four digits, or a sign and any number of them. -/
def takeYear : Taking Int := fun cs =>
  match trimStart cs with
  | '-' :: cs => (takeNumber cs.length cs).map fun (n, rest) => (-n, rest)
  | '+' :: cs => (takeNumber cs.length cs).map fun (n, rest) => (n, rest)
  | cs => (takeNumber 4 cs).map fun (n, rest) => (n, rest)

def takePair : Taking Nat := fun cs => takeNumber 2 (trimStart cs)

def takeDash (loose : Bool) : Taking Unit := fun cs =>
  match if loose then trimStart cs else cs with
  | '-' :: rest => some ((), rest)
  | _ => none

/-- The date that a text consists of. With `loose`, blanks may stand before a dash and at the
end. -/
def ofChars? (loose : Bool) (cs : List Char) : Option Date := do
  let (year, cs) ← takeYear cs
  let ((), cs) ← takeDash loose cs
  let (month, cs) ← takePair cs
  let ((), cs) ← takeDash loose cs
  let (day, cs) ← takePair cs
  if (if loose then trimStart cs else cs).isEmpty then ofCivil? ⟨year, month, day⟩ else none

def read? (s : String) : Option Date := ofChars? false (trimChars s.toList)

def readLoose? (s : String) : Option Date := ofChars? true s.toList

end Backtest.Date
