import Backtest.Bar.Json
import Backtest.Csv
import Backtest.Error
import Backtest.Window

/-!
Bars from tables: the first record names the columns, and each further one is a bar. Columns may
stand in any order, and unknown ones are skipped.
-/

namespace Backtest.Bar

open Decimal

/-- An unsigned integer of 64 bits, in decimal digits or, behind `0x`, in hexadecimal ones. A plus
sign may stand in front of the digits. -/
def unsigned? (s : String) : Option Nat := do
  let bounded (n : Nat) := if n < Nat.pow 2 64 then some n else none
  let bare : List Char → List Char
    | '+' :: digits => digits
    | digits => digits
  match s.toList with
  | '0' :: 'x' :: cs =>
    let digits := bare cs
    if digits.isEmpty then none else bounded (← Json.ofHex? digits)
  | cs =>
    let digits := bare cs
    if digits.isEmpty || !digits.all Char.isDigit then none else bounded (ofDigits digits)

def optionalText? {β : Type} (read : String → Option β) : Option String → Option (Option β)
  | none => some none
  | some s => if s = "" then some none else (read s).map some

def ofTexts? : List (Option String) → Option (Bar Float)
  | [some date, some openPrice, some high, some low, some close, some volume, vwap,
      transactions] => do
    return ⟨← Date.readLoose? date, ← Decimal.read? openPrice, ← Decimal.read? high,
      ← Decimal.read? low, ← Decimal.read? close, ← unsigned? volume,
      ← optionalText? Decimal.read? vwap, ← optionalText? unsigned? transactions⟩
  | _ => none

/-- The record has to be as long as the header, and no column of a bar may be there twice. -/
def ofRecord? (header record : List String) : Option (Bar Float) :=
  let columns := header.filter (· ∈ fieldNames)
  if record.length = header.length && columns.Nodup then
    ofTexts? (fieldNames.map ((header.zip record).lookup ·))
  else none

/-- What is wrong with a row. Why it cannot be read is not told. -/
inductive RowFault where
  | unreadable
  | badPrices
  deriving DecidableEq, Repr

def RowFault.reason : RowFault → String
  | unreadable => "<csv>"
  | badPrices => "prices must be positive and finite"

def checkRows (row : Nat) : List (Option (Bar Float)) → Except (Nat × RowFault) (List (Bar Float))
  | [] => .ok []
  | none :: _ => .error (row, .unreadable)
  | some bar :: rows => do
    if !bar.hasValidPrices then throw (row, .badPrices)
    return bar :: (← checkRows (row + 1) rows)

def lastOfEach : List (Bar Float) → List (Bar Float)
  | bar :: next :: bars =>
    if bar.date = next.date then lastOfEach (next :: bars) else bar :: lastOfEach (next :: bars)
  | bars => bars

/-- Sorting keeps the order of the rows within a date, of which the last one stays. -/
def select (window : Window) (rows : List (Option (Bar Float))) :
    Except (Nat × RowFault) (List (Bar Float)) := do
  let bars := (← checkRows 0 rows).filter (window.holds ·.date)
  return lastOfEach (bars.mergeSort (fun a b => !b.date.before a.date))

def rowsOf (text : String) : List (Option (Bar Float)) :=
  match Csv.records text with
  | [] => []
  | header :: records => records.map (ofRecord? header.fields ·.fields)

/-- The bars of a window among the rows of a table. A fault is told with its line, where the header
counts as the first line and each record as one more. -/
def ofRows (path : String) (window : Window) (rows : List (Option (Bar Float))) :
    Except Error (List (Bar Float)) :=
  (select window rows).mapError fun (row, fault) =>
    .data s!"{path}:{row + 2}: {fault.reason}"

def ofTable (path : String) (window : Window) (text : String) : Except Error (List (Bar Float)) :=
  ofRows path window (rowsOf text)

end Backtest.Bar
