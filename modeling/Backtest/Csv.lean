import Backtest.Text.Blank

/-!
Comma-separated records. A record ends with its line, whichever way that is ended, and empty lines
hold none. A field in quotes may hold commas, line breaks, and quotes written twice.
-/

namespace Backtest.Csv

structure Record where
  /-- The line on which the record begins, counted from one. -/
  line : Nat
  fields : List String
  deriving DecidableEq, Repr

inductive Place where
  | betweenRecords
  | fieldStart
  | inField
  | inQuotes
  /-- Behind a quote inside quotes, which ends them unless another one follows. -/
  | behindQuote
  deriving DecidableEq, Repr

/-- A reader between two characters. What it has collected is listed with the last first. -/
structure Scan where
  place : Place := .betweenRecords
  line : Nat := 1
  firstLine : Nat := 1
  field : List Char := []
  fields : List String := []
  records : List Record := []

namespace Scan

def keep (s : Scan) (c : Char) (place : Place) : Scan := { s with place, field := c :: s.field }

def endField (s : Scan) : Scan :=
  { s with
    place := .fieldStart
    field := []
    fields := String.ofList (Text.trimChars s.field.reverse) :: s.fields }

def endRecord (s : Scan) : Scan :=
  let s := s.endField
  { s with
    place := .betweenRecords
    fields := []
    records := ⟨s.firstLine, s.fields.reverse⟩ :: s.records }

def isLineEnd (c : Char) : Bool := c = '\n' || c = '\r'

def plain (s : Scan) (c : Char) : Scan :=
  if isLineEnd c then s.endRecord
  else if c = ',' then s.endField
  else s.keep c .inField

/-- Takes the first character of a field: only here does a quote open quotes. -/
def opening (s : Scan) (c : Char) : Scan :=
  if c = '"' then { s with place := .inQuotes } else s.plain c

def take (s : Scan) (c : Char) : Scan :=
  match s.place with
  | .betweenRecords => if isLineEnd c then s else opening { s with firstLine := s.line } c
  | .fieldStart => s.opening c
  | .inField => s.plain c
  | .inQuotes => if c = '"' then { s with place := .behindQuote } else s.keep c .inQuotes
  | .behindQuote => if c = '"' then s.keep c .inQuotes else s.plain c

def step (s : Scan) (c : Char) : Scan :=
  let s' := s.take c
  if c = '\n' then { s' with line := s.line + 1 } else s'

/-- The end of the text ends a record, even inside quotes. -/
def finish (s : Scan) : List Record :=
  match s.place with
  | .betweenRecords => s.records.reverse
  | _ => s.endRecord.records.reverse

end Scan

def byteOrderMark : Char := '\uFEFF'

def records (text : String) : List Record :=
  let cs := match text.toList with
    | c :: rest => if c = byteOrderMark then rest else c :: rest
    | [] => []
  (cs.foldl Scan.step {}).finish

end Backtest.Csv
