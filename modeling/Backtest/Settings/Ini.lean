import Backtest.Settings

/-!
Files of settings: parts headed by a name in brackets, and lines of keys and values. Names and
keys are told apart without regard to case.
-/

namespace Backtest

open Text

/-- The entries of a file, the last first. A key may be there without a value. -/
structure Ini where
  entries : List ((String × String) × Option String)
  deriving DecidableEq, Repr

namespace Ini

def firstPart : String := "default"

inductive Line where
  | nothing
  | heading (name : String)
  | entry (key : String) (value : Option String)
  deriving DecidableEq, Repr

inductive Fault where
  | openHeading
  | emptyKey
  deriving DecidableEq, Repr

/-- Where a fault is and what it is; lines count from one. An empty key ends where it starts. -/
def Fault.reason (line : Nat) : Fault → String
  | openHeading =>
    s!"line {line}: Found opening bracket for section name but no closing bracket"
  | emptyKey => s!"line {line}:0: Key cannot be empty"

def startsComment (c : Char) : Bool := c = ';' || c = '#'

def endsKey (c : Char) : Bool := c = '=' || c = ':'

/-- A heading reaches to its last closing bracket. -/
def headingOf (inside : List Char) : Except Fault Line :=
  match inside.reverse.dropWhile (· ≠ ']') with
  | [] => .error .openHeading
  | _ :: name => .ok (.heading (lowercase (String.ofList (trimChars name.reverse))))

def entryOf (cs : List Char) : Except Fault Line :=
  let key := trimChars (cs.takeWhile (!endsKey ·))
  match cs.dropWhile (!endsKey ·) with
  | [] => .ok (.entry (lowercase (String.ofList key)) none)
  | _ :: value =>
    if key.isEmpty then .error .emptyKey
    else .ok (.entry (lowercase (String.ofList key)) (some (String.ofList (trimChars value))))

def lineOf (cs : List Char) : Except Fault Line :=
  match trimChars ((trimChars cs).takeWhile (!startsComment ·)) with
  | [] => .ok .nothing
  | '[' :: inside => headingOf inside
  | cs => entryOf cs

def readFrom (number : Nat) (part : String) (ini : Ini) : List (List Char) → Except String Ini
  | [] => .ok ini
  | line :: lines =>
    match lineOf line with
    | .error fault => .error (fault.reason number)
    | .ok .nothing => readFrom (number + 1) part ini lines
    | .ok (.heading name) => readFrom (number + 1) name ini lines
    | .ok (.entry key value) =>
      readFrom (number + 1) part ⟨((part, key), value) :: ini.entries⟩ lines

def read (text : String) : Except String Ini :=
  readFrom 1 firstPart ⟨[]⟩ (split '\n' text.toList)

/-- The last entry of a key counts, also one without a value. -/
def value? (ini : Ini) (part key : String) : Option String :=
  ((ini.entries.find? (·.1 = (lowercase part, lowercase key))).map (·.2)).join

def settings (ini : Ini) : Settings := ⟨ini.value?⟩

end Ini

end Backtest
