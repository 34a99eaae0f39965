/-!
JSON values. An object keeps its members in the order in which they are written.
-/

namespace Backtest

/-- Integers that fit into 64 bits are kept as such; all other numbers are floating point. -/
inductive Json.Number where
  | natural (n : Nat)
  | negative (n : Nat)
  | real (x : Float)
  deriving DecidableEq, Repr

inductive Json where
  | null
  | bool (b : Bool)
  | number (n : Json.Number)
  | string (s : String)
  | array (items : List Json)
  | object (members : List (String × Json))

namespace Json

def Number.toFloat : Number → Float
  | natural n => n.toFloat
  | negative n => -n.toFloat
  | real x => x

def real (x : Float) : Json := .number (.real x)

def natural (n : Nat) : Json := .number (.natural n)

def optional (value : Option String) : Json := (value.map Json.string).getD .null

def isNull : Json → Bool
  | null => true
  | _ => false

def lookup? (name : String) (members : List (String × Json)) : Option Json :=
  (members.find? (·.1 = name)).map (·.2)

/-- The first member of a name, unless it is null: a null counts as missing. -/
def present? (name : String) (members : List (String × Json)) : Option Json :=
  (lookup? name members).filter (!·.isNull)

def insert (name : String) (value : Json) : List (String × Json) → List (String × Json)
  | [] => [(name, value)]
  | (name', value') :: rest =>
    if name < name' then (name, value) :: (name', value') :: rest
    else if name = name' then (name, value) :: rest
    else (name', value') :: insert name value rest

/-- An object with sorted names. Of several members of one name the last one counts. -/
def ofMembers (members : List (String × Json)) : Json :=
  .object (members.foldl (fun sorted (name, value) => insert name value sorted) [])

end Json

end Backtest
