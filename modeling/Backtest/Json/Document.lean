import Backtest.Json.Token

/-!
JSON documents as they are written. Numbers and strings that have no value are kept, since a
reader that skips them does not mind; the value of a whole document needs all of them.
-/

namespace Backtest.Json

inductive Document where
  | null
  | bool (b : Bool)
  | numeral (n : Numeral)
  | string (value : Option String)
  | array (items : List Document)
  | object (members : List (Option String × Document))

namespace Document

/-- A container that is still open. What it holds so far is listed with the last first. -/
inductive Frame where
  | array (items : List Document)
  | object (members : List (Option String × Document))
  | member (members : List (Option String × Document)) (name : Option String)

inductive Progress where
  /-- A value comes next; in a container just opened, its end may come too. -/
  | value (frames : List Frame)
  | firstItem (frames : List Frame)
  | firstName (members : List Frame)
  | name (frames : List Frame)
  | colon (frames : List Frame)
  | after (frames : List Frame)
  | complete (document : Document)

def place (document : Document) : List Frame → Option Progress
  | [] => some (.complete document)
  | .array items :: frames => some (.after (.array (document :: items) :: frames))
  | .member members name :: frames =>
    some (.after (.object ((name, document) :: members) :: frames))
  | .object _ :: _ => none

def startValue (frames : List Frame) : Token → Option Progress
  | .openArray => some (.firstItem (.array [] :: frames))
  | .openObject => some (.firstName (.object [] :: frames))
  | .null => place .null frames
  | .bool b => place (.bool b) frames
  | .numeral n => place (.numeral n) frames
  | .string value => place (.string value) frames
  | _ => none

def startMember : List Frame → Token → Option Progress
  | .object members :: frames, .string name => some (.colon (.member members name :: frames))
  | _, _ => none

def finish : List Frame → Token → Option Progress
  | .array items :: frames, .closeArray => place (.array items.reverse) frames
  | .object members :: frames, .closeObject => place (.object members.reverse) frames
  | _, _ => none

def step : Progress → Token → Option Progress
  | .value frames, token => startValue frames token
  | .firstItem frames, .closeArray => finish frames .closeArray
  | .firstItem frames, token => startValue frames token
  | .firstName frames, .closeObject => finish frames .closeObject
  | .firstName frames, token => startMember frames token
  | .name frames, token => startMember frames token
  | .colon frames, .colon => some (.value frames)
  | .after (.array items :: frames), .comma => some (.value (.array items :: frames))
  | .after (.object members :: frames), .comma => some (.name (.object members :: frames))
  | .after frames, token => finish frames token
  | _, _ => none

def read? (s : String) : Option Document := do
  let tokens ← tokens? s.toList
  match ← tokens.foldlM step (.value []) with
  | .complete document => some document
  | _ => none

def maxDepth : Nat := 127

/-- The value of a document. No number is out of range, every string has a value, and containers
stand at most `depth` deep. -/
def valueWithin (depth : Nat) : Document → Option Json
  | null => some .null
  | bool b => some (.bool b)
  | numeral n => n.value?.map .number
  | string value => value.map .string
  | array items =>
    match depth with
    | 0 => none
    | depth + 1 => (valuesWithin depth items).map .array
  | object members =>
    match depth with
    | 0 => none
    | depth + 1 => (membersWithin depth members).map ofMembers
where
  valuesWithin (depth : Nat) : List Document → Option (List Json)
    | [] => some []
    | item :: items => do
      let value ← valueWithin depth item
      return value :: (← valuesWithin depth items)
  membersWithin (depth : Nat) :
      List (Option String × Document) → Option (List (String × Json))
    | [] => some []
    | (name, item) :: members => do
      let name ← name
      let value ← valueWithin depth item
      return (name, value) :: (← membersWithin depth members)

def value? (document : Document) : Option Json := document.valueWithin maxDepth

end Document

def read? (s : String) : Option Json := do (← Document.read? s).value?

end Backtest.Json
