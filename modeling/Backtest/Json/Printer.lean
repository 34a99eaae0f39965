import Backtest.Decimal.Text
import Backtest.Json

/-!
Writing JSON, on one line without blanks or over several lines. A number without a decimal form,
such as an infinity, is written as null.
-/

namespace Backtest.Json

/-- A character inside a string. Only quotes, backslashes and control characters are escaped. -/
def escape (c : Char) : String :=
  if c = '"' then "\\\""
  else if c = '\\' then "\\\\"
  else if c = '\x08' then "\\b"
  else if c = '\x0c' then "\\f"
  else if c = '\n' then "\\n"
  else if c = '\r' then "\\r"
  else if c = '\t' then "\\t"
  else if c.toNat < 0x20 then
    String.ofList ['\\', 'u', '0', '0', Nat.digitChar (c.toNat / 16), Nat.digitChar (c.toNat % 16)]
  else c.toString

def quoted (s : String) : String := "\"" ++ String.join (s.toList.map escape) ++ "\""

def Number.text : Number → String
  | natural n => toString n
  | negative n => "-" ++ toString n
  | real x => (Decimal.document? x).getD "null"

def leaf : Json → String
  | bool b => if b then "true" else "false"
  | number n => n.text
  | string s => quoted s
  | _ => "null"

def compact : Json → String
  | array items => "[" ++ ",".intercalate (compactItems items) ++ "]"
  | object members => "\x7b" ++ ",".intercalate (compactMembers members) ++ "\x7d"
  | value => value.leaf
where
  compactItems : List Json → List String
    | [] => []
    | item :: items => compact item :: compactItems items
  compactMembers : List (String × Json) → List String
    | [] => []
    | (name, value) :: members => (quoted name ++ ":" ++ compact value) :: compactMembers members

def indent : String := "  "

def block (margin opening closing : String) (entries : List String) : String :=
  if entries.isEmpty then opening ++ closing
  else
    let lines := entries.map fun entry => margin ++ indent ++ entry
    opening ++ "\n" ++ ",\n".intercalate lines ++ "\n" ++ margin ++ closing

/-- The value over several lines, of which all but the first start with the margin. -/
def prettyAt (margin : String) : Json → String
  | array items => block margin "[" "]" (prettyItems (margin ++ indent) items)
  | object members => block margin "\x7b" "\x7d" (prettyMembers (margin ++ indent) members)
  | value => value.leaf
where
  prettyItems (margin : String) : List Json → List String
    | [] => []
    | item :: items => prettyAt margin item :: prettyItems margin items
  prettyMembers (margin : String) : List (String × Json) → List String
    | [] => []
    | (name, value) :: members =>
      (quoted name ++ ": " ++ prettyAt margin value) :: prettyMembers margin members

def pretty (value : Json) : String := value.prettyAt ""

end Backtest.Json
