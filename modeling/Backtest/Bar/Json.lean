import Backtest.Bar
import Backtest.Date.Reader
import Backtest.Json.Document
import Backtest.Json.Shape

/-!
Bars in JSON: the written form, and reading it back. What a bar has beyond its eight fields is
skipped, even where it would have no value.
-/

namespace Backtest.Bar

open Json

def fieldNames : List String :=
  ["date", "open", "high", "low", "close", "volume", "vwap", "transactions"]

def optionalMember {β : Type} (name : String) (form : β → Json) (value : Option β) :
    List (String × Json) :=
  (value.map fun value => (name, form value)).toList

def toJson (bar : Bar Float) : Json :=
  .object ([("date", .string bar.date.text), ("open", .real bar.openPrice),
      ("high", .real bar.high), ("low", .real bar.low), ("close", .real bar.close),
      ("volume", .natural bar.volume)] ++
    optionalMember "vwap" real bar.vwap ++ optionalMember "transactions" natural bar.transactions)

def maybe? {β : Type} (read : Json → Option β) : Option Json → Option (Option β)
  | none => some none
  | some .null => some none
  | some value => (read value).map some

def date? (value : Json) : Option Date := do Date.readLoose? (← value.string?)

def ofFields? : List (Option Json) → Option (Bar Float)
  | [some date, some openPrice, some high, some low, some close, some volume, vwap,
      transactions] => do
    return ⟨← date? date, ← openPrice.float?, ← high.float?, ← low.float?, ← close.float?,
      ← volume.natural?, ← maybe? float? vwap, ← maybe? natural? transactions⟩
  | _ => none

def ofJson? (value : Json) : Option (Bar Float) := do ofFields? (← value.fields? fieldNames)

/-- The members of an object that are fields of a bar. Every name has to have a value. -/
def known? : List (Option String × Document) → Option (List (String × Json))
  | [] => some []
  | (name, document) :: members => do
    let name ← name
    if name ∈ fieldNames then
      let value ← document.value?
      return (name, value) :: (← known? members)
    else known? members

/-- A bar from a document. No field may be given twice. -/
def ofDocument? : Document → Option (Bar Float)
  | .object members => do
    let members ← known? members
    if (members.map (·.1)).Nodup then ofJson? (.object members) else none
  | document => do ofJson? (← document.value?)

def read? (text : String) : Option (Bar Float) := do ofDocument? (← Document.read? text)

end Backtest.Bar
