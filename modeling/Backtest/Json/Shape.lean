import Backtest.Json

/-!
Reading records out of JSON. A record is an object that has each of its fields by name, or else an
array that has them in order.
-/

namespace Backtest.Json

def natural? : Json → Option Nat
  | number (.natural n) => some n
  | _ => none

def float? : Json → Option Float
  | number n => some n.toFloat
  | _ => none

def string? : Json → Option String
  | string s => some s
  | _ => none

/-- The fields of a record, as far as they are there. Other members of an object do not count,
but an array must not be longer than the record. -/
def fields? (names : List String) : Json → Option (List (Option Json))
  | object members => some (names.map (lookup? · members))
  | array items =>
    if items.length ≤ names.length then
      some ((List.range names.length).map (fun i => items[i]?))
    else none
  | _ => none

end Backtest.Json
