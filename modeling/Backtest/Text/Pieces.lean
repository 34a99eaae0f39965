import Backtest.Text.Blank

/-!
Cutting text into pieces.
-/

namespace Backtest.Text

def split (separator : Char) : List Char → List (List Char)
  | [] => [[]]
  | c :: cs =>
    if c = separator then [] :: split separator cs
    else
      match split separator cs with
      | [] => [[c]]
      | piece :: pieces => (c :: piece) :: pieces

/-- The trimmed entries of a comma-separated list; empty entries do not count. -/
def listed (s : String) : List String :=
  (((split ',' s.toList).map trimChars).filter (· ≠ [])).map String.ofList

def underscored (s : String) : String :=
  String.ofList (s.toList.map fun c => if c = '-' then '_' else c)

end Backtest.Text
