import Backtest.Bar.Table
import Backtest.Files

/-!
Folders of bars: one table for each instrument, in a file named for its code.
-/

namespace Backtest.Bar

def fileSuffix : String := ".csv"

def tablePath (folder code : String) : String := Path.join folder (code ++ fileSuffix)

/-- The bars of a code, given what came of reading its table. A missing file is no fault of the
data. -/
def ofReading (path code : String) (window : Window) :
    Except FileError String → Except Error (List (Bar Float))
  | .ok text => ofTable path window text
  | .error .notFound => .error (.noData code)
  | .error e => .error (.data s!"failed to read {path}: {e.message}")

def codesOf (folder : String) : Except FileError (List String) → Except Error (List String)
  | .ok names =>
    .ok ((names.filterMap fun name => (name.dropSuffix? fileSuffix).map (·.copy)).mergeSort
      (· ≤ ·))
  | .error e => .error (.data s!"failed to read directory {folder}: {e.message}")

end Backtest.Bar
