import Backtest.Date.Reader
import Backtest.Run
import Backtest.Text.Lowercase
import Backtest.Text.Pieces
import Backtest.Text.Word
import Backtest.Window

/-!
Settings: what a file of settings says about a run, and the flags of a command that take
precedence.
-/

namespace Backtest

open Text

structure Settings where
  value? : String → String → Option String

def runPart : String := "backtest"

def invalid {β : Type} (key reason : String) : Except Error β :=
  .error (.settingInvalid runPart key reason)

def Date.ofSetting (key value : String) : Except Error Date :=
  match Date.read? value with
  | some date => .ok date
  | none => invalid key s!"invalid {key} format, expected YYYY-MM-DD"

namespace Reentry

def values : List Reentry := [sameBar, nextBar]

def word : Reentry → String
  | sameBar => "same_bar"
  | nextBar => "next_bar"

def ofSetting (value : String) : Except Error Reentry :=
  let given := lowercase (trim value)
  match ofWord? word values given with
  | some policy => .ok policy
  | none => invalid "reentry" s!"unknown reentry policy '{given}', expected same_bar or next_bar"

end Reentry

namespace EndOfSeries

def values : List EndOfSeries := [markToMarket, liquidate]

def word : EndOfSeries → String
  | markToMarket => "mark_to_market"
  | liquidate => "liquidate"

def ofSetting (value : String) : Except Error EndOfSeries :=
  let given := lowercase (trim value)
  match ofWord? word values given with
  | some policy => .ok policy
  | none => invalid "end_of_series"
      s!"unknown end_of_series policy '{given}', expected mark_to_market or liquidate"

end EndOfSeries

def equityBaseOf (value : String) : Except Error Float :=
  match Decimal.read? value with
  | none => invalid "equity_base" "equity_base must be a number"
  | some base =>
    if Scalar.isFinite base && Scalar.isPositive base then .ok base
    else invalid "equity_base" "equity_base must be positive"

namespace Settings

/-- The trimmed value of a key in the part of a run; a blank one counts as missing. -/
def given? (settings : Settings) (key : String) : Option String :=
  ((settings.value? runPart key).map trim).filter (· ≠ "")

def get {β : Type} (settings : Settings) (key : String) (standard : β)
    (read : String → Except Error β) : Except Error β :=
  match settings.given? key with
  | none => .ok standard
  | some value => read value

def list (settings : Settings) (part key : String) : List String :=
  ((settings.value? part key).map listed).getD []

def options (settings : Settings) : Except Error (Options Float) := do
  let standard : Options Float := Options.standard
  let equityBase ← settings.get "equity_base" standard.equityBase equityBaseOf
  let reentry ← settings.get "reentry" standard.reentry Reentry.ofSetting
  let endOfSeries ← settings.get "end_of_series" standard.endOfSeries EndOfSeries.ofSetting
  return ⟨equityBase, reentry, endOfSeries⟩

def date (settings : Settings) (key : String) : Except Error (Option Date) :=
  settings.get key none fun value => some <$> Date.ofSetting key value

def window (settings : Settings) : Except Error Window := do
  let first ← settings.date "start_date"
  let last ← settings.date "end_date"
  Window.make first last

end Settings

/-- Flags that take precedence over the settings of a run. -/
structure Flags where
  codes : Option String := none
  start : Option String := none
  stop : Option String := none
  reentry : Option String := none
  endOfSeries : Option String := none
  deriving DecidableEq, Repr

namespace Flags

def preferred {β : Type} (flag : Option String) (configured : β) (read : String → Except Error β) :
    Except Error β :=
  match flag with
  | none => .ok configured
  | some value => read value

/-- The settings are checked as a whole before any flag is looked at, here and for the window. -/
def options (flags : Flags) (settings : Settings) : Except Error (Options Float) := do
  let configured ← settings.options
  let reentry ← preferred flags.reentry configured.reentry Reentry.ofSetting
  let endOfSeries ← preferred flags.endOfSeries configured.endOfSeries EndOfSeries.ofSetting
  return { configured with reentry, endOfSeries }

def window (flags : Flags) (settings : Settings) : Except Error Window := do
  let configured ← settings.window
  let first ← preferred flags.start configured.first (some <$> Date.ofSetting "start_date" ·)
  let last ← preferred flags.stop configured.last (some <$> Date.ofSetting "end_date" ·)
  Window.make first last

def instruments (flags : Flags) (settings : Settings) : List String :=
  match flags.codes with
  | some value => listed value
  | none => settings.list runPart "codes"

end Flags

def dataFolder (flag : Option String) (settings : Settings) : Except Error String :=
  match flag with
  | some folder => .ok folder
  | none =>
    match ((settings.value? "data" "dir").map trim).filter (· ≠ "") with
    | some folder => .ok folder
    | none => .error (.settingMissing "data" "dir")

end Backtest
