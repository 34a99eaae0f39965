import Backtest.Date
import Backtest.Error

/-!
Windows of dates. Both bounds belong to the window, and either may be missing.
-/

namespace Backtest

structure Window where
  first : Option Date
  last : Option Date
  deriving DecidableEq, Repr

namespace Window

def make (first last : Option Date) : Except Error Window :=
  match first, last with
  | some a, some b =>
    if a.before b then .ok ⟨first, last⟩
    else .error
      (.settingInvalid "backtest" "start_date" "start_date must be before end_date")
  | _, _ => .ok ⟨first, last⟩

def holds (window : Window) (date : Date) : Bool :=
  window.first.all (!date.before ·) && window.last.all (!·.before date)

end Window

end Backtest
