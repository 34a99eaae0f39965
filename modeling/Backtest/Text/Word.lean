/-!
Words for the values of a small type.
-/

namespace Backtest.Text

def ofWord? {β : Type} (word : β → String) (values : List β) (s : String) : Option β :=
  values.find? (word · = s)

end Backtest.Text
