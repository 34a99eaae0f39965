import Backtest.Json.Shape
import Backtest.Strategy
import Backtest.Text.Word

/-!
Reading the written form of strategies, exactly: no defaults but one, no other spellings, and no
limits on what the parameters are.
-/

namespace Backtest

open Json Text

/-- A choice inside a rule: its word, or an object whose only member has that name and nothing in
it. -/
def choice? : Json → Option String
  | .string word => some word
  | .object [(word, .null)] => some word
  | .object [(word, .object [])] => some word
  | _ => none

def Polarity.ofJson? (value : Json) : Option Polarity := do
  ofWord? word values (← choice? value)

def MovingAverage.ofJson? (value : Json) : Option MovingAverage := do
  ofWord? word values (← choice? value)

/-- The choice of a strategy as a whole; a member by its name may hold nothing but null. -/
def Combine.ofJson? : Json → Option Combine
  | .string s => ofWord? word values s
  | .object [(s, .null)] => ofWord? word values s
  | _ => none

def record? (names : List String) (value : Json) : Option (List Json) := do
  (← value.fields? names).mapM id

def Rule.ofFields? (kind : String) (value : Json) : Option (Rule Float) := do
  match kind with
  | "ma_cross" =>
    let [fast, slow, average, enter, exit] ←
      record? ["fast", "slow", "average", "enter", "exit"] value | none
    return ⟨.maCross (← fast.natural?) (← slow.natural?) (← MovingAverage.ofJson? average),
      ← Polarity.ofJson? enter, ← Polarity.ofJson? exit⟩
  | "rsi_threshold" =>
    let [period, low, high, enter, exit] ←
      record? ["period", "low", "high", "enter", "exit"] value | none
    return ⟨.rsiThreshold (← period.natural?) (← low.float?) (← high.float?),
      ← Polarity.ofJson? enter, ← Polarity.ofJson? exit⟩
  | "macd_cross" =>
    let [fast, slow, signal, enter, exit] ←
      record? ["fast", "slow", "signal", "enter", "exit"] value | none
    return ⟨.macdCross (← fast.natural?) (← slow.natural?) (← signal.natural?),
      ← Polarity.ofJson? enter, ← Polarity.ofJson? exit⟩
  | _ => none

/-- A rule carries its tag among its members, or in front of its items. -/
def Rule.ofJson? : Json → Option (Rule Float)
  | .object members => do
    ofFields? (← (← lookup? "type" members).string?) (.object members)
  | .array (tag :: items) => do ofFields? (← tag.string?) (.array items)
  | _ => none

def Strategy.ofJson? (value : Json) : Option (Strategy Float) := do
  let [some (.string name), some (.array rules), combine] ←
    value.fields? ["name", "rules", "combine"] | none
  return ⟨name, ← rules.mapM Rule.ofJson?,
    ← (combine.map Combine.ofJson?).getD (some .all)⟩

end Backtest
