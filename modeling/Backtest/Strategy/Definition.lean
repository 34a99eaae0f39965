import Backtest.Json.Document
import Backtest.Json.Shape
import Backtest.Strategy
import Backtest.Strategy.Parameters

/-!
Definitions of strategies as people write them. What is missing takes its standard value, names
have several spellings, and everything else is refused before any price is looked at.
-/

namespace Backtest

open Json Text

inductive RuleKind where
  | maCross
  | rsiThreshold
  | macdCross
  deriving DecidableEq, Repr

def RuleKind.ofKeyword? (s : String) : Option RuleKind :=
  if s ∈ ["ma_cross", "sma_cross", "moving_average_cross"] then some .maCross
  else if s ∈ ["rsi_threshold", "rsi", "momentum_oscillator_threshold"] then some .rsiThreshold
  else if s ∈ ["macd_cross", "macd", "trend_signal_cross"] then some .macdCross
  else none

def maCrossOf (p : Parameters) : Except Refusal (Rule Float) := do
  let fast ← p.get "fast" 10 periodOf
  let slow ← p.get "slow" 30 periodOf
  let average ← p.get "average" .sma averageOf
  let enter ← p.get "enter" .above polarityOf
  let exit ← p.get "exit" .below polarityOf
  return ⟨.maCross fast slow average, enter, exit⟩

def rsiThresholdOf (p : Parameters) : Except Refusal (Rule Float) := do
  let low ← p.get "low" (30 : Float) thresholdOf
  let high ← p.get "high" (70 : Float) thresholdOf
  if !Scalar.lt low high then throw (p.refuse "low" (.notBelow low high))
  let period ← p.get "period" 14 periodOf
  let enter ← p.get "enter" .above polarityOf
  let exit ← p.get "exit" .above polarityOf
  return ⟨.rsiThreshold period low high, enter, exit⟩

def macdCrossOf (p : Parameters) : Except Refusal (Rule Float) := do
  let fast ← p.get "fast" 12 periodOf
  let slow ← p.get "slow" 26 periodOf
  let signal ← p.get "signal" 9 periodOf
  let enter ← p.get "enter" .above polarityOf
  let exit ← p.get "exit" .below polarityOf
  return ⟨.macdCross fast slow signal, enter, exit⟩

def RuleKind.ruleOf : RuleKind → Parameters → Except Refusal (Rule Float)
  | maCross => maCrossOf
  | rsiThreshold => rsiThresholdOf
  | macdCross => macdCrossOf

def kindOf (index : Nat) (members : List (String × Json)) : Except Refusal RuleKind :=
  match (present? "type" members).or (present? "kind" members) with
  | none => .error (.malformed s!"rule {index} has no 'type'")
  | some (.string tag) =>
    match RuleKind.ofKeyword? (keyword tag) with
    | some kind => .ok kind
    | none => .error (.unsupportedKind index tag)
  | some other => .error (.unsupportedKind index other.compact)

/-- The parameters that a rule keeps in an object of their own. -/
def ownParameters (index : Nat) (members : List (String × Json)) :
    Except Refusal (List (String × Json)) :=
  match present? "params" members with
  | none => .ok []
  | some (.object own) => .ok own
  | some _ => .error (.malformed s!"params of rule {index} must be an object")

def Rule.define (index : Nat) : Json → Except Refusal (Rule Float)
  | .object members => do
    let kind ← kindOf index members
    let own ← ownParameters index members
    kind.ruleOf ⟨index, own, members⟩
  | _ => .error (.malformed s!"rule {index} must be a JSON object")

def Rule.defineAll (index : Nat) : List Json → Except Refusal (List (Rule Float))
  | [] => .ok []
  | raw :: raws => do
    let rule ← Rule.define index raw
    return rule :: (← defineAll (index + 1) raws)

def unnamed : String := "Unnamed strategy"

def nameOf (members : List (String × Json)) : Except Refusal String :=
  match present? "name" members with
  | none => .ok unnamed
  | some (.string s) => .ok (if isBlankText s then unnamed else trim s)
  | some _ => .error (.malformed "name must be a string")

def Combine.ofKeyword? (s : String) : Option Combine :=
  if s ∈ ["all", "and"] then some .all
  else if s ∈ ["any", "or"] then some .any
  else none

def combineOf (members : List (String × Json)) : Except Refusal Combine :=
  match present? "combine" members with
  | none => .ok .all
  | some value =>
    match value.string?.bind (Combine.ofKeyword? <| lowercase <| trim ·) with
    | some combine => .ok combine
    | none => .error (.malformed ("combine must be 'all' or 'any', got " ++ value.compact))

def rulesOf (members : List (String × Json)) : Except Refusal (List (Rule Float)) :=
  match present? "rules" members with
  | none => .error .noRules
  | some (.array []) => .error .noRules
  | some (.array raws) => Rule.defineAll 0 raws
  | some _ => .error (.malformed "rules must be an array")

def Strategy.define : Json → Except Refusal (Strategy Float)
  | .object members => do
    let name ← nameOf members
    let combine ← combineOf members
    let rules ← rulesOf members
    return ⟨name, rules, combine⟩
  | _ => .error (.malformed "strategy must be a JSON object")

def Strategy.parse (text : String) : Except Error (Strategy Float) :=
  match Json.read? text with
  | none => .error .notJson
  | some value => (Strategy.define value).mapError .refused

end Backtest
