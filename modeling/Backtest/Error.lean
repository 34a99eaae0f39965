/-!
Errors: their causes, what is said about them, and the exit code that each one ends a command
with.
-/

namespace Backtest

/-- Why the definition of a strategy is refused. Rules are counted from zero. -/
inductive Refusal where
  | noRules
  | unsupportedKind (rule : Nat) (kind : String)
  | badParameter (rule : Nat) (name reason : String)
  | malformed (reason : String)
  deriving DecidableEq, Repr

def Refusal.message : Refusal → String
  | noRules => "strategy must contain at least one rule"
  | unsupportedKind rule kind => s!"unsupported rule kind '{kind}' (rule {rule})"
  | badParameter rule name reason => s!"invalid parameter '{name}' in rule {rule}: {reason}"
  | malformed reason => s!"malformed strategy: {reason}"

inductive Error where
  | system (reason : String)
  | settingsSyntax (file reason : String)
  | settingMissing (part key : String)
  | settingInvalid (part key reason : String)
  | data (reason : String)
  | noData (code : String)
  /-- A strategy is not written in JSON. Where it goes wrong is not told. -/
  | notJson
  | refused (cause : Refusal)
  deriving DecidableEq, Repr

namespace Error

def message : Error → String
  | system reason => reason
  | settingsSyntax file reason => s!"config parse error in {file}: {reason}"
  | settingMissing part key => s!"missing config key [{part}] {key}"
  | settingInvalid part key reason => s!"invalid config value [{part}] {key}: {reason}"
  | data reason => s!"data error: {reason}"
  | noData code => s!"no data for {code}"
  | notJson => "<json>"
  | refused cause => cause.message

def exitCode : Error → Nat
  | system _ => 1
  | settingsSyntax .. | settingMissing .. | settingInvalid .. => 2
  | data _ => 3
  | notJson | refused _ => 4
  | noData _ => 5

end Error

end Backtest
