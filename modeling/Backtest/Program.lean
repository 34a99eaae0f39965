import Backtest.Bar.Folder
import Backtest.Batch
import Backtest.Command
import Backtest.Host
import Backtest.Report
import Backtest.Rule.Description
import Backtest.Settings.Ini
import Backtest.Strategy.Definition
import Backtest.Summary

/-!
The commands as programs: what they read, what they tell on the way, and what they leave behind.
-/

namespace Backtest

namespace Program

variable {m : Type → Type} [Monad m] [Host m]

abbrev Failing (m : Type → Type) := ExceptT Error m

def tell (line : String) : Failing m Unit := ExceptT.lift (Host.tell line)

def tellAll (lines : List String) : Failing m Unit := lines.forM tell

def print (text : String) : Failing m Unit := ExceptT.lift (Host.print text)

def settle {β : Type} (outcome : Except Error β) : Failing m β := ExceptT.mk (pure outcome)

def access {β : Type} (cause : FileError → Error) (action : m (Except FileError β)) :
    Failing m β := do
  settle ((← ExceptT.lift action).mapError cause)

def readSettings : Option String → Failing m Settings
  | none => return ⟨fun _ _ => none⟩
  | some path => do
    tell s!"Loading config from {path}"
    let fault (reason : String) := Error.settingsSyntax path s!"couldn't read {path}: {reason}"
    let text ← access (fault ·.message) (Host.readText path)
    let ini ← settle ((Ini.read text).mapError fault)
    return ini.settings

def readStrategy (path : String) : Failing m (Strategy Float) := do
  settle (Strategy.parse (← access (.system ·.message) (Host.readText path)))

def fetch (folder : String) (window : Window) (code : String) :
    m (Except Error (List (Bar Float))) := do
  let path := Bar.tablePath folder code
  return Bar.ofReading path code window (← Host.readText path)

def runBatch (strategy : Strategy Float) (options : Options Float) (window : Window)
    (folder : String) (codes : List String) : Failing m (List (CodeResult Float)) := do
  let fetched ← ExceptT.lift (codes.mapM fun code => do return (code, ← fetch folder window code))
  let (notices, outcome) := Batch.ofFetched strategy options fetched
  tellAll (notices.map Notice.text)
  settle outcome

/-- What a backtest reports on: the strategy, and its results as the settings and the flags ask for
them. -/
def evaluate (strategyPath : String) (settingsPath folder : Option String) (flags : Flags) :
    Failing m (Strategy Float × List (CodeResult Float)) := do
  let settings ← readSettings settingsPath
  let strategy ← readStrategy strategyPath
  tell s!"Loaded strategy: {strategy.name} ({strategy.rules.length} rules)"
  let options ← settle (flags.options settings)
  let window ← settle (flags.window settings)
  let codes := flags.instruments settings
  if codes.isEmpty then throw (.settingMissing runPart "codes")
  let folder ← settle (dataFolder folder settings)
  return (strategy, ← runBatch strategy options window folder codes)

def publish (document : String) : Option String → Failing m Unit
  | none => print document
  | some path => do
    access (.system ·.message) (Host.write path document)
    tellAll ["", s!"Report written to: {path}"]

def backtest (strategyPath : String) (settingsPath folder : Option String) (flags : Flags)
    (output : Option String) : Failing m Unit := do
  let (strategy, results) ← evaluate strategyPath settingsPath folder flags
  tellAll (summary results)
  publish (report strategy results) output

def validate (path : String) : Failing m Unit := do
  tell s!"Validating strategy: {path}"
  let strategy ← readStrategy path
  tellAll (strategy.rules.zipIdx.map fun (rule, index) =>
    s!"  Rule {index} [{rule.kind}]: {rule.describe}")
  let count := strategy.rules.length
  tell s!"Strategy '{strategy.name}' is valid: {count} rules, warm-up {strategy.warmup} bars"
  print strategy.toJson.page

def listSymbols (settingsPath folder : Option String) : Failing m Unit := do
  let settings ← readSettings settingsPath
  let folder ← settle (dataFolder folder settings)
  let codes ← settle (Bar.codesOf folder (← ExceptT.lift (Host.list folder)))
  if codes.isEmpty then tell "No symbols found"
  else
    codes.forM fun code => print (code ++ "\n")
    tell s!"{codes.length} symbols found"

end Program

def Command.program {m : Type → Type} [Monad m] [Host m] : Command → Program.Failing m Unit
  | backtest strategy settings folder flags output =>
    Program.backtest strategy settings folder flags output
  | validate strategy => Program.validate strategy
  | listSymbols settings folder => Program.listSymbols settings folder

/-- An error is told last, and the answer is the exit code. -/
def Command.run {m : Type → Type} [Monad m] [Host m] (command : Command) : m Nat := do
  match ← command.program.run with
  | .ok () => return 0
  | .error e =>
    Host.tell s!"error: {e.message}"
    return e.exitCode

end Backtest
