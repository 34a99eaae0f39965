import Backtest.Program

/-!
The command line, on a real machine.
-/

namespace Backtest

def FileError.ofSystem : IO.Error → FileError
  | .noFileOrDirectory .. => notFound
  | .alreadyExists .. => alreadyThere
  | .inappropriateType _ 20 _ => notAFolder
  | .inappropriateType _ 21 _ => isAFolder
  | .permissionDenied _ code details | .resourceExhausted _ code details
  | .invalidArgument _ code details => other s!"{details} (os error {code})"
  | .otherError code details => other s!"{details} (os error {code})"
  | e => other (toString e)

def attempt {β : Type} (access : IO β) : IO (Except FileError β) := do
  try
    return .ok (← access)
  catch e =>
    return .error (.ofSystem e)

instance : Host IO where
  readText path := do
    match ← attempt (IO.FS.readBinFile path) with
    | .error e => return .error e
    | .ok bytes =>
      match String.fromUTF8? bytes with
      | none => return .error .notText
      | some text => return .ok text
  list path := do
    if path = "" then return .error .notFound
    attempt do
      let entries ← ((← IO.currentDir) / path).readDir
      return entries.toList.map (·.fileName)
  write path text := attempt do
    let folder := Path.ofSteps (Path.parent path)
    if folder ≠ "" then IO.FS.createDirAll folder
    IO.FS.writeFile path text
  print text := IO.print text
  tell line := IO.eprintln line

def usageText : String :=
  "Usage: <command> [options]\n\n" ++
  "  backtest      run a strategy over one or more instruments\n" ++
  "  validate      check a strategy and print its normalized form\n" ++
  "  list-symbols  list the instruments of the data directory\n"

end Backtest

open Backtest in
def main (args : List String) : IO UInt32 := do
  match Command.parse args with
  | .error usage =>
    if usage = .help then IO.print usageText else IO.eprint usageText
    return usage.exitCode.toUInt32
  | .ok command =>
    let code : Nat ← command.run
    return code.toUInt32
