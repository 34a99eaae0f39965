import Backtest.Settings

/-!
Commands, and the command lines that ask for them. An option takes its value from the argument
behind it, or from the same argument; it may be given once.
-/

namespace Backtest

inductive Command where
  | backtest (strategy : String) (settings dataFolder : Option String) (flags : Flags)
      (output : Option String)
  | validate (strategy : String)
  | listSymbols (settings dataFolder : Option String)
  deriving DecidableEq, Repr

/-- Why a command line asks for nothing to be done. -/
inductive Usage where
  | help
  | noCommand
  | unknownCommand
  | unknownArgument
  | invalidValue
  | repeated
  | missingArgument
  | excessValue
  deriving DecidableEq, Repr

def Usage.exitCode : Usage → Nat
  | help => 0
  | _ => 2

namespace Command

inductive Key where
  | strategy
  | settings
  | dataFolder
  | codes
  | start
  | stop
  | reentry
  | endOfSeries
  | output
  deriving DecidableEq, Repr

namespace Key

def name : Key → String
  | strategy => "strategy"
  | settings => "config"
  | dataFolder => "data-dir"
  | codes => "codes"
  | start => "start"
  | stop => "end"
  | reentry => "reentry"
  | endOfSeries => "end-of-series"
  | output => "output"

def letter? : Key → Option Char
  | strategy => some 's'
  | settings => some 'c'
  | output => some 'o'
  | _ => none

/-- A path must not be empty; other values may be. -/
def isPath : Key → Bool
  | strategy | settings | dataFolder | output => true
  | _ => false

end Key

inductive Kind where
  | backtest
  | validate
  | listSymbols
  deriving DecidableEq, Repr

namespace Kind

def values : List Kind := [backtest, validate, listSymbols]

def word : Kind → String
  | backtest => "backtest"
  | validate => "validate"
  | listSymbols => "list-symbols"

def ofText? (s : String) : Option Kind := Text.ofWord? word values s

def keys : Kind → List Key
  | backtest =>
    [.strategy, .settings, .dataFolder, .codes, .start, .stop, .reentry, .endOfSeries, .output]
  | validate => [.strategy]
  | listSymbols => [.settings, .dataFolder]

end Kind

inductive Argument where
  | word (s : String)
  /-- Two dashes alone: no options come after. -/
  | divider
  | long (name : String) (value : Option String)
  | short (letter : Char) (value : Option String)
  deriving DecidableEq, Repr

def longOf (cs : List Char) : Argument :=
  let name := String.ofList (cs.takeWhile (· ≠ '='))
  match cs.dropWhile (· ≠ '=') with
  | [] => .long name none
  | _ :: value => .long name (some (String.ofList value))

/-- What stands behind a letter is its value, with or without an equals sign between. -/
def shortOf (letter : Char) : List Char → Argument
  | [] => .short letter none
  | '=' :: value => .short letter (some (String.ofList value))
  | value => .short letter (some (String.ofList value))

def Argument.ofText (s : String) : Argument :=
  match s.toList with
  | ['-', '-'] => .divider
  | '-' :: '-' :: cs => longOf cs
  | '-' :: letter :: cs => shortOf letter cs
  | _ => .word s

def Argument.option? (keys : List Key) : Argument → Option (Key × Option String)
  | .long name value => (keys.find? (·.name = name)).map (·, value)
  | .short letter value => (keys.find? (·.letter? = some letter)).map (·, value)
  | _ => none

/-- Options read so far. The last one may still wait for its value, and is not checked before the
next option or the end. -/
structure Reading where
  given : List (Key × String) := []
  pending : Option (Key × Option String) := none
  deriving DecidableEq, Repr

namespace Reading

def accept (r : Reading) (key : Key) (value : Option String) : Except Usage Reading :=
  match value with
  | none => .error .invalidValue
  | some value =>
    if r.given.any (·.1 = key) then .error .repeated
    else if key.isPath && value = "" then .error .invalidValue
    else .ok ⟨r.given ++ [(key, value)], none⟩

def settle (r : Reading) : Except Usage Reading :=
  match r.pending with
  | none => .ok r
  | some (key, value) => r.accept key value

def read (keys : List Key) (r : Reading) : List String → Except Usage Reading
  | [] => r.settle
  | arg :: args => do
    match Argument.ofText arg with
    | .word value =>
      match r.pending with
      | some (key, none) => read keys { r with pending := some (key, some value) } args
      | _ => throw .unknownArgument
    | .divider => if args.isEmpty then r.settle else throw .unknownArgument
    | .long "help" none => let _ ← r.settle; throw .help
    | .long "help" (some _) => throw .excessValue
    | .short 'h' _ => let _ ← r.settle; throw .help
    | argument =>
      match argument.option? keys with
      | none => throw .unknownArgument
      | some (key, none) => read keys { (← r.settle) with pending := some (key, none) } args
      | some (key, some value) => read keys (← (← r.settle).accept key (some value)) args

def value? (r : Reading) (key : Key) : Option String := r.given.lookup key

def flags (r : Reading) : Flags where
  codes := r.value? .codes
  start := r.value? .start
  stop := r.value? .stop
  reentry := r.value? .reentry
  endOfSeries := r.value? .endOfSeries

def strategy (r : Reading) : Except Usage String :=
  match r.value? .strategy with
  | some path => .ok path
  | none => .error .missingArgument

def command (r : Reading) : Kind → Except Usage Command
  | .backtest => do
    return .backtest (← r.strategy) (r.value? .settings) (r.value? .dataFolder) r.flags
      (r.value? .output)
  | .validate => do return .validate (← r.strategy)
  | .listSymbols => .ok (.listSymbols (r.value? .settings) (r.value? .dataFolder))

end Reading

def helpWord : String := "help"

def isKnown (name : String) : Bool := (Kind.ofText? name).isSome || name = helpWord

/-- Help can be had on all commands, itself included, and on nothing below them. -/
def helpOn : List String → Usage
  | [] => .help
  | [name] => if isKnown name then .help else .unknownCommand
  | _ => .unknownCommand

/-- Behind the divider a command is out of place. -/
def afterDivider : List String → Usage
  | [] => .noCommand
  | name :: _ => if isKnown name then .unknownArgument else .unknownCommand

def parse : List String → Except Usage Command
  | [] => .error .noCommand
  | arg :: args =>
    match Argument.ofText arg with
    | .divider => .error (afterDivider args)
    | .long "help" none => .error .help
    | .long "help" (some _) => .error .excessValue
    | .short 'h' _ => .error .help
    | .long .. | .short .. => .error .unknownArgument
    | .word name =>
      if name = helpWord then .error (helpOn args)
      else
        match Kind.ofText? name with
        | none => .error .unknownCommand
        | some kind => do (← Reading.read kind.keys {} args).command kind

end Command

end Backtest
