import Backtest.Text.Pieces

/-!
Files: how paths are put together, and why an access can fail.
-/

namespace Backtest

inductive FileError where
  | notFound
  | alreadyThere
  | notAFolder
  | isAFolder
  | nameTooLong
  | nulInPath
  | notText
  | other (reason : String)
  deriving DecidableEq, Repr

def FileError.message : FileError → String
  | notFound => "No such file or directory (os error 2)"
  | alreadyThere => "File exists (os error 17)"
  | notAFolder => "Not a directory (os error 20)"
  | isAFolder => "Is a directory (os error 21)"
  | nameTooLong => "File name too long (os error 36)"
  | nulInPath => "file name contained an unexpected NUL byte"
  | notText => "stream did not contain valid UTF-8"
  | other reason => reason

namespace Path

/-- A name inside a folder. An absolute name stands for itself, and the working directory is
written as nothing. -/
def join (folder name : String) : String :=
  if name.startsWith "/" || folder = "" then name
  else if folder.endsWith "/" then folder ++ name
  else folder ++ "/" ++ name

def root : String := "/"

def steps (path : String) : List String :=
  let names := ((Text.split '/' path.toList).filter (· ≠ [])).map String.ofList
  if path.startsWith "/" then root :: names else names

def ofSteps : List String → String
  | [] => ""
  | first :: rest =>
    if first = root then root ++ "/".intercalate rest else "/".intercalate (first :: rest)

/-- The folder that a path lies in, step by step. A step that stays where it is counts for
nothing. -/
def parent (path : String) : List String := ((steps path).filter (· ≠ ".")).dropLast

end Path

end Backtest
