import Backtest.Files

/-!
A tree of files as a map from places to what stands there. The world outside of the working
directory is bare: it has the root and the folders above the working directory, and what is
written there later.
-/

namespace Backtest

inductive Entry where
  /-- A file, and its text if its bytes are one. -/
  | file (text : Option String)
  | folder
  deriving DecidableEq, Repr

structure Tree where
  entries : List (List String × Entry)
  deriving DecidableEq, Repr

namespace Tree

/-- A place is the shortest list of steps that leads to it: names, after the root or after one
`..` for each folder that the way climbs from the working directory. -/
abbrev Place := List String

/-- The working directory, a folder above it, or the root. These are always there. -/
def isGiven (place : Place) : Bool := place = [Path.root] || place.all (· = "..")

def isInside (place : Place) : Bool :=
  place.head? ≠ some Path.root && place.head? ≠ some ".."

def above (place : Place) : Place :=
  if place = [Path.root] then place
  else if isGiven place then place ++ [".."]
  else place.dropLast

def empty : Tree := ⟨[]⟩

def at? (tree : Tree) (place : Place) : Option Entry :=
  if isGiven place then some .folder else tree.entries.lookup place

def isFolder (tree : Tree) (place : Place) : Bool := tree.at? place = some .folder

def set (tree : Tree) (place : Place) (entry : Entry) : Tree :=
  ⟨tree.entries.filter (·.1 ≠ place) ++ [(place, entry)]⟩

def maxName : Nat := 255

def maxPath : Nat := 4095

/-- One step from a place, which has to be a folder. What it leads to need not exist. -/
def descend (tree : Tree) (here : Place) (name : String) : Except FileError Place :=
  match tree.at? here with
  | none => .error .notFound
  | some (.file _) => .error .notAFolder
  | some .folder =>
    if name = "." then .ok here
    else if name = ".." then .ok (above here)
    else if name = Path.root then .ok [Path.root]
    else if maxName < name.utf8ByteSize then .error .nameTooLong
    else .ok (here ++ [name])

def locate (tree : Tree) (path : String) : Except FileError Place :=
  if path.contains '\x00' then .error .nulInPath
  else if path = "" then .error .notFound
  else if maxPath < path.utf8ByteSize then .error .nameTooLong
  else (Path.steps path).foldlM tree.descend []

def readText (tree : Tree) (path : String) : Except FileError String := do
  match tree.at? (← tree.locate path) with
  | none => throw .notFound
  | some .folder => throw .isAFolder
  | some (.file text) =>
    if path.endsWith "/" then throw .notAFolder
    match text with
    | none => throw .notText
    | some text => return text

def list (tree : Tree) (path : String) : Except FileError (List String) := do
  let place ← tree.locate path
  match tree.at? place with
  | none => throw .notFound
  | some (.file _) => throw .notAFolder
  | some .folder =>
    return tree.entries.filterMap fun (other, _) =>
      if other.dropLast = place then other.getLast? else none

def makeFolder (tree : Tree) (steps : List String) : Except FileError Tree := do
  if maxPath < (Path.ofSteps steps).utf8ByteSize then throw .nameTooLong
  let place ← steps.foldlM tree.descend []
  match tree.at? place with
  | some _ => throw .alreadyThere
  | none => return tree.set place .folder

def ensureFolder (tree : Tree) (steps : List String) : Except FileError Tree :=
  match tree.makeFolder steps with
  | .ok made => .ok made
  | .error e =>
    match steps.foldlM tree.descend [] with
    | .ok place => if tree.isFolder place then .ok tree else .error e
    | .error _ => .error e

/-- Makes a folder unless it is there, and the ones around it as far as they are missing. These
stay also where a later one cannot be made. The steps to the folder are listed with the last
first. -/
def makeFolders (tree : Tree) : List String → Tree × Except FileError Unit
  | [] => (tree, .ok ())
  | step :: before =>
    let steps := (step :: before).reverse
    match tree.ensureFolder steps with
    | .ok made => (made, .ok ())
    | .error .notFound =>
      match tree.makeFolders before with
      | (around, .error e) => (around, .error e)
      | (around, .ok ()) =>
        match around.ensureFolder steps with
        | .ok made => (made, .ok ())
        | .error e => (around, .error e)
    | .error e => (tree, .error e)

def writeText (tree : Tree) (path text : String) : Except FileError Tree := do
  let place ← tree.locate path
  if tree.isFolder place || path.endsWith "/" then throw .isAFolder
  return tree.set place (.file (some text))

def deliver (tree : Tree) (path text : String) : Tree × Except FileError Unit :=
  match tree.makeFolders (Path.parent path).reverse with
  | (made, .error e) => (made, .error e)
  | (made, .ok ()) =>
    match made.writeText path text with
    | .error e => (made, .error e)
    | .ok written => (written, .ok ())

def plant (tree : Tree) (place : Place) (entry : Entry) : Tree :=
  let above := (List.range place.length).map place.take
  let missing := above.filter (tree.at? · = none)
  (missing.foldl (·.set · .folder) tree).set place entry

def changedSince (old new : Tree) : List (Place × Option String) :=
  new.entries.filterMap fun (place, entry) =>
    match entry with
    | .file text =>
      if isInside place && old.at? place ≠ some entry then some (place, text) else none
    | .folder => none

end Tree

end Backtest
