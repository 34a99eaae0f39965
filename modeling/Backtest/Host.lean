import Backtest.Files.Tree

/-!
What a command may ask of the machine that it runs on: to read texts and folders, to write a file,
and to print. A machine made of nothing but a tree of files serves for reasoning.
-/

namespace Backtest

class Host (m : Type → Type) where
  readText : String → m (Except FileError String)
  list : String → m (Except FileError (List String))
  /-- Writes a file, and makes the folders around it first. -/
  write : String → String → m (Except FileError Unit)
  print : String → m Unit
  /-- Tells a line to the person in front of the machine. -/
  tell : String → m Unit

structure Session where
  tree : Tree
  printed : String := ""
  told : List String := []
  deriving DecidableEq, Repr

instance : Host (StateM Session) where
  readText path := do return (← get).tree.readText path
  list path := do return (← get).tree.list path
  write path text := do
    let (tree, outcome) := (← get).tree.deliver path text
    modify fun session => { session with tree }
    return outcome
  print text := modify fun session => { session with printed := session.printed ++ text }
  tell line := modify fun session => { session with told := session.told ++ [line] }

end Backtest
