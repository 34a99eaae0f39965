import Backtest.Program
import Backtest.Proofs.Outcomes

/-!
Programs on a tree of files that only read and tell. What such a program comes to is a matter of the
files, so that it can be replaced by a function of the tree.
-/

namespace Backtest

open Program

abbrev OnTree (β : Type) := Failing (StateM Session) β

variable {β γ : Type} {program : OnTree β} {next : β → OnTree γ}

/-- All that a program does is to read files and to tell lines, and what it comes to is a matter of
the files. -/
def Quiet (program : OnTree β) (outcome : Tree → Except Error β) : Prop :=
  ∀ session : Session, ∃ lines, program.run.run session =
    (outcome session.tree, { session with told := session.told ++ lines })

theorem Quiet.run_bind {outcome : Tree → Except Error β} (h : Quiet program outcome)
    (next : β → OnTree γ) (session : Session) :
    ∃ lines, (program >>= next).run.run session =
      match outcome session.tree with
      | .error e => (.error e, { session with told := session.told ++ lines })
      | .ok b => (next b).run.run { session with told := session.told ++ lines } := by
  obtain ⟨lines, hrun⟩ := h session
  refine ⟨lines, ?_⟩
  rw [ExceptT.run_bind, StateT.run_bind, hrun]
  cases outcome session.tree <;> rfl

theorem Quiet.bind {outcome : Tree → Except Error β} {rest : β → Tree → Except Error γ}
    (h : Quiet program outcome) (hnext : ∀ b, Quiet (next b) (rest b)) :
    Quiet (program >>= next) fun tree => outcome tree >>= fun b => rest b tree := by
  intro session
  obtain ⟨lines, hrun⟩ := h.run_bind next session
  show ∃ more, _ = ((outcome session.tree >>= fun b => rest b session.tree), _)
  rw [hrun]
  cases outcome session.tree with
  | error e => exact ⟨lines, rfl⟩
  | ok b =>
    obtain ⟨more, hmore⟩ := hnext b { session with told := session.told ++ lines }
    exact ⟨lines ++ more, hmore.trans (by rw [List.append_assoc]; rfl)⟩

theorem quiet_settle (outcome : Except Error β) : Quiet (settle outcome) fun _ => outcome :=
  fun session => ⟨[], by rw [List.append_nil]; rfl⟩

theorem quiet_tell (line : String) : Quiet (tell line) fun _ => .ok () :=
  fun _ => ⟨[line], rfl⟩

theorem quiet_tellAll (lines : List String) : Quiet (tellAll lines) fun _ => .ok () := by
  induction lines with
  | nil => exact quiet_settle (.ok ())
  | cons line lines ih => exact (quiet_tell line).bind fun _ => ih

theorem Quiet.told {outcome : Tree → Except Error β} (h : Quiet program outcome) (line : String) :
    Quiet (tell line >>= fun _ => program) outcome :=
  (quiet_tell line).bind fun _ => h

theorem quiet_readText (cause : FileError → Error) (path : String) :
    Quiet (access cause (Host.readText path)) fun tree => (tree.readText path).mapError cause :=
  fun session => ⟨[], by rw [List.append_nil]; rfl⟩

def Tree.bars (tree : Tree) (folder : String) (window : Window) (code : String) :
    Except Error (List (Bar Float)) :=
  Bar.ofReading (Bar.tablePath folder code) code window (tree.readText (Bar.tablePath folder code))

theorem mapM_fetch_run (folder : String) (window : Window) (codes : List String)
    (session : Session) :
    (codes.mapM fun code => do
        return (code, ← fetch (m := StateM Session) folder window code)).run session =
      (codes.map fun code => (code, session.tree.bars folder window code), session) := by
  induction codes with
  | nil => rfl
  | cons code codes ih =>
    rw [List.mapM_cons, StateT.run_bind]
    show (StateT.run (List.mapM _ codes >>= _) session : Id _) = _
    rw [StateT.run_bind, ih]
    rfl

theorem quiet_fetch (folder : String) (window : Window) (codes : List String) :
    Quiet (ExceptT.lift (codes.mapM fun code => do return (code, ← fetch folder window code)))
      fun tree => .ok (codes.map fun code => (code, tree.bars folder window code)) := by
  intro session
  refine ⟨[], ?_⟩
  rw [ExceptT.run_lift, StateT.run_map, mapM_fetch_run, List.append_nil]
  rfl

theorem quiet_runBatch (strategy : Strategy Float) (options : Options Float) (window : Window)
    (folder : String) (codes : List String) :
    Quiet (runBatch strategy options window folder codes) fun tree =>
      (Batch.run strategy options codes (tree.bars folder window)).2 :=
  (quiet_fetch folder window codes).bind fun fetched =>
    (quiet_tellAll _).bind fun _ => quiet_settle (Batch.ofFetched strategy options fetched).2

end Backtest
