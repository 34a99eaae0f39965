import Backtest.Proofs.Delivery
import Backtest.Proofs.ExitCodes
import Backtest.Proofs.QuietPrograms

/-!
The backtest command on a tree of files. All stages before the report only read and tell, so that a
failure in one of them leaves nothing behind; the first stage that fails decides on the exit code, and
without a failure the report is all that comes out.
-/

namespace Backtest

open Program

/-! ## Stages -/

structure Request where
  strategy : String
  settings : Option String
  folder : Option String
  flags : Flags
  output : Option String

namespace Request

variable (request : Request) (tree : Tree)

def command : Command :=
  .backtest request.strategy request.settings request.folder request.flags request.output

def settingsIn : Except Error Settings :=
  match request.settings with
  | none => .ok ⟨fun _ _ => none⟩
  | some path => do
    let fault (reason : String) := Error.settingsSyntax path s!"couldn't read {path}: {reason}"
    let text ← (tree.readText path).mapError (fault ·.message)
    return (← (Ini.read text).mapError fault).settings

def strategyIn : Except Error (Strategy Float) := do
  Strategy.parse (← (tree.readText request.strategy).mapError (.system ·.message))

def optionsIn : Except Error (Options Float) := do
  request.flags.options (← request.settingsIn tree)

def windowIn : Except Error Window := do
  request.flags.window (← request.settingsIn tree)

def codesIn : Except Error (List String) := do
  let codes := request.flags.instruments (← request.settingsIn tree)
  if codes.isEmpty then throw (.settingMissing runPart "codes")
  return codes

def folderIn : Except Error String := do
  dataFolder request.folder (← request.settingsIn tree)

def resultsIn : Except Error (List (CodeResult Float)) := do
  (Batch.run (← request.strategyIn tree) (← request.optionsIn tree) (← request.codesIn tree)
    (tree.bars (← request.folderIn tree) (← request.windowIn tree))).2

def documentIn : Except Error String := do
  return report (← request.strategyIn tree) (← request.resultsIn tree)

end Request

inductive Stage where
  | settings
  | strategy
  | policies
  | window
  | codes
  | folder
  | data
  | report
  deriving DecidableEq, Repr

namespace Stage

def reading : List Stage := [settings, strategy, policies, window, codes, folder, data]

def order : List Stage := reading ++ [report]

/-- The exit codes that a stage can fail with. -/
def exitCodes : Stage → List Nat
  | strategy => [1, 4]
  | data => [3, 5]
  | report => [1]
  | _ => [2]

end Stage

namespace Request

variable (request : Request) (tree : Tree)

/-- Whether a stage fails, and how. A stage that needs what an earlier one would give fails with it. -/
def outcome : Stage → Except Error Unit
  | .settings => (request.settingsIn tree).map fun _ => ()
  | .strategy => (request.strategyIn tree).map fun _ => ()
  | .policies => (request.optionsIn tree).map fun _ => ()
  | .window => (request.windowIn tree).map fun _ => ()
  | .codes => (request.codesIn tree).map fun _ => ()
  | .folder => (request.folderIn tree).map fun _ => ()
  | .data => (request.resultsIn tree).map fun _ => ()
  | .report => do
    let document ← request.documentIn tree
    match request.output with
    | none => return
    | some path => (tree.deliver path document).2.mapError (.system ·.message)

def failure? (stage : Stage) : Option (Stage × Error) :=
  match request.outcome tree stage with
  | .ok () => none
  | .error e => some (stage, e)

def firstFailure? : Option (Stage × Error) := Stage.order.findSome? (request.failure? tree)

structure Resolved where
  strategy : Strategy Float
  options : Options Float
  window : Window
  codes : List String
  folder : String
  strategyIn_eq : request.strategyIn tree = .ok strategy
  optionsIn_eq : request.optionsIn tree = .ok options
  windowIn_eq : request.windowIn tree = .ok window
  codesIn_eq : request.codesIn tree = .ok codes
  folderIn_eq : request.folderIn tree = .ok folder

/-- What a backtest reports on, stage by stage. -/
def evaluationIn : Except Error (Strategy Float × List (CodeResult Float)) := do
  let settings ← request.settingsIn tree
  let strategy ← request.strategyIn tree
  let options ← request.flags.options settings
  let window ← request.flags.window settings
  let codes := request.flags.instruments settings
  if codes.isEmpty then throw (.settingMissing runPart "codes")
  let folder ← dataFolder request.folder settings
  return (strategy, ← (Batch.run strategy options codes (tree.bars folder window)).2)

theorem quiet_readSettings : Quiet (readSettings request.settings) request.settingsIn := by
  unfold readSettings settingsIn
  cases request.settings with
  | none => exact quiet_settle (.ok _)
  | some path =>
    exact ((quiet_readText _ path).bind fun text => (quiet_settle _).bind fun (ini : Ini) =>
      quiet_settle (.ok ini.settings)).told _

theorem quiet_readStrategy : Quiet (readStrategy request.strategy) request.strategyIn :=
  (quiet_readText _ _).bind fun text => quiet_settle (Strategy.parse text)

theorem quiet_evaluate :
    Quiet (evaluate request.strategy request.settings request.folder request.flags)
      request.evaluationIn := by
  refine request.quiet_readSettings.bind fun settings =>
    request.quiet_readStrategy.bind fun strategy => Quiet.told ?_ _
  refine (quiet_settle (request.flags.options settings)).bind fun options =>
    (quiet_settle (request.flags.window settings)).bind fun window => ?_
  cases request.flags.instruments settings with
  | nil => exact quiet_settle (.error _)
  | cons code codes =>
    exact (quiet_settle (dataFolder request.folder settings)).bind fun folder =>
      (quiet_runBatch strategy options window folder (code :: codes)).bind fun results =>
        quiet_settle (.ok (strategy, results))

theorem evaluationIn_eq : request.evaluationIn tree = do
    Stage.reading.forM (request.outcome tree)
    return (← request.strategyIn tree, ← request.resultsIn tree) := by
  simp only [evaluationIn, Stage.reading, List.forM_eq_forM, List.forM_cons, List.forM_nil, outcome,
    optionsIn, windowIn, codesIn, folderIn, resultsIn]
  cases request.settingsIn tree with
  | error e => rfl
  | ok settings =>
    simp only [ok_bind]
    cases request.strategyIn tree with
    | error e => rfl
    | ok strategy =>
      cases request.flags.options settings with
      | error e => rfl
      | ok options =>
        cases request.flags.window settings with
        | error e => rfl
        | ok window =>
          simp only [ok_bind]
          cases request.flags.instruments settings with
          | nil => rfl
          | cons code codes =>
            cases dataFolder request.folder settings with
            | error e => rfl
            | ok folder =>
              simp only [ok_bind, pure_bind, List.isEmpty_cons, Bool.false_eq_true, if_false]
              cases (Batch.run strategy options (code :: codes) (tree.bars folder window)).2 <;> rfl

variable {request tree}

theorem forM_outcome (stages : List Stage) :
    stages.forM (request.outcome tree) =
      match stages.findSome? (request.failure? tree) with
      | some (_, e) => .error e
      | none => .ok () := by
  induction stages with
  | nil => rfl
  | cons stage stages ih =>
    show (request.outcome tree stage >>= fun _ => stages.forM _) = _
    rw [List.findSome?_cons, failure?]
    cases request.outcome tree stage with
    | error e => rfl
    | ok _ => exact ih

theorem failure?_eq_some_iff {stage stage' : Stage} {e : Error} :
    request.failure? tree stage = some (stage', e) ↔
      stage' = stage ∧ request.outcome tree stage = .error e := by
  unfold failure?
  cases request.outcome tree stage <;> simp [eq_comm]

theorem failure?_eq_none_iff {stage : Stage} :
    request.failure? tree stage = none ↔ request.outcome tree stage = .ok () := by
  unfold failure?
  cases request.outcome tree stage <;> simp

theorem exists_resolved
    (h : ∀ stage ∈ [Stage.strategy, .policies, .window, .codes, .folder],
      request.outcome tree stage = .ok ()) : Nonempty (request.Resolved tree) := by
  obtain ⟨strategy, hstrategy, -⟩ := map_eq_ok_iff.mp (h .strategy (by decide))
  obtain ⟨options, hoptions, -⟩ := map_eq_ok_iff.mp (h .policies (by decide))
  obtain ⟨window, hwindow, -⟩ := map_eq_ok_iff.mp (h .window (by decide))
  obtain ⟨codes, hcodes, -⟩ := map_eq_ok_iff.mp (h .codes (by decide))
  obtain ⟨folder, hfolder, -⟩ := map_eq_ok_iff.mp (h .folder (by decide))
  exact ⟨⟨strategy, options, window, codes, folder, hstrategy, hoptions, hwindow, hcodes, hfolder⟩⟩

theorem Resolved.resultsIn_eq (resolved : request.Resolved tree) :
    request.resultsIn tree = (Batch.run resolved.strategy resolved.options resolved.codes
      (tree.bars resolved.folder resolved.window)).2 := by
  simp only [resultsIn, resolved.strategyIn_eq, resolved.optionsIn_eq, resolved.windowIn_eq,
    resolved.codesIn_eq, resolved.folderIn_eq, ok_bind]

theorem outcome_report {strategy : Strategy Float} {results : List (CodeResult Float)}
    (hstrategy : request.strategyIn tree = .ok strategy)
    (hresults : request.resultsIn tree = .ok results) :
    request.outcome tree .report =
      match request.output with
      | none => .ok ()
      | some path => (tree.deliver path (report strategy results)).2.mapError (.system ·.message) := by
  simp only [outcome, documentIn, hstrategy, hresults, ok_bind, pure_bind]
  rfl

/-- Either a stage that only reads fails first, or the report is all that can still fail. -/
theorem evaluation_cases (request : Request) (tree : Tree) :
    (∃ stage e, stage ≠ .report ∧ request.firstFailure? tree = some (stage, e) ∧
      request.evaluationIn tree = .error e) ∨
    ∃ (resolved : request.Resolved tree) (results : List (CodeResult Float)),
      request.resultsIn tree = .ok results ∧
      request.firstFailure? tree = request.failure? tree .report ∧
      request.evaluationIn tree = .ok (resolved.strategy, results) := by
  have horder : request.firstFailure? tree =
      (Stage.reading.findSome? (request.failure? tree)).or (request.failure? tree .report) := by
    rw [firstFailure?, Stage.order, List.findSome?_append, List.findSome?_singleton]
  rw [evaluationIn_eq, forM_outcome, horder]
  cases hfind : Stage.reading.findSome? (request.failure? tree) with
  | some failure =>
    obtain ⟨stage, e⟩ := failure
    obtain ⟨stage', hm, hfails⟩ := List.exists_of_findSome?_eq_some hfind
    obtain ⟨rfl, -⟩ := failure?_eq_some_iff.mp hfails
    refine .inl ⟨stage, e, ?_, rfl, rfl⟩
    rintro rfl
    exact absurd hm (by decide)
  | none =>
    have hpass : ∀ stage ∈ Stage.reading, request.outcome tree stage = .ok () := fun stage hm =>
      failure?_eq_none_iff.mp (List.findSome?_eq_none_iff.mp hfind stage hm)
    obtain ⟨resolved⟩ := exists_resolved fun stage hm =>
      hpass stage (List.Subset.trans (by decide) (List.Subset.refl Stage.reading) hm)
    obtain ⟨results, hresults, -⟩ := map_eq_ok_iff.mp (hpass .data (by decide))
    refine .inr ⟨resolved, results, hresults, Option.none_or, ?_⟩
    simp only [ok_bind, resolved.strategyIn_eq, hresults]
    rfl

theorem failsWith_settingsIn (request : Request) (tree : Tree) :
    FailsWith [2] (request.settingsIn tree) := by
  unfold settingsIn
  cases request.settings with
  | none => exact failsWith_ok _
  | some path =>
    exact (failsWith_mapError _ fun _ => List.mem_singleton_self 2).bind fun text =>
      (failsWith_mapError _ fun _ => List.mem_singleton_self 2).bind fun ini => failsWith_ok _

theorem failsWith_codesIn (request : Request) (tree : Tree) :
    FailsWith [2] (request.codesIn tree) := by
  refine (request.failsWith_settingsIn tree).bind fun settings => ?_
  cases request.flags.instruments settings with
  | nil => exact failsWith_error (List.mem_singleton_self 2)
  | cons code codes => exact failsWith_ok _

theorem failsWith_strategyIn (request : Request) (tree : Tree) :
    FailsWith [1, 4] (request.strategyIn tree) := by
  have hread : FailsWith [1] ((tree.readText request.strategy).mapError (.system ·.message)) :=
    failsWith_mapError _ fun _ => List.mem_singleton_self 1
  exact (hread.mono (by decide)).bind fun text => (failsWith_parse text).mono (by decide)

theorem failsWith_of_map {β : Type} {x : Except Error β} {e : Error} {exits : List Nat}
    (h : FailsWith exits x) (he : (x.map fun _ => ()) = .error e) : e.exitCode ∈ exits := by
  cases x with
  | ok b => cases he
  | error e' => exact Except.error.inj he ▸ h e' rfl

theorem firstFailure?_eq_some {stage : Stage} {e : Error}
    (h : request.firstFailure? tree = some (stage, e)) :
    request.outcome tree stage = .error e ∧
      ∀ earlier ∈ Stage.order.takeWhile (· ≠ stage), request.outcome tree earlier = .ok () := by
  obtain ⟨before, stage', after, horder, hfails, hbefore⟩ := List.findSome?_eq_some_iff.mp h
  obtain ⟨rfl, hfails⟩ := failure?_eq_some_iff.mp hfails
  refine ⟨hfails, fun earlier hm => failure?_eq_none_iff.mp (hbefore earlier ?_)⟩
  rw [horder, List.takeWhile_append, List.takeWhile_cons_of_neg (by simp), List.append_nil] at hm
  split at hm
  · exact hm
  · exact (List.takeWhile_sublist _).subset hm

theorem exitCode_mem {stage : Stage} {e : Error}
    (h : request.firstFailure? tree = some (stage, e)) : e.exitCode ∈ stage.exitCodes := by
  obtain ⟨hfails, hbefore⟩ := firstFailure?_eq_some h
  cases stage with
  | settings => exact failsWith_of_map (failsWith_settingsIn request tree) hfails
  | strategy => exact failsWith_of_map (failsWith_strategyIn request tree) hfails
  | policies => exact failsWith_of_map ((failsWith_settingsIn request tree).bind (failsWith_options _)) hfails
  | window => exact failsWith_of_map ((failsWith_settingsIn request tree).bind (failsWith_window _)) hfails
  | codes => exact failsWith_of_map (failsWith_codesIn request tree) hfails
  | folder => exact failsWith_of_map ((failsWith_settingsIn request tree).bind (failsWith_dataFolder _)) hfails
  | data =>
    obtain ⟨resolved⟩ := exists_resolved fun stage hm => hbefore stage (by revert stage; decide)
    rw [outcome, resolved.resultsIn_eq] at hfails
    exact failsWith_of_map (failsWith_batch _ _ _ fun code => failsWith_ofReading _ _ _ _) hfails
  | report =>
    obtain ⟨strategy, hstrategy, -⟩ := map_eq_ok_iff.mp (hbefore .strategy (by decide))
    obtain ⟨results, hresults, -⟩ := map_eq_ok_iff.mp (hbefore .data (by decide))
    rw [outcome_report hstrategy hresults] at hfails
    split at hfails
    · cases hfails
    · exact failsWith_mapError _ (fun _ => List.mem_singleton_self 1) e hfails

end Request

theorem publish_run (document : String) (output : Option String) (session : Session) :
    ∃ lines, (publish document output : OnTree Unit).run.run session =
      match output with
      | none => (.ok (), { session with printed := session.printed ++ document })
      | some path =>
        ((session.tree.deliver path document).2.mapError (.system ·.message),
          { session with
            tree := (session.tree.deliver path document).1
            told := session.told ++ lines }) := by
  cases output with
  | none => exact ⟨[], rfl⟩
  | some path =>
    have hwrite : (access (.system ·.message) (Host.write path document) : OnTree Unit).run.run
        session =
          ((session.tree.deliver path document).2.mapError (.system ·.message),
            { session with tree := (session.tree.deliver path document).1 }) := rfl
    simp only [publish]
    rw [ExceptT.run_bind, StateT.run_bind, hwrite]
    cases (session.tree.deliver path document).2 with
    | error e => exact ⟨[], by rw [List.append_nil]; rfl⟩
    | ok _ => exact quiet_tellAll _ { session with tree := (session.tree.deliver path document).1 }

/-- The exit code for an outcome, and the session with an error told last. -/
def Session.exit (session : Session) : Except Error Unit → Nat × Session
  | .ok () => (0, session)
  | .error e => (e.exitCode, { session with told := session.told ++ [s!"error: {e.message}"] })

theorem command_run (command : Command) (session : Session) :
    (command.run : StateM Session Nat).run session =
      (fun ended : Except Error Unit × Session => ended.2.exit ended.1)
        ((command.program : OnTree Unit).run.run session) := by
  rw [Command.run, StateT.run_bind]
  rcases (command.program : OnTree Unit).run.run session with ⟨outcome, session'⟩
  cases outcome <;> rfl

/-- The exit code of a backtest, and what it leaves of a tree of files. -/
theorem backtest_run (request : Request) (tree : Tree) :
    ∃ lines, (request.command.run : StateM Session Nat).run { tree } =
      match request.evaluationIn tree with
      | .error e => (e.exitCode, { tree, told := lines })
      | .ok (strategy, results) =>
        match request.output with
        | none => (0, { tree, printed := report strategy results, told := lines })
        | some path =>
          let delivery := tree.deliver path (report strategy results)
          match delivery.2 with
          | .error _ => (1, { tree := delivery.1, told := lines })
          | .ok () => (0, { tree := delivery.1, told := lines }) := by
  have hprogram : (request.command.program : OnTree Unit) =
      evaluate request.strategy request.settings request.folder request.flags >>= fun evaluation =>
        tellAll (summary evaluation.2) >>= fun _ =>
          publish (report evaluation.1 evaluation.2) request.output := rfl
  obtain ⟨lines, hevaluate⟩ := request.quiet_evaluate.run_bind (fun evaluation =>
    tellAll (summary evaluation.2) >>= fun _ =>
      publish (report evaluation.1 evaluation.2) request.output) { tree }
  rw [command_run, hprogram, hevaluate]
  cases request.evaluationIn tree with
  | error e => exact ⟨_, rfl⟩
  | ok evaluation =>
    obtain ⟨strategy, results⟩ := evaluation
    obtain ⟨more, hsummary⟩ := (quiet_tellAll (summary results)).run_bind
      (fun _ => publish (report strategy results) request.output) { tree, told := [] ++ lines }
    obtain ⟨rest, hpublish⟩ := publish_run (report strategy results) request.output
      { tree, told := [] ++ lines ++ more }
    dsimp only
    rw [hsummary, hpublish]
    cases request.output with
    | none => exact ⟨_, by simp [Session.exit]; rfl⟩
    | some path =>
      dsimp only
      cases (tree.deliver path (report strategy results)).2 with
      | error e => exact ⟨_, rfl⟩
      | ok _ => exact ⟨_, rfl⟩

theorem exitCode_ne_zero (e : Error) : e.exitCode ≠ 0 := by
  cases e <;> exact Nat.succ_ne_zero _

/-- The exit code is that of the first stage that fails, or zero. With any other one nothing is
printed, and the files are as they were but for folders that a failing delivery made; with zero
the report on the results of the batch is all that is printed or written. -/
theorem backtest_leaves_report_or_nothing (request : Request) (tree : Tree) :
    let ended := (request.command.run : StateM Session Nat).run { tree }
    let code := ended.1
    let after := ended.2
    code = ((request.firstFailure? tree).map (·.2.exitCode)).getD 0 ∧
    (∀ stage e, request.firstFailure? tree = some (stage, e) → e.exitCode ∈ stage.exitCodes) ∧
    (code ≠ 0 → after.printed = "" ∧
      (after.tree = tree ∨
        (∃ e, request.firstFailure? tree = some (.report, e)) ∧ tree.Grows after.tree)) ∧
    (code = 0 → ∃ (resolved : request.Resolved tree) (results : List (CodeResult Float)),
      (Batch.run resolved.strategy resolved.options resolved.codes
        (tree.bars resolved.folder resolved.window)).2 = .ok results ∧
      match request.output with
      | none => after.printed = report resolved.strategy results ∧ after.tree = tree
      | some path =>
        after.printed = "" ∧ tree.Delivered after.tree path (report resolved.strategy results)) := by
  obtain ⟨lines, hrun⟩ := backtest_run request tree
  rw [hrun]
  rcases request.evaluation_cases tree with
    ⟨stage, e, hstage, hfirst, hevaluation⟩ | ⟨resolved, results, hresults, hfirst, hevaluation⟩
  · rw [hfirst, hevaluation]
    exact ⟨rfl, fun _ _ h => Request.exitCode_mem (hfirst.trans h), fun _ => ⟨rfl, .inl rfl⟩,
      fun hzero => absurd hzero (exitCode_ne_zero e)⟩
  · have hbatch := resolved.resultsIn_eq.symm.trans hresults
    have hreport := Request.outcome_report resolved.strategyIn_eq hresults
    have hcodes : ∀ stage e, request.firstFailure? tree = some (stage, e) →
        e.exitCode ∈ stage.exitCodes := fun _ _ => Request.exitCode_mem
    rw [hevaluation]
    rw [hfirst] at hcodes ⊢
    cases houtput : request.output with
    | none =>
      rw [houtput] at hreport
      rw [Request.failure?_eq_none_iff.mpr hreport]
      exact ⟨rfl, nofun, fun h => absurd rfl h, fun _ =>
        ⟨resolved, results, hbatch, rfl, rfl⟩⟩
    | some path =>
      rw [houtput] at hreport
      dsimp only at hreport ⊢
      cases hdelivery : (tree.deliver path (report resolved.strategy results)).2 with
      | error fault =>
        rw [hdelivery] at hreport
        have hfails : request.failure? tree .report = some (.report, .system fault.message) :=
          Request.failure?_eq_some_iff.mpr ⟨rfl, hreport⟩
        rw [hfails] at hcodes ⊢
        exact ⟨rfl, hcodes, fun _ => ⟨rfl, .inr ⟨⟨_, rfl⟩, Tree.deliver_grows_of_error hdelivery⟩⟩,
          nofun⟩
      | ok _ =>
        rw [hdelivery] at hreport
        rw [Request.failure?_eq_none_iff.mpr hreport]
        exact ⟨rfl, nofun, fun h => absurd rfl h, fun _ =>
          ⟨resolved, results, hbatch, rfl, Tree.deliver_delivered hdelivery⟩⟩

end Backtest
