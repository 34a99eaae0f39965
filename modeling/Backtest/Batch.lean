import Backtest.Error
import Backtest.Run

/-!
Batches: one strategy over several instruments. An instrument without bars is skipped with a
notice; any other failure ends the batch.
-/

namespace Backtest

inductive Notice where
  | noBars (code : String)
  | skipped (code : String) (cause : Error)
  | running (count : Nat)
  deriving DecidableEq, Repr

def Notice.text : Notice → String
  | noBars code => s!"warning: skipping {code} (no bars in window)"
  | skipped code cause => s!"warning: skipping {code} ({cause.message})"
  | running count => s!"Running backtest: {count} codes"

namespace Batch

variable {α : Type}

/-- The instruments that have bars, in order, up to the first failure that counts. -/
def collect : List (String × Except Error (List (Bar α))) →
    List Notice × Except Error (List (String × List (Bar α)))
  | [] => ([], .ok [])
  | (code, fetched) :: rest =>
    let (notices, series) := collect rest
    match fetched with
    | .ok [] => (.noBars code :: notices, series)
    | .ok bars => (notices, series.map ((code, bars) :: ·))
    | .error (.noData missing) => (.skipped code (.noData missing) :: notices, series)
    | .error e => ([], .error e)

def ofFetched [Scalar α] (strategy : Strategy α) (options : Options α)
    (fetched : List (String × Except Error (List (Bar α)))) :
    List Notice × Except Error (List (CodeResult α)) :=
  let (notices, collected) := collect fetched
  match collected with
  | .error e => (notices, .error e)
  | .ok [] => (notices, .error (.noData (",".intercalate (fetched.map (·.1)))))
  | .ok series => (notices ++ [.running series.length], .ok (runAll strategy series options))

def run [Scalar α] (strategy : Strategy α) (options : Options α) (codes : List String)
    (fetch : String → Except Error (List (Bar α))) :
    List Notice × Except Error (List (CodeResult α)) :=
  ofFetched strategy options (codes.map fun code => (code, fetch code))

end Batch

end Backtest
