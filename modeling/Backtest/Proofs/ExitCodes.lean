import Backtest.Bar.Folder
import Backtest.Proofs.Batches
import Backtest.Settings
import Backtest.Strategy.Definition

/-!
The exit codes that the parts of a command can fail with.
-/

namespace Backtest

variable {α β γ : Type} {exits : List Nat}

/-- A failure ends with one of some exit codes. -/
def FailsWith (exits : List Nat) (outcome : Except Error β) : Prop :=
  ∀ e, outcome = .error e → e.exitCode ∈ exits

theorem failsWith_ok (b : β) : FailsWith exits (.ok b) := nofun

theorem failsWith_error {e : Error} (h : e.exitCode ∈ exits) :
    FailsWith exits (.error e : Except Error β) := by
  rintro _ ⟨⟩
  exact h

theorem FailsWith.mono {outcome : Except Error β} {exits' : List Nat}
    (h : FailsWith exits outcome) (hsub : exits ⊆ exits') : FailsWith exits' outcome :=
  fun e he => hsub (h e he)

theorem FailsWith.bind {outcome : Except Error β} {next : β → Except Error γ}
    (h : FailsWith exits outcome) (hnext : ∀ b, FailsWith exits (next b)) :
    FailsWith exits (outcome >>= next) := by
  cases outcome with
  | error e => exact fun e' he => h e' (congrArg _ (Except.error.inj he))
  | ok b => exact hnext b

theorem failsWith_mapError {ε : Type} (outcome : Except ε β) {cause : ε → Error}
    (h : ∀ fault, (cause fault).exitCode ∈ exits) : FailsWith exits (outcome.mapError cause) := by
  cases outcome with
  | ok b => exact failsWith_ok b
  | error fault => exact failsWith_error (h fault)

/-! ## Settings and flags -/

theorem failsWith_invalid (key reason : String) :
    FailsWith [2] (invalid key reason : Except Error β) :=
  failsWith_error (List.mem_singleton_self 2)

theorem failsWith_get {settings : Settings} {key : String} {standard : β}
    {read : String → Except Error β} (h : ∀ value, FailsWith exits (read value)) :
    FailsWith exits (settings.get key standard read) := by
  unfold Settings.get
  split
  · exact failsWith_ok _
  · exact h _

theorem failsWith_preferred {flag : Option String} {configured : β}
    {read : String → Except Error β} (h : ∀ value, FailsWith exits (read value)) :
    FailsWith exits (Flags.preferred flag configured read) := by
  cases flag with
  | none => exact failsWith_ok _
  | some value => exact h value

theorem failsWith_equityBaseOf (value : String) : FailsWith [2] (equityBaseOf value) := by
  unfold equityBaseOf
  split
  · exact failsWith_invalid _ _
  · split
    · exact failsWith_ok _
    · exact failsWith_invalid _ _

theorem failsWith_reentry (value : String) : FailsWith [2] (Reentry.ofSetting value) := by
  unfold Reentry.ofSetting
  dsimp only
  split
  · exact failsWith_ok _
  · exact failsWith_invalid _ _

theorem failsWith_endOfSeries (value : String) : FailsWith [2] (EndOfSeries.ofSetting value) := by
  unfold EndOfSeries.ofSetting
  dsimp only
  split
  · exact failsWith_ok _
  · exact failsWith_invalid _ _

theorem failsWith_date (key value : String) :
    FailsWith [2] (some <$> Date.ofSetting key value) := by
  unfold Date.ofSetting
  split
  · exact failsWith_ok _
  · exact failsWith_invalid _ _

theorem failsWith_make (first last : Option Date) : FailsWith [2] (Window.make first last) := by
  unfold Window.make
  split
  · split
    · exact failsWith_ok _
    · exact failsWith_error (List.mem_singleton_self 2)
  · exact failsWith_ok _

theorem failsWith_options (flags : Flags) (settings : Settings) :
    FailsWith [2] (flags.options settings) := by
  have hconfigured : FailsWith [2] settings.options :=
    (failsWith_get failsWith_equityBaseOf).bind fun _ => (failsWith_get failsWith_reentry).bind
      fun _ => (failsWith_get failsWith_endOfSeries).bind fun _ => failsWith_ok _
  exact hconfigured.bind fun configured => (failsWith_preferred failsWith_reentry).bind
    fun _ => (failsWith_preferred failsWith_endOfSeries).bind fun _ => failsWith_ok _

theorem failsWith_window (flags : Flags) (settings : Settings) :
    FailsWith [2] (flags.window settings) := by
  have hconfigured : FailsWith [2] settings.window :=
    (failsWith_get (failsWith_date "start_date")).bind fun _ =>
      (failsWith_get (failsWith_date "end_date")).bind fun _ => failsWith_make _ _
  exact hconfigured.bind fun configured => (failsWith_preferred (failsWith_date "start_date")).bind
    fun _ => (failsWith_preferred (failsWith_date "end_date")).bind fun _ => failsWith_make _ _

theorem failsWith_dataFolder (flag : Option String) (settings : Settings) :
    FailsWith [2] (dataFolder flag settings) := by
  cases flag with
  | some folder => exact failsWith_ok folder
  | none =>
    unfold dataFolder
    dsimp only
    split
    · exact failsWith_ok _
    · exact failsWith_error (List.mem_singleton_self 2)

/-! ## Strategies and data -/

theorem failsWith_parse (text : String) : FailsWith [4] (Strategy.parse text) := by
  unfold Strategy.parse
  split
  · exact failsWith_error (List.mem_singleton_self 4)
  · exact failsWith_mapError _ fun _ => List.mem_singleton_self 4

theorem failsWith_ofReading (path code : String) (window : Window)
    (reading : Except FileError String) :
    FailsWith [3, 5] (Bar.ofReading path code window reading) := by
  unfold Bar.ofReading
  split
  · exact failsWith_mapError _ fun _ => List.mem_cons_self
  · exact failsWith_error (List.mem_cons_of_mem 3 List.mem_cons_self)
  · exact failsWith_error List.mem_cons_self

theorem failsWith_batch [Scalar α] (strategy : Strategy α) (options : Options α)
    (codes : List String) {fetch : String → Fetched α}
    (h : ∀ code, FailsWith [3, 5] (fetch code)) :
    FailsWith [3, 5] (Batch.run strategy options codes fetch).2 := by
  rcases Batch.sound_or_first_failure fetch codes with
    hsound | ⟨before, code, after, e, hcodes, he, hbefore⟩
  · rw [Batch.run_of_sound hsound]
    split
    · exact failsWith_error (List.mem_cons_of_mem 3 List.mem_cons_self)
    · exact failsWith_ok _
  · rw [Batch.run_of_failure hcodes he hbefore]
    exact failsWith_error (h code e (Fetched.failure?_eq_some_iff.mp he).1)

end Backtest
