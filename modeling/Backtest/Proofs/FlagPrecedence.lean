import Backtest.Proofs.Outcomes
import Backtest.Settings

/-!
Flags and settings of a run. The value that counts for a key is that of the flag, where it is
given, and else that of the settings. The settings are checked as a whole before any flag is looked
at, so that a value which does not count can still refuse a run.
-/

namespace Backtest

/-- What a run can be told by a flag as well as by the settings. -/
inductive Choice where
  | codes
  | start
  | stop
  | reentry
  | endOfSeries
  deriving DecidableEq, Repr

namespace Choice

def key : Choice → String
  | codes => "codes"
  | start => "start_date"
  | stop => "end_date"
  | reentry => "reentry"
  | endOfSeries => "end_of_series"

def flag? (flags : Flags) : Choice → Option String
  | codes => flags.codes
  | start => flags.start
  | stop => flags.stop
  | reentry => flags.reentry
  | endOfSeries => flags.endOfSeries

theorem key_injective {a b : Choice} (h : a.key = b.key) : a = b := by
  cases a <;> cases b <;> first | rfl | exact absurd h (by decide)

theorem key_ne {a b : Choice} (h : a ≠ b) : a.key ≠ b.key := fun heq => h (key_injective heq)

/-- No flag covers the base. -/
theorem equityBase_ne_key (choice : Choice) : "equity_base" ≠ choice.key := by
  cases choice <;> decide

end Choice

/-! ## Settings that differ under flags only -/

def Settings.set (settings : Settings) (key : String) (value : Option String) : Settings :=
  ⟨fun part other => if part = runPart ∧ other = key then value else settings.value? part other⟩

/-- Settings of a run that say the same wherever no flag is given. -/
def Flags.Agree (flags : Flags) (settings settings' : Settings) : Prop :=
  ∀ key, (∀ choice : Choice, choice.key = key → choice.flag? flags = none) →
    settings.value? runPart key = settings'.value? runPart key

namespace Flags

variable {flags : Flags} {settings settings' settings'' : Settings}

theorem Agree.trans (h : flags.Agree settings settings')
    (h' : flags.Agree settings' settings'') : flags.Agree settings settings'' :=
  fun key hfree => (h key hfree).trans (h' key hfree)

theorem agree_set (choice : Choice) (h : choice.flag? flags ≠ none) (settings : Settings)
    (value : Option String) : flags.Agree settings (settings.set choice.key value) := by
  intro key hfree
  have hkey : key ≠ choice.key := fun heq => h (hfree choice heq.symm)
  simp [Settings.set, hkey]

theorem Agree.value_eq (h : flags.Agree settings settings') (choice : Choice)
    (hfree : choice.flag? flags = none) :
    settings.value? runPart choice.key = settings'.value? runPart choice.key :=
  h choice.key fun other hother => by rwa [Choice.key_injective hother]

end Flags

namespace Settings

variable {settings settings' : Settings} {key : String}

theorem given?_congr (h : settings.value? runPart key = settings'.value? runPart key) :
    settings.given? key = settings'.given? key := by
  simp only [given?, h]

theorem get_congr {β : Type} (h : settings.value? runPart key = settings'.value? runPart key)
    (standard : β) (read : String → Except Error β) :
    settings.get key standard read = settings'.get key standard read := by
  simp only [get, given?_congr h]

end Settings

/-! ## The values that count -/

namespace Flags

/-- What counts for a choice: the flag where it is given, and the settings where it is not. -/
def effective {β : Type} (flags : Flags) (settings : Settings) (choice : Choice) (standard : β)
    (read : String → Except Error β) : Except Error β :=
  match choice.flag? flags with
  | none => settings.get choice.key standard read
  | some value => read value

def effectiveWindow (flags : Flags) (settings : Settings) : Except Error Window := do
  let first ← flags.effective settings .start none (some <$> Date.ofSetting "start_date" ·)
  let last ← flags.effective settings .stop none (some <$> Date.ofSetting "end_date" ·)
  Window.make first last

def effectiveOptions (flags : Flags) (settings : Settings) : Except Error (Options Float) := do
  let standard : Options Float := Options.standard
  let equityBase ← settings.get "equity_base" standard.equityBase equityBaseOf
  let reentry ← flags.effective settings .reentry standard.reentry Reentry.ofSetting
  let endOfSeries ←
    flags.effective settings .endOfSeries standard.endOfSeries EndOfSeries.ofSetting
  return ⟨equityBase, reentry, endOfSeries⟩

variable {flags : Flags} {settings settings' : Settings}

theorem preferred_eq_effective {β : Type} (flags : Flags) (choice : Choice)
    {standard configured : β} {read : String → Except Error β}
    (h : settings.get choice.key standard read = .ok configured) :
    preferred (choice.flag? flags) configured read =
      flags.effective settings choice standard read := by
  unfold effective
  cases choice.flag? flags with
  | none => exact h.symm
  | some value => rfl

theorem effective_congr {β : Type} (h : flags.Agree settings settings') (choice : Choice)
    (standard : β) (read : String → Except Error β) :
    flags.effective settings choice standard read =
      flags.effective settings' choice standard read := by
  unfold effective
  cases hflag : choice.flag? flags with
  | none => exact Settings.get_congr (h.value_eq choice hflag) standard read
  | some value => rfl

theorem effectiveWindow_congr (h : flags.Agree settings settings') :
    flags.effectiveWindow settings = flags.effectiveWindow settings' := by
  simp only [effectiveWindow, effective_congr h]

theorem effectiveOptions_congr (h : flags.Agree settings settings') :
    flags.effectiveOptions settings = flags.effectiveOptions settings' := by
  have hbase : settings.value? runPart "equity_base" = settings'.value? runPart "equity_base" :=
    h _ fun choice hkey => absurd hkey.symm choice.equityBase_ne_key
  simp only [effectiveOptions, effective_congr h, Settings.get_congr hbase]

theorem instruments_congr (h : flags.Agree settings settings') :
    flags.instruments settings = flags.instruments settings' := by
  unfold instruments
  cases hcodes : flags.codes with
  | some value => rfl
  | none =>
    have hvalue : settings.value? runPart "codes" = settings'.value? runPart "codes" :=
      h.value_eq .codes hcodes
    simp only [Settings.list, hvalue]

end Flags

/-! ## Checks before flags -/

theorem Window.make_eq_ok_iff {first last : Option Date} {window : Window} :
    Window.make first last = .ok window ↔
      window = ⟨first, last⟩ ∧ ∀ a b, first = some a → last = some b → a.before b = true := by
  cases first with
  | none => simp [make, eq_comm (b := window)]
  | some a =>
    cases last with
    | none => simp [make, eq_comm (b := window)]
    | some b => by_cases hlt : a.before b = true <;> simp [make, hlt, eq_comm (b := window)]

theorem Flags.effectiveWindow_eq_ok_iff {flags : Flags} {settings : Settings} {window : Window} :
    flags.effectiveWindow settings = .ok window ↔
      flags.effective settings .start none (some <$> Date.ofSetting "start_date" ·) =
        .ok window.first ∧
      flags.effective settings .stop none (some <$> Date.ofSetting "end_date" ·) =
        .ok window.last ∧
      Window.make window.first window.last = .ok window := by
  unfold effectiveWindow
  simp only [bind_eq_ok_iff]
  constructor
  · rintro ⟨first, hfirst, last, hlast, hmake⟩
    obtain ⟨rfl, -⟩ := Window.make_eq_ok_iff.1 hmake
    exact ⟨hfirst, hlast, hmake⟩
  · rintro ⟨hfirst, hlast, hmake⟩
    exact ⟨_, hfirst, _, hlast, hmake⟩

theorem Flags.effectiveOptions_eq_ok_iff {flags : Flags} {settings : Settings}
    {options : Options Float} :
    flags.effectiveOptions settings = .ok options ↔
      settings.get "equity_base" Options.standard.equityBase equityBaseOf =
        .ok options.equityBase ∧
      flags.effective settings .reentry (Options.standard : Options Float).reentry
        Reentry.ofSetting = .ok options.reentry ∧
      flags.effective settings .endOfSeries (Options.standard : Options Float).endOfSeries
        EndOfSeries.ofSetting = .ok options.endOfSeries := by
  unfold effectiveOptions
  simp only [bind_eq_ok_iff, pure_eq_ok_iff]
  constructor
  · rintro ⟨equityBase, hbase, reentry, hreentry, endOfSeries, hend, rfl⟩
    exact ⟨hbase, hreentry, hend⟩
  · rintro ⟨hbase, hreentry, hend⟩
    exact ⟨_, hbase, _, hreentry, _, hend, rfl⟩

namespace Settings

theorem window_eq_effective (settings : Settings) :
    settings.window = ({} : Flags).effectiveWindow settings := rfl

theorem options_eq_effective (settings : Settings) :
    settings.options = ({} : Flags).effectiveOptions settings := rfl

end Settings

namespace Flags

variable {flags : Flags} {settings : Settings}

theorem window_of_ok {configured : Window} (h : settings.window = .ok configured) :
    flags.window settings = flags.effectiveWindow settings := by
  obtain ⟨hfirst, hlast, -⟩ := effectiveWindow_eq_ok_iff.1 (settings.window_eq_effective ▸ h)
  have hstart := preferred_eq_effective flags .start hfirst
  have hstop := preferred_eq_effective flags .stop hlast
  simp only [Choice.flag?] at hstart hstop
  simp only [window, effectiveWindow, h, ok_bind, hstart, hstop]

theorem window_of_error {e : Error} (h : settings.window = .error e) :
    flags.window settings = .error e := by
  simp only [window, h]
  rfl

theorem options_of_ok {configured : Options Float} (h : settings.options = .ok configured) :
    flags.options settings = flags.effectiveOptions settings := by
  obtain ⟨hbase, hreentry, hend⟩ := effectiveOptions_eq_ok_iff.1 (settings.options_eq_effective ▸ h)
  have hreentry' := preferred_eq_effective flags .reentry hreentry
  have hend' := preferred_eq_effective flags .endOfSeries hend
  simp only [Choice.flag?] at hreentry' hend'
  simp only [options, effectiveOptions, h, ok_bind, hbase, hreentry', hend']

theorem options_of_error {e : Error} (h : settings.options = .error e) :
    flags.options settings = .error e := by
  simp only [options, h]
  rfl

theorem window_eq_ok_iff {window : Window} :
    flags.window settings = .ok window ↔
      (∃ configured, settings.window = .ok configured) ∧
        flags.effectiveWindow settings = .ok window := by
  cases h : settings.window with
  | error e => simp [window_of_error h]
  | ok configured => simp [window_of_ok h]

theorem options_eq_ok_iff {options : Options Float} :
    flags.options settings = .ok options ↔
      (∃ configured, settings.options = .ok configured) ∧
        flags.effectiveOptions settings = .ok options := by
  cases h : settings.options with
  | error e => simp [options_of_error h]
  | ok configured => simp [options_of_ok h]

end Flags

/-- Settings of a run that differ under its flags only, and are right in themselves, lead to one
result: that of the values that count. What the settings have wrong refuses the run, whether it
counts or not. -/
theorem flags_override_accepted_settings (flags : Flags) (settings settings' : Settings)
    (h : flags.Agree settings settings') :
    flags.instruments settings = flags.instruments settings' ∧
    flags.effectiveWindow settings = flags.effectiveWindow settings' ∧
    flags.effectiveOptions settings = flags.effectiveOptions settings' ∧
    (∀ configured configured', settings.window = .ok configured →
      settings'.window = .ok configured' →
        flags.window settings = flags.effectiveWindow settings ∧
        flags.window settings' = flags.window settings) ∧
    (∀ configured configured', settings.options = .ok configured →
      settings'.options = .ok configured' →
        flags.options settings = flags.effectiveOptions settings ∧
        flags.options settings' = flags.options settings) ∧
    (∀ e, settings.window = .error e → flags.window settings = .error e) ∧
    ∀ e, settings.options = .error e → flags.options settings = .error e := by
  have hwindow := Flags.effectiveWindow_congr h
  have hoptions := Flags.effectiveOptions_congr h
  refine ⟨Flags.instruments_congr h, hwindow, hoptions, fun configured configured' hs hs' => ?_,
    fun configured configured' hs hs' => ?_, fun e he => Flags.window_of_error he,
    fun e he => Flags.options_of_error he⟩
  · rw [Flags.window_of_ok hs, Flags.window_of_ok hs', hwindow]
    exact ⟨rfl, rfl⟩
  · rw [Flags.options_of_ok hs, Flags.options_of_ok hs', hoptions]
    exact ⟨rfl, rfl⟩

def Settings.ofRun (values : List (String × String)) : Settings :=
  ⟨fun part key => if part = runPart then values.lookup key else none⟩

theorem flags_override_accepted_settings_later_end :
    let flags : Flags := { stop := some "2022-12-31" }
    let settings := Settings.ofRun [("start_date", "2021-01-04"), ("end_date", "2021-06-30")]
    let settings' := settings.set "end_date" none
    flags.Agree settings settings' ∧
    flags.window settings =
      .ok ⟨some (Date.ofCivil ⟨2021, 1, 4⟩), some (Date.ofCivil ⟨2022, 12, 31⟩)⟩ ∧
    flags.window settings' = flags.window settings := by
  intro flags settings settings'
  have hagree : flags.Agree settings settings' := Flags.agree_set .stop (by decide) settings none
  have hwindow : settings.window =
      .ok ⟨some (Date.ofCivil ⟨2021, 1, 4⟩), some (Date.ofCivil ⟨2021, 6, 30⟩)⟩ := by rfl
  have hwindow' : settings'.window = .ok ⟨some (Date.ofCivil ⟨2021, 1, 4⟩), none⟩ := by rfl
  refine ⟨hagree, by rfl, ?_⟩
  exact ((flags_override_accepted_settings flags settings settings' hagree).2.2.2.1 _ _ hwindow
    hwindow').2

/-- The end that does not count still collides with the start, and the policy that does not count
is still refused. -/
theorem covered_settings_still_refuse :
    let flags : Flags := { stop := some "2022-12-31", reentry := some "next_bar" }
    let settings := Settings.ofRun
      [("reentry", "sometimes"), ("start_date", "2022-01-01"), ("end_date", "2021-06-30")]
    let settings' := (settings.set "end_date" none).set "reentry" none
    flags.Agree settings settings' ∧
    flags.window settings =
      .error (.settingInvalid "backtest" "start_date" "start_date must be before end_date") ∧
    flags.window settings' =
      .ok ⟨some (Date.ofCivil ⟨2022, 1, 1⟩), some (Date.ofCivil ⟨2022, 12, 31⟩)⟩ ∧
    flags.options settings = .error (.settingInvalid "backtest" "reentry"
      "unknown reentry policy 'sometimes', expected same_bar or next_bar") ∧
    flags.options settings' = .ok ⟨100, .nextBar, .markToMarket⟩ := by
  intro flags settings settings'
  have hagree : flags.Agree settings settings' :=
    (Flags.agree_set .stop (by decide) settings none).trans
      (Flags.agree_set .reentry (by decide) _ none)
  exact ⟨hagree, by rfl, by rfl, by rfl, by rfl⟩

end Backtest
