import Backtest.Proofs.FlagPrecedence
import Backtest.Proofs.TextPieces

/-!
One value, given by a flag or by the settings. Both ways lead to the same run, unless the value
given by the settings collides there with a date that a flag replaces.
-/

namespace Backtest

open Text

/-! ## Giving a value -/

def Flags.give (flags : Flags) : Choice → String → Flags
  | .codes, x => { flags with codes := some x }
  | .start, x => { flags with start := some x }
  | .stop, x => { flags with stop := some x }
  | .reentry, x => { flags with reentry := some x }
  | .endOfSeries, x => { flags with endOfSeries := some x }

theorem Choice.flag?_give (flags : Flags) (choice other : Choice) (x : String) :
    other.flag? (flags.give choice x) = if other = choice then some x else other.flag? flags := by
  cases choice <;> cases other <;> rfl

namespace Settings

variable {settings : Settings} {key : String} {β : Type} {standard : β}
  {read : String → Except Error β}

theorem get_of_missing (h : settings.value? runPart key = none) :
    settings.get key standard read = .ok standard := by
  simp [get, given?, h]

theorem get_set {x : String} (hx : trim x ≠ "") :
    (settings.set key (some x)).get key standard read = read (trim x) := by
  have hgiven : (settings.set key (some x)).given? key = some (trim x) := by
    simp [given?, set, Option.filter_some, hx]
  rw [get, hgiven]

theorem get_set_of_ne {other : String} (h : other ≠ key) (value : Option String) :
    (settings.set key value).get other standard read = settings.get other standard read :=
  get_congr (by simp [set, h]) standard read

end Settings

/-! ## Blanks around a value -/

theorem Date.ofSetting_trim (key x : String) :
    Date.ofSetting key (trim x) = Date.ofSetting key x := by
  simp only [Date.ofSetting, Date.read?, toList_trim, trimChars_trimChars]

theorem Reentry.ofSetting_trim (x : String) : Reentry.ofSetting (trim x) = Reentry.ofSetting x := by
  simp only [Reentry.ofSetting, trim_trim]

theorem EndOfSeries.ofSetting_trim (x : String) :
    EndOfSeries.ofSetting (trim x) = EndOfSeries.ofSetting x := by
  simp only [EndOfSeries.ofSetting, trim_trim]

/-! ## What counts, either way -/

section

variable {flags : Flags} {settings : Settings} {choice : Choice} {x : String}
  (hflag : choice.flag? flags = none) (hx : trim x ≠ "")

include hflag hx

theorem Flags.effective_give {β : Type} {standard : β} {read : String → Except Error β}
    (hread : read (trim x) = read x) (other : Choice) :
    (flags.give choice x).effective settings other standard read =
      flags.effective (settings.set choice.key (some x)) other standard read := by
  unfold effective
  rw [Choice.flag?_give]
  by_cases hother : other = choice
  · subst hother
    simp [hflag, Settings.get_set hx, hread]
  · simp only [if_neg hother, Settings.get_set_of_ne (Choice.key_ne hother)]

theorem Flags.effectiveWindow_give :
    (flags.give choice x).effectiveWindow settings =
      flags.effectiveWindow (settings.set choice.key (some x)) := by
  unfold effectiveWindow
  rw [effective_give hflag hx (by rw [Date.ofSetting_trim]) .start,
    effective_give hflag hx (by rw [Date.ofSetting_trim]) .stop]

theorem Flags.effectiveOptions_give :
    (flags.give choice x).effectiveOptions settings =
      flags.effectiveOptions (settings.set choice.key (some x)) := by
  simp only [effectiveOptions, effective_give hflag hx (Reentry.ofSetting_trim x),
    effective_give hflag hx (EndOfSeries.ofSetting_trim x),
    Settings.get_set_of_ne choice.equityBase_ne_key]

end

/-! ## What is checked, either way -/

namespace Settings

/-- Both dates can be read, and the first does not come before the last. -/
def Crossed (settings : Settings) : Prop :=
  ∃ first last, settings.date "start_date" = .ok (some first) ∧
    settings.date "end_date" = .ok (some last) ∧ first.before last = false

variable {settings : Settings} {choice : Choice} {value : Option String}

theorem exists_window_iff :
    (∃ window, settings.window = .ok window) ↔
      (∃ first, settings.date "start_date" = .ok first) ∧
      (∃ last, settings.date "end_date" = .ok last) ∧ ¬ settings.Crossed := by
  rw [window_eq_effective]
  simp only [Flags.effectiveWindow_eq_ok_iff]
  constructor
  · rintro ⟨window, hfirst, hlast, hmake⟩
    refine ⟨⟨_, hfirst⟩, ⟨_, hlast⟩, ?_⟩
    rintro ⟨first, last, hfirst', hlast', hbefore⟩
    have hlt := (Window.make_eq_ok_iff.1 hmake).2 first last
      (Except.ok.inj (hfirst.symm.trans hfirst')) (Except.ok.inj (hlast.symm.trans hlast'))
    simp [hlt] at hbefore
  · rintro ⟨⟨first, hfirst⟩, ⟨last, hlast⟩, hcrossed⟩
    refine ⟨⟨first, last⟩, hfirst, hlast, Window.make_eq_ok_iff.2 ⟨rfl, ?_⟩⟩
    rintro a b rfl rfl
    by_contra hbefore
    exact hcrossed ⟨a, b, hfirst, hlast, by simpa using hbefore⟩

theorem exists_options_iff :
    (∃ options, settings.options = .ok options) ↔
      (∃ base, settings.get "equity_base" (Options.standard : Options Float).equityBase
        equityBaseOf = .ok base) ∧
      (∃ policy, settings.get "reentry" (Options.standard : Options Float).reentry
        Reentry.ofSetting = .ok policy) ∧
      ∃ policy, settings.get "end_of_series" (Options.standard : Options Float).endOfSeries
        EndOfSeries.ofSetting = .ok policy := by
  rw [options_eq_effective]
  simp only [Flags.effectiveOptions_eq_ok_iff]
  constructor
  · rintro ⟨options, hbase, hreentry, hend⟩
    exact ⟨⟨_, hbase⟩, ⟨_, hreentry⟩, ⟨_, hend⟩⟩
  · rintro ⟨⟨base, hbase⟩, ⟨reentry, hreentry⟩, ⟨endOfSeries, hend⟩⟩
    exact ⟨⟨base, reentry, endOfSeries⟩, hbase, hreentry, hend⟩

theorem window_of_crossed (h : settings.Crossed) :
    settings.window =
      .error (.settingInvalid "backtest" "start_date" "start_date must be before end_date") := by
  obtain ⟨first, last, hfirst, hlast, hbefore⟩ := h
  simp only [window, hfirst, ok_bind, hlast, Window.make, hbefore, Bool.false_eq_true, if_false]

section

variable {β : Type} {standard : β} {read : String → Except Error β}
  (hmissing : settings.value? runPart choice.key = none)

include hmissing

theorem exists_get_of_set {other : String}
    (h : ∃ b, (settings.set choice.key value).get other standard read = .ok b) :
    ∃ b, settings.get other standard read = .ok b := by
  by_cases hother : other = choice.key
  · subst hother
    exact ⟨standard, get_of_missing hmissing⟩
  · rwa [get_set_of_ne hother] at h

theorem Crossed.set (h : settings.Crossed) : (settings.set choice.key value).Crossed := by
  obtain ⟨first, last, hfirst, hlast, hbefore⟩ := h
  -- A key that is missing gives no date.
  have hne {key : String} {date : Date} (hdate : settings.date key = .ok (some date)) :
      key ≠ choice.key := by
    rintro rfl
    rw [Settings.date, get_of_missing hmissing] at hdate
    cases hdate
  refine ⟨first, last, ?_, ?_, hbefore⟩
  · rw [Settings.date, get_set_of_ne (hne hfirst)]
    exact hfirst
  · rw [Settings.date, get_set_of_ne (hne hlast)]
    exact hlast

end

theorem exists_get_set {flags : Flags} {β : Type} {standard : β} {read : String → Except Error β}
    (other : Choice) (hflag : choice.flag? flags = none)
    (h : ∃ b, settings.get other.key standard read = .ok b)
    (heffective : ∃ b,
      flags.effective (settings.set choice.key value) other standard read = .ok b) :
    ∃ b, (settings.set choice.key value).get other.key standard read = .ok b := by
  by_cases hother : other = choice
  · subst hother
    simpa only [Flags.effective, hflag] using heffective
  · rwa [get_set_of_ne (Choice.key_ne hother)]

end Settings

/-! ## Both ways -/

section

variable {flags : Flags} {settings : Settings} {choice : Choice} {x : String}
  (hflag : choice.flag? flags = none) (hmissing : settings.value? runPart choice.key = none)

include hflag hmissing

theorem Flags.instruments_give :
    (flags.give choice x).instruments settings =
      flags.instruments (settings.set choice.key (some x)) := by
  unfold instruments
  cases choice with
  | codes => simp_all [give, Choice.flag?, Settings.list, Settings.set, Choice.key]
  | start | stop | reentry | endOfSeries =>
    simp [give, Settings.list, Settings.set, Choice.key]

variable (hx : trim x ≠ "")

include hx

theorem Flags.options_give (options : Options Float) :
    (flags.give choice x).options settings = .ok options ↔
      flags.options (settings.set choice.key (some x)) = .ok options := by
  rw [options_eq_ok_iff, options_eq_ok_iff, effectiveOptions_give hflag hx,
    Settings.exists_options_iff, Settings.exists_options_iff]
  constructor
  · rintro ⟨⟨hb, hr, he⟩, heffective⟩
    -- What counts has been read, so that it is right where it is set, too.
    obtain ⟨-, hreentry, hend⟩ := effectiveOptions_eq_ok_iff.1 heffective
    refine ⟨⟨?_, ?_, ?_⟩, heffective⟩
    · rwa [Settings.get_set_of_ne choice.equityBase_ne_key]
    · exact Settings.exists_get_set .reentry hflag hr ⟨_, hreentry⟩
    · exact Settings.exists_get_set .endOfSeries hflag he ⟨_, hend⟩
  · rintro ⟨⟨hb, hr, he⟩, heffective⟩
    exact ⟨⟨Settings.exists_get_of_set hmissing hb, Settings.exists_get_of_set hmissing hr,
      Settings.exists_get_of_set hmissing he⟩, heffective⟩

theorem Flags.window_give (window : Window)
    (hapart : ¬ (settings.set choice.key (some x)).Crossed ∨
      flags.start = none ∧ flags.stop = none) :
    (flags.give choice x).window settings = .ok window ↔
      flags.window (settings.set choice.key (some x)) = .ok window := by
  rw [window_eq_ok_iff, window_eq_ok_iff, effectiveWindow_give hflag hx]
  constructor
  · rintro ⟨hconfigured, heffective⟩
    refine ⟨?_, heffective⟩
    obtain ⟨hf, hl, -⟩ := Settings.exists_window_iff.1 hconfigured
    rcases hapart with hcrossed | ⟨hstart, hstop⟩
    · obtain ⟨hfirst, hlast, -⟩ := effectiveWindow_eq_ok_iff.1 heffective
      exact Settings.exists_window_iff.2
        ⟨Settings.exists_get_set .start hflag hf ⟨_, hfirst⟩,
          Settings.exists_get_set .stop hflag hl ⟨_, hlast⟩, hcrossed⟩
    · refine ⟨window, ?_⟩
      rw [Settings.window_eq_effective, ← heffective]
      simp [effectiveWindow, effective, Choice.flag?, hstart, hstop]
  · rintro ⟨hconfigured, heffective⟩
    refine ⟨?_, heffective⟩
    obtain ⟨hf, hl, hcrossed⟩ := Settings.exists_window_iff.1 hconfigured
    exact Settings.exists_window_iff.2 ⟨Settings.exists_get_of_set hmissing hf,
      Settings.exists_get_of_set hmissing hl, fun h => hcrossed (h.set hmissing)⟩

end

/-- A value leads to the same run whether a flag or the settings give it: to the same codes, and to
the same options and window or to none. The one exception is a date that collides with the other
date of the settings, and only where a flag replaces that one. Codes are the segments between
commas, trimmed, without the empty ones. -/
theorem flag_or_setting_alike (flags : Flags) (settings : Settings) :
    (∀ (choice : Choice) (x : String), choice.flag? flags = none →
      settings.value? runPart choice.key = none → trim x ≠ "" →
        let byFlag := flags.give choice x
        let bySetting := settings.set choice.key (some x)
        byFlag.instruments settings = flags.instruments bySetting ∧
        (∀ options, byFlag.options settings = .ok options ↔
          flags.options bySetting = .ok options) ∧
        (¬ bySetting.Crossed ∨ flags.start = none ∧ flags.stop = none →
          ∀ window, byFlag.window settings = .ok window ↔
            flags.window bySetting = .ok window) ∧
        (bySetting.Crossed → flags.window bySetting = .error
          (.settingInvalid "backtest" "start_date" "start_date must be before end_date"))) ∧
    (∀ x : String, ∃ segments : List String, (∀ segment ∈ segments, ',' ∉ segment.toList) ∧
      ",".intercalate segments = x ∧
      (flags.give .codes x).instruments settings = (segments.map trim).filter (· ≠ "") ∧
      (flags.codes = none → flags.instruments (settings.set "codes" (some x)) =
        (segments.map trim).filter (· ≠ ""))) ∧
    ∀ codes : List String,
      (∀ code ∈ codes, code ≠ "" ∧ trim code = code ∧ ',' ∉ code.toList) →
        (flags.give .codes (",".intercalate codes)).instruments settings = codes ∧
        (flags.codes = none →
          flags.instruments (settings.set "codes" (some (",".intercalate codes))) = codes) := by
  have hset (x : String) (h : flags.codes = none) :
      flags.instruments (settings.set "codes" (some x)) = listed x := by
    simp [Flags.instruments, h, Settings.list, Settings.set]
  refine ⟨fun choice x hflag hmissing hx => ⟨Flags.instruments_give hflag hmissing,
    Flags.options_give hflag hmissing hx, fun hapart window =>
      Flags.window_give hflag hmissing hx window hapart, fun hcrossed =>
      Flags.window_of_error (Settings.window_of_crossed hcrossed)⟩, fun x => ?_, fun codes h => ?_⟩
  · obtain ⟨segments, hfree, rfl⟩ := exists_segments x
    have hlisted := listed_intercalate hfree
    exact ⟨segments, hfree, rfl, hlisted, fun h => (hset _ h).trans hlisted⟩
  · have hlisted := listed_intercalate_of_trimmed h
    exact ⟨hlisted, fun hflag => (hset _ hflag).trans hlisted⟩

theorem flag_or_setting_alike_spaced :
    let flags : Flags := { stop := some "2022-12-31" }
    let settings := Settings.ofRun [("end_date", "2021-06-30")]
    let bySetting := settings.set "start_date" (some " 2021-01-04 ")
    let window : Window := ⟨some (Date.ofCivil ⟨2021, 1, 4⟩), some (Date.ofCivil ⟨2022, 12, 31⟩)⟩
    flags.start = none ∧ settings.value? runPart "start_date" = none ∧ trim " 2021-01-04 " ≠ "" ∧
    ¬ bySetting.Crossed ∧ (flags.give .start " 2021-01-04 ").window settings = .ok window ∧
    flags.window bySetting = .ok window ∧
    (flags.give .codes (",".intercalate ["AAA", "B C"])).instruments settings = ["AAA", "B C"] := by
  intro flags settings bySetting window
  obtain ⟨hgiven, -, hcodes⟩ := flag_or_setting_alike flags settings
  have hcrossed : ¬ bySetting.Crossed :=
    (Settings.exists_window_iff.1 ⟨⟨some (Date.ofCivil ⟨2021, 1, 4⟩),
      some (Date.ofCivil ⟨2021, 6, 30⟩)⟩, by rfl⟩).2.2
  have hwindow : (flags.give .start " 2021-01-04 ").window settings = .ok window := by rfl
  have halike := (hgiven .start " 2021-01-04 " rfl rfl (by decide)).2.2.1 (Or.inl hcrossed) window
  exact ⟨rfl, rfl, by decide, hcrossed, hwindow, halike.1 hwindow,
    (hcodes ["AAA", "B C"] (by decide)).1⟩

/-- A start that is right beside the end of the flag. Given by a flag it makes a window, and given
by the settings it collides with their own end, which does not count. -/
theorem start_of_settings_collides :
    let flags : Flags := { stop := some "2022-12-31" }
    let settings := Settings.ofRun [("end_date", "2021-06-30")]
    Choice.flag? flags .start = none ∧ settings.value? runPart Choice.start.key = none ∧
    trim "2022-01-01" ≠ "" ∧
    (flags.give .start "2022-01-01").window settings =
      .ok ⟨some (Date.ofCivil ⟨2022, 1, 1⟩), some (Date.ofCivil ⟨2022, 12, 31⟩)⟩ ∧
    flags.window (settings.set Choice.start.key (some "2022-01-01")) =
      .error (.settingInvalid "backtest" "start_date" "start_date must be before end_date") := by
  exact ⟨by rfl, by rfl, by decide, by rfl, by rfl⟩

end Backtest
