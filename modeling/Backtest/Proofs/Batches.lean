import Backtest.Batch
import Backtest.Proofs.ExactArithmetic
import Backtest.Window

/-!
Batches of instruments. The first failure that counts ends a batch. Without one, every instrument
that has bars gets the result of a run of its own, in order, whatever the others have.
-/

namespace Backtest

variable {α : Type}

abbrev Fetched (α : Type) := Except Error (List (Bar α))

namespace Fetched

/-- A failure that counts: any other than missing data. -/
def failure? : Fetched α → Option Error
  | .ok _ => none
  | .error (.noData _) => none
  | .error e => some e

def bars? : Fetched α → Option (List (Bar α))
  | .ok (bar :: bars) => some (bar :: bars)
  | _ => none

/-- There are no bars, and that is no failure. -/
def isIdle (fetched : Fetched α) : Bool := fetched.failure?.isNone && fetched.bars?.isNone

theorem failure?_eq_some_iff {fetched : Fetched α} {e : Error} :
    fetched.failure? = some e ↔ fetched = .error e ∧ ∀ code, e ≠ .noData code := by
  cases fetched with
  | ok bars => simp [failure?]
  | error cause =>
    cases cause with
    | noData code =>
      refine ⟨nofun, ?_⟩
      rintro ⟨h, hcounts⟩
      exact absurd (Except.error.inj h).symm (hcounts code)
    | _ =>
      refine ⟨fun h => ⟨congrArg Except.error (Option.some.inj h), ?_⟩, fun h => ?_⟩
      · rintro code rfl
        cases h
      · exact congrArg some (Except.error.inj h.1)

theorem bars?_eq_some_iff {fetched : Fetched α} {bars : List (Bar α)} :
    fetched.bars? = some bars ↔ fetched = .ok bars ∧ bars ≠ [] := by
  cases fetched with
  | error e => simp [bars?]
  | ok given =>
    cases given with
    | nil =>
      refine ⟨nofun, ?_⟩
      rintro ⟨h, hne⟩
      exact absurd (Except.ok.inj h).symm hne
    | cons bar rest =>
      refine ⟨fun h => ⟨congrArg Except.ok (Option.some.inj h), ?_⟩, fun h => ?_⟩
      · rintro rfl
        cases h
      · exact congrArg some (Except.ok.inj h.1)

theorem isIdle_iff {fetched : Fetched α} :
    fetched.isIdle = true ↔ fetched = .ok [] ∨ ∃ code, fetched = .error (.noData code) := by
  cases fetched with
  | ok bars => cases bars <;> simp [isIdle, failure?, bars?]
  | error e => cases e <;> simp [isIdle, failure?, bars?]

end Fetched

namespace Batch

theorem collect_cons_snd (code : String) (fetched : Fetched α)
    (rest : List (String × Fetched α)) :
    (collect ((code, fetched) :: rest)).2 =
      match fetched.failure?, fetched.bars? with
      | some e, _ => .error e
      | none, some bars => (collect rest).2.map ((code, bars) :: ·)
      | none, none => (collect rest).2 := by
  cases fetched with
  | ok bars => cases bars <;> rfl
  | error e => cases e <;> rfl

theorem collect_of_failure {before : List (String × Fetched α)} {entry : String × Fetched α}
    {e : Error} (hbefore : ∀ earlier ∈ before, earlier.2.failure? = none)
    (h : entry.2.failure? = some e) (after : List (String × Fetched α)) :
    (collect (before ++ entry :: after)).2 = .error e := by
  induction before with
  | nil => rw [List.nil_append, collect_cons_snd, h]
  | cons first before ih =>
    have hfirst := hbefore first List.mem_cons_self
    have hrest := ih fun earlier hm => hbefore earlier (List.mem_cons_of_mem _ hm)
    rw [List.cons_append, collect_cons_snd, hfirst, hrest]
    cases first.2.bars? <;> rfl

theorem collect_of_sound {fetched : List (String × Fetched α)}
    (h : ∀ entry ∈ fetched, entry.2.failure? = none) :
    (collect fetched).2 =
      .ok (fetched.filterMap fun entry => entry.2.bars?.map (entry.1, ·)) := by
  induction fetched with
  | nil => rfl
  | cons first rest ih =>
    have hfirst := h first List.mem_cons_self
    have hrest := ih fun entry hm => h entry (List.mem_cons_of_mem _ hm)
    rw [collect_cons_snd, hfirst, hrest]
    cases hbars : first.2.bars? <;> simp [hbars, Except.map]

theorem sound_or_first_failure (fetch : String → Fetched α) (codes : List String) :
    (∀ code ∈ codes, (fetch code).failure? = none) ∨
      ∃ before code after e, codes = before ++ code :: after ∧ (fetch code).failure? = some e ∧
        ∀ earlier ∈ before, (fetch earlier).failure? = none := by
  cases hfind : codes.find? (fun code => (fetch code).failure?.isSome) with
  | none =>
    refine Or.inl fun code hm => ?_
    simpa using List.find?_eq_none.mp hfind code hm
  | some code =>
    obtain ⟨hfails, before, after, hcodes, hbefore⟩ := List.find?_eq_some_iff_append.mp hfind
    obtain ⟨e, he⟩ := Option.isSome_iff_exists.mp hfails
    refine Or.inr ⟨before, code, after, e, hcodes, he, fun earlier hm => ?_⟩
    simpa using hbefore earlier hm

theorem sound_filter_iff {fetch : String → Fetched α} {codes : List String} :
    (∀ code ∈ codes.filter (fun code => !(fetch code).isIdle), (fetch code).failure? = none) ↔
      ∀ code ∈ codes, (fetch code).failure? = none := by
  refine ⟨fun h code hm => ?_, fun h code hm => h code (List.mem_of_mem_filter hm)⟩
  by_cases hidle : (fetch code).isIdle = true
  · exact Option.isNone_iff_eq_none.mp (Bool.and_eq_true _ _ ▸ hidle).1
  · exact h code (List.mem_filter.mpr ⟨hm, by simpa using hidle⟩)

variable [Scalar α]

/-- One result for each instrument that has bars, from a run over these bars alone. -/
def soloResults (strategy : Strategy α) (options : Options α) (fetch : String → Fetched α)
    (codes : List String) : List (CodeResult α) :=
  codes.filterMap fun code =>
    (fetch code).bars?.map fun bars => ⟨code, Backtest.run strategy bars options⟩

variable {strategy : Strategy α} {options : Options α} {fetch : String → Fetched α}
  {codes : List String}

theorem run_of_failure {before after : List String} {code : String} {e : Error}
    (hcodes : codes = before ++ code :: after) (h : (fetch code).failure? = some e)
    (hbefore : ∀ earlier ∈ before, (fetch earlier).failure? = none) :
    (run strategy options codes fetch).2 = .error e := by
  have hcollect : (collect (codes.map fun code => (code, fetch code))).2 = .error e := by
    rw [hcodes, List.map_append, List.map_cons]
    refine collect_of_failure (fun entry hm => ?_) h _
    obtain ⟨earlier, hearlier, rfl⟩ := List.mem_map.mp hm
    exact hbefore earlier hearlier
  rw [run, ofFetched]
  simp only [hcollect]

theorem run_of_sound (h : ∀ code ∈ codes, (fetch code).failure? = none) :
    (run strategy options codes fetch).2 =
      if soloResults strategy options fetch codes = [] then
        .error (.noData (",".intercalate codes))
      else .ok (soloResults strategy options fetch codes) := by
  have hsound : ∀ entry ∈ codes.map (fun code => (code, fetch code)), entry.2.failure? = none := by
    intro entry hm
    obtain ⟨code, hcode, rfl⟩ := List.mem_map.mp hm
    exact h code hcode
  have hcollect := collect_of_sound hsound
  have hnames : (codes.map fun code => (code, fetch code)).map (·.1) = codes := by
    rw [List.map_map]
    exact List.map_id codes
  have hsolo : runAll strategy ((codes.map fun code => (code, fetch code)).filterMap
      fun entry => entry.2.bars?.map (entry.1, ·)) options =
        soloResults strategy options fetch codes := by
    rw [runAll, List.map_filterMap, List.filterMap_map]
    refine List.filterMap_congr fun code _ => ?_
    rw [Function.comp_apply, Option.map_map]
    rfl
  rw [run, ofFetched]
  generalize (codes.map fun code => (code, fetch code)).filterMap
    (fun entry => entry.2.bars?.map (entry.1, ·)) = series at hcollect hsolo
  simp only [hcollect, hnames, ← hsolo]
  cases series <;> simp [runAll]

theorem run_eq_ok_iff {results : List (CodeResult α)} :
    (run strategy options codes fetch).2 = .ok results ↔
      (∀ code ∈ codes, (fetch code).failure? = none) ∧ results ≠ [] ∧
        soloResults strategy options fetch codes = results := by
  rcases sound_or_first_failure fetch codes with hsound | ⟨before, code, after, e, hcodes, he, hbefore⟩
  · rw [run_of_sound hsound]
    by_cases hempty : soloResults strategy options fetch codes = []
    · rw [if_pos hempty, hempty]
      exact ⟨nofun, fun h => absurd h.2.2.symm h.2.1⟩
    · rw [if_neg hempty, Except.ok.injEq]
      refine ⟨fun h => ⟨hsound, h ▸ hempty, h⟩, fun h => h.2.2⟩
  · rw [run_of_failure hcodes he hbefore]
    refine ⟨nofun, fun h => ?_⟩
    have hnone := h.1 code (by simp [hcodes])
    rw [he] at hnone
    cases hnone

theorem soloResults_filter (strategy : Strategy α) (options : Options α)
    (fetch : String → Fetched α) (codes : List String) :
    soloResults strategy options fetch (codes.filter fun code => !(fetch code).isIdle) =
      soloResults strategy options fetch codes := by
  rw [soloResults, List.filterMap_filter]
  refine List.filterMap_congr fun code _ => ?_
  cases hbars : (fetch code).bars? <;> simp [Fetched.isIdle, hbars]

end Batch

/-- The first failure that counts, in the order of the codes, is the outcome of a batch. Without one
there is a result for each code that has bars, which is that of a run over these bars alone, and
if there is none, all codes are told to have no data. Codes without bars may come and go. -/
theorem batch_isolates_instruments [Scalar α] (strategy : Strategy α) (options : Options α)
    (window : Window) (fetch : String → Window → Fetched α) :
    let outcome (codes : List String) := (Batch.run strategy options codes (fetch · window)).2
    let counts (code : String) := !(fetch code window).isIdle
    (∀ before code after e, fetch code window = .error e → (∀ missing, e ≠ .noData missing) →
      (∀ earlier ∈ before, (fetch earlier window).failure? = none) →
      outcome (before ++ code :: after) = .error e) ∧
    (∀ codes : List String, (∀ code ∈ codes, (fetch code window).failure? = none) →
      ((∃ code ∈ codes, ∃ bars, fetch code window = .ok bars ∧ bars ≠ []) →
        outcome codes = .ok (codes.filterMap fun code =>
          (fetch code window).bars?.map fun bars => ⟨code, run strategy bars options⟩)) ∧
      ((∀ code ∈ codes, fetch code window = .ok [] ∨
          ∃ missing, fetch code window = .error (.noData missing)) →
        outcome codes = .error (.noData (",".intercalate codes)))) ∧
    ∀ codes codes' results, codes.filter counts = codes'.filter counts →
      outcome codes = .ok results → outcome codes' = .ok results := by
  intro outcome counts
  refine ⟨fun before code after e he hcounts hbefore => ?_, fun codes hsound => ⟨?_, ?_⟩, ?_⟩
  · exact Batch.run_of_failure rfl (Fetched.failure?_eq_some_iff.mpr ⟨he, hcounts⟩) hbefore
  · rintro ⟨code, hm, bars, hbars⟩
    refine Batch.run_eq_ok_iff.mpr ⟨hsound, ?_, rfl⟩
    have hsome := Fetched.bars?_eq_some_iff.mpr hbars
    exact List.ne_nil_of_mem (List.mem_filterMap.mpr ⟨code, hm, by rw [hsome]; rfl⟩)
  · intro hidle
    have hnone : Batch.soloResults strategy options (fetch · window) codes = [] := by
      rw [← Batch.soloResults_filter, List.filter_eq_nil_iff.mpr]
      · rfl
      · intro code hm
        simp [Fetched.isIdle_iff.mpr (hidle code hm)]
    simp only [outcome]
    rw [Batch.run_of_sound hsound, if_pos hnone]
  · intro codes codes' results hsame hok
    obtain ⟨hsound, hne, hsolo⟩ := Batch.run_eq_ok_iff.mp hok
    refine Batch.run_eq_ok_iff.mpr ⟨?_, hne, ?_⟩
    · rwa [← Batch.sound_filter_iff, ← hsame, Batch.sound_filter_iff]
    · rw [← Batch.soloResults_filter, ← hsame, Batch.soloResults_filter, hsolo]

/-- A source with bars for one code, and three codes that it has none for. -/
def oneInstrument (code : String) (_ : Window) : Fetched ℚ :=
  if code = "AAA" then .ok (dailyBars [10, 9, 8, 12, 7])
  else if code = "NEW" then .ok []
  else if code = "BAD" then .error (.data "bad row")
  else .error (.noData code)

theorem batch_isolates_instruments_mixed :
    let outcome (codes : List String) :=
      (Batch.run followTurns .standard codes (oneInstrument · ⟨none, none⟩)).2
    let solo : CodeResult ℚ := ⟨"AAA", run followTurns (dailyBars [10, 9, 8, 12, 7]) .standard⟩
    outcome (["AAA", "GONE"] ++ "BAD" :: ["AAA"]) = .error (.data "bad row") ∧
    outcome ["AAA", "GONE", "NEW", "AAA"] = .ok [solo, solo] ∧
    outcome ["AAA", "AAA"] = .ok [solo, solo] ∧
    outcome ["GONE", "NEW"] = .error (.noData (",".intercalate ["GONE", "NEW"])) := by
  intro outcome solo
  obtain ⟨hfails, hsound, hsame⟩ :=
    batch_isolates_instruments followTurns .standard ⟨none, none⟩ oneInstrument
  have hok : outcome ["AAA", "GONE", "NEW", "AAA"] = .ok [solo, solo] :=
    (hsound ["AAA", "GONE", "NEW", "AAA"] (by decide)).1
      ⟨"AAA", by decide, dailyBars [10, 9, 8, 12, 7], rfl, by decide⟩
  refine ⟨hfails _ _ _ _ rfl (by simp) (by decide), hok, hsame _ _ _ (by decide) hok, ?_⟩
  refine (hsound ["GONE", "NEW"] (by decide)).2 fun code hm => ?_
  rcases List.mem_pair.mp hm with rfl | rfl
  · exact Or.inr ⟨"GONE", rfl⟩
  · exact Or.inl rfl

end Backtest
