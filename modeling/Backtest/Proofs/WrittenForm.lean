import Backtest.Proofs.DefinitionLanguage
import Backtest.Proofs.Members
import Backtest.Strategy.Reader
import Backtest.Strategy.Written

/-!
Strategies in their written form. Both ways of reading a document give back the strategy that was
written, whatever the order of the members.
-/

namespace Backtest

open Json Text

/-- An object with the members of a rule, in any order. -/
def Rule.Written (raw : Json) (rule : Rule Float) : Prop :=
  ∃ members, raw = .object members ∧ ∀ name, lookup? name members = lookup? name rule.members

/-- An object with the members of a strategy, in any order. -/
def Strategy.Written (value : Json) (strategy : Strategy Float) : Prop :=
  ∃ members raws, value = .object members ∧
    lookup? "name" members = some (.string strategy.name) ∧
    lookup? "rules" members = some (.array raws) ∧
    lookup? "combine" members = some (.string strategy.combine.word) ∧
    List.Forall₂ Rule.Written raws strategy.rules

theorem Strategy.written_toJson (strategy : Strategy Float) :
    Strategy.Written strategy.toJson strategy := by
  refine ⟨_, strategy.rules.map Rule.toJson, rfl, rfl, rfl, rfl, ?_⟩
  rw [List.forall₂_map_left_iff, List.forall₂_same]
  exact fun rule _ => ⟨rule.members, rfl, fun _ => rfl⟩

/-! ## Reading a definition -/

theorem gives_of_lookup? {β : Type} {members : List (String × Json)} {name : String}
    {standard b : β} {value : Json} {R : Json → β → Prop}
    (h : lookup? name members = some value) (hvalue : value.isNull = false) (hread : R value b) :
    Gives [] members name standard R b := by
  have hparameter : parameter? [] members name = some value := by
    unfold parameter?
    rw [present?_of_lookup? h hvalue]
    rfl
  unfold Gives
  rwa [hparameter]

theorem IsBarCount.isPeriod {period : Nat} (h : IsBarCount period) :
    IsPeriod (.natural period) period := by
  obtain ⟨hpos, hmax⟩ := h
  exact ⟨hpos, hmax, _, rfl, exactValue?_toFloat (by omega)⟩

theorem isPolarity_word (polarity : Polarity) : IsPolarity (.string polarity.word) polarity := by
  cases polarity with
  | above | below => exact ⟨_, rfl, by decide⟩

theorem isAverage_word (average : MovingAverage) :
    IsAverage (.string average.word) average := by
  cases average with
  | sma | ema => exact ⟨_, rfl, by decide⟩

theorem Rule.definedBy_of_written {raw : Json} {rule : Rule Float} (h : Rule.Written raw rule)
    (hvalid : rule.pattern.Valid) : Rule.DefinedBy raw rule := by
  obtain ⟨members, rfl, hmembers⟩ := h
  obtain ⟨pattern, enter, exit⟩ := rule
  have hown : OwnParameters members [] := by
    unfold OwnParameters present?
    rw [hmembers]
    cases pattern <;> simp [Rule.members, Pattern.members, lookup?]
  have hpolarity (name : String) (polarity standard : Polarity)
      (h : lookup? name members = some (.string polarity.word)) :
      Gives [] members name standard IsPolarity polarity :=
    gives_of_lookup? h rfl (isPolarity_word polarity)
  have htag {kind : RuleKind} (h : keyword pattern.kind ∈ kind.spellings) :
      Tagged members kind := by
    refine ⟨pattern.kind, ?_, h⟩
    rw [present?_of_lookup? (hmembers "type") rfl]
    rfl
  cases pattern with
  | maCross fast slow average =>
    obtain ⟨hfast, hslow⟩ := hvalid
    refine ⟨members, [], .maCross, rfl, htag (show keyword "ma_cross" ∈ _ by decide), hown, ?_⟩
    exact .maCross (gives_of_lookup? (hmembers "fast") rfl hfast.isPeriod)
      (gives_of_lookup? (hmembers "slow") rfl hslow.isPeriod)
      (gives_of_lookup? (hmembers "average") rfl (isAverage_word average))
      (hpolarity "enter" enter _ (hmembers "enter")) (hpolarity "exit" exit _ (hmembers "exit"))
  | rsiThreshold period low high =>
    obtain ⟨hperiod, hlow, hhigh, hbelow⟩ := hvalid
    refine ⟨members, [], .rsiThreshold, rfl, htag (show keyword "rsi_threshold" ∈ _ by decide), hown,
      ?_⟩
    exact .rsiThreshold (gives_of_lookup? (hmembers "low") rfl ⟨rfl, hlow⟩)
      (gives_of_lookup? (hmembers "high") rfl ⟨rfl, hhigh⟩) hbelow
      (gives_of_lookup? (hmembers "period") rfl hperiod.isPeriod)
      (hpolarity "enter" enter _ (hmembers "enter")) (hpolarity "exit" exit _ (hmembers "exit"))
  | macdCross fast slow signal =>
    obtain ⟨hfast, hslow, hsignal⟩ := hvalid
    refine ⟨members, [], .macdCross, rfl, htag (show keyword "macd_cross" ∈ _ by decide), hown, ?_⟩
    exact .macdCross (gives_of_lookup? (hmembers "fast") rfl hfast.isPeriod)
      (gives_of_lookup? (hmembers "slow") rfl hslow.isPeriod)
      (gives_of_lookup? (hmembers "signal") rfl hsignal.isPeriod)
      (hpolarity "enter" enter _ (hmembers "enter")) (hpolarity "exit" exit _ (hmembers "exit"))

theorem forall₂_definedBy_of_written {raws : List Json} {rules : List (Rule Float)}
    (h : List.Forall₂ Rule.Written raws rules) (hvalid : ∀ rule ∈ rules, rule.pattern.Valid) :
    List.Forall₂ Rule.DefinedBy raws rules := by
  induction h with
  | nil => exact .nil
  | cons hrule _ ih =>
    obtain ⟨hfirst, hrest⟩ := List.forall_mem_cons.1 hvalid
    exact .cons (Rule.definedBy_of_written hrule hfirst) (ih hrest)

theorem Strategy.define_of_written {value : Json} {strategy : Strategy Float}
    (h : Strategy.Written value strategy) (hvalid : strategy.Valid) :
    Strategy.define value = .ok strategy := by
  obtain ⟨members, raws, rfl, hname, hrules, hcombine, hraws⟩ := h
  rw [Strategy.define_eq_ok_iff]
  have hdefined := forall₂_definedBy_of_written hraws hvalid.rule_valid
  refine ⟨members, raws, rfl, ?_, ?_, present?_of_lookup? hrules rfl, ?_, hdefined⟩
  · unfold NameGiven
    rw [present?_of_lookup? hname rfl]
    refine ⟨strategy.name, rfl, ?_⟩
    rw [hvalid.trim_name, if_neg hvalid.name_ne]
  · unfold CombineGiven
    rw [present?_of_lookup? hcombine rfl]
    refine ⟨strategy.combine.word, rfl, ?_⟩
    cases strategy.combine <;> decide
  · rintro rfl
    exact hvalid.rules_ne (List.forall₂_nil_left_iff.1 hdefined)

/-! ## Reading the written form exactly -/

theorem Polarity.ofJson?_word (polarity : Polarity) :
    Polarity.ofJson? (.string polarity.word) = some polarity := by
  cases polarity with
  | above | below => rfl

theorem MovingAverage.ofJson?_word (average : MovingAverage) :
    MovingAverage.ofJson? (.string average.word) = some average := by
  cases average with
  | sma | ema => rfl

theorem Combine.ofJson?_word (combine : Combine) :
    Combine.ofJson? (.string combine.word) = some combine := by
  cases combine with
  | all | any => rfl

theorem record?_object {names : List String} {values : List Json}
    {members : List (String × Json)} (h : names.map (lookup? · members) = values.map some) :
    record? names (.object members) = some values := by
  have hall (values : List Json) : (values.map some).mapM id = some values := by
    induction values with
    | nil => rfl
    | cons value values ih =>
      rw [List.map_cons, List.mapM_cons, ih]
      rfl
  simp only [record?, fields?, h]
  exact hall values

theorem Rule.ofJson?_of_written {raw : Json} {rule : Rule Float} (h : Rule.Written raw rule) :
    Rule.ofJson? raw = some rule := by
  obtain ⟨members, rfl, hmembers⟩ := h
  have hlookup : (lookup? · members) = (lookup? · rule.members) := funext hmembers
  have hkind : lookup? "type" members = some (.string rule.kind) := hmembers "type"
  simp only [Rule.ofJson?, hkind, Option.bind_eq_bind, Option.bind_some, Json.string?]
  obtain ⟨pattern, enter, exit⟩ := rule
  cases pattern with
  | maCross fast slow average =>
    have hfields : record? ["fast", "slow", "average", "enter", "exit"] (.object members) =
        some [.natural fast, .natural slow, .string average.word, .string enter.word,
          .string exit.word] := record?_object (by rw [hlookup]; rfl)
    simp [Rule.kind, Pattern.kind, Rule.ofFields?, hfields, Json.natural?,
      Json.natural, Polarity.ofJson?_word, MovingAverage.ofJson?_word]
  | rsiThreshold period low high =>
    have hfields : record? ["period", "low", "high", "enter", "exit"] (.object members) =
        some [.natural period, .real low, .real high, .string enter.word,
          .string exit.word] := record?_object (by rw [hlookup]; rfl)
    simp [Rule.kind, Pattern.kind, Rule.ofFields?, hfields, Json.natural?,
      Json.natural, Json.float?, Json.real, Json.Number.toFloat, Polarity.ofJson?_word]
  | macdCross fast slow signal =>
    have hfields : record? ["fast", "slow", "signal", "enter", "exit"] (.object members) =
        some [.natural fast, .natural slow, .natural signal, .string enter.word,
          .string exit.word] := record?_object (by rw [hlookup]; rfl)
    simp [Rule.kind, Pattern.kind, Rule.ofFields?, hfields, Json.natural?,
      Json.natural, Polarity.ofJson?_word]

theorem mapM_ofJson?_of_written {raws : List Json} {rules : List (Rule Float)}
    (h : List.Forall₂ Rule.Written raws rules) : raws.mapM Rule.ofJson? = some rules := by
  induction h with
  | nil => rfl
  | cons hrule _ ih =>
    rw [List.mapM_cons, Rule.ofJson?_of_written hrule, ih]
    rfl

theorem Strategy.ofJson?_of_written {value : Json} {strategy : Strategy Float}
    (h : Strategy.Written value strategy) : Strategy.ofJson? value = some strategy := by
  obtain ⟨members, raws, rfl, hname, hrules, hcombine, hraws⟩ := h
  have hread := mapM_ofJson?_of_written hraws
  simp [Strategy.ofJson?, fields?, hname, hrules, hcombine, hread, Combine.ofJson?_word]

end Backtest
