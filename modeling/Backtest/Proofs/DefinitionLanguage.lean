import Mathlib.Data.List.Forall2
import Backtest.Proofs.ParameterValues
import Backtest.Proofs.TextPieces
import Backtest.Strategy.Definition

/-!
The language of strategy definitions as a relation between documents and strategies, without any
order of checks. Reading a document gives exactly the strategy that it is related to, and every
strategy that some document is related to is valid.
-/

namespace Backtest

open Json Text

/-! ## Spellings -/

def RuleKind.spellings : RuleKind → List String
  | .maCross => ["ma_cross", "sma_cross", "moving_average_cross"]
  | .rsiThreshold => ["rsi_threshold", "rsi", "momentum_oscillator_threshold"]
  | .macdCross => ["macd_cross", "macd", "trend_signal_cross"]

def Combine.spellings : Combine → List String
  | .all => ["all", "and"]
  | .any => ["any", "or"]

theorem RuleKind.ofKeyword?_eq_some_iff {s : String} {kind : RuleKind} :
    RuleKind.ofKeyword? s = some kind ↔ s ∈ kind.spellings := by
  cases kind with
  | maCross | rsiThreshold | macdCross =>
    unfold RuleKind.ofKeyword? spellings
    split <;> grind

theorem Combine.ofKeyword?_eq_some_iff {s : String} {combine : Combine} :
    Combine.ofKeyword? s = some combine ↔ s ∈ combine.spellings := by
  cases combine with
  | all | any =>
    unfold Combine.ofKeyword? spellings
    split <;> grind

/-! ## Parameters -/

section Parameters

variable (own members : List (String × Json))

/-- Where a parameter of a rule is found: in the object of parameters first. -/
def parameter? (name : String) : Option Json :=
  (present? name own).or (present? name members)

/-- The value of a parameter, which is the standard one where the parameter is missing. -/
def Gives {β : Type} (name : String) (standard : β) (R : Json → β → Prop) (b : β) : Prop :=
  match parameter? own members name with
  | none => b = standard
  | some value => R value b

def Below (low high : Float) : Prop :=
  ∃ p q, exactValue? low = some p ∧ exactValue? high = some q ∧ p < q

/-- The rule of a kind that the parameters ask for. -/
inductive RuleKind.Reads : RuleKind → Rule Float → Prop
  | maCross {fast slow : Nat} {average : MovingAverage} {enter exit : Polarity}
      (hfast : Gives own members "fast" 10 IsPeriod fast)
      (hslow : Gives own members "slow" 30 IsPeriod slow)
      (haverage : Gives own members "average" .sma IsAverage average)
      (henter : Gives own members "enter" .above IsPolarity enter)
      (hexit : Gives own members "exit" .below IsPolarity exit) :
      Reads .maCross ⟨.maCross fast slow average, enter, exit⟩
  | rsiThreshold {period : Nat} {low high : Float} {enter exit : Polarity}
      (hlow : Gives own members "low" 30 IsThreshold low)
      (hhigh : Gives own members "high" 70 IsThreshold high)
      (hbelow : Below low high)
      (hperiod : Gives own members "period" 14 IsPeriod period)
      (henter : Gives own members "enter" .above IsPolarity enter)
      (hexit : Gives own members "exit" .above IsPolarity exit) :
      Reads .rsiThreshold ⟨.rsiThreshold period low high, enter, exit⟩
  | macdCross {fast slow signal : Nat} {enter exit : Polarity}
      (hfast : Gives own members "fast" 12 IsPeriod fast)
      (hslow : Gives own members "slow" 26 IsPeriod slow)
      (hsignal : Gives own members "signal" 9 IsPeriod signal)
      (henter : Gives own members "enter" .above IsPolarity enter)
      (hexit : Gives own members "exit" .below IsPolarity exit) :
      Reads .macdCross ⟨.macdCross fast slow signal, enter, exit⟩

end Parameters

/-! ## Documents -/

/-- The tag of a rule, under either of two names. -/
def Tagged (members : List (String × Json)) (kind : RuleKind) : Prop :=
  ∃ tag, (present? "type" members).or (present? "kind" members) = some (.string tag) ∧
    keyword tag ∈ kind.spellings

def OwnParameters (members own : List (String × Json)) : Prop :=
  match present? "params" members with
  | none => own = []
  | some value => value = .object own

def Rule.DefinedBy (raw : Json) (rule : Rule Float) : Prop :=
  ∃ members own kind, raw = .object members ∧ Tagged members kind ∧ OwnParameters members own ∧
    kind.Reads own members rule

def NameGiven (members : List (String × Json)) (name : String) : Prop :=
  match present? "name" members with
  | none => name = "Unnamed strategy"
  | some value =>
    ∃ s, value = .string s ∧ name = if trim s = "" then "Unnamed strategy" else trim s

def CombineGiven (members : List (String × Json)) (combine : Combine) : Prop :=
  match present? "combine" members with
  | none => combine = .all
  | some value => ∃ s, value = .string s ∧ lowercase (trim s) ∈ combine.spellings

/-- The strategy has one rule for each element of the list, in order. -/
def Strategy.DefinedBy (value : Json) (strategy : Strategy Float) : Prop :=
  ∃ members raws, value = .object members ∧ NameGiven members strategy.name ∧
    CombineGiven members strategy.combine ∧ present? "rules" members = some (.array raws) ∧
    raws ≠ [] ∧ List.Forall₂ Rule.DefinedBy raws strategy.rules

/-! ## Reading rules -/

theorem Parameters.get_eq_ok_iff {p : Parameters} {β : Type} {name : String} {standard b : β}
    {read : Json → Except ParameterFault β} {R : Json → β → Prop}
    (hread : ∀ value b, read value = .ok b ↔ R value b) :
    p.get name standard read = .ok b ↔ Gives p.own p.inline name standard R b := by
  have hfind : p.find? name = parameter? p.own p.inline name := rfl
  unfold Parameters.get Gives
  rw [hfind]
  cases parameter? p.own p.inline name with
  | none => exact ok_eq_ok_iff
  | some value => exact mapError_eq_ok_iff.trans (hread value b)

theorem below_iff {low high : Float} (hlow : OnScale low) (hhigh : OnScale high) :
    Below low high ↔ Scalar.lt low high = true := by
  obtain ⟨p, hp, -⟩ := hlow
  obtain ⟨q, hq, -⟩ := hhigh
  have hlt : Scalar.lt low high = true ↔ low < high := decide_eq_true_iff
  rw [hlt, lt_iff_exactValue_lt hp hq]
  simp [Below, hp, hq]

theorem Gives.of {own members : List (String × Json)} {β : Type} {name : String}
    {standard b : β} {R : Json → β → Prop} {P : β → Prop} (h : Gives own members name standard R b)
    (hstandard : P standard) (hread : ∀ value, R value b → P b) : P b := by
  unfold Gives at h
  split at h
  · rwa [h]
  · exact hread _ h

theorem onScale_ofNat {n : Nat} (hn : n ≤ 100) : OnScale (OfNat.ofNat n) := by
  have hn' : (n : ℚ) ≤ 100 := by exact_mod_cast hn
  exact ⟨n, exactValue?_toFloat (by omega), n.cast_nonneg, hn'⟩

theorem maCrossOf_eq_ok_iff {p : Parameters} {rule : Rule Float} :
    maCrossOf p = .ok rule ↔ RuleKind.Reads p.own p.inline .maCross rule := by
  unfold maCrossOf
  simp only [bind_eq_ok_iff, pure_eq_ok_iff, Parameters.get_eq_ok_iff periodOf_eq_ok_iff,
    Parameters.get_eq_ok_iff averageOf_eq_ok_iff, Parameters.get_eq_ok_iff polarityOf_eq_ok_iff]
  constructor
  · rintro ⟨fast, hfast, slow, hslow, average, haverage, enter, henter, exit, hexit, rfl⟩
    exact .maCross hfast hslow haverage henter hexit
  · rintro ⟨hfast, hslow, haverage, henter, hexit⟩
    exact ⟨_, hfast, _, hslow, _, haverage, _, henter, _, hexit, rfl⟩

theorem rsiThresholdOf_eq_ok_iff {p : Parameters} {rule : Rule Float} :
    rsiThresholdOf p = .ok rule ↔ RuleKind.Reads p.own p.inline .rsiThreshold rule := by
  have hscale {low high : Float} (hlow : Gives p.own p.inline "low" 30 IsThreshold low)
      (hhigh : Gives p.own p.inline "high" 70 IsThreshold high) :
      Below low high ↔ Scalar.lt low high = true :=
    below_iff (hlow.of (onScale_ofNat (by decide)) fun _ h => h.2)
      (hhigh.of (onScale_ofNat (by decide)) fun _ h => h.2)
  unfold rsiThresholdOf
  simp only [bind_eq_ok_iff, Parameters.get_eq_ok_iff thresholdOf_eq_ok_iff]
  constructor
  · rintro ⟨low, hlow, high, hhigh, h⟩
    by_cases hlt : Scalar.lt low high = true
    · rw [if_neg (by simp [hlt])] at h
      simp only [bind_eq_ok_iff, pure_eq_ok_iff, Parameters.get_eq_ok_iff periodOf_eq_ok_iff,
        Parameters.get_eq_ok_iff polarityOf_eq_ok_iff] at h
      obtain ⟨period, hperiod, enter, henter, exit, hexit, rfl⟩ := h
      exact .rsiThreshold hlow hhigh ((hscale hlow hhigh).2 hlt) hperiod henter hexit
    · rw [if_pos (by simp [hlt])] at h
      cases h
  · intro h
    cases h with
    | rsiThreshold hlow hhigh hbelow hperiod henter hexit =>
      refine ⟨_, hlow, _, hhigh, ?_⟩
      rw [if_neg (by simp [(hscale hlow hhigh).1 hbelow])]
      simp only [bind_eq_ok_iff, pure_eq_ok_iff, Parameters.get_eq_ok_iff periodOf_eq_ok_iff,
        Parameters.get_eq_ok_iff polarityOf_eq_ok_iff]
      exact ⟨_, hperiod, _, henter, _, hexit, rfl⟩

theorem macdCrossOf_eq_ok_iff {p : Parameters} {rule : Rule Float} :
    macdCrossOf p = .ok rule ↔ RuleKind.Reads p.own p.inline .macdCross rule := by
  unfold macdCrossOf
  simp only [bind_eq_ok_iff, pure_eq_ok_iff, Parameters.get_eq_ok_iff periodOf_eq_ok_iff,
    Parameters.get_eq_ok_iff polarityOf_eq_ok_iff]
  constructor
  · rintro ⟨fast, hfast, slow, hslow, signal, hsignal, enter, henter, exit, hexit, rfl⟩
    exact .macdCross hfast hslow hsignal henter hexit
  · intro h
    cases h with
    | macdCross hfast hslow hsignal henter hexit =>
      exact ⟨_, hfast, _, hslow, _, hsignal, _, henter, _, hexit, rfl⟩

theorem RuleKind.ruleOf_eq_ok_iff {kind : RuleKind} {p : Parameters} {rule : Rule Float} :
    kind.ruleOf p = .ok rule ↔ kind.Reads p.own p.inline rule := by
  cases kind with
  | maCross => exact maCrossOf_eq_ok_iff
  | rsiThreshold => exact rsiThresholdOf_eq_ok_iff
  | macdCross => exact macdCrossOf_eq_ok_iff

theorem kindOf_eq_ok_iff {index : Nat} {members : List (String × Json)} {kind : RuleKind} :
    kindOf index members = .ok kind ↔ Tagged members kind := by
  unfold Tagged
  simp only [← RuleKind.ofKeyword?_eq_some_iff]
  fun_cases kindOf index members with
  | case1 htag =>
    constructor
    · rintro ⟨⟩
    · rintro ⟨tag, htag', -⟩
      cases htag.symm.trans htag'
  | case2 tag htag found hfound =>
    constructor
    · rintro ⟨⟩
      exact ⟨tag, htag, hfound⟩
    · rintro ⟨tag', htag', hkind⟩
      obtain rfl : tag = tag' := Json.string.inj (Option.some.inj (htag.symm.trans htag'))
      exact congrArg _ (Option.some.inj (hfound.symm.trans hkind))
  | case3 tag htag hfound =>
    constructor
    · rintro ⟨⟩
    · rintro ⟨tag', htag', hkind⟩
      obtain rfl : tag = tag' := Json.string.inj (Option.some.inj (htag.symm.trans htag'))
      cases hfound.symm.trans hkind
  | case4 other hother htag =>
    constructor
    · rintro ⟨⟩
    · rintro ⟨tag, htag', -⟩
      exact (hother tag (Option.some.inj (htag.symm.trans htag'))).elim

theorem ownParameters_eq_ok_iff {index : Nat} {members own : List (String × Json)} :
    ownParameters index members = .ok own ↔ OwnParameters members own := by
  unfold ownParameters OwnParameters
  cases present? "params" members with
  | none => exact ok_eq_ok_iff
  | some value =>
    cases value with
    | object found => simp
    | null | bool | number | string | array => simp

theorem Rule.define_eq_ok_iff {index : Nat} {raw : Json} {rule : Rule Float} :
    Rule.define index raw = .ok rule ↔ Rule.DefinedBy raw rule := by
  unfold Rule.DefinedBy
  cases raw with
  | object members =>
    simp only [Rule.define, bind_eq_ok_iff, kindOf_eq_ok_iff, ownParameters_eq_ok_iff,
      RuleKind.ruleOf_eq_ok_iff]
    constructor
    · rintro ⟨kind, hkind, own, hown, h⟩
      exact ⟨members, own, kind, rfl, hkind, hown, h⟩
    · rintro ⟨_, own, kind, ⟨⟩, hkind, hown, h⟩
      exact ⟨kind, hkind, own, hown, h⟩
  | null | bool | number | string | array => simp [Rule.define]

theorem Rule.defineAll_eq_ok_iff {index : Nat} {raws : List Json} {rules : List (Rule Float)} :
    Rule.defineAll index raws = .ok rules ↔ List.Forall₂ Rule.DefinedBy raws rules := by
  induction raws generalizing index rules with
  | nil => simp [Rule.defineAll, eq_comm]
  | cons raw raws ih =>
    simp only [Rule.defineAll, bind_eq_ok_iff, pure_eq_ok_iff, Rule.define_eq_ok_iff, ih,
      List.forall₂_cons_left_iff]
    constructor
    · rintro ⟨rule, hrule, rest, hrest, rfl⟩
      exact ⟨rule, rest, hrule, hrest, rfl⟩
    · rintro ⟨rule, rest, hrule, hrest, rfl⟩
      exact ⟨rule, hrule, rest, hrest, rfl⟩

/-! ## Reading strategies -/

theorem nameOf_eq_ok_iff {members : List (String × Json)} {name : String} :
    nameOf members = .ok name ↔ NameGiven members name := by
  unfold nameOf NameGiven
  cases present? "name" members with
  | none => exact ok_eq_ok_iff
  | some value =>
    cases value with
    | string s =>
      simp only [trim_eq_empty_iff, unnamed]
      constructor
      · intro h
        exact ⟨s, rfl, (Except.ok.inj h).symm⟩
      · rintro ⟨_, ⟨⟩, rfl⟩
        rfl
    | null | bool | number | array | object => simp

theorem combineOf_eq_ok_iff {members : List (String × Json)} {combine : Combine} :
    combineOf members = .ok combine ↔ CombineGiven members combine := by
  unfold combineOf CombineGiven
  simp only [← Combine.ofKeyword?_eq_some_iff]
  cases present? "combine" members with
  | none => exact ok_eq_ok_iff
  | some value =>
    cases value with
    | string s =>
      simp only [Json.string?, Option.bind_some]
      cases h : Combine.ofKeyword? (lowercase (trim s)) with
      | none =>
        constructor
        · rintro ⟨⟩
        · rintro ⟨s', hs, h'⟩
          obtain rfl := Json.string.inj hs
          cases h.symm.trans h'
      | some found =>
        constructor
        · rintro ⟨⟩
          exact ⟨s, rfl, h⟩
        · rintro ⟨s', hs, h'⟩
          obtain rfl := Json.string.inj hs
          exact congrArg _ (Option.some.inj (h.symm.trans h'))
    | null | bool | number | array | object => simp [Json.string?]

theorem rulesOf_eq_ok_iff {members : List (String × Json)} {rules : List (Rule Float)} :
    rulesOf members = .ok rules ↔
      ∃ raws, present? "rules" members = some (.array raws) ∧ raws ≠ [] ∧
        List.Forall₂ Rule.DefinedBy raws rules := by
  unfold rulesOf
  cases present? "rules" members with
  | none => simp
  | some value =>
    cases value with
    | array raws =>
      cases raws with
      | nil => simp
      | cons raw raws => simp [Rule.defineAll_eq_ok_iff]
    | null | bool | number | string | object => simp

theorem Strategy.define_eq_ok_iff {value : Json} {strategy : Strategy Float} :
    Strategy.define value = .ok strategy ↔ Strategy.DefinedBy value strategy := by
  unfold Strategy.DefinedBy
  cases value with
  | object members =>
    simp only [Strategy.define, bind_eq_ok_iff, pure_eq_ok_iff, nameOf_eq_ok_iff,
      combineOf_eq_ok_iff, rulesOf_eq_ok_iff]
    constructor
    · rintro ⟨name, hname, combine, hcombine, rules, ⟨raws, hraws, hne, hrules⟩, rfl⟩
      exact ⟨members, raws, rfl, hname, hcombine, hraws, hne, hrules⟩
    · rintro ⟨_, raws, ⟨⟩, hname, hcombine, hraws, hne, hrules⟩
      exact ⟨_, hname, _, hcombine, _, ⟨raws, hraws, hne, hrules⟩, rfl⟩
  | null | bool | number | string | array => simp [Strategy.define]

/-! ## Validity -/

def IsBarCount (n : Nat) : Prop := 1 ≤ n ∧ n ≤ 100000

/-- Parameters that can be computed with. -/
def Pattern.Valid : Pattern Float → Prop
  | .maCross fast slow _ => IsBarCount fast ∧ IsBarCount slow
  | .rsiThreshold period low high =>
    IsBarCount period ∧ OnScale low ∧ OnScale high ∧ Below low high
  | .macdCross fast slow signal => IsBarCount fast ∧ IsBarCount slow ∧ IsBarCount signal

structure Strategy.Valid (strategy : Strategy Float) : Prop where
  name_ne : strategy.name ≠ ""
  trim_name : trim strategy.name = strategy.name
  rules_ne : strategy.rules ≠ []
  rule_valid : ∀ rule ∈ strategy.rules, rule.pattern.Valid

theorem isBarCount_of_gives {own members : List (String × Json)} {name : String}
    {standard period : Nat} (h : Gives own members name standard IsPeriod period)
    (hstandard : IsBarCount standard) : IsBarCount period :=
  h.of hstandard fun _ h => ⟨h.1, h.2.1⟩

theorem RuleKind.Reads.valid {own members : List (String × Json)} {kind : RuleKind}
    {rule : Rule Float} (h : kind.Reads own members rule) : rule.pattern.Valid := by
  have hcount {n : Nat} (hpos : 1 ≤ n) (hmax : n ≤ 100) : IsBarCount n := ⟨hpos, by omega⟩
  cases h with
  | maCross hfast hslow =>
    exact ⟨isBarCount_of_gives hfast (hcount (by decide) (by decide)),
      isBarCount_of_gives hslow (hcount (by decide) (by decide))⟩
  | rsiThreshold hlow hhigh hbelow hperiod =>
    exact ⟨isBarCount_of_gives hperiod (hcount (by decide) (by decide)),
      hlow.of (onScale_ofNat (by decide)) fun _ h => h.2,
      hhigh.of (onScale_ofNat (by decide)) fun _ h => h.2, hbelow⟩
  | macdCross hfast hslow hsignal =>
    exact ⟨isBarCount_of_gives hfast (hcount (by decide) (by decide)),
      isBarCount_of_gives hslow (hcount (by decide) (by decide)),
      isBarCount_of_gives hsignal (hcount (by decide) (by decide))⟩

theorem Rule.valid_of_definedBy {raws : List Json} {rules : List (Rule Float)}
    (h : List.Forall₂ Rule.DefinedBy raws rules) : ∀ rule ∈ rules, rule.pattern.Valid := by
  induction h with
  | nil => simp
  | cons hrule _ ih =>
    obtain ⟨members, own, kind, -, -, -, hreads⟩ := hrule
    exact List.forall_mem_cons.2 ⟨hreads.valid, ih⟩

theorem NameGiven.trimmed {members : List (String × Json)} {name : String}
    (h : NameGiven members name) : name ≠ "" ∧ trim name = name := by
  have hunnamed : "Unnamed strategy" ≠ "" ∧ trim "Unnamed strategy" = "Unnamed strategy" := by
    decide
  unfold NameGiven at h
  split at h
  · rwa [h]
  · obtain ⟨s, -, rfl⟩ := h
    split
    · exact hunnamed
    · exact ⟨‹_›, trim_trim s⟩

theorem Strategy.DefinedBy.valid {value : Json} {strategy : Strategy Float}
    (h : Strategy.DefinedBy value strategy) : strategy.Valid := by
  obtain ⟨members, raws, -, hname, -, -, hne, hrules⟩ := h
  obtain ⟨hname, htrim⟩ := hname.trimmed
  refine ⟨hname, htrim, ?_, Rule.valid_of_definedBy hrules⟩
  intro hnil
  rw [hnil, List.forall₂_nil_right_iff] at hrules
  exact hne hrules

end Backtest
