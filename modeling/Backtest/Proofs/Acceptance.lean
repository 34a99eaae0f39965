import Backtest.Proofs.DefinitionLanguage

/-!
Which documents define a strategy. Every condition is about one member of the document, so that it
can be looked up; together they hold of exactly the documents that are accepted.
-/

namespace Backtest

open Json Text

inductive ParameterSort where
  | period
  | threshold
  | polarity
  | average
  deriving DecidableEq, Repr

def ParameterSort.Holds : ParameterSort → Json → Prop
  | .period, value => ∃ n, IsPeriod value n
  | .threshold, value => ∃ level, IsThreshold value level
  | .polarity, value => ∃ polarity, IsPolarity value polarity
  | .average, value => ∃ average, IsAverage value average

def RuleKind.parameters : RuleKind → List (String × ParameterSort)
  | .maCross =>
    [("fast", .period), ("slow", .period), ("average", .average), ("enter", .polarity),
      ("exit", .polarity)]
  | .rsiThreshold =>
    [("low", .threshold), ("high", .threshold), ("period", .period), ("enter", .polarity),
      ("exit", .polarity)]
  | .macdCross =>
    [("fast", .period), ("slow", .period), ("signal", .period), ("enter", .polarity),
      ("exit", .polarity)]

section Rules

variable (own members : List (String × Json))

/-- Every parameter of the kind is missing or well formed. -/
def RuleKind.WellFormed (kind : RuleKind) : Prop :=
  ∀ parameter ∈ kind.parameters,
    ∀ value, parameter? own members parameter.1 = some value → parameter.2.Holds value

/-- The thresholds are in order, be they given or standard. -/
def InOrder : Prop :=
  ∀ low high, Gives own members "low" 30 IsThreshold low →
    Gives own members "high" 70 IsThreshold high → Below low high

end Rules

def Rule.Documented (raw : Json) : Prop :=
  ∃ members own kind, raw = .object members ∧ Tagged members kind ∧ OwnParameters members own ∧
    kind.WellFormed own members ∧ (kind = .rsiThreshold → InOrder own members)

def Strategy.Documented (value : Json) : Prop :=
  ∃ members raws, value = .object members ∧
    (∀ name, present? "name" members = some name → ∃ s, name = .string s) ∧
    (∀ choice, present? "combine" members = some choice →
      ∃ s combine, choice = .string s ∧ lowercase (trim s) ∈ Combine.spellings combine) ∧
    present? "rules" members = some (.array raws) ∧ raws ≠ [] ∧ ∀ raw ∈ raws, Rule.Documented raw

/-! ## Rules -/

section Rules

variable {own members : List (String × Json)} {β : Type} {name : String} {standard : β}
  {R : Json → β → Prop}

theorem exists_gives_iff :
    (∃ b, Gives own members name standard R b) ↔
      ∀ value, parameter? own members name = some value → ∃ b, R value b := by
  unfold Gives
  cases parameter? own members name with
  | none => simp
  | some value => simp

theorem Gives.unique {a b : β} (ha : Gives own members name standard R a)
    (hb : Gives own members name standard R b)
    (hunique : ∀ value a b, R value a → R value b → a = b) : a = b := by
  unfold Gives at ha hb
  split at ha
  · rename_i hnone
    rw [hnone] at hb
    exact ha.trans hb.symm
  · rename_i value hsome
    rw [hsome] at hb
    exact hunique value a b ha hb

theorem RuleKind.Reads.wellFormed {kind : RuleKind} {rule : Rule Float}
    (h : kind.Reads own members rule) : kind.WellFormed own members := by
  simp only [RuleKind.WellFormed]
  cases h with
  | maCross hfast hslow haverage henter hexit =>
    simp only [RuleKind.parameters, List.forall_mem_cons, List.not_mem_nil]
    exact ⟨exists_gives_iff.1 ⟨_, hfast⟩, exists_gives_iff.1 ⟨_, hslow⟩,
      exists_gives_iff.1 ⟨_, haverage⟩, exists_gives_iff.1 ⟨_, henter⟩,
      exists_gives_iff.1 ⟨_, hexit⟩, fun _ => False.elim⟩
  | rsiThreshold hlow hhigh hbelow hperiod henter hexit =>
    simp only [RuleKind.parameters, List.forall_mem_cons, List.not_mem_nil]
    exact ⟨exists_gives_iff.1 ⟨_, hlow⟩, exists_gives_iff.1 ⟨_, hhigh⟩,
      exists_gives_iff.1 ⟨_, hperiod⟩, exists_gives_iff.1 ⟨_, henter⟩,
      exists_gives_iff.1 ⟨_, hexit⟩, fun _ => False.elim⟩
  | macdCross hfast hslow hsignal henter hexit =>
    simp only [RuleKind.parameters, List.forall_mem_cons, List.not_mem_nil]
    exact ⟨exists_gives_iff.1 ⟨_, hfast⟩, exists_gives_iff.1 ⟨_, hslow⟩,
      exists_gives_iff.1 ⟨_, hsignal⟩, exists_gives_iff.1 ⟨_, henter⟩,
      exists_gives_iff.1 ⟨_, hexit⟩, fun _ => False.elim⟩

theorem RuleKind.Reads.inOrder {rule : Rule Float}
    (h : RuleKind.Reads own members .rsiThreshold rule) : InOrder own members := by
  have hunique : ∀ value a b, IsThreshold value a → IsThreshold value b → a = b :=
    fun value a b ha hb => Option.some.inj (ha.1.symm.trans hb.1)
  cases h with
  | rsiThreshold hlow hhigh hbelow =>
    intro low high hlow' hhigh'
    rwa [hlow'.unique hlow hunique, hhigh'.unique hhigh hunique]

theorem RuleKind.WellFormed.exists_reads {kind : RuleKind} (h : kind.WellFormed own members)
    (horder : kind = .rsiThreshold → InOrder own members) :
    ∃ rule, kind.Reads own members rule := by
  cases kind with
  | maCross =>
    obtain ⟨fast, hfast⟩ := exists_gives_iff.2 (h ("fast", .period) (by decide))
    obtain ⟨slow, hslow⟩ := exists_gives_iff.2 (h ("slow", .period) (by decide))
    obtain ⟨average, haverage⟩ := exists_gives_iff.2 (h ("average", .average) (by decide))
    obtain ⟨enter, henter⟩ := exists_gives_iff.2 (h ("enter", .polarity) (by decide))
    obtain ⟨exit, hexit⟩ := exists_gives_iff.2 (h ("exit", .polarity) (by decide))
    exact ⟨_, .maCross hfast hslow haverage henter hexit⟩
  | rsiThreshold =>
    obtain ⟨low, hlow⟩ := exists_gives_iff.2 (h ("low", .threshold) (by decide))
    obtain ⟨high, hhigh⟩ := exists_gives_iff.2 (h ("high", .threshold) (by decide))
    obtain ⟨period, hperiod⟩ := exists_gives_iff.2 (h ("period", .period) (by decide))
    obtain ⟨enter, henter⟩ := exists_gives_iff.2 (h ("enter", .polarity) (by decide))
    obtain ⟨exit, hexit⟩ := exists_gives_iff.2 (h ("exit", .polarity) (by decide))
    exact ⟨_, .rsiThreshold hlow hhigh (horder rfl low high hlow hhigh) hperiod henter hexit⟩
  | macdCross =>
    obtain ⟨fast, hfast⟩ := exists_gives_iff.2 (h ("fast", .period) (by decide))
    obtain ⟨slow, hslow⟩ := exists_gives_iff.2 (h ("slow", .period) (by decide))
    obtain ⟨signal, hsignal⟩ := exists_gives_iff.2 (h ("signal", .period) (by decide))
    obtain ⟨enter, henter⟩ := exists_gives_iff.2 (h ("enter", .polarity) (by decide))
    obtain ⟨exit, hexit⟩ := exists_gives_iff.2 (h ("exit", .polarity) (by decide))
    exact ⟨_, .macdCross hfast hslow hsignal henter hexit⟩

end Rules

theorem Rule.exists_definedBy_iff {raw : Json} :
    (∃ rule, Rule.DefinedBy raw rule) ↔ Rule.Documented raw := by
  constructor
  · rintro ⟨rule, members, own, kind, hraw, htag, hown, hreads⟩
    refine ⟨members, own, kind, hraw, htag, hown, hreads.wellFormed, ?_⟩
    rintro rfl
    exact hreads.inOrder
  · rintro ⟨members, own, kind, hraw, htag, hown, hwell, horder⟩
    obtain ⟨rule, hreads⟩ := hwell.exists_reads horder
    exact ⟨rule, members, own, kind, hraw, htag, hown, hreads⟩

/-! ## Strategies -/

theorem exists_forall₂_iff {β γ : Type} {R : β → γ → Prop} {xs : List β} :
    (∃ ys, List.Forall₂ R xs ys) ↔ ∀ x ∈ xs, ∃ y, R x y := by
  induction xs with
  | nil => simp
  | cons x xs ih =>
    rw [List.forall_mem_cons, ← ih]
    constructor
    · rintro ⟨_, _ | ⟨h, hs⟩⟩
      exact ⟨⟨_, h⟩, _, hs⟩
    · rintro ⟨⟨y, h⟩, ys, hs⟩
      exact ⟨y :: ys, .cons h hs⟩

theorem exists_nameGiven_iff {members : List (String × Json)} :
    (∃ name, NameGiven members name) ↔
      ∀ value, present? "name" members = some value → ∃ s, value = .string s := by
  unfold NameGiven
  cases present? "name" members with
  | none => simp
  | some value => simp [exists_comm]

theorem exists_combineGiven_iff {members : List (String × Json)} :
    (∃ combine, CombineGiven members combine) ↔
      ∀ value, present? "combine" members = some value →
        ∃ s combine, value = .string s ∧ lowercase (trim s) ∈ Combine.spellings combine := by
  unfold CombineGiven
  cases present? "combine" members with
  | none => simp
  | some value => simp [exists_comm]

theorem Strategy.exists_definedBy_iff {value : Json} :
    (∃ strategy, Strategy.DefinedBy value strategy) ↔ Strategy.Documented value := by
  unfold Strategy.Documented
  simp only [← exists_nameGiven_iff, ← exists_combineGiven_iff, ← Rule.exists_definedBy_iff,
    ← exists_forall₂_iff]
  constructor
  · rintro ⟨strategy, members, raws, hvalue, hname, hcombine, hraws, hne, hrules⟩
    exact ⟨members, raws, hvalue, ⟨_, hname⟩, ⟨_, hcombine⟩, hraws, hne, _, hrules⟩
  · rintro ⟨members, raws, hvalue, ⟨name, hname⟩, ⟨combine, hcombine⟩, hraws, hne, rules, hrules⟩
    exact ⟨⟨name, rules, combine⟩, members, raws, hvalue, hname, hcombine, hraws, hne, hrules⟩

/-- A document is accepted when it is a documented one, and what it defines is then exactly what
it says, which can be computed with. -/
theorem define_exactly_documented (value : Json) :
    ((∃ strategy, Strategy.define value = .ok strategy) ↔ Strategy.Documented value) ∧
      ∀ strategy, Strategy.define value = .ok strategy ↔
        Strategy.DefinedBy value strategy ∧ strategy.Valid := by
  simp only [Strategy.define_eq_ok_iff]
  refine ⟨Strategy.exists_definedBy_iff, fun strategy => ?_⟩
  constructor
  · intro h
    exact ⟨h, h.valid⟩
  · intro h
    exact h.1

end Backtest
