import Backtest.Proofs.DefinitionLanguage
import Backtest.Proofs.Members

/-!
Where the parameters of a rule stand does not matter: a rule is defined by the values that are found
under their names, and not by the place in which they are found.
-/

namespace Backtest

open Json

/-! ## What a rule is read from -/

def parameterNames : List String :=
  ["fast", "slow", "signal", "average", "period", "low", "high", "enter", "exit"]

def tagNames : List String := ["type", "kind"]

theorem not_mem_tagNames {name : String} : name ∈ parameterNames → name ∉ tagNames := by
  revert name
  decide

theorem Parameters.get_congr {p q : Parameters} {name : String} (hrule : p.rule = q.rule)
    (hfind : p.find? name = q.find? name) {β : Type} (standard : β)
    (read : Json → Except ParameterFault β) :
    p.get name standard read = q.get name standard read := by
  have hrefuse : p.refuse name = q.refuse name := by
    funext fault
    simp only [refuse, hrule]
  simp only [get, hfind, hrefuse]

theorem RuleKind.ruleOf_congr {p q : Parameters} (hrule : p.rule = q.rule)
    (hfind : ∀ name ∈ parameterNames, p.find? name = q.find? name) (kind : RuleKind) :
    kind.ruleOf p = kind.ruleOf q := by
  have hget (name : String) (hm : name ∈ parameterNames) {β : Type} (standard : β)
      (read : Json → Except ParameterFault β) :
      p.get name standard read = q.get name standard read :=
    Parameters.get_congr hrule (hfind name hm) standard read
  have henter := hget "enter" (by decide) (β := Polarity)
  have hexit := hget "exit" (by decide) (β := Polarity)
  cases kind with
  | maCross =>
    simp only [ruleOf, maCrossOf, hget "fast" (by decide), hget "slow" (by decide),
      hget "average" (by decide), henter, hexit]
  | rsiThreshold =>
    simp only [ruleOf, rsiThresholdOf, Parameters.refuse, hrule, hget "low" (by decide),
      hget "high" (by decide), hget "period" (by decide), henter, hexit]
  | macdCross =>
    simp only [ruleOf, macdCrossOf, hget "fast" (by decide), hget "slow" (by decide),
      hget "signal" (by decide), henter, hexit]

theorem kindOf_congr {members members' : List (String × Json)} (index : Nat)
    (htype : present? "type" members = present? "type" members')
    (hkind : present? "kind" members = present? "kind" members') :
    kindOf index members = kindOf index members' := by
  simp only [kindOf, htype, hkind]

theorem Rule.define_congr {index : Nat} {members members' own own' : List (String × Json)}
    (htype : present? "type" members = present? "type" members')
    (hkind : present? "kind" members = present? "kind" members')
    (hown : ownParameters index members = .ok own)
    (hown' : ownParameters index members' = .ok own')
    (hfind : ∀ name ∈ parameterNames,
      parameter? own members name = parameter? own' members' name) :
    Rule.define index (.object members) = Rule.define index (.object members') := by
  simp only [Rule.define, kindOf_congr index htype hkind, hown, hown', ok_bind]
  refine bind_congr fun kind => ?_
  exact RuleKind.ruleOf_congr (p := ⟨index, own, members⟩) (q := ⟨index, own', members'⟩) rfl hfind
    kind

theorem Rule.define_congr_present {members members' : List (String × Json)} (index : Nat)
    (h : ∀ name, present? name members = present? name members') :
    Rule.define index (.object members) = Rule.define index (.object members') := by
  have hown : ownParameters index members = ownParameters index members' := by
    simp only [ownParameters, h]
  simp only [Rule.define, kindOf_congr index (h _) (h _), hown]
  refine bind_congr fun kind => bind_congr fun own => ?_
  refine RuleKind.ruleOf_congr (p := ⟨index, own, members⟩) (q := ⟨index, own, members'⟩) rfl
    (fun name _ => ?_) kind
  simp only [Parameters.find?, h]

/-! ## Everything in one place -/

/-- The parameters that a rule keeps in an object of their own, if it has one. -/
def apart (members : List (String × Json)) : List (String × Json) :=
  match present? "params" members with
  | some (.object own) => own
  | _ => []

/-- The tag of a rule, and its parameters beside it. -/
def flattened (members : List (String × Json)) : List (String × Json) :=
  (tagNames.filterMap fun name => (lookup? name members).map (name, ·)) ++
    parameterNames.filterMap fun name => (parameter? (apart members) members name).map (name, ·)

theorem lookup?_flattened (name : String) (members : List (String × Json)) :
    lookup? name (flattened members) =
      (if name ∈ tagNames then lookup? name members else none).or
        (if name ∈ parameterNames then parameter? (apart members) members name else none) := by
  rw [flattened, lookup?_append, lookup?_filterMap (lookup? · members),
    lookup?_filterMap (parameter? (apart members) members)]

theorem parameter?_filter (own members : List (String × Json)) (name : String) :
    (parameter? own members name).filter (!·.isNull) = parameter? own members name := by
  unfold parameter? present?
  cases lookup? name own with
  | none => simp [Option.filter_filter]
  | some value =>
    by_cases hnull : value.isNull = true <;> simp [Option.filter_some, hnull, Option.filter_filter]

theorem parameter?_nil (members : List (String × Json)) (name : String) :
    parameter? [] members name = present? name members := rfl

theorem present?_flattened {name : String} (h : name ∈ parameterNames)
    (members : List (String × Json)) :
    present? name (flattened members) = parameter? (apart members) members name := by
  rw [present?, lookup?_flattened, if_neg (not_mem_tagNames h), if_pos h, Option.none_or,
    parameter?_filter]

theorem present?_flattened_tag {name : String} (h : name ∈ tagNames)
    (members : List (String × Json)) :
    present? name (flattened members) = present? name members := by
  have hparameter : name ∉ parameterNames := fun hm => not_mem_tagNames hm h
  rw [present?, lookup?_flattened, if_pos h, if_neg hparameter, Option.or_none, present?]

theorem ownParameters_apart {members : List (String × Json)} (index : Nat)
    (h : ∀ value, lookup? "params" members = some value →
      value = .null ∨ ∃ own, value = .object own) :
    ownParameters index members = .ok (apart members) := by
  unfold ownParameters apart present?
  cases hparams : lookup? "params" members with
  | none => rfl
  | some value =>
    rcases h value hparams with rfl | ⟨own, rfl⟩
    · rfl
    · rfl

theorem ownParameters_flattened (index : Nat) (members : List (String × Json)) :
    ownParameters index (flattened members) = .ok [] := by
  have hnone : lookup? "params" (flattened members) = none := by
    rw [lookup?_flattened, if_neg (by decide), if_neg (by decide), Option.or_none]
  simp [ownParameters, present?, hnone]

theorem ownParameters_insert (index : Nat) (own members : List (String × Json)) :
    ownParameters index (insert "params" (.object own) members) = .ok own := by
  simp [ownParameters, present?, lookup?_insert, isNull, Option.filter_some]

/-! ## Changes that do not matter -/

def placed (own members : List (String × Json)) : List (String × Json) :=
  insert "params" (.object own) members

theorem Rule.define_placed_congr {index : Nat} {own own' members members' : List (String × Json)}
    (htag : ∀ name ∈ tagNames, present? name members = present? name members')
    (h : ∀ name ∈ parameterNames, parameter? own members name = parameter? own' members' name) :
    Rule.define index (.object (placed own members)) =
      Rule.define index (.object (placed own' members')) := by
  have hplaced {name : String} (hname : "params" ≠ name) (own members : List (String × Json)) :
      present? name (placed own members) = present? name members :=
    present?_insert_of_ne hname (.object own) members
  refine Rule.define_congr ?_ ?_ (ownParameters_insert index own members)
    (ownParameters_insert index own' members') fun name hm => ?_
  · rw [hplaced (by decide), hplaced (by decide), htag "type" (by decide)]
  · rw [hplaced (by decide), hplaced (by decide), htag "kind" (by decide)]
  · have hname : "params" ≠ name := by
      rintro rfl
      exact absurd hm (by decide)
    have hparameter := h name hm
    simp only [parameter?] at hparameter
    change (present? name own).or (present? name (placed own members)) =
      (present? name own').or (present? name (placed own' members'))
    rw [hplaced hname, hplaced hname, hparameter]

theorem Rule.define_flattened {members : List (String × Json)} (index : Nat)
    (h : ∀ value, lookup? "params" members = some value →
      value = .null ∨ ∃ own, value = .object own) :
    Rule.define index (.object (flattened members)) = Rule.define index (.object members) := by
  refine Rule.define_congr (present?_flattened_tag (by decide) members)
    (present?_flattened_tag (by decide) members) (ownParameters_flattened index members)
    (ownParameters_apart index h) fun name hm => ?_
  rw [parameter?_nil, present?_flattened hm]

/-- A rule is the same as with all its parameters beside the tag. Where both places have a value it
is that of the object of parameters that counts, nulls are as good as nothing in both places, and a
tag among the parameters is none. -/
theorem rule_ignores_placement (index : Nat) (members : List (String × Json)) :
    ((∀ value, lookup? "params" members = some value →
        value = .null ∨ ∃ own, value = .object own) →
      Rule.define index (.object (flattened members)) = Rule.define index (.object members)) ∧
    (∀ own name value given, name ∈ parameterNames → present? name own = some given →
      Rule.define index (.object (placed own (insert name value members))) =
        Rule.define index (.object (placed own members))) ∧
    (∀ name, Rule.define index (.object (insert name .null members)) =
      Rule.define index (.object (erase name members))) ∧
    (∀ own name, Rule.define index (.object (placed (insert name .null own) members)) =
      Rule.define index (.object (placed (erase name own) members))) ∧
    ∀ own name value, name ∈ tagNames →
      Rule.define index (.object (placed (insert name value own) members)) =
        Rule.define index (.object (placed own members)) := by
  refine ⟨Rule.define_flattened index, fun own name value given hm hgiven => ?_, fun name => ?_,
    fun own name => ?_, fun own name value htag => ?_⟩
  · refine Rule.define_placed_congr (fun tag htag => ?_) fun other _ => ?_
    · have hne : name ≠ tag := fun h => not_mem_tagNames hm (h ▸ htag)
      exact present?_insert_of_ne hne value members
    · by_cases hother : name = other
      · subst hother
        simp [parameter?, hgiven]
      · simp only [parameter?, present?_insert_of_ne hother]
  · exact Rule.define_congr_present index fun other => present?_insert_null other name members
  · refine Rule.define_placed_congr (fun _ _ => rfl) fun other _ => ?_
    simp only [parameter?, present?_insert_null]
  · refine Rule.define_placed_congr (fun _ _ => rfl) fun other hm => ?_
    have hne : name ≠ other := fun h => not_mem_tagNames hm (h ▸ htag)
    simp only [parameter?, present?_insert_of_ne hne]

/-- A period beside the tag that is no number, under one in the object of parameters. -/
theorem rule_ignores_placement_shadowed :
    let own : List (String × Json) :=
      [("fast", .natural 5), ("slow", .null), ("type", .string "rsi")]
    let members : List (String × Json) :=
      [("type", .string "ma-cross"), ("fast", .string "quick"), ("slow", .natural 20),
        ("params", .object own)]
    let rule : Rule Float := ⟨.maCross 5 20 .sma, .above, .below⟩
    Rule.define 0 (.object members) = .ok rule ∧
    Rule.define 0 (.object (flattened members)) = .ok rule ∧
    Rule.define 0 (.object (placed own (insert "fast" (.bool true) members))) = .ok rule := by
  intro own members rule
  obtain ⟨hflat, hshadow, -⟩ := rule_ignores_placement 0 members
  have hrule : Rule.define 0 (.object members) = .ok rule := by rfl
  have hplaced : Rule.define 0 (.object (placed own members)) = .ok rule := by rfl
  have hparams : ∀ value, lookup? "params" members = some value →
      value = .null ∨ ∃ own, value = .object own := by
    rintro _ ⟨⟩
    exact Or.inr ⟨own, rfl⟩
  exact ⟨hrule, (hflat hparams).trans hrule,
    (hshadow own "fast" (.bool true) (.natural 5) (by decide) rfl).trans hplaced⟩

end Backtest
