import Backtest.Proofs.ExactArithmetic
import Backtest.Proofs.Merging

/-!
Lists of rules. The signals of two lists put together are those of both, joined bar by bar, and what
a list comes to depends on nothing but the rules that are in it.
-/

namespace Backtest

namespace Combine

def join : Combine → Bool → Bool → Bool
  | all => and
  | any => or

theorem merge_append (combine : Combine) (votes votes' : List Bool) :
    combine.merge (votes ++ votes') =
      combine.join (combine.merge votes) (combine.merge votes') := by
  cases combine with
  | all => exact List.all_append
  | any => exact List.any_append

variable {votes votes' : List Bool}

theorem merge_all_of_subset (h : votes ⊆ votes') (hmerge : all.merge votes' = true) :
    all.merge votes = true :=
  List.all_eq_true.mpr fun vote hm => List.all_eq_true.mp hmerge vote (h hm)

theorem merge_any_of_subset (h : votes ⊆ votes') (hmerge : any.merge votes = true) :
    any.merge votes' = true := by
  obtain ⟨vote, hm, hvote⟩ := List.any_eq_true.mp hmerge
  exact List.any_eq_true.mpr ⟨vote, h hm, hvote⟩

theorem merge_congr (combine : Combine) (h : votes ⊆ votes') (h' : votes' ⊆ votes) :
    combine.merge votes = combine.merge votes' := by
  rw [Bool.eq_iff_iff]
  cases combine with
  | all => exact ⟨merge_all_of_subset h', merge_all_of_subset h⟩
  | any => exact ⟨merge_any_of_subset h, merge_any_of_subset h'⟩

end Combine

theorem eq_map_range {flags : List Bool} {length : Nat} {flag : Nat → Bool}
    (hlen : flags.length = length) (h : ∀ i < length, flags[i]? = some (flag i)) :
    flags = (List.range length).map flag := by
  refine List.ext_getElem? fun i => ?_
  by_cases hi : i < length
  · simp [h i hi, hi]
  · simp [hlen, hi]

/-- Signals that fire nowhere but where other ones do. -/
def Signals.Within (signals signals' : Signals) : Prop :=
  ∀ i : Nat, (signals.enter[i]? = some true → signals'.enter[i]? = some true) ∧
    (signals.exit[i]? = some true → signals'.exit[i]? = some true)

variable {α : Type} [Scalar α]

namespace Strategy

variable {strategy : Strategy α}

theorem length_signals (strategy : Strategy α) (prices : List α) :
    (strategy.signals prices).enter.length = prices.length ∧
    (strategy.signals prices).exit.length = prices.length :=
  ⟨strategy.causal_signals.1.length_eq prices, strategy.causal_signals.2.length_eq prices⟩

theorem signals_eq (strategy : Strategy α) (hrules : strategy.rules ≠ []) (prices : List α) :
    strategy.signals prices =
      ⟨(List.range prices.length).map fun i =>
          strategy.combine.merge (strategy.rules.map (fun rule => (rule.votes prices i).1)),
        (List.range prices.length).map fun i =>
          strategy.combine.merge (strategy.rules.map (fun rule => (rule.votes prices i).2))⟩ := by
  obtain ⟨henter, hexit⟩ := strategy.length_signals prices
  have hflags := fun i (hi : i < prices.length) => getElem?_signals hrules hi
  rw [← eq_map_range henter fun i hi => (hflags i hi).1,
    ← eq_map_range hexit fun i hi => (hflags i hi).2]

theorem signals_append (strategy : Strategy α) {a b : List (Rule α)} (ha : a ≠ []) (hb : b ≠ [])
    (prices : List α) :
    { strategy with rules := a ++ b }.signals prices =
      ⟨List.zipWith strategy.combine.join ({ strategy with rules := a }.signals prices).enter
          ({ strategy with rules := b }.signals prices).enter,
        List.zipWith strategy.combine.join ({ strategy with rules := a }.signals prices).exit
          ({ strategy with rules := b }.signals prices).exit⟩ := by
  rw [signals_eq { strategy with rules := a ++ b } (List.append_ne_nil_of_left_ne_nil ha b),
    signals_eq { strategy with rules := a } ha, signals_eq { strategy with rules := b } hb]
  simp only [List.map_append, Combine.merge_append, List.zipWith_map, List.zipWith_self]

/-- It matters which rules there are, but not in what order or how often. -/
theorem signals_congr {a b : List (Rule α)} (h : ∀ rule, rule ∈ a ↔ rule ∈ b) (prices : List α) :
    { strategy with rules := a }.signals prices = { strategy with rules := b }.signals prices := by
  have hab : a ⊆ b := fun rule hm => (h rule).mp hm
  have hba : b ⊆ a := fun rule hm => (h rule).mpr hm
  by_cases ha : a = []
  · subst ha
    rw [List.subset_nil.mp hba]
  · have hb : b ≠ [] := fun hb => ha (List.subset_nil.mp (hb ▸ hab))
    have hvotes : ∀ vote : Rule α → Bool,
        strategy.combine.merge (a.map vote) = strategy.combine.merge (b.map vote) := fun vote =>
      strategy.combine.merge_congr (List.map_subset vote hab) (List.map_subset vote hba)
    rw [signals_eq { strategy with rules := a } ha, signals_eq { strategy with rules := b } hb]
    simp only [hvotes]

/-- A strategy fires within another one if, however its rules vote, its merged vote implies that of
the other. -/
theorem signals_within {strategy' : Strategy α} (hrules : strategy.rules ≠ [])
    (hrules' : strategy'.rules ≠ [])
    (h : ∀ vote : Rule α → Bool, strategy.combine.merge (strategy.rules.map vote) = true →
      strategy'.combine.merge (strategy'.rules.map vote) = true) (prices : List α) :
    (strategy.signals prices).Within (strategy'.signals prices) := by
  rw [signals_eq strategy hrules, signals_eq strategy' hrules']
  intro i
  by_cases hi : i < prices.length
  · simp only [List.getElem?_map, List.getElem?_range hi, Option.map_some, Option.some.injEq]
    exact ⟨h _, h _⟩
  · simp [hi]

end Strategy

theorem run_congr_rules {strategy : Strategy α} {a b : List (Rule α)}
    (h : ∀ rule, rule ∈ a ↔ rule ∈ b) (bars : List (Bar α)) (options : Options α) :
    run { strategy with rules := a } bars options =
      run { strategy with rules := b } bars options := by
  simp only [run, Strategy.signals_congr h]

/-- The signals of a list of rules are composed from those of its parts, down to a single rule, and
the list without rules stays silent. So the order and the number of equal rules change no run, and a
list with more rules fires less often under "and" and more often under "or". -/
theorem signals_composed_of_rule_lists (strategy : Strategy α) (a b : List (Rule α)) :
    (∀ prices : List α,
      let ofRules (rules : List (Rule α)) := { strategy with rules }.signals prices
      (a ≠ [] → b ≠ [] →
        (ofRules a).enter.length = prices.length ∧ (ofRules a).exit.length = prices.length ∧
        (ofRules b).enter.length = prices.length ∧ (ofRules b).exit.length = prices.length ∧
        (ofRules (a ++ b)).enter =
          List.zipWith strategy.combine.join (ofRules a).enter (ofRules b).enter ∧
        (ofRules (a ++ b)).exit =
          List.zipWith strategy.combine.join (ofRules a).exit (ofRules b).exit) ∧
      (∀ rule, ofRules [rule] = rule.signals prices) ∧
      ofRules [] = ⟨List.replicate prices.length false, List.replicate prices.length false⟩ ∧
      (a ≠ [] → a ⊆ b →
        (strategy.combine = .all → (ofRules b).Within (ofRules a)) ∧
        (strategy.combine = .any → (ofRules a).Within (ofRules b)))) ∧
    ((∀ rule, rule ∈ a ↔ rule ∈ b) → ∀ (bars : List (Bar α)) (options : Options α),
      run { strategy with rules := a } bars options =
        run { strategy with rules := b } bars options) := by
  refine ⟨fun prices => ⟨fun ha hb => ?_, fun _ => rfl, rfl, fun ha hab => ?_⟩, run_congr_rules⟩
  · have hlenA := Strategy.length_signals { strategy with rules := a } prices
    have hlenB := Strategy.length_signals { strategy with rules := b } prices
    have happend := strategy.signals_append ha hb prices
    exact ⟨hlenA.1, hlenA.2, hlenB.1, hlenB.2, congrArg Signals.enter happend,
      congrArg Signals.exit happend⟩
  · have hb : b ≠ [] := fun hb => ha (List.subset_nil.mp (hb ▸ hab))
    refine ⟨fun hall => ?_, fun hany => ?_⟩
    · exact Strategy.signals_within hb ha
        (fun vote => hall ▸ Combine.merge_all_of_subset (List.map_subset vote hab)) prices
    · exact Strategy.signals_within ha hb
        (fun vote => hany ▸ Combine.merge_any_of_subset (List.map_subset vote hab)) prices

theorem signals_composed_of_rule_lists_two :
    let turn : Rule ℚ := ⟨.maCross 1 2 .sma, .above, .below⟩
    let rebound : Rule ℚ := ⟨.rsiThreshold 2 30 70, .above, .above⟩
    let prices : List ℚ := [10, 9, 8, 12, 13, 7, 11, 14]
    let ofRules (combine : Combine) (rules : List (Rule ℚ)) : Strategy ℚ := ⟨"both", rules, combine⟩
    [turn] ≠ [] ∧ [rebound] ≠ [] ∧ [turn] ⊆ [rebound, turn] ∧
    (∀ rule, rule ∈ [turn, rebound] ↔ rule ∈ [rebound, turn, rebound]) ∧
    ((ofRules .any [turn, rebound]).signals prices).exit =
      List.zipWith or ((ofRules .any [turn]).signals prices).exit
        ((ofRules .any [rebound]).signals prices).exit ∧
    ((ofRules .any [turn, rebound]).signals prices).exit =
      [false, false, false, true, false, true, false, true] ∧
    ((ofRules .all [rebound, turn]).signals prices).Within ((ofRules .all [turn]).signals prices) ∧
    ((ofRules .any [turn]).signals prices).Within ((ofRules .any [rebound, turn]).signals prices) ∧
    run (ofRules .all [turn, rebound]) (dailyBars prices) .standard =
      run (ofRules .all [rebound, turn, rebound]) (dailyBars prices) .standard := by
  intro turn rebound prices ofRules
  have hturn : [turn] ≠ [] := List.cons_ne_nil _ _
  have hrebound : [rebound] ≠ [] := List.cons_ne_nil _ _
  have hsub : [turn] ⊆ [rebound, turn] := List.subset_cons_self _ _
  have hsame : ∀ rule, rule ∈ [turn, rebound] ↔ rule ∈ [rebound, turn, rebound] := by
    intro rule
    simp only [List.mem_cons]
    tauto
  refine ⟨hturn, hrebound, hsub, hsame, ?_, by decide +kernel, ?_, ?_, ?_⟩
  · exact ((signals_composed_of_rule_lists (ofRules .any []) [turn] [rebound]).1 prices).1
      hturn hrebound |>.2.2.2.2.2
  · exact ((signals_composed_of_rule_lists (ofRules .all []) [turn] [rebound, turn]).1 prices).2.2.2
      hturn hsub |>.1 rfl
  · exact ((signals_composed_of_rule_lists (ofRules .any []) [turn] [rebound, turn]).1 prices).2.2.2
      hturn hsub |>.2 rfl
  · exact (signals_composed_of_rule_lists (ofRules .all []) [turn, rebound]
      [rebound, turn, rebound]).2 hsame (dailyBars prices) .standard

end Backtest
