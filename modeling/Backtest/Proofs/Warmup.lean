import Backtest.Proofs.Crossings
import Backtest.Proofs.ExactArithmetic
import Backtest.Proofs.Merging
import Backtest.Proofs.RunHistory

/-!
The warm-up of a strategy. Under "and" no bar fires before the slowest rule is warmed up; under
"or" the quickest rule sets the bound, and bars before the warm-up of the strategy may fire.
-/

namespace Backtest

variable {α : Type}

theorem Strategy.exists_warmup_eq {strategy : Strategy α} (hrules : strategy.rules ≠ []) :
    ∃ rule ∈ strategy.rules, rule.warmup = strategy.warmup := by
  have hmax : strategy.warmup = max 0 ((strategy.rules.map Rule.warmup).max?.getD 0) :=
    List.foldl_max
  cases hm : (strategy.rules.map Rule.warmup).max? with
  | none => exact absurd (List.map_eq_nil_iff.mp (List.max?_eq_none_iff.mp hm)) hrules
  | some longest =>
    obtain ⟨rule, hr, hw⟩ := List.mem_map.mp (List.max?_mem hm)
    rw [hm, Option.getD_some, Nat.zero_max] at hmax
    exact ⟨rule, hr, hw.trans hmax.symm⟩

variable [Scalar α]

theorem Rule.votes_of_lt_warmup {rule : Rule α} {prices : List α} {i : Nat} (h : i < rule.warmup) :
    rule.votes prices i = (false, false) := by
  obtain ⟨henter, hexit⟩ :=
    Rule.silent_of_early (Or.inl (Nat.lt_of_lt_of_le h rule.warmup_le_fullWarmup)) prices
  exact Prod.ext henter hexit

namespace Strategy

theorem silent_of_lt {strategy : Strategy α} (hrules : strategy.rules ≠ []) {i : Nat}
    (h : (strategy.combine = .all ∧ i < strategy.warmup) ∨ ∀ rule ∈ strategy.rules, i < rule.warmup)
    {prices : List α} (hi : i < prices.length) :
    (strategy.signals prices).enter[i]? = some false ∧
      (strategy.signals prices).exit[i]? = some false := by
  have hmerge : ∀ vote : Bool × Bool → Bool, vote (false, false) = false →
      strategy.combine.merge (strategy.rules.map (fun rule => vote (rule.votes prices i))) =
        false := by
    intro vote hvote
    refine Combine.merge_eq_false (by simpa using hrules) (h.imp (fun hh => ⟨hh.1, ?_⟩) ?_)
    · obtain ⟨rule, hm, hwarm⟩ := exists_warmup_eq hrules
      have hlt : i < rule.warmup := hwarm ▸ hh.2
      have hearly : rule.votes prices i = (false, false) := Rule.votes_of_lt_warmup hlt
      exact List.mem_map.mpr ⟨rule, hm, by rw [hearly, hvote]⟩
    · intro hwarm fires hm
      obtain ⟨rule, hr, rfl⟩ := List.mem_map.mp hm
      rw [Rule.votes_of_lt_warmup (hwarm rule hr), hvote]
  obtain ⟨henter, hexit⟩ := getElem?_signals hrules hi
  rw [henter, hexit, hmerge Prod.fst rfl, hmerge Prod.snd rfl]
  exact ⟨rfl, rfl⟩

end Strategy

/-- Too few bars under "and" for the slowest rule, or for every rule under "or", give no signal, and
a run over no more bars than these comes to nothing. -/
theorem run_quiet_during_warmup (strategy : Strategy α) (hrules : strategy.rules ≠ []) {count : Nat}
    (hcount : (strategy.combine = .all ∧ count ≤ strategy.warmup) ∨
      ∀ rule ∈ strategy.rules, count ≤ rule.warmup) :
    (∀ prices, ∀ i < count, i < prices.length →
      (strategy.signals prices).enter[i]? = some false ∧
      (strategy.signals prices).exit[i]? = some false) ∧
    ∀ (bars : List (Bar α)) (options : Options α), bars.length ≤ count →
      (run strategy bars options).trades = [] ∧
      (run strategy bars options).openPosition = none ∧
      (run strategy bars options).equity =
        bars.map (fun bar => ⟨bar.date, options.equityBase, false⟩) := by
  have hsilent : ∀ prices, ∀ i < count, i < prices.length →
      (strategy.signals prices).enter[i]? = some false ∧
      (strategy.signals prices).exit[i]? = some false := by
    intro prices i hi hlen
    refine Strategy.silent_of_lt hrules (hcount.imp (fun hh => ⟨hh.1, ?_⟩) fun hh rule hm => ?_) hlen
    · exact Nat.lt_of_lt_of_le hi hh.2
    · exact Nat.lt_of_lt_of_le hi (hh rule hm)
  refine ⟨hsilent, fun bars options hbars => run_of_silent strategy options bars ?_⟩
  intro enter hm
  obtain ⟨i, hi⟩ := List.mem_iff_getElem?.mp hm
  have hlen := strategy.causal_signals.1.length_eq (closes bars)
  have hlt := (List.getElem?_eq_some_iff.mp hi).1
  have hcloses : (closes bars).length = bars.length := List.length_map _
  rw [(hsilent (closes bars) i (by omega) (by omega)).1] at hi
  exact (Option.some.inj hi).symm

/-- A rule that can fire on its third bar, beside one that needs 51 of them. -/
def quickAndSlow (combine : Combine) : Strategy ℚ :=
  ⟨"quick and slow",
    [⟨.maCross 1 2 .sma, .above, .below⟩, ⟨.rsiThreshold 50 30 70, .above, .above⟩], combine⟩

theorem run_quiet_during_warmup_slow :
    let strategy := quickAndSlow .all
    let bars : List (Bar ℚ) := dailyBars [10, 9, 8, 12, 13, 7]
    strategy.rules ≠ [] ∧ strategy.combine = .all ∧ strategy.warmup = 51 ∧ bars.length ≤ 51 ∧
    (run strategy bars .standard).trades = [] := by
  intro strategy bars
  have hrules : strategy.rules ≠ [] := List.cons_ne_nil _ _
  have hcount : (51 : Nat) ≤ strategy.warmup := by decide
  have hbars : bars.length ≤ 51 := by decide
  exact ⟨hrules, rfl, by decide, hbars,
    ((run_quiet_during_warmup _ hrules (Or.inl ⟨rfl, hcount⟩)).2 _ .standard hbars).1⟩

/-- Under "or" the warm-up of the strategy bounds nothing: the quick rule fires in the middle of
it, and a run over fewer bars trades. -/
theorem quickAndSlow_fires_early :
    let strategy := quickAndSlow .any
    let bars : List (Bar ℚ) := dailyBars [10, 9, 8, 12, 13, 7]
    strategy.rules ≠ [] ∧ bars.length ≤ strategy.warmup ∧
    (strategy.signals (closes bars)).enter[3]? = some true ∧
    (strategy.signals (closes bars)).exit[5]? = some true ∧
    (run strategy bars .standard).trades.length = 1 := by
  decide +kernel

end Backtest
