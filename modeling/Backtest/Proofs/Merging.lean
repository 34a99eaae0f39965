import Backtest.Proofs.Causality

/-!
The merged signals of a strategy, bar by bar. Under "and" a bar fires if it does so for every rule,
under "or" if it does so for some rule.
-/

namespace Backtest

theorem Combine.foldl_merge (combine : Combine) (vote : Bool) (votes : List Bool) :
    votes.foldl (fun x y => combine.merge [x, y]) vote = combine.merge (vote :: votes) := by
  induction votes generalizing vote with
  | nil => cases combine <;> simp [merge]
  | cons vote' votes ih =>
    rw [List.foldl_cons, ih]
    cases combine <;> simp [merge, Bool.and_assoc, Bool.or_assoc]

theorem Combine.merge_eq_false {combine : Combine} {votes : List Bool} (hvotes : votes ≠ [])
    (h : (combine = .all ∧ false ∈ votes) ∨ ∀ vote ∈ votes, vote = false) :
    combine.merge votes = false := by
  have hmem : false ∈ votes := by
    rcases h with ⟨_, hm⟩ | hall
    · exact hm
    · obtain ⟨vote, hm⟩ := List.exists_mem_of_ne_nil votes hvotes
      exact hall vote hm ▸ hm
  cases combine with
  | all => exact List.all_eq_false.mpr ⟨false, hmem, by decide⟩
  | any =>
    have hall := h.resolve_left (fun hh => Combine.noConfusion hh.1)
    exact List.any_eq_false.mpr fun vote hm => by simp [hall vote hm]

theorem getElem?_foldl_zipWith (f : Bool → Bool → Bool) {first : List Bool} {rest : List (List Bool)}
    {i : Nat} (hfirst : i < first.length) (hrest : ∀ flags ∈ rest, i < flags.length) :
    (rest.foldl (List.zipWith f) first)[i]? =
      some ((rest.map (·.getD i false)).foldl f (first.getD i false)) := by
  induction rest generalizing first with
  | nil => simp [hfirst]
  | cons flags rest ih =>
    have hflags := hrest flags List.mem_cons_self
    have hlen : i < (List.zipWith f first flags).length := by
      rw [List.length_zipWith]
      omega
    have hhere : (List.zipWith f first flags).getD i false =
        f (first.getD i false) (flags.getD i false) := by
      simp only [List.getD_eq_getElem?_getD, List.getElem?_zipWith,
        List.getElem?_eq_getElem hfirst, List.getElem?_eq_getElem hflags, Option.getD_some]
    rw [List.foldl_cons, ih hlen (fun other hm => hrest other (List.mem_cons_of_mem _ hm)), hhere]
    rfl

variable {α : Type} [Scalar α]

theorem Signals.foldl_merge (combine : Combine) (first : Signals) (rest : List Signals) :
    rest.foldl (merge combine) first =
      ⟨(rest.map enter).foldl (List.zipWith (fun x y => combine.merge [x, y])) first.enter,
        (rest.map exit).foldl (List.zipWith (fun x y => combine.merge [x, y])) first.exit⟩ := by
  induction rest generalizing first with
  | nil => rfl
  | cons signals rest ih => simp [ih, merge]

def Rule.votes (rule : Rule α) (prices : List α) (i : Nat) : Bool × Bool :=
  ((rule.signals prices).enter.getD i false, (rule.signals prices).exit.getD i false)

theorem Strategy.getElem?_signals {strategy : Strategy α} (hrules : strategy.rules ≠ [])
    {prices : List α} {i : Nat} (hi : i < prices.length) :
    (strategy.signals prices).enter[i]? =
        some (strategy.combine.merge (strategy.rules.map (fun rule => (rule.votes prices i).1))) ∧
    (strategy.signals prices).exit[i]? =
        some (strategy.combine.merge (strategy.rules.map (fun rule => (rule.votes prices i).2))) := by
  unfold Strategy.signals
  cases hr : strategy.rules with
  | nil => exact absurd hr hrules
  | cons rule rules =>
    have hlen : ∀ rule : Rule α, i < (rule.signals prices).enter.length ∧
        i < (rule.signals prices).exit.length := by
      intro rule
      rw [rule.causal_signals.1.length_eq, rule.causal_signals.2.length_eq]
      exact ⟨hi, hi⟩
    simp only [List.map_cons, Signals.foldl_merge]
    constructor
    · rw [getElem?_foldl_zipWith _ (hlen rule).1 (by simpa using fun other _ => (hlen other).1),
        Combine.foldl_merge]
      simp [Rule.votes, Function.comp_def]
    · rw [getElem?_foldl_zipWith _ (hlen rule).2 (by simpa using fun other _ => (hlen other).2),
        Combine.foldl_merge]
      simp [Rule.votes, Function.comp_def]

end Backtest
