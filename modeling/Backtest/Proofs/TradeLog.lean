import Backtest.Proofs.GreedyPairing
import Mathlib.Data.List.Forall2

/-!
The trade log of a run, read off the bars and the pairing of its signals. What the end of the
series adds depends on the policy and on the last entry.
-/

namespace Backtest

variable {α : Type} [Scalar α]

/-- A trade from one bar to a later one, with its figures. -/
def TradeBetween (bars : List (Bar α)) (span : Nat × Nat) (trade : Trade α) : Prop :=
  ∃ entry exit, bars[span.1]? = some entry ∧ bars[span.2]? = some exit ∧
    trade.entryDate = entry.date ∧ trade.entryPrice = entry.close ∧
    trade.exitDate = exit.date ∧ trade.exitPrice = exit.close ∧
    trade.returnPct = returnPct entry.close exit.close ∧
    trade.barsHeld = span.2 - span.1 ∧ 1 ≤ trade.barsHeld

/-- A position opened at a bar and valued at the last one. -/
def OpenSince (bars : List (Bar α)) (entryIndex : Nat) (position : OpenPosition α) : Prop :=
  ∃ entry last, bars[entryIndex]? = some entry ∧ bars[bars.length - 1]? = some last ∧
    position.entryDate = entry.date ∧ position.entryPrice = entry.close ∧
    position.lastDate = last.date ∧ position.lastPrice = last.close ∧
    position.unrealizedPct = returnPct entry.close last.close ∧
    position.barsHeld = bars.length - 1 - entryIndex

theorem tradeBetween_of_on {bars : List (Bar α)} {trip : RoundTrip α} (hentry : trip.entry.On bars)
    (hexit : trip.exit.On bars) (hlt : trip.entry.index < trip.exit.index) :
    TradeBetween bars trip.span trip.trade := by
  obtain ⟨entry, he, hm⟩ := hentry
  obtain ⟨exit, hx, hm'⟩ := hexit
  refine ⟨entry, exit, he, hx, ?_⟩
  rw [RoundTrip.trade, ← hm, ← hm']
  refine ⟨rfl, rfl, rfl, rfl, rfl, rfl, ?_⟩
  change 1 ≤ trip.exit.index - trip.entry.index
  omega

theorem openSince_of_on {bars : List (Bar α)} {entry : Mark α} {last : Bar α}
    (hentry : entry.On bars) (hlast : bars[bars.length - 1]? = some last) :
    OpenSince bars entry.index (OpenPosition.valued entry (last.mark (bars.length - 1))) := by
  obtain ⟨bar, hb, hm⟩ := hentry
  refine ⟨bar, last, hb, hlast, ?_⟩
  rw [← hm]
  exact ⟨rfl, rfl, rfl, rfl, rfl, rfl⟩

theorem run_trades_between (strategy : Strategy α) (options : Options α) (bars : List (Bar α)) :
    List.Forall₂ (TradeBetween bars) ((strategy.roundTrips options bars).map RoundTrip.span)
      (run strategy bars options).trades := by
  rw [run_trades, List.forall₂_map_left_iff, List.forall₂_map_right_iff, List.forall₂_same]
  intro trip hm
  obtain ⟨hentry, hexit, hlt⟩ := strategy.on_of_mem_roundTrips options hm
  exact tradeBetween_of_on hentry hexit hlt

theorem tradeBetween_of_mem {strategy : Strategy α} {options : Options α} {bars : List (Bar α)}
    {trade : Trade α} (h : trade ∈ (run strategy bars options).trades) :
    ∃ span, TradeBetween bars span trade := by
  rw [run_trades] at h
  obtain ⟨trip, hm, rfl⟩ := List.mem_map.mp h
  obtain ⟨hentry, hexit, hlt⟩ := strategy.on_of_mem_roundTrips options hm
  exact ⟨trip.span, tradeBetween_of_on hentry hexit hlt⟩

theorem run_openPosition_since (strategy : Strategy α) (options : Options α)
    (bars : List (Bar α)) :
    Option.Rel (OpenSince bars) ((strategy.openEntry options bars).map Mark.index)
      (run strategy bars options).openPosition := by
  rw [run_openPosition]
  cases hkept : strategy.openEntry options bars with
  | none => exact .none
  | some entry =>
    have hon := strategy.on_of_openEntry bars options hkept
    obtain ⟨last, hlast⟩ := hon.exists_last
    rw [getLast?_marksFrom, hlast]
    exact .some (openSince_of_on hon hlast)

/-- The trades of a run are the pairs of the greedy pairing, in order. A last entry without an exit
is reported open, or sold at the last bar; sold on its own bar it leaves nothing. -/
theorem run_pairs_signals_greedily (strategy : Strategy α) (options : Options α)
    (bars : List (Bar α)) :
    let signals := strategy.signals (closes bars)
    let result := run strategy bars options
    ∃ pairs last, GreedyPairing signals options.reentry 0 pairs last ∧
      (∀ pairs' last', GreedyPairing signals options.reentry 0 pairs' last' →
        pairs' = pairs ∧ last' = last) ∧
      match last, options.endOfSeries with
      | none, _ =>
        List.Forall₂ (TradeBetween bars) pairs result.trades ∧ result.openPosition = none
      | some entry, .markToMarket =>
        List.Forall₂ (TradeBetween bars) pairs result.trades ∧
          ∃ position, result.openPosition = some position ∧ OpenSince bars entry position
      | some entry, .liquidate =>
        entry ≤ bars.length - 1 ∧ result.openPosition = none ∧
          List.Forall₂ (TradeBetween bars)
            (if entry < bars.length - 1 then pairs ++ [(entry, bars.length - 1)] else pairs)
            result.trades := by
  intro signals result
  have hpairing := strategy.greedyPairing_signalTrips options.reentry bars
  have htrades := run_trades_between strategy options bars
  have hposition := run_openPosition_since strategy options bars
  refine ⟨_, _, hpairing, fun _ _ h' => hpairing.unique h', ?_⟩
  change List.Forall₂ _ _ result.trades at htrades
  generalize result.openPosition = position at hposition ⊢
  rcases strategy.end_cases bars options with ⟨hopen, htrips, hkept⟩ |
    ⟨entry, hopen, hpolicy, htrips, hkept⟩ | ⟨entry, last, hopen, hpolicy, hlast, htrips, hkept⟩ <;>
    rw [htrips] at htrades <;> rw [hkept] at hposition <;> rw [hopen]
  · cases hposition
    exact ⟨htrades, rfl⟩
  · rw [hpolicy]
    cases hposition with
    | some hsince => exact ⟨htrades, _, rfl, hsince⟩
  · rw [hpolicy]
    have hlt := (strategy.on_of_machineAfter options.reentry bars hopen).index_lt
    cases hposition
    refine ⟨Nat.le_sub_one_of_lt hlt, rfl, ?_⟩
    by_cases he : entry.index = bars.length - 1
    · simpa [he] using htrades
    · have hl : entry.index < bars.length - 1 := by omega
      simpa [he, hl, RoundTrip.span, Bar.mark] using htrades

end Backtest
