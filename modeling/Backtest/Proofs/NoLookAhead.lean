import Backtest.Proofs.ExactArithmetic
import Backtest.Proofs.RunHistory
import Mathlib.Data.List.Forall2
import Mathlib.Tactic.IntervalCases

/-!
A run never looks ahead: what it reports up to a bar depends only on the dates and closes up to
that bar. Nothing is assumed of the arithmetic.
-/

namespace Backtest

variable {α : Type}

/-- Two bars that a run cannot tell apart: it reads nothing but the date and the close. -/
def SameQuote (bar bar' : Bar α) : Prop := bar.date = bar'.date ∧ bar.close = bar'.close

/-- Both series reach beyond the first bars and quote the same there. -/
def AgreeBefore (k : Nat) (bars bars' : List (Bar α)) : Prop :=
  ∀ i < k, ∃ bar bar', bars[i]? = some bar ∧ bars'[i]? = some bar' ∧ SameQuote bar bar'

theorem AgreeBefore.le_length {k : Nat} {bars bars' : List (Bar α)} (h : AgreeBefore k bars bars') :
    k ≤ bars.length ∧ k ≤ bars'.length := by
  cases k with
  | zero => exact ⟨Nat.zero_le _, Nat.zero_le _⟩
  | succ k =>
    obtain ⟨bar, bar', hb, hb', _⟩ := h k (Nat.lt_succ_self k)
    exact ⟨(List.getElem?_eq_some_iff.mp hb).1, (List.getElem?_eq_some_iff.mp hb').1⟩

theorem AgreeBefore.take {k : Nat} {bars bars' : List (Bar α)} (h : AgreeBefore k bars bars') :
    List.Forall₂ SameQuote (bars.take k) (bars'.take k) := by
  obtain ⟨hl, hl'⟩ := h.le_length
  refine List.forall₂_iff_get.mpr ⟨by simp [hl, hl'], fun i hi hi' => ?_⟩
  have hk : i < k := by simp only [List.length_take] at hi; omega
  obtain ⟨bar, bar', hb, hb', hq⟩ := h i hk
  obtain ⟨_, he⟩ := List.getElem?_eq_some_iff.mp hb
  obtain ⟨_, he'⟩ := List.getElem?_eq_some_iff.mp hb'
  simpa only [List.get_eq_getElem, List.getElem_take, he, he'] using hq

theorem marksFrom_congr {bars bars' : List (Bar α)} (h : List.Forall₂ SameQuote bars bars')
    (index : Nat) : marksFrom index bars = marksFrom index bars' := by
  induction h generalizing index with
  | nil => rfl
  | cons hq _ ih => simp only [marksFrom, Bar.mark, hq.1, hq.2, ih]

theorem closes_congr {bars bars' : List (Bar α)} (h : List.Forall₂ SameQuote bars bars') :
    closes bars = closes bars' := by
  induction h with
  | nil => rfl
  | cons hq _ ih => simpa [closes, hq.2] using ih

variable [Scalar α]

theorem equityAfter_congr {bars bars' : List (Bar α)} (h : List.Forall₂ SameQuote bars bars')
    (before equity : α) (exposure : List Bool) :
    equityAfter before equity bars exposure = equityAfter before equity bars' exposure := by
  induction h generalizing before equity exposure with
  | nil => rfl
  | cons hq _ ih => simp only [equityAfter, hq.1, hq.2, ih]

theorem equityCurve_congr {bars bars' : List (Bar α)} (h : List.Forall₂ SameQuote bars bars')
    (exposure : List Bool) (base : α) :
    equityCurve bars exposure base = equityCurve bars' exposure base := by
  cases h with
  | nil => rfl
  | cons hq ht => simp only [equityCurve, hq.1, hq.2, equityAfter_congr ht]

theorem run_congr {bars bars' : List (Bar α)} (h : List.Forall₂ SameQuote bars bars')
    (strategy : Strategy α) (options : Options α) :
    run strategy bars options = run strategy bars' options := by
  simp only [run, marksFrom_congr h 0, closes_congr h, equityCurve_congr h]

theorem signalTrips_congr {bars bars' : List (Bar α)} (h : List.Forall₂ SameQuote bars bars')
    (strategy : Strategy α) (reentry : Reentry) :
    strategy.signalTrips reentry bars = strategy.signalTrips reentry bars' := by
  simp only [Strategy.signalTrips, Strategy.ticks, marksFrom_congr h 0, closes_congr h]

theorem machineAfter_take (strategy : Strategy α) (reentry : Reentry) {bars : List (Bar α)} {k : Nat}
    (hk : k ≤ bars.length) :
    strategy.machineAfter reentry (bars.take k) (bars.take k).length =
      strategy.machineAfter reentry bars k := by
  rw [Strategy.machineAfter, Strategy.machineAfter, strategy.causal_ticks.take_eq, List.take_take,
    List.length_take, Nat.min_eq_left hk, Nat.min_self]

theorem run_take_openPosition (strategy : Strategy α) {options : Options α}
    (hpolicy : options.endOfSeries = .markToMarket) {bars : List (Bar α)} {k : Nat}
    (hk : k ≤ bars.length) :
    (run strategy (bars.take k) options).openPosition =
      bars[k - 1]?.bind (fun bar =>
        (strategy.machineAfter options.reentry bars k).openPosition (bar.mark (k - 1))) := by
  have hl : (bars.take k).length = k := by rw [List.length_take, Nat.min_eq_left hk]
  rw [run_openPosition, Strategy.openEntry, machineAfter_take strategy _ hk, getLast?_marksFrom, hl,
    hpolicy]
  have hkept : EndOfSeries.markToMarket.kept (strategy.machineAfter options.reentry bars k).position =
      (strategy.machineAfter options.reentry bars k).position.openedAt := rfl
  rw [hkept]
  cases k with
  | zero => simp [Strategy.machineAfter, Machine.walk, Machine.start, Position.openedAt,
      Machine.openPosition]
  | succ k =>
    rw [Nat.add_sub_cancel, List.getElem?_take_of_lt (Nat.lt_succ_self k)]
    unfold Machine.openPosition
    cases bars[k]? <;>
      cases (strategy.machineAfter options.reentry bars (k + 1)).position <;>
      simp [Position.openedAt]

/-- Two series that quote the same before a bar have the same signals and the same points there,
and the same round trips have ended; they open the log of trades. Under mark to market, a run over
the first bars alone reports just this, and its open position is the one held at that time. -/
theorem run_never_looks_ahead (strategy : Strategy α) (options : Options α) {k : Nat}
    {bars bars' : List (Bar α)} (h : AgreeBefore k bars bars') :
    let signals := strategy.signals (closes bars)
    let signals' := strategy.signals (closes bars')
    let ended := (strategy.signalTrips options.reentry bars).filter (fun trip => trip.exit.index < k)
    let ended' := (strategy.signalTrips options.reentry bars').filter (fun trip => trip.exit.index < k)
    (∀ i < k, ∃ enter exit, signals.enter[i]? = some enter ∧ signals'.enter[i]? = some enter ∧
      signals.exit[i]? = some exit ∧ signals'.exit[i]? = some exit) ∧
    (∀ i < k, ∃ point, (run strategy bars options).equity[i]? = some point ∧
      (run strategy bars' options).equity[i]? = some point) ∧
    ended = ended' ∧
    (strategy.machineAfter options.reentry bars k).trades = ended.map RoundTrip.trade ∧
    ended.map RoundTrip.trade <+: (run strategy bars options).trades ∧
    ended'.map RoundTrip.trade <+: (run strategy bars' options).trades ∧
    (options.endOfSeries = .markToMarket →
      (run strategy (bars.take k) options).equity = (run strategy bars options).equity.take k ∧
      (run strategy (bars.take k) options).trades = ended.map RoundTrip.trade ∧
      (run strategy (bars.take k) options).openPosition = bars[k - 1]?.bind (fun bar =>
        (strategy.machineAfter options.reentry bars k).openPosition (bar.mark (k - 1)))) := by
  obtain ⟨hn, hx⟩ := strategy.causal_signals
  obtain ⟨hk, _⟩ := h.le_length
  have hlen : k ≤ (closes bars).length := by simpa [closes] using hk
  have hcloses : (closes bars).take k = (closes bars').take k := by
    simpa only [closes, List.map_take] using closes_congr h.take
  have hs := congrArg strategy.signals hcloses
  refine ⟨fun i hi => ?_, fun i hi => ?_, ?_, strategy.machineAfter_trades _ bars k,
    ended_isPrefix_trades strategy options bars k, ended_isPrefix_trades strategy options bars' k,
    fun hpolicy => ⟨?_, ?_, ?_⟩⟩
  · obtain ⟨enter, he, he'⟩ := hn.getElem?_agree hlen (congrArg Signals.enter hs) hi
    obtain ⟨exit, hx, hx'⟩ := hx.getElem?_agree hlen (congrArg Signals.exit hs) hi
    exact ⟨enter, exit, he, he', hx, hx'⟩
  · exact (causal_run_equity strategy options).getElem?_agree hk
      (congrArg Result.equity (run_congr h.take strategy options)) hi
  · rw [← strategy.signalTrips_take, ← strategy.signalTrips_take, signalTrips_congr h.take]
  · exact (causal_run_equity strategy options).take_eq k bars
  · rw [run_trades, Strategy.roundTrips, Strategy.signalTrips_take, hpolicy]
    simp [EndOfSeries.sold]
  · exact run_take_openPosition strategy hpolicy hk

theorem run_never_looks_ahead_turns :
    let bars : List (Bar ℚ) := dailyBars [10, 9, 8, 12, 7, 13]
    let bars' : List (Bar ℚ) := dailyBars [10, 9, 8, 12, 7, 3, 2, 1]
    AgreeBefore 5 bars bars' ∧
    (run followTurns (bars.take 5) .standard).trades =
      ((followTurns.signalTrips .sameBar bars).filter (fun trip => trip.exit.index < 5)).map
        RoundTrip.trade ∧
    (followTurns.signalTrips .sameBar bars).filter (fun trip => trip.exit.index < 5) =
      [⟨⟨3, ⟨3⟩, 12⟩, ⟨4, ⟨4⟩, 7⟩⟩] := by
  intro bars bars'
  have h : AgreeBefore 5 bars bars' := by
    intro i hi
    interval_cases i <;> exact ⟨_, _, rfl, rfl, rfl, rfl⟩
  exact ⟨h, ((run_never_looks_ahead followTurns .standard h).2.2.2.2.2.2 rfl).2.1, by decide +kernel⟩

end Backtest
