import Backtest.Proofs.GreedyPairing

/-!
The end of a series. A position that is open on the last bar is sold there on the terms on which it
would be valued, so the two policies differ in what they report and not in how the index moves.
-/

namespace Backtest

variable {α : Type}

theorem EndOfSeries.sold_markToMarket (position : Position α) (last : Option (Mark α)) :
    EndOfSeries.markToMarket.sold position last = none := by
  cases position <;> cases last <;> rfl

variable [Scalar α]

/-- The trade that sells a position for what it is valued at. -/
def OpenPosition.sale (position : OpenPosition α) : Trade α where
  entryDate := position.entryDate
  entryPrice := position.entryPrice
  exitDate := position.lastDate
  exitPrice := position.lastPrice
  returnPct := position.unrealizedPct
  barsHeld := position.barsHeld

theorem OpenPosition.sale_valued (entry last : Mark α) :
    (OpenPosition.valued entry last).sale = Trade.between entry last := rfl

theorem Stats.totalReturnPct_congr (returns returns' : List α) (base final : α) :
    (Stats.summarize returns base final).totalReturnPct =
      (Stats.summarize returns' base final).totalReturnPct := by
  have htotal : ∀ rs : List α, (Stats.summarize rs base final).totalReturnPct =
      if Scalar.isPositive base then (final / base - Scalar.one) * Scalar.hundred
      else Scalar.zero := by
    intro rs
    rw [Stats.summarize]
    by_cases hempty : rs.isEmpty = true <;> simp [hempty]
  rw [htotal, htotal]

namespace EndOfSeries

/-- A position entered before the last bar is sold; one entered on it has been held for no bar. -/
theorem trade_sold_liquidate {position : Position α} {last : Option (Mark α)}
    (h : ∀ entry here, position.openedAt = some entry → last = some here →
      entry.index ≤ here.index) :
    (liquidate.sold position last).map RoundTrip.trade =
      (((markToMarket.kept position).bind fun entry => last.map (OpenPosition.valued entry)).filter
        (0 < ·.barsHeld)).map OpenPosition.sale := by
  cases position with
  | flat => rfl
  | long entry =>
    cases last with
    | none => rfl
    | some here =>
      have hle := h entry here rfl rfl
      by_cases he : entry.index = here.index
      · have hheld : ¬ 0 < (OpenPosition.valued entry here).barsHeld := by
          simp [OpenPosition.valued, he]
        simp [sold, kept, Position.openedAt, he, Option.filter, hheld]
      · have hheld : 0 < (OpenPosition.valued entry here).barsHeld := by
          change 0 < here.index - entry.index
          omega
        simp [sold, kept, Position.openedAt, he, Option.filter, hheld, OpenPosition.sale_valued,
          RoundTrip.trade]

end EndOfSeries

section Run

variable (strategy : Strategy α) (bars : List (Bar α))

theorem run_barsHeld_pos (options : Options α) :
    ∀ trade ∈ (run strategy bars options).trades, 0 < trade.barsHeld := by
  intro trade hm
  rw [run_trades] at hm
  obtain ⟨trip, htrip, rfl⟩ := List.mem_map.mp hm
  have hlt := (strategy.on_of_mem_roundTrips options htrip).2.2
  change 0 < trip.exit.index - trip.entry.index
  omega

theorem Strategy.entry_le_last (reentry : Reentry) {entry here : Mark α}
    (hentry : (strategy.machineAfter reentry bars bars.length).position.openedAt = some entry)
    (hlast : (marksFrom 0 bars).getLast? = some here) : entry.index ≤ here.index := by
  have hlt := (strategy.on_of_machineAfter reentry bars hentry).index_lt
  rw [getLast?_marksFrom] at hlast
  obtain ⟨bar, _, rfl⟩ := Option.map_eq_some_iff.mp hlast
  exact Nat.le_sub_one_of_lt hlt

theorem run_liquidate_trades (base : α) (reentry : Reentry) :
    (run strategy bars ⟨base, reentry, .liquidate⟩).trades =
      (run strategy bars ⟨base, reentry, .markToMarket⟩).trades ++
        (((run strategy bars ⟨base, reentry, .markToMarket⟩).openPosition.filter
          (0 < ·.barsHeld)).map OpenPosition.sale).toList := by
  have hsold := EndOfSeries.trade_sold_liquidate fun entry here hentry hlast =>
    strategy.entry_le_last bars reentry hentry hlast
  rw [run_openPosition, Strategy.openEntry, ← hsold, run_trades, run_trades, Strategy.roundTrips,
    Strategy.roundTrips, EndOfSeries.sold_markToMarket, Option.toList_none, List.append_nil,
    List.map_append, Option.toList_map]

end Run

/-- Selling the last position instead of valuing it leaves the index and the total as they are, and
adds to the log at most one trade, on the terms of the position. A position that has been held for
no bar adds none, so that every trade spans a bar. -/
theorem run_policies_differ_in_last_position (strategy : Strategy α) (bars : List (Bar α))
    (base : α) (reentry : Reentry) :
    let valued := run strategy bars ⟨base, reentry, .markToMarket⟩
    let sold := run strategy bars ⟨base, reentry, .liquidate⟩
    sold.equity = valued.equity ∧
    sold.stats.totalReturnPct = valued.stats.totalReturnPct ∧
    sold.openPosition = none ∧
    sold.trades = valued.trades ++
      ((valued.openPosition.filter (0 < ·.barsHeld)).map OpenPosition.sale).toList ∧
    (∀ trade ∈ valued.trades, 0 < trade.barsHeld) ∧ ∀ trade ∈ sold.trades, 0 < trade.barsHeld := by
  intro valued sold
  have hequity : sold.equity = valued.equity := by
    rw [run_equity, run_equity]
  refine ⟨hequity, ?_, ?_, run_liquidate_trades strategy bars base reentry,
    run_barsHeld_pos strategy bars _, run_barsHeld_pos strategy bars _⟩
  · rw [run_stats, run_stats, hequity]
    exact Stats.totalReturnPct_congr _ _ _ _
  · rw [run_openPosition]
    rfl

end Backtest
