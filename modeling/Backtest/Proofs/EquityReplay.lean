import Backtest.Proofs.ExactArithmetic
import Backtest.Proofs.Exposure

/-!
The equity curve replays the trade log. A machine carries the growth of its log and of its open
position, each bar multiplies it by the move into that bar, and the curve does the same.
-/

namespace Backtest

def Trade.growth (trade : Trade ℚ) : ℚ := trade.exitPrice / trade.entryPrice

def Position.growth (position : Position ℚ) (price : ℚ) : ℚ :=
  position.openedAt.elim 1 (fun entry => price / entry.price)

def Machine.growth (m : Machine ℚ) (price : ℚ) : ℚ :=
  (m.trades.map Trade.growth).prod * m.position.growth price

/-- A bar moves growth from the position to the log, and adds the move of what was held into it. -/
theorem Position.growth_next (reentry : Reentry) (position : Position ℚ) {tick : Tick ℚ}
    {before : ℚ} (hbefore : 0 < before) (hprice : 0 < tick.1.price) :
    (position.completed tick).elim 1 (fun trip => trip.trade.growth) *
        (position.next reentry tick).growth tick.1.price =
      position.growth before * if position.isLong then tick.1.price / before else 1 := by
  have hmove : ∀ entry : ℚ, before / entry * (tick.1.price / before) = tick.1.price / entry := by
    intro entry
    rw [div_mul_div_comm, mul_comm, mul_div_mul_right _ _ hbefore.ne']
  have hhere : (Position.long tick.1).growth tick.1.price = 1 := div_self hprice.ne'
  rcases next_cases reentry position tick with
    ⟨rfl, hc, hn | hn⟩ | ⟨entry, rfl, hc, hn⟩ | ⟨entry, rfl, hc, hn | hn⟩ <;> rw [hc, hn]
  · simp [growth, openedAt, isLong]
  · rw [hhere]
    simp [growth, openedAt, isLong]
  · simp [growth, openedAt, isLong, hmove]
  · simp [growth, openedAt, isLong, hmove, RoundTrip.trade, Trade.between, Trade.growth]
  · rw [hhere]
    simp [growth, openedAt, isLong, hmove, RoundTrip.trade, Trade.between, Trade.growth]

section Run

variable (strategy : Strategy ℚ) (options : Options ℚ) {bars : List (Bar ℚ)}
  (hcloses : ∀ bar ∈ bars, 0 < bar.close)

include hcloses

theorem Mark.On.price_pos {mark : Mark ℚ} (h : mark.On bars) : 0 < mark.price := by
  obtain ⟨bar, hbar, hmark⟩ := h
  rw [← hmark]
  exact hcloses bar (List.mem_of_getElem? hbar)

theorem Strategy.growth_machineAfter_succ (reentry : Reentry) {k : Nat} {bar : Bar ℚ}
    (hbar : bars[k]? = some bar) {before : ℚ} (hbefore : 0 < before) :
    (strategy.machineAfter reentry bars (k + 1)).growth bar.close =
      (strategy.machineAfter reentry bars k).growth before *
        if (strategy.machineAfter reentry bars k).isLong then bar.close / before else 1 := by
  obtain ⟨tick, htick⟩ := strategy.exists_tick bars (List.getElem?_eq_some_iff.mp hbar).1
  have hprice : tick.1.price = bar.close := by
    have hmark := (strategy.getElem?_ticks bars |>.mp htick).1
    rw [hbar] at hmark
    rw [← Option.some.inj hmark]
    rfl
  have hpos : 0 < tick.1.price := hprice ▸ hcloses bar (List.mem_of_getElem? hbar)
  have hnext := Position.growth_next reentry
    (Position.flat.after reentry ((strategy.ticks bars).take k)) hbefore hpos
  rw [hprice] at hnext
  rw [machineAfter_eq, machineAfter_eq]
  simp only [Machine.growth, Position.after_take_succ htick, Position.trips_take_succ htick,
    List.map_append, List.prod_append]
  rw [mul_assoc, mul_assoc]
  refine Eq.trans ?_ (congrArg _ hnext)
  cases (Position.flat.after reentry ((strategy.ticks bars).take k)).completed tick <;> simp

theorem run_equity_succ {i : Nat} {bar : Bar ℚ} {point : EquityPoint ℚ}
    (hbar : bars[i + 1]? = some bar)
    (hpoint : (run strategy bars options).equity[i + 1]? = some point) :
    ∃ before last, bars[i]? = some before ∧ 0 < before.close ∧
      (run strategy bars options).equity[i]? = some last ∧
      point.equity = last.equity *
        if (strategy.machineAfter options.reentry bars (i + 1)).isLong then
          bar.close / before.close else 1 := by
  have hlt := (List.getElem?_eq_some_iff.mp hbar).1
  have hlt' := (List.getElem?_eq_some_iff.mp hpoint).1
  have hbefore := List.getElem?_eq_getElem (l := bars) (i := i) (by omega)
  have hlast := List.getElem?_eq_getElem (l := (run strategy bars options).equity) (i := i) (by omega)
  have hheld := strategy.getElem?_exposure options.reentry bars hlt
  have hpos := hcloses _ (List.mem_of_getElem? hbefore)
  have hnext := getElem?_equityCurve_succ hlast hbefore hbar hheld
  have he := Option.some.inj (hpoint.symm.trans hnext)
  refine ⟨_, _, hbefore, hpos, hlast, ?_⟩
  rw [he, EquityPoint.next, compound_rat hpos]
  split
  · rfl
  · rw [mul_one]

theorem run_equity_eq_growth {i : Nat} {bar : Bar ℚ} {point : EquityPoint ℚ}
    (hbar : bars[i]? = some bar) (hpoint : (run strategy bars options).equity[i]? = some point) :
    point.equity = options.equityBase *
      (strategy.machineAfter options.reentry bars (i + 1)).growth bar.close := by
  induction i generalizing bar point with
  | zero =>
    have hstart : (strategy.machineAfter options.reentry bars 0).growth bar.close = 1 := by
      simp [Strategy.machineAfter, Machine.walk, Machine.start, Machine.growth, Position.growth,
        Position.openedAt]
    have hflat : (strategy.machineAfter options.reentry bars 0).isLong = false := rfl
    have hpos := hcloses bar (List.mem_of_getElem? hbar)
    rw [strategy.growth_machineAfter_succ hcloses options.reentry hbar hpos, hstart, hflat,
      getElem?_equityCurve_zero hpoint]
    simp
  | succ i ih =>
    obtain ⟨before, last, hbefore, hpos, hlast, hmove⟩ :=
      run_equity_succ strategy options hcloses hbar hpoint
    rw [hmove, ih hbefore hlast, mul_assoc,
      strategy.growth_machineAfter_succ hcloses options.reentry hbar hpos]

theorem run_equity_pos (hbase : 0 < options.equityBase) {i : Nat} {point : EquityPoint ℚ}
    (hpoint : (run strategy bars options).equity[i]? = some point) : 0 < point.equity := by
  have hlen := (causal_run_equity strategy options).length_eq bars
  induction i generalizing point with
  | zero => rwa [getElem?_equityCurve_zero hpoint]
  | succ i ih =>
    have hlt := (List.getElem?_eq_some_iff.mp hpoint).1
    have hbar := List.getElem?_eq_getElem (l := bars) (i := i + 1) (by omega)
    have hclose := hcloses _ (List.mem_of_getElem? hbar)
    obtain ⟨before, last, hbefore, hpos, hlast, hmove⟩ :=
      run_equity_succ strategy options hcloses hbar hpoint
    have hih := ih hlast
    rw [hmove]
    split <;> positivity

theorem run_equity_of_exposed {a b : Nat} (hab : a ≤ b)
    (hheld : ∀ i ∈ Set.Ioc a b, (strategy.exposure options.reentry bars)[i]? = some true)
    {first last : Bar ℚ} {start final : EquityPoint ℚ}
    (hfirst : bars[a]? = some first) (hlast : bars[b]? = some last)
    (hstart : (run strategy bars options).equity[a]? = some start)
    (hfinal : (run strategy bars options).equity[b]? = some final) :
    final.equity = start.equity * (last.close / first.close) := by
  induction b, hab using Nat.le_induction generalizing last final with
  | base =>
    obtain rfl : first = last := Option.some.inj (hfirst.symm.trans hlast)
    obtain rfl : start = final := Option.some.inj (hstart.symm.trans hfinal)
    have hpos := hcloses first (List.mem_of_getElem? hfirst)
    rw [div_self hpos.ne', mul_one]
  | succ b hab ih =>
    obtain ⟨before, point, hbefore, hpos, hpoint, hmove⟩ :=
      run_equity_succ strategy options hcloses hlast hfinal
    have hgrowth := ih (fun i hi => hheld i ⟨hi.1, Nat.le_succ_of_le hi.2⟩) hbefore hpoint
    have hlong := hheld (b + 1) ⟨Nat.lt_succ_of_le hab, Nat.le_refl _⟩
    rw [strategy.getElem?_exposure options.reentry bars (List.getElem?_eq_some_iff.mp hlast).1,
      Option.some_inj] at hlong
    rw [hmove, if_pos hlong, hgrowth]
    field_simp

theorem run_equity_over_trip (hbase : 0 < options.equityBase) {trip : RoundTrip ℚ}
    (htrip : trip ∈ strategy.roundTrips options bars) :
    ∃ entry ∈ (run strategy bars options).equity[trip.entry.index]?,
      ∃ exit ∈ (run strategy bars options).equity[trip.exit.index]?,
        exit.equity / entry.equity = 1 + trip.trade.returnPct / 100 := by
  have hlen := (causal_run_equity strategy options).length_eq bars
  obtain ⟨hentry, hexit, hlt⟩ := strategy.on_of_mem_roundTrips options htrip
  have hexitlt := hexit.index_lt
  have hheld : ∀ i ∈ Set.Ioc trip.entry.index trip.exit.index,
      (strategy.exposure options.reentry bars)[i]? = some true := by
    intro i hi
    have hspan : trip.span ∈ strategy.spans options bars :=
      List.mem_append_left _ (List.mem_map_of_mem htrip)
    exact (strategy.exposure_iff_mem_spans options (Nat.lt_of_le_of_lt hi.2 hexitlt)).mpr
      ⟨trip.span, hspan, hi⟩
  obtain ⟨first, hfirst, hmark⟩ := hentry
  obtain ⟨last, hlast, hmark'⟩ := hexit
  have hstart := List.getElem?_eq_getElem (l := (run strategy bars options).equity)
    (i := trip.entry.index) (by omega)
  have hfinal := List.getElem?_eq_getElem (l := (run strategy bars options).equity)
    (i := trip.exit.index) (by omega)
  have hpos := run_equity_pos strategy options hcloses hbase hstart
  have hgrowth := run_equity_of_exposed strategy options hcloses hlt.le hheld hfirst hlast hstart
    hfinal
  have hreturn : trip.trade.returnPct = returnPct first.close last.close := by
    rw [RoundTrip.trade, ← hmark, ← hmark']
    rfl
  refine ⟨_, hstart, _, hfinal, ?_⟩
  rw [hgrowth, hreturn, one_add_returnPct (hcloses first (List.mem_of_getElem? hfirst)),
    mul_div_cancel_left₀ _ hpos.ne']

/-- The log of a run and its open position have the growth of the machine, whatever becomes of a
position that is open in the end. -/
theorem growth_roundTrips {last : Bar ℚ} (hlast : bars[bars.length - 1]? = some last) :
    ((strategy.roundTrips options bars).map (fun trip => trip.trade.growth)).prod *
        (strategy.openEntry options bars).elim 1 (fun entry => last.close / entry.price) =
      (strategy.machineAfter options.reentry bars bars.length).growth last.close := by
  have htrades : (strategy.machineAfter options.reentry bars bars.length).trades =
      (strategy.signalTrips options.reentry bars).map RoundTrip.trade := by
    rw [Strategy.machineAfter_length]
  rw [Machine.growth, Position.growth, htrades, List.map_map]
  rcases strategy.end_cases bars options with ⟨hopen, htrips, hkept⟩ |
    ⟨entry, hopen, _, htrips, hkept⟩ | ⟨entry, sold, hopen, _, hsold, htrips, hkept⟩ <;>
    rw [hopen, htrips, hkept]
  · rfl
  · rfl
  · obtain rfl : last = sold := Option.some.inj (hlast.symm.trans hsold)
    rw [List.map_append, List.prod_append, Option.elim_none, mul_one]
    congr 1
    by_cases he : entry.index = bars.length - 1
    · obtain ⟨bar, hbar, hmark⟩ := strategy.on_of_machineAfter options.reentry bars hopen
      rw [he, hlast] at hbar
      have hprice : entry.price = last.close := by
        rw [← hmark, ← Option.some.inj hbar]
        rfl
      have hpos := hcloses last (List.mem_of_getElem? hlast)
      simp [he, hprice, hpos.ne']
    · simp [he, RoundTrip.trade, Trade.between, Trade.growth, Bar.mark]

theorem trades_growth :
    (run strategy bars options).trades.map (fun trade => 1 + trade.returnPct / 100) =
      (strategy.roundTrips options bars).map (fun trip => trip.trade.growth) := by
  rw [run_trades, List.map_map]
  refine List.map_congr_left fun trip hm => ?_
  have hentry := (strategy.on_of_mem_roundTrips options hm).1
  exact one_add_returnPct (hentry.price_pos hcloses) trip.exit.price

theorem openPosition_growth {last : Bar ℚ} (hlast : bars[bars.length - 1]? = some last) :
    (run strategy bars options).openPosition.elim 1
        (fun position => 1 + position.unrealizedPct / 100) =
      (strategy.openEntry options bars).elim 1 (fun entry => last.close / entry.price) := by
  rw [run_openPosition, getLast?_marksFrom, hlast]
  cases hkept : strategy.openEntry options bars with
  | none => rfl
  | some entry =>
    have hentry := strategy.on_of_openEntry bars options hkept
    exact one_add_returnPct (hentry.price_pos hcloses) last.close

theorem run_totalReturnPct (hbase : 0 < options.equityBase) :
    (run strategy bars options).stats.totalReturnPct =
      (((run strategy bars options).trades.map (fun trade => 1 + trade.returnPct / 100)).prod *
        (run strategy bars options).openPosition.elim 1
          (fun position => 1 + position.unrealizedPct / 100) - 1) * 100 := by
  have hlen := (causal_run_equity strategy options).length_eq bars
  rw [run_stats, totalReturnPct_rat hbase, trades_growth strategy options hcloses,
    List.getLast?_eq_getElem?, hlen]
  cases hlast : bars[bars.length - 1]? with
  | none =>
    have hnil : bars.length = 0 := by
      have := List.getElem?_eq_none_iff.mp hlast
      omega
    obtain rfl := List.eq_nil_of_length_eq_zero hnil
    have htrips : strategy.roundTrips options [] = [] := by
      refine List.eq_nil_iff_forall_not_mem.mpr fun trip hm => ?_
      exact Nat.not_lt_zero _ (strategy.on_of_mem_roundTrips options hm).1.index_lt
    have hkept : (run strategy [] options).openPosition = none := by
      rw [run_openPosition]
      cases strategy.openEntry options [] <;> rfl
    rw [htrips, hkept, List.getElem?_eq_none (by omega)]
    simp [hbase.ne']
  | some last =>
    have hlt := (List.getElem?_eq_some_iff.mp hlast).1
    have hpoint := List.getElem?_eq_getElem (l := (run strategy bars options).equity)
      (i := bars.length - 1) (by omega)
    have hgrowth := run_equity_eq_growth strategy options hcloses hlast hpoint
    rw [Nat.sub_add_cancel (by omega)] at hgrowth
    rw [openPosition_growth strategy options hcloses hlast,
      growth_roundTrips strategy options hcloses hlast, hpoint, Option.map_some, Option.getD_some,
      hgrowth, mul_div_cancel_left₀ _ hbase.ne']

end Run

/-- In exact arithmetic, with a positive base and positive closes, the curve replays the log of
trades: at every bar, over every trade, and in total. -/
theorem run_equity_replays_trades (strategy : Strategy ℚ) (options : Options ℚ)
    (bars : List (Bar ℚ)) (hbase : 0 < options.equityBase) (hcloses : ∀ bar ∈ bars, 0 < bar.close) :
    let result := run strategy bars options
    let signalTrips := strategy.signalTrips options.reentry bars
    let roundTrips := strategy.roundTrips options bars
    (∀ i : Nat, ∀ bar ∈ bars[i]?, ∃ point ∈ result.equity[i]?,
      let machine := strategy.machineAfter options.reentry bars (i + 1)
      let ended := (signalTrips.filter (fun trip => trip.exit.index ≤ i)).map RoundTrip.trade
      machine.trades = ended ∧ ended <+: result.trades ∧ 0 < point.equity ∧
      point.equity = options.equityBase *
        (ended.map (fun trade => trade.exitPrice / trade.entryPrice)).prod *
          machine.position.openedAt.elim 1 (fun entry => bar.close / entry.price)) ∧
    result.trades = roundTrips.map RoundTrip.trade ∧
    (∀ trip ∈ roundTrips, ∃ entry ∈ result.equity[trip.entry.index]?,
      ∃ exit ∈ result.equity[trip.exit.index]?,
        exit.equity / entry.equity = 1 + trip.trade.returnPct / 100) ∧
    result.stats.totalReturnPct =
      ((result.trades.map (fun trade => 1 + trade.returnPct / 100)).prod *
        result.openPosition.elim 1 (fun position => 1 + position.unrealizedPct / 100) - 1) * 100 := by
  intro result signalTrips roundTrips
  refine ⟨fun i bar hbar => ?_, run_trades strategy options bars,
    fun trip hm => run_equity_over_trip strategy options hcloses hbase hm,
    run_totalReturnPct strategy options hcloses hbase⟩
  have hlen := (causal_run_equity strategy options).length_eq bars
  have hlt := (List.getElem?_eq_some_iff.mp hbar).1
  have hpoint := List.getElem?_eq_getElem (l := (run strategy bars options).equity) (i := i)
    (by omega)
  have hended := strategy.machineAfter_trades options.reentry bars (i + 1)
  have hopens := ended_isPrefix_trades strategy options bars (i + 1)
  simp only [Nat.lt_add_one_iff] at hended hopens
  refine ⟨_, hpoint, hended, hopens, run_equity_pos strategy options hcloses hbase hpoint, ?_⟩
  rw [run_equity_eq_growth strategy options hcloses hbar hpoint, Machine.growth, hended, mul_assoc]
  rfl

theorem run_equity_replays_trades_turns :
    let bars : List (Bar ℚ) := dailyBars [10, 9, 8, 12, 13, 7, 11, 14]
    let options : Options ℚ := ⟨100, .sameBar, .liquidate⟩
    let result := run followTurns bars options
    0 < options.equityBase ∧ (∀ bar ∈ bars, 0 < bar.close) ∧
    result.stats.totalReturnPct =
      ((result.trades.map (fun trade => 1 + trade.returnPct / 100)).prod *
        result.openPosition.elim 1 (fun position => 1 + position.unrealizedPct / 100) - 1) * 100 ∧
    result.stats.totalReturnPct = -850 / 33 ∧ result.trades.map (·.barsHeld) = [2, 1] := by
  intro bars options result
  have hbase : 0 < options.equityBase := by decide +kernel
  have hcloses : ∀ bar ∈ bars, 0 < bar.close := by decide +kernel
  exact ⟨hbase, hcloses, (run_equity_replays_trades followTurns options bars hbase hcloses).2.2.2,
    by decide +kernel, by decide +kernel⟩

end Backtest
