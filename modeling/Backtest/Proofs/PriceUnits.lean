import Backtest.Proofs.PriceScale
import Backtest.Proofs.RunHistory

/-!
The units of prices and of the index. A run compares prices with each other and compounds their
ratios, and no step of it measures a price against a fixed number.
-/

namespace Backtest

section Marks

variable {α β : Type} (f : Mark α → Mark β)

def Position.map : Position α → Position β
  | .flat => .flat
  | .long entry => .long (f entry)

def RoundTrip.map (trip : RoundTrip α) : RoundTrip β := ⟨f trip.entry, f trip.exit⟩

def Tick.map (tick : Tick α) : Tick β := (f tick.1, tick.2)

namespace Position

theorem openedAt_map (position : Position α) :
    (position.map f).openedAt = position.openedAt.map f := by
  cases position <;> rfl

theorem isLong_map (position : Position α) : (position.map f).isLong = position.isLong := by
  cases position <;> rfl

/-- A bar moves a position on without a look at the marks. -/
theorem next_map (reentry : Reentry) (position : Position α) (tick : Tick α) :
    (position.map f).next reentry (Tick.map f tick) = (position.next reentry tick).map f := by
  obtain ⟨here, enter, exit⟩ := tick
  cases position with
  | flat => cases enter <;> rfl
  | long entry =>
    cases exit with
    | false => rfl
    | true => cases enter <;> cases reentry <;> rfl

theorem completed_map (position : Position α) (tick : Tick α) :
    (position.map f).completed (Tick.map f tick) = (position.completed tick).map (RoundTrip.map f) := by
  obtain ⟨here, enter, exit⟩ := tick
  cases position with
  | flat => rfl
  | long entry => cases exit <;> rfl

theorem after_map (reentry : Reentry) (position : Position α) (ticks : List (Tick α)) :
    (position.map f).after reentry (ticks.map (Tick.map f)) =
      (position.after reentry ticks).map f := by
  rw [after, List.foldl_map]
  exact List.foldl_hom (Position.map f) fun position tick => next_map f reentry position tick

theorem trips_map (reentry : Reentry) (position : Position α) (ticks : List (Tick α)) :
    (position.map f).trips reentry (ticks.map (Tick.map f)) =
      (position.trips reentry ticks).map (RoundTrip.map f) := by
  induction ticks generalizing position with
  | nil => rfl
  | cons tick ticks ih =>
    simp only [List.map_cons, trips, completed_map, next_map, ih, List.map_append, Option.toList_map]

end Position

namespace EndOfSeries

theorem kept_map (policy : EndOfSeries) (position : Position α) :
    policy.kept (position.map f) = (policy.kept position).map f := by
  cases policy with
  | markToMarket => exact position.openedAt_map f
  | liquidate => rfl

variable {f}

theorem sold_map (hf : ∀ mark, (f mark).index = mark.index) (policy : EndOfSeries)
    (position : Position α) (last : Option (Mark α)) :
    policy.sold (position.map f) (last.map f) =
      (policy.sold position last).map (RoundTrip.map f) := by
  cases policy with
  | markToMarket => cases position <;> cases last <;> rfl
  | liquidate =>
    cases position with
    | flat => cases last <;> rfl
    | long entry =>
      cases last with
      | none => rfl
      | some last => by_cases h : entry.index = last.index <;>
          simp [sold, Position.map, RoundTrip.map, hf, h]

end EndOfSeries

end Marks

/-! ### Prices in another unit -/

def Bar.repriced (c : ℚ) (bar : Bar ℚ) : Bar ℚ := { bar with close := c * bar.close }

def Mark.repriced (c : ℚ) (mark : Mark ℚ) : Mark ℚ := { mark with price := c * mark.price }

def Trade.repriced (c : ℚ) (trade : Trade ℚ) : Trade ℚ :=
  { trade with entryPrice := c * trade.entryPrice, exitPrice := c * trade.exitPrice }

def OpenPosition.repriced (c : ℚ) (position : OpenPosition ℚ) : OpenPosition ℚ :=
  { position with entryPrice := c * position.entryPrice, lastPrice := c * position.lastPrice }

def EquityPoint.rescaled (d : ℚ) (point : EquityPoint ℚ) : EquityPoint ℚ :=
  { point with equity := d * point.equity }

def Options.rebased (d : ℚ) (options : Options ℚ) : Options ℚ :=
  { options with equityBase := d * options.equityBase }

/-- A result with prices in one unit more and the index in another. The figures have no unit. -/
def Result.rescaled (c d : ℚ) (result : Result ℚ) : Result ℚ where
  stats := result.stats
  trades := result.trades.map (Trade.repriced c)
  equity := result.equity.map (EquityPoint.rescaled d)
  openPosition := result.openPosition.map (OpenPosition.repriced c)

variable {c d : ℚ}

theorem isPositive_mul (hc : 0 < c) (x : ℚ) : Scalar.isPositive (c * x) = Scalar.isPositive x := by
  simp only [Scalar.isPositive_rat, mul_pos_iff_of_pos_left hc]

theorem returnPct_mul (hc : 0 < c) (entryPrice exitPrice : ℚ) :
    returnPct (c * entryPrice) (c * exitPrice) = returnPct entryPrice exitPrice := by
  rw [returnPct, isPositive_mul hc, ← mul_sub, mul_div_mul_left _ _ hc.ne', returnPct]

theorem RoundTrip.trade_repriced (hc : 0 < c) (trip : RoundTrip ℚ) :
    (trip.map (Mark.repriced c)).trade = trip.trade.repriced c := by
  simp [trade, map, Trade.between, Trade.repriced, Mark.repriced, returnPct_mul hc]

theorem OpenPosition.valued_repriced (hc : 0 < c) (entry last : Mark ℚ) :
    valued (entry.repriced c) (last.repriced c) = (valued entry last).repriced c := by
  simp [valued, repriced, Mark.repriced, returnPct_mul hc]

theorem marksFrom_repriced (c : ℚ) (index : Nat) (bars : List (Bar ℚ)) :
    marksFrom index (bars.map (Bar.repriced c)) = (marksFrom index bars).map (Mark.repriced c) := by
  induction bars generalizing index with
  | nil => rfl
  | cons bar bars ih =>
    rw [List.map_cons, marksFrom, ih]
    rfl

namespace Strategy

theorem signals_repriced (hc : 0 < c) (strategy : Strategy ℚ) (bars : List (Bar ℚ)) :
    strategy.signals (closes (bars.map (Bar.repriced c))) = strategy.signals (closes bars) := by
  let s : Scale := ⟨c, 0, hc.ne'⟩
  have hcloses : closes (bars.map (Bar.repriced c)) = (closes bars).map s.apply := by
    simp only [closes, List.map_map]
    refine List.map_congr_left fun bar _ => ?_
    simp [Bar.repriced, Scale.apply, s]
  have hsame := strategy.signals_scaled s (closes bars)
  rw [Scale.turn, if_pos hc] at hsame
  rw [hcloses, hsame]

theorem ticks_repriced (hc : 0 < c) (strategy : Strategy ℚ) (bars : List (Bar ℚ)) :
    strategy.ticks (bars.map (Bar.repriced c)) =
      (strategy.ticks bars).map (Tick.map (Mark.repriced c)) := by
  rw [ticks, signals_repriced hc, marksFrom_repriced, Signals.onMarks, List.zip_map_left]
  rfl

theorem position_repriced (hc : 0 < c) (strategy : Strategy ℚ) (reentry : Reentry)
    (bars : List (Bar ℚ)) (count : Nat) :
    (strategy.machineAfter reentry (bars.map (Bar.repriced c)) count).position =
      (strategy.machineAfter reentry bars count).position.map (Mark.repriced c) := by
  rw [machineAfter_eq, machineAfter_eq, ticks_repriced hc, ← List.map_take]
  exact Position.after_map _ reentry .flat _

theorem exposure_repriced (hc : 0 < c) (strategy : Strategy ℚ) (reentry : Reentry)
    (bars : List (Bar ℚ)) :
    strategy.exposure reentry (bars.map (Bar.repriced c)) = strategy.exposure reentry bars := by
  rw [exposure_eq, exposure_eq, List.length_map]
  refine List.map_congr_left fun i _ => ?_
  rw [Machine.isLong, position_repriced hc, Position.isLong_map, Machine.isLong]

theorem roundTrips_repriced (hc : 0 < c) (strategy : Strategy ℚ) (options : Options ℚ)
    (bars : List (Bar ℚ)) :
    strategy.roundTrips options (bars.map (Bar.repriced c)) =
      (strategy.roundTrips options bars).map (RoundTrip.map (Mark.repriced c)) := by
  have htrips := Position.trips_map (Mark.repriced c) options.reentry .flat (strategy.ticks bars)
  have hsold := EndOfSeries.sold_map (f := Mark.repriced c) (fun _ => rfl) options.endOfSeries
    (strategy.machineAfter options.reentry bars bars.length).position (marksFrom 0 bars).getLast?
  rw [roundTrips, roundTrips, signalTrips, ticks_repriced hc, List.length_map, position_repriced hc,
    marksFrom_repriced, List.getLast?_map, hsold, List.map_append, Option.toList_map]
  exact congrArg (· ++ _) htrips

theorem openEntry_repriced (hc : 0 < c) (strategy : Strategy ℚ) (options : Options ℚ)
    (bars : List (Bar ℚ)) :
    strategy.openEntry options (bars.map (Bar.repriced c)) =
      (strategy.openEntry options bars).map (Mark.repriced c) := by
  rw [openEntry, openEntry, List.length_map, position_repriced hc, EndOfSeries.kept_map]

end Strategy

/-! ### The index in another unit -/

theorem compound_mul (hc : 0 < c) (equity before close : ℚ) :
    compound (d * equity) (c * before) (c * close) = d * compound equity before close := by
  have hratio : c * close / (c * before) = close / before := mul_div_mul_left _ _ hc.ne'
  have hfinite : ∀ x : ℚ, Scalar.isFinite x = true := fun _ => rfl
  rw [compound, isPositive_mul hc, hratio, hfinite, compound, hfinite, mul_assoc, mul_ite]

theorem equityAfter_rescaled (hc : 0 < c) (before equity : ℚ) (bars : List (Bar ℚ))
    (exposure : List Bool) :
    equityAfter (c * before) (d * equity) (bars.map (Bar.repriced c)) exposure =
      (equityAfter before equity bars exposure).map (EquityPoint.rescaled d) := by
  induction bars generalizing before equity exposure with
  | nil => rfl
  | cons bar bars ih =>
    have hnext : (if exposure.headD false then compound (d * equity) (c * before) (c * bar.close)
        else d * equity) =
          d * (if exposure.headD false then compound equity before bar.close else equity) := by
      rw [compound_mul hc, mul_ite]
    rw [List.map_cons, equityAfter, equityAfter, List.map_cons]
    simp only [Bar.repriced, hnext, EquityPoint.rescaled] at ih ⊢
    rw [ih]

theorem equityCurve_rescaled (hc : 0 < c) (bars : List (Bar ℚ)) (exposure : List Bool) (base : ℚ) :
    equityCurve (bars.map (Bar.repriced c)) exposure (d * base) =
      (equityCurve bars exposure base).map (EquityPoint.rescaled d) := by
  cases bars with
  | nil => rfl
  | cons bar bars =>
    exact congrArg (_ :: ·) (equityAfter_rescaled hc bar.close base bars exposure.tail)

theorem Stats.summarize_rescaled (hd : 0 < d) (returns : List ℚ) (base final : ℚ) :
    summarize returns (d * base) (d * final) = summarize returns base final := by
  rw [summarize, isPositive_mul hd, mul_div_mul_left _ _ hd.ne', summarize]

theorem declinePct_mul (hd : 0 < d) (peak equity : ℚ) :
    declinePct (d * peak) (d * equity) = declinePct peak equity := by
  rw [declinePct, ← mul_sub, mul_div_mul_left _ _ hd.ne', declinePct]

theorem worstDecline_rescaled (hd : 0 < d) (peak worst : ℚ) (equities : List ℚ) :
    worstDecline (d * peak) worst (equities.map (d * ·)) = worstDecline peak worst equities := by
  have hhigher : ∀ peak equity : ℚ, Scalar.lt (d * peak) (d * equity) = Scalar.lt peak equity := by
    intro peak equity
    simp only [Scalar.lt_rat, mul_lt_mul_iff_right₀ hd]
  induction equities generalizing peak worst with
  | nil => rfl
  | cons equity equities ih =>
    simp only [List.map_cons, worstDecline, hhigher, isPositive_mul hd, declinePct_mul hd, ih]

theorem maxDrawdownPct_rescaled (hd : 0 < d) (equities : List ℚ) :
    Backtest.maxDrawdownPct (equities.map (d * ·)) = Backtest.maxDrawdownPct equities := by
  cases equities with
  | nil => rfl
  | cons first rest => exact worstDecline_rescaled hd first Scalar.zero (first :: rest)

section Run

variable (hc : 0 < c) (strategy : Strategy ℚ) (bars : List (Bar ℚ)) (options : Options ℚ)

include hc

theorem run_trades_rescaled (d : ℚ) :
    (run strategy (bars.map (Bar.repriced c)) (options.rebased d)).trades =
      (run strategy bars options).trades.map (Trade.repriced c) := by
  have htrips : strategy.roundTrips (options.rebased d) (bars.map (Bar.repriced c)) =
      (strategy.roundTrips options bars).map (RoundTrip.map (Mark.repriced c)) :=
    strategy.roundTrips_repriced hc options bars
  rw [run_trades, run_trades, htrips, List.map_map, List.map_map]
  exact List.map_congr_left fun trip _ => trip.trade_repriced hc

theorem run_openPosition_rescaled (d : ℚ) :
    (run strategy (bars.map (Bar.repriced c)) (options.rebased d)).openPosition =
      (run strategy bars options).openPosition.map (OpenPosition.repriced c) := by
  have hentry : strategy.openEntry (options.rebased d) (bars.map (Bar.repriced c)) =
      (strategy.openEntry options bars).map (Mark.repriced c) :=
    strategy.openEntry_repriced hc options bars
  rw [run_openPosition, run_openPosition, hentry, marksFrom_repriced, List.getLast?_map]
  cases strategy.openEntry options bars with
  | none => rfl
  | some entry =>
    cases (marksFrom 0 bars).getLast? with
    | none => rfl
    | some last => exact congrArg some (OpenPosition.valued_repriced hc entry last)

theorem run_equity_rescaled (d : ℚ) :
    (run strategy (bars.map (Bar.repriced c)) (options.rebased d)).equity =
      (run strategy bars options).equity.map (EquityPoint.rescaled d) := by
  have hexposure : strategy.exposure (options.rebased d).reentry (bars.map (Bar.repriced c)) =
      strategy.exposure options.reentry bars :=
    strategy.exposure_repriced hc options.reentry bars
  rw [run_equity, run_equity, hexposure]
  exact equityCurve_rescaled hc bars _ _

theorem run_stats_rescaled (hd : 0 < d) :
    (run strategy (bars.map (Bar.repriced c)) (options.rebased d)).stats =
      (run strategy bars options).stats := by
  have hreturns : ∀ trades : List (Trade ℚ),
      (trades.map (Trade.repriced c)).map (·.returnPct) = trades.map (·.returnPct) := by
    intro trades
    rw [List.map_map]
    rfl
  have hfinal : ∀ points : List (EquityPoint ℚ),
      ((points.map (EquityPoint.rescaled d)).getLast?.map (·.equity)).getD
          (options.rebased d).equityBase =
        d * (points.getLast?.map (·.equity)).getD options.equityBase := by
    intro points
    rw [List.getLast?_map]
    cases points.getLast? <;> rfl
  rw [run_stats, run_stats, run_trades_rescaled hc, run_equity_rescaled hc, hreturns, hfinal]
  exact Stats.summarize_rescaled hd _ _ _

theorem run_rescaled (hd : 0 < d) :
    run strategy (bars.map (Bar.repriced c)) (options.rebased d) =
      (run strategy bars options).rescaled c d := by
  rw [Result.rescaled, ← run_stats_rescaled hc strategy bars options hd,
    ← run_trades_rescaled hc strategy bars options d,
    ← run_equity_rescaled hc strategy bars options d,
    ← run_openPosition_rescaled hc strategy bars options d]

end Run

theorem Result.maxDrawdownPct_rescaled (hd : 0 < d) (result : Result ℚ) :
    (result.rescaled c d).maxDrawdownPct = result.maxDrawdownPct := by
  have hequities : (result.rescaled c d).equity.map (·.equity) =
      (result.equity.map (·.equity)).map (d * ·) := by
    simp [rescaled, EquityPoint.rescaled]
  rw [maxDrawdownPct, hequities, Backtest.maxDrawdownPct_rescaled hd, maxDrawdownPct]

/-- In exact arithmetic, a run does not depend on the units. Where closes are multiplied by one
positive number and the base by another, so are the prices and the index that come out; dates, flags,
days and percentages stay. -/
theorem run_independent_of_units (strategy : Strategy ℚ) (bars : List (Bar ℚ)) (options : Options ℚ)
    {c d : ℚ} (hc : 0 < c) (hd : 0 < d) :
    let result := run strategy bars options
    let result' := run strategy (bars.map fun bar => { bar with close := c * bar.close })
      { options with equityBase := d * options.equityBase }
    result' = result.rescaled c d ∧ result'.maxDrawdownPct = result.maxDrawdownPct := by
  intro result result'
  have hresult : result' = result.rescaled c d := run_rescaled hc strategy bars options hd
  exact ⟨hresult, hresult ▸ result.maxDrawdownPct_rescaled hd⟩

theorem run_independent_of_units_in_cents :
    let bars : List (Bar ℚ) := dailyBars [10, 9, 12, 15, 11, 13, 14]
    let options : Options ℚ := Options.standard
    let result := run followTurns bars options
    let result' := run followTurns (bars.map fun bar => { bar with close := 100 * bar.close })
      { options with equityBase := 1 / 2 * options.equityBase }
    (0 : ℚ) < 100 ∧ (0 : ℚ) < 1 / 2 ∧
    result' = result.rescaled 100 (1 / 2) ∧ result'.maxDrawdownPct = result.maxDrawdownPct ∧
    result.trades.length = 1 ∧ result.openPosition.isSome ∧ 0 < result.maxDrawdownPct := by
  intro bars options result result'
  have hc : (0 : ℚ) < 100 := by norm_num
  have hd : (0 : ℚ) < 1 / 2 := by norm_num
  obtain ⟨hresult, hdrawdown⟩ := run_independent_of_units followTurns bars options hc hd
  exact ⟨hc, hd, hresult, hdrawdown, by decide +kernel, by decide +kernel, by decide +kernel⟩

end Backtest
