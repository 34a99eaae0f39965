import Backtest.Proofs.ExactArithmetic
import Backtest.Proofs.FigureBounds
import Backtest.Proofs.TradeLog
import Backtest.Report
import Backtest.Strategy.Definition

/-!
When all numbers that a run reports are finite. While the climb of the closes leaves room below the
end of the range, no figure overflows. Where it does not, even the sum of finite returns may.
-/

namespace Backtest

open Scalar Binary64

/-! ## The numbers of a result -/

/-- All floating point numbers in a value. -/
def Json.reals : Json → List Float
  | number (.real x) => [x]
  | array items => itemReals items
  | object members => memberReals members
  | _ => []
where
  itemReals : List Json → List Float
    | [] => []
    | item :: items => reals item ++ itemReals items
  memberReals : List (String × Json) → List Float
    | [] => []
    | (_, value) :: members => reals value ++ memberReals members

theorem Json.itemReals_map {β : Type} (f : β → Json) (xs : List β) :
    Json.reals.itemReals (xs.map f) = xs.flatMap fun x => (f x).reals := by
  induction xs with
  | nil => rfl
  | cons x xs ih => rw [List.map_cons, Json.reals.itemReals, ih, List.flatMap_cons]

theorem Stats.reals_toJson (stats : Stats Float) :
    stats.toJson.reals = [stats.totalReturnPct, stats.winRatePct, stats.avgTradePct] := by
  simp [Stats.toJson, Json.reals, Json.reals.memberReals, Json.real, Json.natural]

theorem Trade.reals_toJson (trade : Trade Float) :
    trade.toJson.reals = [trade.entryPrice, trade.exitPrice, trade.returnPct] := by
  simp [Trade.toJson, Json.reals, Json.reals.memberReals, Json.real, Json.natural]

theorem EquityPoint.reals_toJson (point : EquityPoint Float) :
    point.toJson.reals = [point.equity] := by
  simp [EquityPoint.toJson, Json.reals, Json.reals.memberReals, Json.real]

theorem OpenPosition.reals_toJson (position : OpenPosition Float) :
    position.toJson.reals =
      [position.entryPrice, position.lastPrice, position.unrealizedPct] := by
  simp [OpenPosition.toJson, Json.reals, Json.reals.memberReals, Json.real, Json.natural]

theorem Result.reals_toJson (result : Result Float) :
    result.toJson.reals =
      result.stats.toJson.reals ++ result.trades.flatMap (·.toJson.reals) ++
        result.equity.flatMap (·.toJson.reals) ++
        (result.openPosition.toList.flatMap (·.toJson.reals)) := by
  cases hopen : result.openPosition <;>
    simp [Result.toJson, Json.reals, Json.reals.memberReals, Json.itemReals_map, hopen]

/-! ## Runs -/

def exactCloses (bars : List (Bar Float)) : List ℚ := (closes bars).map exactValue

/-- Bars and a base whose figures stay in the range. -/
structure Moderate (bars : List (Bar Float)) (base : Float) : Prop where
  valid : ∀ bar ∈ bars, bar.hasValidPrices = true
  isPrice : IsPrice base
  length_le : bars.length ≤ 2 ^ 50
  room : max (exactValue base) 1 * climb (exactCloses bars) ≤ 2 ^ 900

namespace Moderate

variable {strategy : Strategy Float} {options : Options Float} {bars : List (Bar Float)}
  {base : Float}

theorem climb_le (h : Moderate bars base) : climb (exactCloses bars) ≤ 2 ^ 900 :=
  (le_mul_of_one_le_left (climb_nonneg _) (le_max_right _ _)).trans h.room

theorem isPrice_close (h : Moderate bars base) {i : Nat} {bar : Bar Float}
    (hbar : bars[i]? = some bar) : IsPrice bar.close :=
  Bar.isPrice_close (h.valid bar (List.mem_of_getElem? hbar))

theorem close_le_climb_mul (h : Moderate bars base) {i j : Nat} {entry exit : Bar Float}
    (hij : i ≤ j) (hentry : bars[i]? = some entry) (hexit : bars[j]? = some exit) :
    exactValue exit.close ≤ climb (exactCloses bars) * exactValue entry.close := by
  have hpos : ∀ q ∈ exactCloses bars, 0 < q := by
    intro q hq
    simp only [exactCloses, closes, List.map_map, List.mem_map] at hq
    obtain ⟨bar, hm, rfl⟩ := hq
    exact (Bar.isPrice_close (h.valid bar hm)).pos
  exact getElem?_le_climb_mul hpos hij (by simp [exactCloses, closes, hentry])
    (by simp [exactCloses, closes, hexit])

theorem within_returnPct (h : Moderate bars base) {i j : Nat} {entry exit : Bar Float}
    (hij : i ≤ j) (hentry : bars[i]? = some entry) (hexit : bars[j]? = some exit) :
    Within (returnPct entry.close exit.close) (2 ^ 62 * climb (exactCloses bars)) :=
  Backtest.within_returnPct (h.isPrice_close hentry) (h.isPrice_close hexit)
    (h.close_le_climb_mul hij hentry hexit) (one_le_climb _) h.climb_le

theorem within_trade (h : Moderate bars base) {trade : Trade Float}
    (hm : trade ∈ (run strategy bars options).trades) :
    IsPrice trade.entryPrice ∧ IsPrice trade.exitPrice ∧
      Within trade.returnPct (2 ^ 62 * climb (exactCloses bars)) := by
  obtain ⟨⟨i, j⟩, entry, exit, hentry, hexit, -, hentryPrice, -, hexitPrice, hreturn, hheld, hone⟩ :=
    tradeBetween_of_mem hm
  rw [hentryPrice, hexitPrice, hreturn]
  have hij : i ≤ j := by
    simp only at hheld
    omega
  exact ⟨h.isPrice_close hentry, h.isPrice_close hexit, h.within_returnPct hij hentry hexit⟩

theorem within_openPosition (h : Moderate bars base) {position : OpenPosition Float}
    (hopen : (run strategy bars options).openPosition = some position) :
    IsPrice position.entryPrice ∧ IsPrice position.lastPrice ∧
      Within position.unrealizedPct (2 ^ 62 * climb (exactCloses bars)) := by
  have hsince := run_openPosition_since strategy options bars
  rw [hopen] at hsince
  cases hkept : (strategy.openEntry options bars).map Mark.index with
  | none => rw [hkept] at hsince; cases hsince
  | some i =>
    rw [hkept] at hsince
    cases hsince with
    | some hsince =>
      obtain ⟨entry, last, hentry, hlast, -, hentryPrice, -, hlastPrice, hreturn, -⟩ := hsince
      rw [hentryPrice, hlastPrice, hreturn]
      have hi := (List.getElem?_eq_some_iff.mp hentry).1
      exact ⟨h.isPrice_close hentry, h.isPrice_close hlast,
        h.within_returnPct (by omega) hentry hlast⟩

/-- The index and its base, with the errors of all bars. -/
theorem within_equityCurve (h : Moderate bars base) {exposure : List Bool} :
    ∀ point ∈ equityCurve bars exposure base,
      Within point.equity (2 * (max (exactValue base) tiny * climb (exactCloses bars))) := by
  obtain ⟨hvalid, hbase, hlength, hroom⟩ := id h
  have hone := one_le_climb (exactCloses bars)
  have hclimb := h.climb_le
  have hstart : Within base (max (exactValue base) tiny) := hbase.within.mono (le_max_left _ _)
  have hmax : 0 ≤ max (exactValue base) tiny := tiny_pos.le.trans (le_max_right _ _)
  have hhuge : max (exactValue base) tiny * climb (exactCloses bars) ≤ 2 ^ 1022 := by
    calc _ ≤ max (exactValue base) 1 * climb (exactCloses bars) :=
          mul_le_mul_of_nonneg_right (max_le_max_left _ tiny_le_one) (climb_nonneg _)
      _ ≤ 2 ^ 900 := hroom
      _ ≤ 2 ^ 1022 := pow_le_pow_right₀ one_le_two (by decide)
  cases bars with
  | nil => simp [equityCurve]
  | cons bar bars =>
    have hpow : (1 + epsilon) ^ (2 * bars.length) ≤ 2 := by
      refine one_add_epsilon_pow_le ?_
      rw [List.length_cons] at hlength
      omega
    have hgrown : max (exactValue base) tiny * climb (exactCloses (bar :: bars)) *
        (1 + epsilon) ^ (2 * bars.length) ≤
          2 * (max (exactValue base) tiny * climb (exactCloses (bar :: bars))) :=
      (mul_le_mul_of_nonneg_left hpow (mul_nonneg hmax (climb_nonneg _))).trans_eq (mul_comm _ 2)
    intro point hpoint
    rcases List.mem_cons.mp hpoint with rfl | hpoint
    · exact hstart.mono ((le_mul_mul_pow hmax hone (2 * bars.length)).trans hgrown)
    · have hroomy : Roomy (climb (exactCloses (bar :: bars))) :=
        ⟨hone, hclimb.trans (pow_le_pow_right₀ one_le_two (by decide))⟩
      exact (within_equityAfter (Bar.isPrice_close (hvalid bar List.mem_cons_self))
        (fun bar' hm => Bar.isPrice_close (hvalid bar' (List.mem_cons_of_mem _ hm))) hstart
        (le_max_right _ _) rfl hroomy.lt_huge (hgrown.trans_lt (two_mul_lt_huge hhuge)) point
        hpoint).mono hgrown

theorem within_final (h : Moderate bars options.equityBase) :
    Within (((run strategy bars options).equity.getLast?.map (·.equity)).getD options.equityBase)
      (2 * (max (exactValue options.equityBase) tiny * climb (exactCloses bars))) := by
  cases hlast : (run strategy bars options).equity.getLast? with
  | some point => exact h.within_equityCurve point (List.mem_of_getLast? hlast)
  | none =>
    have hmax : 0 ≤ max (exactValue options.equityBase) tiny := tiny_pos.le.trans (le_max_right _ _)
    refine h.isPrice.within.mono ((le_max_left _ tiny).trans ?_)
    exact (le_mul_of_one_le_right hmax (one_le_climb _)).trans
      (le_mul_of_one_le_left (mul_nonneg hmax (climb_nonneg _)) one_le_two)

theorem finite_stats (h : Moderate bars options.equityBase) :
    let stats := (run strategy bars options).stats
    stats.totalReturnPct.isFinite = true ∧ stats.winRatePct.isFinite = true ∧
      stats.avgTradePct.isFinite = true := by
  have hreturns : ∀ x ∈ (run strategy bars options).trades.map (·.returnPct),
      Within x (2 ^ 62 * climb (exactCloses bars)) := by
    intro x hx
    obtain ⟨trade, hm, rfl⟩ := List.mem_map.mp hx
    exact (h.within_trade hm).2.2
  have hcount : ((run strategy bars options).trades.map (·.returnPct)).length ≤ 2 ^ 51 := by
    have hlength := h.length_le
    have := length_trades_le strategy options bars
    rw [List.length_map]
    omega
  rw [run_stats]
  exact finite_summarize h.isPrice h.within_final hreturns hcount (one_le_climb _) h.climb_le

theorem finite_reals (h : Moderate bars options.equityBase) :
    ∀ x ∈ (run strategy bars options).toJson.reals, x.isFinite = true := by
  intro x hx
  simp only [Result.reals_toJson, Stats.reals_toJson, Trade.reals_toJson, EquityPoint.reals_toJson,
    OpenPosition.reals_toJson, List.mem_append, List.mem_flatMap, Option.mem_toList, List.mem_cons,
    List.not_mem_nil, or_false] at hx
  obtain ((hx | ⟨trade, hm, hx⟩) | ⟨point, hm, rfl⟩) | ⟨position, hopen, hx⟩ := hx
  · obtain ⟨htotal, hwins, haverage⟩ := @finite_stats strategy options bars h
    rcases hx with rfl | rfl | rfl <;> assumption
  · obtain ⟨hentry, hexit, hreturn⟩ := h.within_trade hm
    rcases hx with rfl | rfl | rfl
    · exact hentry.isFinite
    · exact hexit.isFinite
    · exact hreturn.isFinite
  · exact (h.within_equityCurve point hm).isFinite
  · obtain ⟨hentry, hlast, hreturn⟩ := h.within_openPosition hopen
    rcases hx with rfl | rfl | rfl
    · exact hentry.isFinite
    · exact hlast.isFinite
    · exact hreturn.isFinite

end Moderate

theorem document?_isSome {x : Float} (h : x.isFinite = true) :
    (Decimal.document? x).isSome = true := by
  obtain ⟨q, hq⟩ := isFinite_iff.mp h
  obtain ⟨b, hb, -⟩ := exactValue?_eq_some_iff.mp hq
  rw [Decimal.document?, hb]
  rfl

/-- While the closes climb no further than there is room for, above the base as well, every number
of a result is finite and has a decimal form. -/
theorem run_finite_of_moderate_climb (strategy : Strategy Float) (options : Options Float)
    (bars : List (Bar Float)) (hvalid : ∀ bar ∈ bars, bar.hasValidPrices = true)
    (hbase : options.equityBase.isFinite = true ∧ isPositive options.equityBase = true)
    (hlength : bars.length ≤ 2 ^ 50)
    (hroom : max (exactValue options.equityBase) 1 * climb (exactCloses bars) ≤ 2 ^ 900) :
    ∀ x ∈ (run strategy bars options).toJson.reals,
      x.isFinite = true ∧ (Decimal.document? x).isSome = true := by
  have hmoderate : Moderate bars options.equityBase :=
    ⟨hvalid, isPrice_iff.mpr hbase, hlength, hroom⟩
  intro x hx
  have hfinite := hmoderate.finite_reals x hx
  exact ⟨hfinite, document?_isSome hfinite⟩

theorem run_finite_of_moderate_climb_doubled :
    let bars := dailyBars ([8, 6, 9, 12, 9].map Nat.toFloat)
    let options : Options Float := Options.standard
    (∀ bar ∈ bars, bar.hasValidPrices = true) ∧
    (options.equityBase.isFinite = true ∧ isPositive options.equityBase = true) ∧
    bars.length ≤ 2 ^ 50 ∧
    max (exactValue options.equityBase) 1 * climb (exactCloses bars) ≤ 2 ^ 900 ∧
    (run followTurns bars options).stats.trades = 1 ∧
    ∀ x ∈ (run followTurns bars options).toJson.reals,
      x.isFinite = true ∧ (Decimal.document? x).isSome = true := by
  intro bars options
  have hvalid : ∀ bar ∈ bars, bar.hasValidPrices = true := by decide +kernel
  have hbase : options.equityBase.isFinite = true ∧ isPositive options.equityBase = true := by
    decide +kernel
  have hlength : bars.length ≤ 2 ^ 50 := by decide +kernel
  have hexact (n : Nat) (hn : n < 2 ^ 53) : exactValue n.toFloat = n := by
    rw [exactValue, exactValue?_toFloat hn]
    rfl
  have hroom : max (exactValue options.equityBase) 1 * climb (exactCloses bars) ≤ 2 ^ 900 := by
    have hcloses : exactCloses bars = [8, 6, 9, 12, 9] := by
      simp [exactCloses, closes, bars, dailyBars, hexact]
    have hbaseExact : exactValue options.equityBase = 100 := hexact 100 (by decide)
    rw [hcloses, hbaseExact]
    calc max (100 : ℚ) 1 * climb [8, 6, 9, 12, 9] ≤ 2 ^ 8 := by norm_num [climb]
      _ ≤ 2 ^ 900 := pow_le_pow_right₀ one_le_two (by decide)
  exact ⟨hvalid, hbase, hlength, hroom, by decide +kernel,
    run_finite_of_moderate_climb followTurns options bars hvalid hbase hlength hroom⟩

def followTurnsDefinition : Json :=
  .object [("name", .string "turns"), ("rules", .array
    [.object [("type", .string "ma_cross"), ("fast", .natural 1), ("slow", .natural 2)]])]

/-- Two trades from lows to highs gain a finite percentage each, and nearly the greatest there is.
Their sum is infinite, and so is the average, which has no decimal form. -/
theorem run_average_overflows :
    let bars : List (Bar Float) := dailyBars
      [2e-200, 5e-201, 1e-200, 1.2e106, 1e106, 1.1e106, 5e-201, 1e-200, 1.2e106, 1e106]
    let options : Options Float := Options.standard
    let result := run followTurns bars options
    Strategy.define followTurnsDefinition = .ok followTurns ∧
    (∀ bar ∈ bars, bar.hasValidPrices = true) ∧
    (options.equityBase.isFinite = true ∧ isPositive options.equityBase = true) ∧
    result.trades.length = 3 ∧ (∀ trade ∈ result.trades, trade.returnPct.isFinite = true) ∧
    result.stats.avgTradePct ∈ result.toJson.reals ∧
    result.stats.avgTradePct.isFinite = false ∧
    (Json.real result.stats.avgTradePct).pretty = "null" := by
  intro bars options result
  have hmem : result.stats.avgTradePct ∈ result.toJson.reals := by
    simp [Result.reals_toJson, Stats.reals_toJson]
  have htrades : result.trades.length = 3 ∧
      ∀ trade ∈ result.trades, trade.returnPct.isFinite = true := by
    decide +kernel
  have haverage : result.stats.avgTradePct.isFinite = false ∧
      (Json.real result.stats.avgTradePct).pretty = "null" := by
    decide +kernel
  exact ⟨by decide +kernel, by decide +kernel, by decide +kernel, htrades.1, htrades.2, hmem, haverage⟩

end Backtest
