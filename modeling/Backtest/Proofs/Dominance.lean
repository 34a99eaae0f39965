import Backtest.Proofs.ExactArithmetic
import Backtest.Proofs.Exposure
import Backtest.Proofs.LastPosition
import Mathlib.Tactic.IntervalCases

/-!
The two policies for reentry side by side. A run that may open the next position on the bar that
closes one is long whenever the other run is, and leaves on every bar on which the other one does.
-/

namespace Backtest

variable {α : Type}

namespace Position

/-- Long wherever the other position is, and for at least as long. -/
def Covers (position other : Position α) : Prop :=
  ∀ late, other.openedAt = some late →
    ∃ early, position.openedAt = some early ∧ early.index ≤ late.index

variable {position other : Position α}

theorem Covers.isLong (h : position.Covers other) (hlong : other.isLong = true) :
    position.isLong = true := by
  obtain ⟨late, hlate⟩ := other.isLong_iff.mp hlong
  obtain ⟨early, hearly, _⟩ := h late hlate
  exact position.isLong_iff.mpr ⟨early, hearly⟩

/-- The runs part on a bar that asks for both, where only the covering one stays long. They meet
again when the other one enters. -/
theorem Covers.next (h : position.Covers other) {tick : Tick α}
    (hbefore : ∀ entry, position.openedAt = some entry → entry.index ≤ tick.1.index) :
    (position.next .sameBar tick).Covers (other.next .nextBar tick) := by
  obtain ⟨here, enter, exit⟩ := tick
  intro late hlate
  cases other with
  | flat =>
    cases enter with
    | false => cases hlate
    | true =>
      obtain rfl : here = late := Option.some.inj hlate
      cases position with
      | flat => exact ⟨here, rfl, Nat.le_refl _⟩
      | long entry =>
        cases exit with
        | false => exact ⟨entry, rfl, hbefore entry rfl⟩
        | true => exact ⟨here, rfl, Nat.le_refl _⟩
  | long entry =>
    cases exit with
    | true => cases enter <;> cases hlate
    | false =>
      obtain rfl : entry = late := Option.some.inj hlate
      obtain ⟨early, hearly, hle⟩ := h entry rfl
      cases position with
      | flat => cases hearly
      | long held => exact ⟨early, hearly, hle⟩

theorem Covers.exits_completed (h : position.Covers other) (tick : Tick α) :
    ((other.completed tick).toList.map RoundTrip.exit).Sublist
      ((position.completed tick).toList.map RoundTrip.exit) := by
  obtain ⟨here, enter, exit⟩ := tick
  cases other with
  | flat => exact List.nil_sublist _
  | long entry =>
    cases exit with
    | false => exact List.nil_sublist _
    | true =>
      obtain ⟨early, hearly, _⟩ := h entry rfl
      cases position with
      | flat => cases hearly
      | long held => exact List.Sublist.refl _

section Ticks

variable {ticks : List (Tick α)}

theorem covers_after_take (hn : Numbered ticks) {k : Nat} (hk : k ≤ ticks.length) :
    (flat.after .sameBar (ticks.take k)).Covers (flat.after .nextBar (ticks.take k)) := by
  induction k with
  | zero => exact nofun
  | succ k ih =>
    have htick := List.getElem?_eq_getElem hk
    have hindex := hn k _ htick
    have hbefore := (index_lt_of_take .sameBar hn k).2
    rw [after_take_succ htick, after_take_succ htick]
    exact (ih (by omega)).next fun entry he => hindex.symm.le.trans' (hbefore entry he).le

theorem exits_take_sublist (hn : Numbered ticks) {k : Nat} (hk : k ≤ ticks.length) :
    ((flat.trips .nextBar (ticks.take k)).map RoundTrip.exit).Sublist
      ((flat.trips .sameBar (ticks.take k)).map RoundTrip.exit) := by
  induction k with
  | zero => exact List.Sublist.refl _
  | succ k ih =>
    have htick := List.getElem?_eq_getElem hk
    have hcovers := covers_after_take hn (Nat.le_of_succ_le hk)
    rw [trips_take_succ htick, trips_take_succ htick, List.map_append, List.map_append]
    exact (ih (by omega)).append (hcovers.exits_completed _)

theorem next_eq_of_apart (position : Position α) {tick : Tick α}
    (h : tick.2.1 = true → tick.2.2 = false) :
    position.next .nextBar tick = position.next .sameBar tick := by
  obtain ⟨here, enter, exit⟩ := tick
  cases position with
  | flat => rfl
  | long entry =>
    cases enter with
    | false => rfl
    | true =>
      obtain rfl : exit = false := h rfl
      rfl

/-- The policy counts only on bars that ask to leave and to enter. -/
theorem eq_of_apart (position : Position α) (h : ∀ tick ∈ ticks, tick.2.1 = true → tick.2.2 = false) :
    position.after .nextBar ticks = position.after .sameBar ticks ∧
      position.trips .nextBar ticks = position.trips .sameBar ticks := by
  induction ticks generalizing position with
  | nil => exact ⟨rfl, rfl⟩
  | cons tick ticks ih =>
    have hnext := position.next_eq_of_apart (h tick List.mem_cons_self)
    have hrest := ih (position.next .sameBar tick) fun other hm => h other (List.mem_cons_of_mem _ hm)
    simpa only [after, trips, List.foldl_cons, hnext, hrest.2, and_true] using hrest.1

end Ticks

end Position

theorem EndOfSeries.exits_sold (policy : EndOfSeries) {position other : Position α}
    {last : Option (Mark α)} (h : position.Covers other)
    (hle : ∀ entry here, other.openedAt = some entry → last = some here →
      entry.index ≤ here.index) :
    ((policy.sold other last).toList.map RoundTrip.exit).Sublist
      ((policy.sold position last).toList.map RoundTrip.exit) := by
  cases policy with
  | markToMarket => rw [sold_markToMarket]; exact List.nil_sublist _
  | liquidate =>
    cases other with
    | flat => exact List.nil_sublist _
    | long late =>
      cases last with
      | none => exact List.nil_sublist _
      | some here =>
        obtain ⟨early, hearly, hlt⟩ := h late rfl
        have hlast := hle late here rfl rfl
        cases position with
        | flat => cases hearly
        | long held =>
          obtain rfl : held = early := Option.some.inj hearly
          by_cases he : late.index = here.index
          · simp [sold, he]
          · have hne : held.index ≠ here.index := by omega
            simp [sold, he, hne]

variable [Scalar α]

namespace Strategy

variable (strategy : Strategy α) (bars : List (Bar α))

theorem covers_machineAfter (count : Nat) :
    (strategy.machineAfter .sameBar bars count).position.Covers
      (strategy.machineAfter .nextBar bars count).position := by
  rw [machineAfter_eq, machineAfter_eq]
  by_cases hcount : count ≤ (strategy.ticks bars).length
  · exact Position.covers_after_take (strategy.numbered_ticks bars) hcount
  · have hcovers := Position.covers_after_take (strategy.numbered_ticks bars) (Nat.le_refl _)
    rwa [List.take_length, ← List.take_of_length_le (Nat.le_of_not_le hcount)] at hcovers

theorem exits_roundTrips_sublist (base : α) (policy : EndOfSeries) :
    ((strategy.roundTrips ⟨base, .nextBar, policy⟩ bars).map RoundTrip.exit).Sublist
      ((strategy.roundTrips ⟨base, .sameBar, policy⟩ bars).map RoundTrip.exit) := by
  have hsignal : ((strategy.signalTrips .nextBar bars).map RoundTrip.exit).Sublist
      ((strategy.signalTrips .sameBar bars).map RoundTrip.exit) := by
    have htake := Position.exits_take_sublist (strategy.numbered_ticks bars) (Nat.le_refl _)
    rwa [List.take_length] at htake
  rw [roundTrips, roundTrips, List.map_append, List.map_append]
  exact hsignal.append (policy.exits_sold (strategy.covers_machineAfter bars bars.length)
    fun entry here hentry hlast => strategy.entry_le_last bars .nextBar hentry hlast)

end Strategy

def Signals.Apart (signals : Signals) : Prop :=
  ∀ i : Nat, signals.enter[i]? = some true → signals.exit[i]? ≠ some true

section Run

variable {strategy : Strategy α} {bars : List (Bar α)}

theorem Signals.Apart.ticks (h : (strategy.signals (closes bars)).Apart) :
    ∀ tick ∈ strategy.ticks bars, tick.2.1 = true → tick.2.2 = false := by
  intro tick hm henter
  obtain ⟨i, hi⟩ := List.mem_iff_getElem?.mp hm
  obtain ⟨_, hn, hx⟩ := strategy.getElem?_ticks bars |>.mp hi
  have hexit := h i (henter ▸ hn)
  rw [hx] at hexit
  exact Bool.eq_false_iff.mpr fun he => hexit (congrArg some he)

theorem Signals.Apart.position (h : (strategy.signals (closes bars)).Apart) (count : Nat) :
    (strategy.machineAfter .nextBar bars count).position =
      (strategy.machineAfter .sameBar bars count).position := by
  rw [strategy.machineAfter_eq, strategy.machineAfter_eq]
  exact (Position.flat.eq_of_apart fun tick hm => h.ticks tick (List.mem_of_mem_take hm)).1

theorem run_eq_of_apart (h : (strategy.signals (closes bars)).Apart) (base : α)
    (policy : EndOfSeries) :
    run strategy bars ⟨base, .nextBar, policy⟩ = run strategy bars ⟨base, .sameBar, policy⟩ := by
  have htrips : strategy.signalTrips .nextBar bars = strategy.signalTrips .sameBar bars :=
    (Position.flat.eq_of_apart h.ticks).2
  have htrades : (run strategy bars ⟨base, .nextBar, policy⟩).trades =
      (run strategy bars ⟨base, .sameBar, policy⟩).trades := by
    simp only [run_trades, Strategy.roundTrips, htrips, h.position]
  have hequity : (run strategy bars ⟨base, .nextBar, policy⟩).equity =
      (run strategy bars ⟨base, .sameBar, policy⟩).equity := by
    simp only [run_equity, Strategy.exposure_eq, Machine.isLong, h.position]
  have hposition : (run strategy bars ⟨base, .nextBar, policy⟩).openPosition =
      (run strategy bars ⟨base, .sameBar, policy⟩).openPosition := by
    simp only [run_openPosition, Strategy.openEntry, h.position]
  have hstats : (run strategy bars ⟨base, .nextBar, policy⟩).stats =
      (run strategy bars ⟨base, .sameBar, policy⟩).stats := by
    rw [run_stats, run_stats, htrades, hequity]
  calc run strategy bars ⟨base, .nextBar, policy⟩
    _ = ⟨(run strategy bars ⟨base, .nextBar, policy⟩).stats,
          (run strategy bars ⟨base, .nextBar, policy⟩).trades,
          (run strategy bars ⟨base, .nextBar, policy⟩).equity,
          (run strategy bars ⟨base, .nextBar, policy⟩).openPosition⟩ := rfl
    _ = run strategy bars ⟨base, .sameBar, policy⟩ := by
      rw [hstats, htrades, hequity, hposition]

end Run

/-- The run that may open a position on the bar that closes one is in position and long whenever
the other run is, and closes a trade on every bar on which the other one does. Where no bar asks
both to enter and to leave, the two runs are the same. -/
theorem run_sameBar_dominates_nextBar (strategy : Strategy α) (bars : List (Bar α)) (base : α)
    (policy : EndOfSeries) :
    let result (reentry : Reentry) := run strategy bars ⟨base, reentry, policy⟩
    let spans (reentry : Reentry) :=
      (strategy.roundTrips ⟨base, reentry, policy⟩ bars).map RoundTrip.span
    (∀ reentry, List.Forall₂ (TradeBetween bars) (spans reentry) (result reentry).trades) ∧
    (∀ i : Nat, ((result .nextBar).equity.map (·.inPosition))[i]? = some true →
      ((result .sameBar).equity.map (·.inPosition))[i]? = some true) ∧
    (∀ count, (strategy.machineAfter .nextBar bars count).isLong = true →
      (strategy.machineAfter .sameBar bars count).isLong = true) ∧
    ((spans .nextBar).map Prod.snd).Sublist ((spans .sameBar).map Prod.snd) ∧
    (result .nextBar).trades.length ≤ (result .sameBar).trades.length ∧
    ((∀ i : Nat, (strategy.signals (closes bars)).enter[i]? = some true →
      (strategy.signals (closes bars)).exit[i]? ≠ some true) → result .nextBar = result .sameBar) := by
  intro result spans
  have hlong := fun count => (strategy.covers_machineAfter bars count).isLong
  have hexits := strategy.exits_roundTrips_sublist bars base policy
  refine ⟨fun reentry => run_trades_between strategy _ bars, fun i hin => ?_, hlong, ?_, ?_,
    fun h => run_eq_of_apart h base policy⟩
  · rw [run_inPosition, Strategy.exposure_eq, List.getElem?_map, Option.map_eq_some_iff] at hin ⊢
    exact hin.imp fun count hcount => ⟨hcount.1, hlong count hcount.2⟩
  · simpa [spans, RoundTrip.span, Function.comp_def] using hexits.map Mark.index
  · simpa [result, run_trades] using hexits.length_le

/-- Enters and leaves on the same bars: where the price turns up. -/
def turnOver : Strategy ℚ := ⟨"turn over", [⟨.maCross 1 2 .sma, .above, .above⟩], .all⟩

/-- The runs part on the sixth bar and meet again on the last one. A strategy that leaves where the
price turns down never asks for both at once. -/
theorem run_sameBar_dominates_nextBar_turns :
    let bars : List (Bar ℚ) := dailyBars [10, 9, 8, 12, 7, 13, 6, 14]
    let spans (reentry : Reentry) :=
      (turnOver.roundTrips ⟨100, reentry, .liquidate⟩ bars).map RoundTrip.span
    spans .nextBar = [(3, 5)] ∧ spans .sameBar = [(3, 5), (5, 7)] ∧
    ((spans .nextBar).map Prod.snd).Sublist ((spans .sameBar).map Prod.snd) ∧
    (turnOver.machineAfter .nextBar bars 8).isLong = true ∧
    (turnOver.machineAfter .sameBar bars 8).isLong = true ∧
    ((run turnOver bars ⟨100, .nextBar, .liquidate⟩).equity.map (·.inPosition))[5]? = some true ∧
    ((run turnOver bars ⟨100, .sameBar, .liquidate⟩).equity.map (·.inPosition))[5]? = some true ∧
    run followTurns bars ⟨100, .nextBar, .liquidate⟩ =
      run followTurns bars ⟨100, .sameBar, .liquidate⟩ := by
  intro bars spans
  obtain ⟨_, hin, hlong, hexits, _⟩ :=
    run_sameBar_dominates_nextBar turnOver bars 100 .liquidate
  have hlast : (turnOver.machineAfter .nextBar bars 8).isLong = true := by decide +kernel
  have hheld : ((run turnOver bars ⟨100, .nextBar, .liquidate⟩).equity.map (·.inPosition))[5]? =
      some true := by decide +kernel
  have hsignals : followTurns.signals (closes bars) =
      ⟨[false, false, false, true, false, true, false, true],
        [false, false, false, false, true, false, true, false]⟩ := by decide +kernel
  have happart : ∀ i : Nat, (followTurns.signals (closes bars)).enter[i]? = some true →
      (followTurns.signals (closes bars)).exit[i]? ≠ some true := by
    intro i henter
    have hi := (List.getElem?_eq_some_iff.mp henter).1
    rw [hsignals] at henter hi ⊢
    simp only [List.length_cons, List.length_nil] at hi
    interval_cases i <;> simp_all
  have hsame := (run_sameBar_dominates_nextBar followTurns bars 100 .liquidate).2.2.2.2.2 happart
  exact ⟨by decide +kernel, by decide +kernel, hexits, hlast, hlong 8 hlast, hheld, hin 5 hheld,
    hsame⟩

end Backtest
