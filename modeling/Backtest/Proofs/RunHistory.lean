import Backtest.Proofs.EquityCurve
import Backtest.Proofs.RoundTrips

/-!
The history of a run: the bars as its machine takes them, the machine after each bar and the round
trips it completes. The result of a run is stated in these terms, and a run over a prefix of the
bars is the prefix of a run.
-/

namespace Backtest

variable {α : Type}

theorem causal_marksFrom (index : Nat) : Causal (marksFrom index (α := α)) where
  length_eq bars := by
    induction bars generalizing index with
    | nil => rfl
    | cons bar bars ih => simp [marksFrom, ih]
  take_eq k bars := by
    induction bars generalizing index k with
    | nil => simp [marksFrom]
    | cons bar bars ih =>
      cases k with
      | zero => simp [marksFrom]
      | succ k => simp [marksFrom, ih]

theorem getElem?_marksFrom (index i : Nat) (bars : List (Bar α)) :
    (marksFrom index bars)[i]? = bars[i]?.map (fun bar => bar.mark (index + i)) := by
  induction bars generalizing index i with
  | nil => simp [marksFrom]
  | cons bar bars ih =>
    cases i with
    | zero => simp [marksFrom]
    | succ i => simpa [marksFrom, Nat.add_assoc, Nat.add_comm 1 i] using ih (index + 1) i

/-- A mark that one of the bars left, at its own index. -/
def Mark.On (mark : Mark α) (bars : List (Bar α)) : Prop :=
  ∃ bar, bars[mark.index]? = some bar ∧ bar.mark mark.index = mark

theorem Mark.On.index_lt {mark : Mark α} {bars : List (Bar α)} (h : mark.On bars) :
    mark.index < bars.length := by
  obtain ⟨bar, hb, _⟩ := h
  exact (List.getElem?_eq_some_iff.mp hb).1

theorem Mark.On.exists_last {mark : Mark α} {bars : List (Bar α)} (h : mark.On bars) :
    ∃ last, bars[bars.length - 1]? = some last := by
  have hlt := h.index_lt
  exact ⟨_, List.getElem?_eq_getElem (by omega)⟩

theorem getLast?_marksFrom (bars : List (Bar α)) :
    (marksFrom 0 bars).getLast? =
      bars[bars.length - 1]?.map (fun bar => bar.mark (bars.length - 1)) := by
  rw [List.getLast?_eq_getElem?, (causal_marksFrom 0).length_eq, getElem?_marksFrom, Nat.zero_add]

variable [Scalar α]

namespace Strategy

def ticks (strategy : Strategy α) (bars : List (Bar α)) : List (Tick α) :=
  (strategy.signals (closes bars)).onMarks (marksFrom 0 bars)

def machineAfter (strategy : Strategy α) (reentry : Reentry) (bars : List (Bar α)) (count : Nat) :
    Machine α :=
  ((Machine.start reentry).walk ((strategy.ticks bars).take count)).1

/-- The round trips of a run that a signal completes. -/
def signalTrips (strategy : Strategy α) (reentry : Reentry) (bars : List (Bar α)) :
    List (RoundTrip α) :=
  Position.flat.trips reentry (strategy.ticks bars)

/-- All round trips of a run, with the one that the end of the series completes. -/
def roundTrips (strategy : Strategy α) (options : Options α) (bars : List (Bar α)) :
    List (RoundTrip α) :=
  strategy.signalTrips options.reentry bars ++
    (options.endOfSeries.sold (strategy.machineAfter options.reentry bars bars.length).position
      (marksFrom 0 bars).getLast?).toList

def openEntry (strategy : Strategy α) (options : Options α) (bars : List (Bar α)) :
    Option (Mark α) :=
  options.endOfSeries.kept (strategy.machineAfter options.reentry bars bars.length).position

/-- For each bar whether a position was open when it began. -/
def exposure (strategy : Strategy α) (reentry : Reentry) (bars : List (Bar α)) : List Bool :=
  ((Machine.start reentry).walk (strategy.ticks bars)).2

variable (strategy : Strategy α) (reentry : Reentry) (bars : List (Bar α))

theorem causal_ticks : Causal strategy.ticks := by
  have hcloses : Causal (closes (α := α)) := Causal.map _
  obtain ⟨hn, hx⟩ := strategy.causal_signals
  refine ((causal_marksFrom 0).zipWith Prod.mk
    ((hn.comp hcloses).zipWith Prod.mk (hx.comp hcloses))).of_eq (fun bars => ?_)
  simp only [ticks, Signals.onMarks, List.zip_eq_zipWith]

theorem causal_exposure : Causal (strategy.exposure reentry) :=
  ((Machine.start reentry).causal_exposure).comp strategy.causal_ticks

theorem getElem?_ticks {i : Nat} {tick : Tick α} :
    (strategy.ticks bars)[i]? = some tick ↔
      bars[i]?.map (fun bar => bar.mark i) = some tick.1 ∧
      (strategy.signals (closes bars)).enter[i]? = some tick.2.1 ∧
      (strategy.signals (closes bars)).exit[i]? = some tick.2.2 := by
  obtain ⟨here, enter, exit⟩ := tick
  simp [ticks, Signals.onMarks, List.getElem?_zip_eq_some, getElem?_marksFrom]

theorem exists_tick {i : Nat} (h : i < bars.length) :
    ∃ tick, (strategy.ticks bars)[i]? = some tick := by
  have hl := strategy.causal_ticks.length_eq bars
  exact ⟨_, List.getElem?_eq_getElem (by omega)⟩

theorem numbered_ticks : Numbered (strategy.ticks bars) := by
  intro i tick h
  obtain ⟨bar, _, hb⟩ := Option.map_eq_some_iff.mp (strategy.getElem?_ticks bars |>.mp h).1
  rw [← hb]
  rfl

theorem on_of_mem_ticks : ∀ tick ∈ strategy.ticks bars, tick.1.On bars := by
  intro tick hm
  obtain ⟨i, hi⟩ := List.mem_iff_getElem?.mp hm
  obtain ⟨bar, hb, he⟩ := Option.map_eq_some_iff.mp (strategy.getElem?_ticks bars |>.mp hi).1
  have hn := strategy.numbered_ticks bars i tick hi
  exact ⟨bar, by rw [hn, hb], by rw [hn, he]⟩

theorem machineAfter_eq (count : Nat) :
    strategy.machineAfter reentry bars count =
      { reentry
        position := Position.flat.after reentry ((strategy.ticks bars).take count)
        trades := (Position.flat.trips reentry ((strategy.ticks bars).take count)).map
          RoundTrip.trade } := by
  rw [machineAfter, Machine.walk_fst]
  rfl

theorem machineAfter_length :
    strategy.machineAfter reentry bars bars.length =
      { reentry
        position := Position.flat.after reentry (strategy.ticks bars)
        trades := (strategy.signalTrips reentry bars).map RoundTrip.trade } := by
  rw [machineAfter_eq, List.take_of_length_le (Nat.le_of_eq (strategy.causal_ticks.length_eq bars))]
  rfl

theorem on_of_mem_signalTrips {trip : RoundTrip α} (h : trip ∈ strategy.signalTrips reentry bars) :
    trip.entry.On bars ∧ trip.exit.On bars :=
  (Position.marks_of_trips (fun mark => mark.On bars) reentry (by simp [Position.openedAt])
    (strategy.on_of_mem_ticks bars)).1 trip h

theorem on_of_machineAfter {count : Nat} {entry : Mark α}
    (h : (strategy.machineAfter reentry bars count).position.openedAt = some entry) :
    entry.On bars := by
  rw [machineAfter_eq] at h
  exact (Position.marks_of_trips (fun mark => mark.On bars) reentry (by simp [Position.openedAt])
    (fun tick hm => strategy.on_of_mem_ticks bars tick (List.mem_of_mem_take hm))).2 entry h

theorem on_of_openEntry (options : Options α) {entry : Mark α}
    (h : strategy.openEntry options bars = some entry) : entry.On bars := by
  unfold openEntry at h
  cases hpolicy : options.endOfSeries with
  | markToMarket =>
    rw [hpolicy] at h
    exact strategy.on_of_machineAfter options.reentry bars h
  | liquidate => simp [hpolicy, EndOfSeries.kept] at h

theorem machineAfter_trades (count : Nat) :
    (strategy.machineAfter reentry bars count).trades =
      ((strategy.signalTrips reentry bars).filter (fun trip => trip.exit.index < count)).map
        RoundTrip.trade := by
  rw [machineAfter_eq, signalTrips, ← Position.trips_take (strategy.numbered_ticks bars)]

theorem signalTrips_take (k : Nat) :
    strategy.signalTrips reentry (bars.take k) =
      (strategy.signalTrips reentry bars).filter (fun trip => trip.exit.index < k) := by
  rw [signalTrips, strategy.causal_ticks.take_eq]
  exact Position.trips_take (strategy.numbered_ticks bars) k

theorem isPrefix_signalTrips_take (k : Nat) :
    strategy.signalTrips reentry (bars.take k) <+: strategy.signalTrips reentry bars := by
  rw [signalTrips, signalTrips, strategy.causal_ticks.take_eq]
  conv => rhs; rw [← List.take_append_drop k (strategy.ticks bars), Position.trips_append]
  exact List.prefix_append _ _

theorem getElem?_exposure {i : Nat} (h : i < bars.length) :
    (strategy.exposure reentry bars)[i]? =
      some (strategy.machineAfter reentry bars i).isLong := by
  have hl := strategy.causal_ticks.length_eq bars
  rw [exposure, Machine.getElem?_walk_snd _ (by omega), machineAfter_eq]
  rfl

theorem exposure_eq :
    strategy.exposure reentry bars =
      (List.range bars.length).map fun i => (strategy.machineAfter reentry bars i).isLong := by
  have hlen := (strategy.causal_exposure reentry).length_eq bars
  refine List.ext_getElem? fun i => ?_
  by_cases hi : i < bars.length
  · rw [strategy.getElem?_exposure reentry bars hi, List.getElem?_map, List.getElem?_range hi]
    rfl
  · rw [List.getElem?_eq_none (by omega), List.getElem?_eq_none (by simp; omega)]

/-- All that can become of the position at the end: there is none, or it is kept, or it is sold at
the last bar unless that bar opened it. -/
theorem end_cases (options : Options α) :
    let opened := (strategy.machineAfter options.reentry bars bars.length).position.openedAt
    let trips := strategy.signalTrips options.reentry bars
    (opened = none ∧ strategy.roundTrips options bars = trips ∧
      strategy.openEntry options bars = none) ∨
    (∃ entry, opened = some entry ∧ options.endOfSeries = .markToMarket ∧
      strategy.roundTrips options bars = trips ∧ strategy.openEntry options bars = some entry) ∨
    (∃ entry last, opened = some entry ∧ options.endOfSeries = .liquidate ∧
      bars[bars.length - 1]? = some last ∧
      strategy.roundTrips options bars = trips ++
        (if entry.index = bars.length - 1 then [] else [⟨entry, last.mark (bars.length - 1)⟩]) ∧
      strategy.openEntry options bars = none) := by
  intro opened trips
  cases hp : (strategy.machineAfter options.reentry bars bars.length).position with
  | flat =>
    refine Or.inl ⟨by simp only [opened, hp]; rfl, ?_⟩
    rw [roundTrips, openEntry, hp]
    cases options.endOfSeries <;> simp [EndOfSeries.sold, EndOfSeries.kept, Position.openedAt, trips]
  | long entry =>
    have hopened : opened = some entry := by simp only [opened, hp]; rfl
    refine Or.inr ?_
    cases hpolicy : options.endOfSeries with
    | markToMarket =>
      refine Or.inl ⟨entry, hopened, rfl, ?_⟩
      rw [roundTrips, openEntry, hp, hpolicy]
      simp [EndOfSeries.sold, EndOfSeries.kept, Position.openedAt, trips]
    | liquidate =>
      obtain ⟨last, hlast⟩ := (strategy.on_of_machineAfter options.reentry bars hopened).exists_last
      refine Or.inr ⟨entry, last, hopened, rfl, hlast, ?_⟩
      rw [roundTrips, openEntry, hp, hpolicy, getLast?_marksFrom, hlast]
      by_cases he : entry.index = bars.length - 1 <;>
        simp [EndOfSeries.sold, EndOfSeries.kept, Bar.mark, he, trips]

end Strategy

section Result

variable (strategy : Strategy α) (options : Options α) (bars : List (Bar α))

theorem walk_ticks_eq :
    (Machine.start options.reentry).walk (strategy.ticks bars) =
      (strategy.machineAfter options.reentry bars bars.length,
        strategy.exposure options.reentry bars) := by
  have hl := strategy.causal_ticks.length_eq bars
  rw [Strategy.machineAfter, Strategy.exposure, List.take_of_length_le (by omega)]

theorem run_stats :
    (run strategy bars options).stats =
      Stats.summarize ((run strategy bars options).trades.map (·.returnPct)) options.equityBase
        (((run strategy bars options).equity.getLast?.map (·.equity)).getD options.equityBase) := rfl

theorem run_equity :
    (run strategy bars options).equity =
      equityCurve bars (strategy.exposure options.reentry bars) options.equityBase := rfl

theorem causal_run_equity : Causal (fun bars => (run strategy bars options).equity) where
  length_eq bars := by
    rw [run_equity]
    cases bars with
    | nil => rfl
    | cons bar bars => simp [equityCurve, length_equityAfter]
  take_eq k bars := by
    rw [run_equity, run_equity, (strategy.causal_exposure options.reentry).take_eq]
    cases bars with
    | nil => simp [equityCurve]
    | cons bar bars =>
      cases k with
      | zero => simp [equityCurve]
      | succ k => cases strategy.exposure options.reentry (bar :: bars) <;>
          simp [equityCurve, equityAfter_take]

theorem run_dates : (run strategy bars options).equity.map (·.date) = bars.map (·.date) := by
  rw [run_equity, dates_equityCurve]

theorem run_inPosition :
    (run strategy bars options).equity.map (·.inPosition) =
      strategy.exposure options.reentry bars := by
  rw [run_equity, flags_equityCurve]
  · exact (strategy.causal_exposure options.reentry).length_eq bars
  · cases hl : strategy.ticks bars <;> simp [Strategy.exposure, Machine.walk, hl, Machine.start,
      Machine.isLong, Position.isLong]

theorem run_trades :
    (run strategy bars options).trades =
      (strategy.roundTrips options bars).map RoundTrip.trade := by
  have hw := walk_ticks_eq strategy options bars
  have hs := options.endOfSeries.settle_trades
    (strategy.machineAfter options.reentry bars bars.length) (marksFrom 0 bars).getLast?
  rw [show (run strategy bars options).trades = (options.endOfSeries.settle
    ((Machine.start options.reentry).walk (strategy.ticks bars)).1
    (marksFrom 0 bars).getLast?).1.trades from rfl, hw, hs, Strategy.roundTrips, List.map_append]
  congr 1
  · rw [Strategy.machineAfter_length]
  · cases options.endOfSeries.sold _ _ <;> rfl

theorem length_trades_le : (run strategy bars options).trades.length ≤ bars.length + 1 := by
  have hsignal := Position.flat.length_trips_le options.reentry (strategy.ticks bars)
  rw [strategy.causal_ticks.length_eq] at hsignal
  rw [run_trades, List.length_map, Strategy.roundTrips, List.length_append, Strategy.signalTrips]
  exact Nat.add_le_add hsignal Option.length_toList_le

theorem ended_isPrefix_trades (k : Nat) :
    ((strategy.signalTrips options.reentry bars).filter (fun trip => trip.exit.index < k)).map
      RoundTrip.trade <+: (run strategy bars options).trades := by
  rw [run_trades, Strategy.roundTrips, ← strategy.signalTrips_take]
  exact ((strategy.isPrefix_signalTrips_take options.reentry bars k).trans
    (List.prefix_append _ _)).map _

theorem run_openPosition :
    (run strategy bars options).openPosition =
      (strategy.openEntry options bars).bind
        (fun entry => (marksFrom 0 bars).getLast?.map (OpenPosition.valued entry)) := by
  have hw := walk_ticks_eq strategy options bars
  rw [show (run strategy bars options).openPosition = (options.endOfSeries.settle
    ((Machine.start options.reentry).walk (strategy.ticks bars)).1
    (marksFrom 0 bars).getLast?).2 from rfl, hw, EndOfSeries.settle_openPosition, Strategy.openEntry]

/-- A run in which no bar asks to enter comes to nothing. -/
theorem run_of_silent
    (h : ∀ enter ∈ (strategy.signals (closes bars)).enter, enter = false) :
    (run strategy bars options).trades = [] ∧
    (run strategy bars options).openPosition = none ∧
    (run strategy bars options).equity =
      bars.map (fun bar => ⟨bar.date, options.equityBase, false⟩) := by
  have hticks : ∀ tick ∈ strategy.ticks bars, tick.2.1 = false := by
    intro tick hm
    obtain ⟨i, hi⟩ := List.mem_iff_getElem?.mp hm
    have henter := (strategy.getElem?_ticks bars |>.mp hi).2.1
    exact h _ (List.mem_of_getElem? henter)
  have hflat : ∀ count, (strategy.machineAfter options.reentry bars count).position = .flat := by
    intro count
    rw [Strategy.machineAfter_eq]
    exact (Position.flat_of_silent _ fun tick hm => hticks tick (List.mem_of_mem_take hm)).1
  have htrips : strategy.signalTrips options.reentry bars = [] :=
    (Position.flat_of_silent _ hticks).2
  have hheld : ∀ held ∈ strategy.exposure options.reentry bars, held = false := by
    intro held hm
    obtain ⟨i, hi⟩ := List.mem_iff_getElem?.mp hm
    have hlen := (strategy.causal_exposure options.reentry).length_eq bars
    have hlt := (List.getElem?_eq_some_iff.mp hi).1
    rw [strategy.getElem?_exposure options.reentry bars (by omega), Machine.isLong, hflat] at hi
    exact (Option.some.inj hi).symm
  refine ⟨?_, ?_, ?_⟩
  · rw [run_trades, Strategy.roundTrips, htrips, hflat]
    cases options.endOfSeries <;> rfl
  · rw [run_openPosition, Strategy.openEntry, hflat]
    cases options.endOfSeries <;> rfl
  · rw [run_equity, equityCurve_of_idle bars _ hheld]

end Result

end Backtest
