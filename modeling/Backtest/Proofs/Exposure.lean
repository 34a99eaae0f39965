import Backtest.Proofs.TradeLog
import Mathlib.Algebra.GroupWithZero.Nat
import Mathlib.Order.CompletePartialOrder
import Mathlib.Order.Interval.Set.Disjoint

/-!
Exposure: the bars on which a position was open when they began. The spans of the round trips and
of the open position cover them, one after another and without overlap.
-/

namespace Backtest

variable {α : Type}

namespace Position

/-- Opened before some bar. -/
def HeldInto (position : Position α) (i : Nat) : Prop :=
  ∃ entry, position.openedAt = some entry ∧ entry.index < i

def barsHeld (position : Position α) (now : Nat) : Nat :=
  position.openedAt.elim 0 (fun entry => now - entry.index)

theorem isLong_iff (position : Position α) :
    position.isLong = true ↔ ∃ entry, position.openedAt = some entry := by
  cases position <;> simp [isLong, openedAt]

/-- A bar may complete a position that was held into an earlier bar, but it can open none. -/
theorem heldInto_next (reentry : Reentry) {position : Position α} {tick : Tick α} {i : Nat}
    (hi : i ≤ tick.1.index) :
    position.HeldInto i ↔
      (∃ trip ∈ position.completed tick, i ∈ Set.Ioc trip.entry.index trip.exit.index) ∨
        (position.next reentry tick).HeldInto i := by
  have hflat : ¬ (flat : Position α).HeldInto i := by simp [HeldInto, openedAt]
  have hhere : ¬ (long tick.1).HeldInto i := by simp [HeldInto, openedAt, hi]
  rcases next_cases reentry position tick with
    ⟨rfl, hc, hn | hn⟩ | ⟨entry, rfl, hc, hn⟩ | ⟨entry, rfl, hc, hn | hn⟩ <;> rw [hc, hn]
  · simp [hflat]
  · simp [hflat, hhere]
  · simp
  · simp only [hflat, or_false]
    simp [HeldInto, openedAt, hi]
  · simp only [hhere, or_false]
    simp [HeldInto, openedAt, hi]

theorem barsHeld_next (reentry : Reentry) {position : Position α} {tick : Tick α}
    (hlt : ∀ entry, position.openedAt = some entry → entry.index < tick.1.index) :
    ((position.completed tick).elim 0 (fun trip => trip.exit.index - trip.entry.index)) +
        (position.next reentry tick).barsHeld tick.1.index =
      position.barsHeld (tick.1.index - 1) + position.isLong.toNat := by
  rcases next_cases reentry position tick with
    ⟨rfl, hc, hn | hn⟩ | ⟨entry, rfl, hc, hn⟩ | ⟨entry, rfl, hc, hn | hn⟩ <;> rw [hc, hn]
  · rfl
  · simp [barsHeld, openedAt, isLong]
  · have hh := hlt entry rfl
    simp only [Option.elim, barsHeld, openedAt, isLong, Bool.toNat_true]
    omega
  · have hh := hlt entry rfl
    simp only [Option.elim, barsHeld, openedAt, isLong, Bool.toNat_true]
    omega
  · have hh := hlt entry rfl
    simp only [Option.elim, barsHeld, openedAt, isLong, Bool.toNat_true]
    omega

theorem index_lt_of_take (reentry : Reentry) {ticks : List (Tick α)} (hn : Numbered ticks) (k : Nat) :
    (∀ trip ∈ flat.trips reentry (ticks.take k), trip.entry.index < k ∧ trip.exit.index < k) ∧
      ∀ entry, (flat.after reentry (ticks.take k)).openedAt = some entry → entry.index < k := by
  refine marks_of_trips (fun mark => mark.index < k) reentry (by simp [openedAt]) ?_
  intro tick hm
  obtain ⟨i, hi, hg⟩ := List.mem_take_iff_getElem.mp hm
  have hh := hn i tick (by rw [← hg]; exact List.getElem?_eq_getElem _)
  omega

/-- Whoever is long when a bar begins leaves on that bar or on a later one, or not at all. -/
theorem isLong_after (reentry : Reentry) {ticks : List (Tick α)} (hn : Numbered ticks) {i k : Nat}
    (hi : i ≤ k) (hk : k ≤ ticks.length) :
    (flat.after reentry (ticks.take i)).isLong = true ↔
      (∃ trip ∈ flat.trips reentry (ticks.take k),
        i ∈ Set.Ioc trip.entry.index trip.exit.index) ∨
      (flat.after reentry (ticks.take k)).HeldInto i := by
  induction k, hi using Nat.le_induction with
  | base =>
    obtain ⟨htrips, hafter⟩ := index_lt_of_take reentry hn i
    have hended : ¬ ∃ trip ∈ flat.trips reentry (ticks.take i),
        i ∈ Set.Ioc trip.entry.index trip.exit.index := by
      rintro ⟨trip, hm, hi⟩
      exact Nat.not_lt_of_le hi.2 (htrips trip hm).2
    rw [isLong_iff, or_iff_right hended]
    exact exists_congr fun entry => ⟨fun he => ⟨he, hafter entry he⟩, And.left⟩
  | succ k hi ih =>
    have htick := List.getElem?_eq_getElem hk
    have hindex := hn k _ htick
    rw [ih (by omega), trips_take_succ htick, after_take_succ htick,
      heldInto_next reentry (hindex ▸ hi)]
    simp only [List.mem_append, Option.mem_toList, Option.mem_def, or_and_right, exists_or, or_assoc]

variable [Scalar α]

theorem sum_barsHeld (reentry : Reentry) {ticks : List (Tick α)} (hn : Numbered ticks) {k : Nat}
    (hk : k ≤ ticks.length) :
    ((flat.trips reentry (ticks.take k)).map
        (fun trip => trip.exit.index - trip.entry.index)).sum +
      (flat.after reentry (ticks.take k)).barsHeld (k - 1) =
    (((Machine.start reentry).walk ticks).2.take k).count true := by
  induction k with
  | zero => simp [trips, after, barsHeld, openedAt]
  | succ k ih =>
    have htick := List.getElem?_eq_getElem hk
    have hindex := hn k _ htick
    obtain ⟨_, hafter⟩ := index_lt_of_take reentry hn k
    have hnext := barsHeld_next reentry (hindex.symm ▸ hafter)
    have hflag := Machine.getElem?_walk_snd (Machine.start reentry) hk
    have hcompleted : ∀ trip : Option (RoundTrip α),
        (trip.toList.map (fun trip => trip.exit.index - trip.entry.index)).sum =
          trip.elim 0 (fun trip => trip.exit.index - trip.entry.index) := by
      intro trip
      cases trip <;> rfl
    have hcount : ∀ held : Bool, (some held).toList.count true = held.toNat := by decide
    rw [hindex] at hnext
    rw [trips_take_succ htick, after_take_succ htick, List.take_add_one, hflag, List.count_append,
      ← ih (by omega), List.map_append, List.sum_append, hcompleted, hcount, Nat.add_sub_cancel,
      Nat.add_assoc, hnext, Nat.add_assoc]
    rfl

end Position

theorem GreedyPairing.ordered {signals : Signals} {reentry : Reentry} {start : Nat}
    {pairs : List (Nat × Nat)} {last : Option Nat} (final : Nat)
    (h : GreedyPairing signals reentry start pairs last) :
    (pairs ++ (last.map (·, final)).toList).Pairwise (fun a b => reentry.earliest a.2 ≤ b.1) ∧
      ∀ span ∈ pairs ++ (last.map (·, final)).toList, start ≤ span.1 := by
  induction h with
  | idle => simp
  | held hentry => simpa using hentry.1.1
  | @trip start entry exit _ _ hentry hexit _ ih =>
    obtain ⟨hordered, hstart⟩ := ih
    have hle : start ≤ entry := hentry.1.1
    have hlt : entry < exit := hexit.1.1
    have hexit := reentry.le_earliest exit
    refine ⟨List.pairwise_cons.mpr ⟨hstart, hordered⟩, fun span hm => ?_⟩
    rcases List.mem_cons.mp hm with rfl | hm
    · exact hle
    · have := hstart span hm
      omega

theorem exists_mem_iff_existsUnique {spans : List (Nat × Nat)}
    (h : spans.Pairwise (fun a b => a.2 ≤ b.1)) (i : Nat) :
    (∃ span ∈ spans, i ∈ Set.Ioc span.1 span.2) ↔
      ∃! k : Nat, ∃ span ∈ spans[k]?, i ∈ Set.Ioc span.1 span.2 := by
  have hlt : ∀ {k k' : Nat} {a b : Nat × Nat}, spans[k]? = some a → spans[k']? = some b →
      i ∈ Set.Ioc a.1 a.2 → i ∈ Set.Ioc b.1 b.2 → ¬ k < k' := by
    intro k k' a b ha hb hia hib hk
    obtain ⟨hk₁, rfl⟩ := List.getElem?_eq_some_iff.mp ha
    obtain ⟨hk₂, rfl⟩ := List.getElem?_eq_some_iff.mp hb
    have hh := List.pairwise_iff_getElem.mp h k k' hk₁ hk₂ hk
    exact Nat.not_lt_of_le (Nat.le_trans hia.2 hh) hib.1
  constructor
  · rintro ⟨span, hm, hi⟩
    obtain ⟨k, hk⟩ := List.mem_iff_getElem?.mp hm
    refine ⟨k, ⟨span, hk, hi⟩, ?_⟩
    rintro k' ⟨span', hk', hi'⟩
    have := hlt hk hk' hi hi'
    have := hlt hk' hk hi' hi
    omega
  · rintro ⟨k, ⟨span, hk, hi⟩, _⟩
    exact ⟨span, List.mem_of_getElem? hk, hi⟩

variable [Scalar α]

namespace Strategy

variable (strategy : Strategy α)

/-- The spans of the round trips, and of the position that is still open in the end. -/
def spans (options : Options α) (bars : List (Bar α)) : List (Nat × Nat) :=
  (strategy.roundTrips options bars).map RoundTrip.span ++
    ((strategy.openEntry options bars).map (fun entry => (entry.index, bars.length - 1))).toList

/-- The same before anything is sold in the end. -/
def heldSpans (reentry : Reentry) (bars : List (Bar α)) : List (Nat × Nat) :=
  (strategy.signalTrips reentry bars).map RoundTrip.span ++
    ((strategy.machineAfter reentry bars bars.length).position.openedAt.map
      (fun entry => (entry.index, bars.length - 1))).toList

/-- A sale in the end moves a span from the open position to the log. Only an empty span is lost. -/
theorem heldSpans_eq (options : Options α) (bars : List (Bar α)) :
    strategy.heldSpans options.reentry bars = strategy.spans options bars ∨
      strategy.heldSpans options.reentry bars =
        strategy.spans options bars ++ [(bars.length - 1, bars.length - 1)] := by
  unfold heldSpans spans
  rcases strategy.end_cases bars options with ⟨hopen, htrips, hkept⟩ |
    ⟨entry, hopen, _, htrips, hkept⟩ | ⟨entry, last, hopen, _, hlast, htrips, hkept⟩ <;>
    rw [hopen, htrips, hkept]
  · exact Or.inl rfl
  · exact Or.inl rfl
  · by_cases he : entry.index = bars.length - 1
    · exact Or.inr (by simp [he])
    · exact Or.inl (by simp [he, RoundTrip.span, Bar.mark])

theorem ordered_spans (options : Options α) (bars : List (Bar α)) :
    (strategy.spans options bars).Pairwise (fun a b => options.reentry.earliest a.2 ≤ b.1) := by
  have hordered := ((strategy.greedyPairing_signalTrips options.reentry bars).ordered
    (bars.length - 1)).1
  rw [Option.map_map] at hordered
  change (strategy.heldSpans options.reentry bars).Pairwise _ at hordered
  rcases strategy.heldSpans_eq options bars with he | he
  · exact he ▸ hordered
  · rw [he] at hordered
    exact hordered.sublist (List.sublist_append_left _ _)

theorem exposure_iff_mem_heldSpans (reentry : Reentry) {bars : List (Bar α)} {i : Nat}
    (h : i < bars.length) :
    (strategy.exposure reentry bars)[i]? = some true ↔
      ∃ span ∈ strategy.heldSpans reentry bars, i ∈ Set.Ioc span.1 span.2 := by
  have hl := strategy.causal_ticks.length_eq bars
  have hn := strategy.numbered_ticks bars
  have hlong := Position.isLong_after reentry hn (k := bars.length) h.le hl.ge
  rw [strategy.getElem?_exposure reentry bars h, strategy.machineAfter_eq, Option.some_inj]
  refine Iff.trans hlong ?_
  rw [List.take_of_length_le hl.le, heldSpans, machineAfter_length]
  simp only [List.mem_append, or_and_right, exists_or]
  refine or_congr ?_ ?_
  · simp [signalTrips, RoundTrip.span]
  · have hi : i ≤ bars.length - 1 := by omega
    simp [Position.HeldInto, hi]

theorem exposure_iff_mem_spans (options : Options α) {bars : List (Bar α)} {i : Nat}
    (h : i < bars.length) :
    (strategy.exposure options.reentry bars)[i]? = some true ↔
      ∃ span ∈ strategy.spans options bars, i ∈ Set.Ioc span.1 span.2 := by
  rw [strategy.exposure_iff_mem_heldSpans options.reentry h]
  rcases strategy.heldSpans_eq options bars with he | he
  · rw [he]
  · simp [he, or_and_right, exists_or]

theorem sum_widths_heldSpans (reentry : Reentry) (bars : List (Bar α)) :
    ((strategy.heldSpans reentry bars).map (fun span => span.2 - span.1)).sum =
      (strategy.exposure reentry bars).count true := by
  have hl := strategy.causal_ticks.length_eq bars
  have hx := (strategy.causal_exposure reentry).length_eq bars
  have hsum := Position.sum_barsHeld reentry (strategy.numbered_ticks bars)
    (k := bars.length) hl.ge
  rw [List.take_of_length_le hl.le] at hsum
  change _ = ((strategy.exposure reentry bars).take bars.length).count true at hsum
  rw [List.take_of_length_le hx.le] at hsum
  rw [← hsum, heldSpans, machineAfter_length, List.map_append, List.sum_append, List.map_map]
  congr 1
  cases Position.flat.after reentry (strategy.ticks bars) <;>
    simp [Position.barsHeld, Position.openedAt]

theorem sum_widths_spans (options : Options α) (bars : List (Bar α)) :
    ((strategy.spans options bars).map (fun span => span.2 - span.1)).sum =
      (strategy.exposure options.reentry bars).count true := by
  rw [← strategy.sum_widths_heldSpans options.reentry bars]
  rcases strategy.heldSpans_eq options bars with he | he
  · rw [he]
  · simp [he]

end Strategy

theorem run_barsHeld (strategy : Strategy α) (options : Options α) (bars : List (Bar α)) :
    ((run strategy bars options).trades.map (·.barsHeld)).sum +
        (run strategy bars options).openPosition.elim 0 (·.barsHeld) =
      (run strategy bars options).equity.countP (·.inPosition) := by
  have hclosed : (run strategy bars options).trades.map (·.barsHeld) =
      ((strategy.roundTrips options bars).map RoundTrip.span).map (fun span => span.2 - span.1) := by
    rw [run_trades, List.map_map, List.map_map]
    rfl
  have hopen : (run strategy bars options).openPosition.elim 0 (·.barsHeld) =
      (((strategy.openEntry options bars).map
        (fun entry => (entry.index, bars.length - 1))).toList.map (fun span => span.2 - span.1)).sum := by
    have hsince := run_openPosition_since strategy options bars
    generalize (run strategy bars options).openPosition = position at hsince ⊢
    cases hentry : strategy.openEntry options bars with
    | none =>
      rw [hentry] at hsince
      cases hsince
      rfl
    | some entry =>
      rw [hentry] at hsince
      cases hsince with
      | some h =>
        obtain ⟨_, _, _, _, _, _, _, _, _, hh⟩ := h
        simp [hh]
  have hwidths := strategy.sum_widths_spans options bars
  rw [Strategy.spans, List.map_append, List.sum_append] at hwidths
  rw [hclosed, hopen, hwidths, ← run_inPosition, List.count, List.countP_map]
  congr 1
  funext point
  simp

theorem run_inPosition_iff (strategy : Strategy α) (options : Options α) {bars : List (Bar α)}
    {i : Nat} {point : EquityPoint α} (h : (run strategy bars options).equity[i]? = some point) :
    point.inPosition = true ↔
      ∃ span ∈ strategy.spans options bars, i ∈ Set.Ioc span.1 span.2 := by
  have hflag : (strategy.exposure options.reentry bars)[i]? = some point.inPosition := by
    rw [← run_inPosition, List.getElem?_map, h]
    rfl
  have hlt : i < bars.length := by
    rw [← (causal_run_equity strategy options).length_eq bars]
    exact (List.getElem?_eq_some_iff.mp h).1
  rw [← strategy.exposure_iff_mem_spans options hlt, hflag, Option.some_inj]

/-- Every point of the curve is in position if and only if it lies in the span of one closed trade
or of the open position. These spans are in order and apart; with immediate reentry one may begin
where the last one ends. -/
theorem run_exposure_partitioned (strategy : Strategy α) (options : Options α)
    (bars : List (Bar α)) :
    let result := run strategy bars options
    let closed := (strategy.roundTrips options bars).map RoundTrip.span
    let held := (strategy.openEntry options bars).map Mark.index
    let spans := closed ++ (held.map (·, bars.length - 1)).toList
    List.Forall₂ (TradeBetween bars) closed result.trades ∧
    Option.Rel (OpenSince bars) held result.openPosition ∧
    result.equity.map (·.date) = bars.map (·.date) ∧
    (∀ point ∈ result.equity[0]?, point.inPosition = false) ∧
    (∀ i : Nat, ∀ point ∈ result.equity[i]?, (point.inPosition = true ↔
      ∃! k : Nat, ∃ span ∈ spans[k]?, i ∈ Set.Ioc span.1 span.2)) ∧
    spans.Pairwise (fun before after => Disjoint (Set.Ioc before.1 before.2)
      (Set.Ioc after.1 after.2) ∧ options.reentry.earliest before.2 ≤ after.1) ∧
    (result.trades.map (·.barsHeld)).sum + result.openPosition.elim 0 (·.barsHeld) =
      result.equity.countP (·.inPosition) := by
  intro result closed held spans
  have hspans : spans = strategy.spans options bars := by
    simp only [spans, closed, held, Option.map_map, Strategy.spans]
    rfl
  have hordered : spans.Pairwise (fun before after => options.reentry.earliest before.2 ≤ after.1) :=
    hspans ▸ strategy.ordered_spans options bars
  have hafter : ∀ exit, exit ≤ options.reentry.earliest exit := options.reentry.le_earliest
  refine ⟨run_trades_between strategy options bars, run_openPosition_since strategy options bars,
    run_dates strategy options bars, fun point hp => ?_, fun i point hp => ?_,
    hordered.imp fun {before after} hle => ⟨?_, hle⟩, run_barsHeld strategy options bars⟩
  · rw [← Bool.not_eq_true, run_inPosition_iff strategy options hp]
    rintro ⟨span, _, hi⟩
    exact Nat.not_lt_zero _ hi.1
  · rw [run_inPosition_iff strategy options hp, ← hspans]
    exact exists_mem_iff_existsUnique (hordered.imp fun hle => (hafter _).trans hle) i
  · refine Set.disjoint_left.mpr fun i hb ha => ?_
    have hlt := hafter before.2
    have hend := hb.2
    have hbegin := ha.1
    omega

end Backtest
