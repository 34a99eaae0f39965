import Backtest.Proofs.RunHistory
import Mathlib.Order.Bounds.Basic

/-!
The greedy pairing of signals: enter at the first chance, leave at the first chance after that,
and again. The positions of a run are those of the pairing of its signals.
-/

namespace Backtest

/-- The first flag that is set from some bar on. -/
def FirstSet (flags : List Bool) (start i : Nat) : Prop :=
  IsLeast {j | start ≤ j ∧ flags[j]? = some true} i

def NoneSet (flags : List Bool) (start : Nat) : Prop :=
  ∀ j, start ≤ j → flags[j]? ≠ some true

theorem FirstSet.not_noneSet {flags : List Bool} {start i : Nat} (h : FirstSet flags start i) :
    ¬ NoneSet flags start :=
  fun hn => hn i h.1.1 h.1.2

theorem firstSet_self {flags : List Bool} {start : Nat} (h : flags[start]? = some true) :
    FirstSet flags start start :=
  ⟨⟨Nat.le_refl start, h⟩, fun _ hj => hj.1⟩

theorem FirstSet.of_succ {flags : List Bool} {start i : Nat} (h : flags[start]? ≠ some true)
    (hs : FirstSet flags (start + 1) i) : FirstSet flags start i := by
  refine ⟨⟨by have := hs.1.1; omega, hs.1.2⟩, ?_⟩
  rintro j ⟨hj, hset⟩
  by_cases he : j = start
  · exact absurd (he ▸ hset) h
  · exact hs.2 ⟨by omega, hset⟩

theorem NoneSet.of_succ {flags : List Bool} {start : Nat} (h : flags[start]? ≠ some true)
    (hs : NoneSet flags (start + 1)) : NoneSet flags start := by
  intro j hj
  by_cases he : j = start
  · exact he ▸ h
  · exact hs j (by omega)

/-- The first bar that may open a position after another bar closed one. -/
def Reentry.earliest : Reentry → Nat → Nat
  | .sameBar, exit => exit
  | .nextBar, exit => exit + 1

theorem Reentry.le_earliest (reentry : Reentry) (exit : Nat) : exit ≤ reentry.earliest exit := by
  cases reentry
  · exact Nat.le_refl exit
  · exact Nat.le_succ exit

/-- The pairs of an entry and an exit that are made from some bar on, and the entry that stays
without an exit, if there is one. -/
inductive GreedyPairing (signals : Signals) (reentry : Reentry) :
    Nat → List (Nat × Nat) → Option Nat → Prop
  | idle {start : Nat} (hentry : NoneSet signals.enter start) :
      GreedyPairing signals reentry start [] none
  | held {start entry : Nat} (hentry : FirstSet signals.enter start entry)
      (hexit : NoneSet signals.exit (entry + 1)) :
      GreedyPairing signals reentry start [] (some entry)
  | trip {start entry exit : Nat} {pairs : List (Nat × Nat)} {last : Option Nat}
      (hentry : FirstSet signals.enter start entry)
      (hexit : FirstSet signals.exit (entry + 1) exit)
      (hrest : GreedyPairing signals reentry (reentry.earliest exit) pairs last) :
      GreedyPairing signals reentry start ((entry, exit) :: pairs) last

namespace GreedyPairing

variable {signals : Signals} {reentry : Reentry} {start : Nat} {pairs : List (Nat × Nat)}
  {last : Option Nat}

theorem unique {pairs' : List (Nat × Nat)} {last' : Option Nat}
    (h : GreedyPairing signals reentry start pairs last)
    (h' : GreedyPairing signals reentry start pairs' last') : pairs' = pairs ∧ last' = last := by
  induction h generalizing pairs' last' with
  | idle hentry =>
    cases h' with
    | idle => exact ⟨rfl, rfl⟩
    | held he => exact absurd hentry he.not_noneSet
    | trip he => exact absurd hentry he.not_noneSet
  | held hentry hexit =>
    cases h' with
    | idle hn => exact absurd hn hentry.not_noneSet
    | held he => exact ⟨rfl, congrArg some (he.unique hentry)⟩
    | trip he hx =>
      rw [he.unique hentry] at hx
      exact absurd hexit hx.not_noneSet
  | trip hentry hexit _ ih =>
    cases h' with
    | idle hn => exact absurd hn hentry.not_noneSet
    | held he hn =>
      rw [he.unique hentry] at hn
      exact absurd hn hexit.not_noneSet
    | trip he hx hr =>
      have heq := he.unique hentry
      subst heq
      have hxeq := hx.unique hexit
      subst hxeq
      obtain ⟨hp, hl⟩ := ih hr
      exact ⟨by rw [hp], hl⟩

theorem of_succ (h : signals.enter[start]? ≠ some true)
    (hp : GreedyPairing signals reentry (start + 1) pairs last) :
    GreedyPairing signals reentry start pairs last := by
  cases hp with
  | idle hn => exact .idle (hn.of_succ h)
  | held he hx => exact .held (he.of_succ h) hx
  | trip he hx hr => exact .trip (he.of_succ h) hx hr

theorem entry_lt_exit (h : GreedyPairing signals reentry start pairs last) :
    ∀ pair ∈ pairs, pair.1 < pair.2 := by
  induction h with
  | idle => simp
  | held => simp
  | trip _ hexit _ ih =>
    intro pair hm
    rcases List.mem_cons.mp hm with rfl | hm
    · exact hexit.1.1
    · exact ih pair hm

end GreedyPairing

/-- The pairing from some bar on where a position is already open. -/
def HeldPairing (signals : Signals) (reentry : Reentry) (entry start : Nat)
    (pairs : List (Nat × Nat)) (last : Option Nat) : Prop :=
  (NoneSet signals.exit start ∧ pairs = [] ∧ last = some entry) ∨
  ∃ exit rest, FirstSet signals.exit start exit ∧ pairs = (entry, exit) :: rest ∧
    GreedyPairing signals reentry (reentry.earliest exit) rest last

theorem HeldPairing.greedy {signals : Signals} {reentry : Reentry} {entry : Nat}
    {pairs : List (Nat × Nat)} {last : Option Nat}
    (h : HeldPairing signals reentry entry (entry + 1) pairs last)
    (hset : signals.enter[entry]? = some true) :
    GreedyPairing signals reentry entry pairs last := by
  rcases h with ⟨hn, rfl, rfl⟩ | ⟨exit, rest, hx, rfl, hr⟩
  · exact .held (firstSet_self hset) hn
  · exact .trip (firstSet_self hset) hx hr

theorem HeldPairing.of_succ {signals : Signals} {reentry : Reentry} {entry start : Nat}
    {pairs : List (Nat × Nat)} {last : Option Nat} (h : signals.exit[start]? ≠ some true)
    (hp : HeldPairing signals reentry entry (start + 1) pairs last) :
    HeldPairing signals reentry entry start pairs last := by
  rcases hp with ⟨hn, rfl, rfl⟩ | ⟨exit, rest, hx, rfl, hr⟩
  · exact Or.inl ⟨hn.of_succ h, rfl, rfl⟩
  · exact Or.inr ⟨exit, rest, hx.of_succ h, rfl, hr⟩

variable {α : Type}

def RoundTrip.span (trip : RoundTrip α) : Nat × Nat := (trip.entry.index, trip.exit.index)

structure Signals.AlignedFrom (signals : Signals) (start : Nat) (ticks : List (Tick α)) : Prop where
  enter : ∀ i, signals.enter[start + i]? = ticks[i]?.map (·.2.1)
  exit : ∀ i, signals.exit[start + i]? = ticks[i]?.map (·.2.2)
  index : ∀ (i : Nat) (tick : Tick α), ticks[i]? = some tick → tick.1.index = start + i

theorem Signals.AlignedFrom.tail {signals : Signals} {start : Nat} {tick : Tick α}
    {ticks : List (Tick α)} (h : signals.AlignedFrom start (tick :: ticks)) :
    signals.AlignedFrom (start + 1) ticks where
  enter i := by simpa [Nat.add_assoc, Nat.add_comm 1 i] using h.enter (i + 1)
  exit i := by simpa [Nat.add_assoc, Nat.add_comm 1 i] using h.exit (i + 1)
  index i tick' ht := by simpa [Nat.add_assoc, Nat.add_comm 1 i] using h.index (i + 1) tick' ht

/-- From any bar on, a flat position and an open one both follow the pairing. The two go together:
each bar may turn one into the other. -/
theorem trips_paired {signals : Signals} (reentry : Reentry) {start : Nat} {ticks : List (Tick α)}
    (h : signals.AlignedFrom start ticks) :
    GreedyPairing signals reentry start ((Position.flat.trips reentry ticks).map RoundTrip.span)
      ((Position.flat.after reentry ticks).openedAt.map Mark.index) ∧
    ∀ entry : Mark α, HeldPairing signals reentry entry.index start
      (((Position.long entry).trips reentry ticks).map RoundTrip.span)
      (((Position.long entry).after reentry ticks).openedAt.map Mark.index) := by
  induction ticks generalizing start with
  | nil =>
    have hnone : NoneSet signals.enter start ∧ NoneSet signals.exit start := by
      constructor <;> intro j hj
      · have hh := h.enter (j - start)
        rw [Nat.add_sub_cancel' hj] at hh
        simp [hh]
      · have hh := h.exit (j - start)
        rw [Nat.add_sub_cancel' hj] at hh
        simp [hh]
    exact ⟨.idle hnone.1, fun entry => Or.inl ⟨hnone.2, rfl, rfl⟩⟩
  | cons tick ticks ih =>
    obtain ⟨hflat, hlong⟩ := ih h.tail
    obtain ⟨here, enter, exit⟩ := tick
    have hn : signals.enter[start]? = some enter := by simpa using h.enter 0
    have hx : signals.exit[start]? = some exit := by simpa using h.exit 0
    have hi : here.index = start := h.index 0 _ rfl
    have hopen := hlong here
    rw [hi] at hopen
    constructor
    · cases enter with
      | false => exact hflat.of_succ (by simp [hn])
      | true => exact hopen.greedy hn
    · intro entry
      cases exit with
      | false => exact (hlong entry).of_succ (by simp [hx])
      | true =>
        have hspan : RoundTrip.span ⟨entry, here⟩ = (entry.index, start) := by
          rw [RoundTrip.span, hi]
        refine Or.inr ⟨start, _, firstSet_self hx, congrArg (List.cons · _) hspan, ?_⟩
        cases reentry with
        | nextBar => cases enter <;> exact hflat
        | sameBar =>
          cases enter with
          | false => exact hflat.of_succ (by simp [Reentry.earliest, hn])
          | true => exact hopen.greedy hn

variable [Scalar α] (strategy : Strategy α)

theorem Strategy.aligned_ticks (bars : List (Bar α)) :
    (strategy.signals (closes bars)).AlignedFrom 0 (strategy.ticks bars) := by
  have hticks := strategy.causal_ticks.length_eq bars
  have hcloses : (closes bars).length = bars.length := List.length_map _
  obtain ⟨hn, hx⟩ := strategy.causal_signals
  refine ⟨fun i => ?_, fun i => ?_, fun i tick ht => ?_⟩
  · rw [Nat.zero_add]
    cases ht : (strategy.ticks bars)[i]? with
    | some tick => exact (strategy.getElem?_ticks bars |>.mp ht).2.1
    | none =>
      have hi := List.getElem?_eq_none_iff.mp ht
      exact List.getElem?_eq_none_iff.mpr (by rw [hn.length_eq]; omega)
  · rw [Nat.zero_add]
    cases ht : (strategy.ticks bars)[i]? with
    | some tick => exact (strategy.getElem?_ticks bars |>.mp ht).2.2
    | none =>
      have hi := List.getElem?_eq_none_iff.mp ht
      exact List.getElem?_eq_none_iff.mpr (by rw [hx.length_eq]; omega)
  · rw [strategy.numbered_ticks bars i tick ht, Nat.zero_add]

theorem Strategy.greedyPairing_signalTrips (reentry : Reentry) (bars : List (Bar α)) :
    GreedyPairing (strategy.signals (closes bars)) reentry 0
      ((strategy.signalTrips reentry bars).map RoundTrip.span)
      ((strategy.machineAfter reentry bars bars.length).position.openedAt.map Mark.index) := by
  rw [machineAfter_length]
  exact (trips_paired reentry (strategy.aligned_ticks bars)).1

/-- Every round trip leads from a bar to a later one, also the one that ends with the series. -/
theorem Strategy.on_of_mem_roundTrips (options : Options α) {bars : List (Bar α)}
    {trip : RoundTrip α} (h : trip ∈ strategy.roundTrips options bars) :
    trip.entry.On bars ∧ trip.exit.On bars ∧ trip.entry.index < trip.exit.index := by
  have hsignal : ∀ trip ∈ strategy.signalTrips options.reentry bars,
      trip.entry.On bars ∧ trip.exit.On bars ∧ trip.entry.index < trip.exit.index := by
    intro trip hm
    obtain ⟨hentry, hexit⟩ := strategy.on_of_mem_signalTrips options.reentry bars hm
    exact ⟨hentry, hexit, (strategy.greedyPairing_signalTrips options.reentry bars).entry_lt_exit _
      (List.mem_map_of_mem hm)⟩
  rcases strategy.end_cases bars options with ⟨_, htrips, _⟩ | ⟨_, _, _, htrips, _⟩ |
    ⟨entry, last, hopen, _, hlast, htrips, _⟩ <;> rw [htrips] at h
  · exact hsignal trip h
  · exact hsignal trip h
  · have hentry := strategy.on_of_machineAfter options.reentry bars hopen
    have hlt := hentry.index_lt
    rcases List.mem_append.mp h with h | h
    · exact hsignal trip h
    · by_cases he : entry.index = bars.length - 1
      · simp [he] at h
      · obtain rfl : trip = ⟨entry, last.mark (bars.length - 1)⟩ := by simpa [he] using h
        refine ⟨hentry, ⟨last, hlast, rfl⟩, ?_⟩
        change entry.index < bars.length - 1
        omega

end Backtest
