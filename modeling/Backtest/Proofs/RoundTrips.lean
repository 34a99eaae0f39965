import Backtest.Proofs.Causality
import Backtest.Run

/-!
The history of a run. A machine is a position that each bar moves on and a log of the round trips
it completes; both are followed bar by bar, and the result of a run is read off them.
-/

namespace Backtest

variable {α : Type}

/-- A bar as a machine takes it: whether to enter, and whether to leave. -/
abbrev Tick (α : Type) := Mark α × Bool × Bool

def Numbered (ticks : List (Tick α)) : Prop :=
  ∀ (i : Nat) (tick : Tick α), ticks[i]? = some tick → tick.1.index = i

structure RoundTrip (α : Type) where
  entry : Mark α
  exit : Mark α
  deriving DecidableEq, Repr

namespace Position

def openedAt : Position α → Option (Mark α)
  | .flat => none
  | .long entry => some entry

/-- The position after a bar. A position that the bar closes may be followed by another one on the
same bar only if the policy says so. -/
def next (reentry : Reentry) : Position α → Tick α → Position α
  | .flat, (here, enter, _) => if enter then .long here else .flat
  | .long entry, (here, enter, exit) =>
    if exit then
      if enter && reentry = .sameBar then .long here else .flat
    else .long entry

def completed : Position α → Tick α → Option (RoundTrip α)
  | .long entry, (here, _, true) => some ⟨entry, here⟩
  | _, _ => none

def after (reentry : Reentry) (position : Position α) (ticks : List (Tick α)) : Position α :=
  ticks.foldl (next reentry) position

def trips (reentry : Reentry) (position : Position α) : List (Tick α) → List (RoundTrip α)
  | [] => []
  | tick :: ticks => (position.completed tick).toList ++ trips reentry (position.next reentry tick) ticks

theorem after_append (reentry : Reentry) (position : Position α) (xs ys : List (Tick α)) :
    position.after reentry (xs ++ ys) = (position.after reentry xs).after reentry ys :=
  List.foldl_append

theorem trips_append (reentry : Reentry) (position : Position α) (xs ys : List (Tick α)) :
    position.trips reentry (xs ++ ys) =
      position.trips reentry xs ++ (position.after reentry xs).trips reentry ys := by
  induction xs generalizing position with
  | nil => rfl
  | cons tick ticks ih =>
    simp only [List.cons_append, trips, ih, List.append_assoc, after, List.foldl_cons]

theorem after_take_succ {reentry : Reentry} {position : Position α} {ticks : List (Tick α)}
    {k : Nat} {tick : Tick α} (h : ticks[k]? = some tick) :
    position.after reentry (ticks.take (k + 1)) =
      (position.after reentry (ticks.take k)).next reentry tick := by
  rw [List.take_add_one, h, after_append]
  rfl

theorem trips_take_succ {reentry : Reentry} {position : Position α} {ticks : List (Tick α)}
    {k : Nat} {tick : Tick α} (h : ticks[k]? = some tick) :
    position.trips reentry (ticks.take (k + 1)) =
      position.trips reentry (ticks.take k) ++
        ((position.after reentry (ticks.take k)).completed tick).toList := by
  rw [List.take_add_one, h, trips_append]
  simp [trips]

theorem length_trips_le (reentry : Reentry) (position : Position α) (ticks : List (Tick α)) :
    (position.trips reentry ticks).length ≤ ticks.length := by
  induction ticks generalizing position with
  | nil => exact Nat.le_refl 0
  | cons tick ticks ih =>
    have hrest := ih (position.next reentry tick)
    have hone := Option.length_toList_le (o := position.completed tick)
    rw [trips, List.length_append, List.length_cons]
    omega

/-- All that a bar can do: it leaves a flat position flat or opens one, it lets an open position be,
or it completes it, and may open the next one at once. -/
theorem next_cases (reentry : Reentry) (position : Position α) (tick : Tick α) :
    (position = .flat ∧ position.completed tick = none ∧
      (position.next reentry tick = .flat ∨ position.next reentry tick = .long tick.1)) ∨
    (∃ entry, position = .long entry ∧ position.completed tick = none ∧
      position.next reentry tick = .long entry) ∨
    (∃ entry, position = .long entry ∧ position.completed tick = some ⟨entry, tick.1⟩ ∧
      (position.next reentry tick = .flat ∨ position.next reentry tick = .long tick.1)) := by
  obtain ⟨here, enter, exit⟩ := tick
  cases position with
  | flat => cases enter <;> simp [next, completed]
  | long entry =>
    cases exit with
    | false => exact Or.inr (Or.inl ⟨entry, rfl, rfl, rfl⟩)
    | true =>
      refine Or.inr (Or.inr ⟨entry, rfl, rfl, ?_⟩)
      by_cases hopen : enter && reentry = .sameBar
      · exact Or.inr (by simp [next, hopen])
      · exact Or.inl (by simp [next, hopen])

/-- Where no bar asks to enter, nothing is ever opened. -/
theorem flat_of_silent (reentry : Reentry) {ticks : List (Tick α)}
    (h : ∀ tick ∈ ticks, tick.2.1 = false) :
    flat.after reentry ticks = flat ∧ flat.trips reentry ticks = [] := by
  induction ticks with
  | nil => exact ⟨rfl, rfl⟩
  | cons tick ticks ih =>
    have hnext : flat.next reentry tick = flat := by
      have hfalse := h tick List.mem_cons_self
      simp [next, hfalse]
    have hh := ih (fun other hm => h other (List.mem_cons_of_mem _ hm))
    simpa [after, trips, hnext, completed] using hh

theorem completed_eq_some {position : Position α} {tick : Tick α} {trip : RoundTrip α}
    (h : position.completed tick = some trip) :
    position.openedAt = some trip.entry ∧ trip.exit = tick.1 := by
  rcases next_cases .sameBar position tick with ⟨_, hc, _⟩ | ⟨_, _, hc, _⟩ | ⟨entry, rfl, hc, _⟩
  · simp [hc] at h
  · simp [hc] at h
  · obtain rfl : RoundTrip.mk entry tick.1 = trip := Option.some.inj (hc.symm.trans h)
    exact ⟨rfl, rfl⟩

theorem openedAt_next {reentry : Reentry} {position : Position α} {tick : Tick α} {entry : Mark α}
    (h : (position.next reentry tick).openedAt = some entry) :
    position.openedAt = some entry ∨ entry = tick.1 := by
  rcases next_cases reentry position tick with ⟨_, _, hn | hn⟩ | ⟨_, rfl, _, hn⟩ | ⟨_, _, _, hn | hn⟩ <;>
    rw [hn] at h
  · cases h
  · exact Or.inr (Option.some.inj h).symm
  · exact Or.inl h
  · cases h
  · exact Or.inr (Option.some.inj h).symm

theorem mem_trips_cons {reentry : Reentry} {position : Position α} {tick : Tick α}
    {ticks : List (Tick α)} {trip : RoundTrip α} :
    trip ∈ position.trips reentry (tick :: ticks) ↔
      position.completed tick = some trip ∨
        trip ∈ (position.next reentry tick).trips reentry ticks := by
  simp [trips]

theorem exit_mem_of_mem_trips {reentry : Reentry} {position : Position α} {ticks : List (Tick α)}
    {trip : RoundTrip α} (h : trip ∈ position.trips reentry ticks) :
    ∃ tick ∈ ticks, tick.1 = trip.exit := by
  induction ticks generalizing position with
  | nil => simp [trips] at h
  | cons tick ticks ih =>
    rcases mem_trips_cons.mp h with hh | hh
    · exact ⟨tick, List.mem_cons_self, (completed_eq_some hh).2.symm⟩
    · obtain ⟨t, ht, he⟩ := ih hh
      exact ⟨t, List.mem_cons_of_mem _ ht, he⟩

/-- Every mark that a position leaves behind is that of a bar, or of its own entry. -/
theorem marks_of_trips (P : Mark α → Prop) (reentry : Reentry) {position : Position α}
    {ticks : List (Tick α)} (hp : ∀ entry, position.openedAt = some entry → P entry)
    (ht : ∀ tick ∈ ticks, P tick.1) :
    (∀ trip ∈ position.trips reentry ticks, P trip.entry ∧ P trip.exit) ∧
      ∀ entry, (position.after reentry ticks).openedAt = some entry → P entry := by
  induction ticks generalizing position with
  | nil => exact ⟨by simp [trips], hp⟩
  | cons tick ticks ih =>
    have hhere := ht tick List.mem_cons_self
    have hnext : ∀ entry, (position.next reentry tick).openedAt = some entry → P entry := by
      intro entry he
      rcases openedAt_next he with hh | rfl
      · exact hp entry hh
      · exact hhere
    obtain ⟨htrips, hlast⟩ := ih hnext (fun t hm => ht t (List.mem_cons_of_mem _ hm))
    refine ⟨fun trip hm => ?_, hlast⟩
    rcases mem_trips_cons.mp hm with hh | hh
    · obtain ⟨hentry, hexit⟩ := completed_eq_some hh
      exact ⟨hp _ hentry, hexit ▸ hhere⟩
    · exact htrips trip hh

theorem trips_take {reentry : Reentry} {position : Position α} {ticks : List (Tick α)}
    (hn : Numbered ticks) (k : Nat) :
    position.trips reentry (ticks.take k) =
      (position.trips reentry ticks).filter (fun trip => trip.exit.index < k) := by
  have hbefore : ∀ trip ∈ position.trips reentry (ticks.take k), trip.exit.index < k := by
    intro trip ht
    obtain ⟨tick, hm, he⟩ := exit_mem_of_mem_trips ht
    obtain ⟨i, hi, hg⟩ := List.mem_take_iff_getElem.mp hm
    have hh := hn i tick (by rw [← hg]; exact List.getElem?_eq_getElem _)
    rw [← he, hh]
    omega
  have hafter : ∀ trip ∈ (position.after reentry (ticks.take k)).trips reentry (ticks.drop k),
      ¬ trip.exit.index < k := by
    intro trip ht
    obtain ⟨tick, hm, he⟩ := exit_mem_of_mem_trips ht
    obtain ⟨i, hg⟩ := List.mem_iff_getElem?.mp hm
    have hh := hn (k + i) tick (by rw [← hg, List.getElem?_drop])
    rw [← he, hh]
    omega
  conv => rhs; rw [← List.take_append_drop k ticks]
  rw [trips_append, List.filter_append, List.filter_eq_self.mpr (by simpa using hbefore),
    List.filter_eq_nil_iff.mpr (by simpa using hafter), List.append_nil]

end Position

variable [Scalar α]

def RoundTrip.trade (trip : RoundTrip α) : Trade α := Trade.between trip.entry trip.exit

namespace Machine

theorem step_eq (m : Machine α) (tick : Tick α) :
    m.step tick.1 tick.2.1 tick.2.2 =
      ({ reentry := m.reentry
         position := m.position.next m.reentry tick
         trades := m.trades ++ ((m.position.completed tick).map RoundTrip.trade).toList },
        (m.position.completed tick).map RoundTrip.trade) := by
  obtain ⟨reentry, position, trades⟩ := m
  obtain ⟨here, enter, exit⟩ := tick
  cases position with
  | flat => cases enter <;> cases exit <;>
      simp [step, close, Machine.enter, Position.next, Position.completed]
  | long entry => cases enter <;> cases exit <;> cases reentry <;>
      simp [step, close, Machine.enter, Position.next, Position.completed, RoundTrip.trade]

theorem walk_fst (m : Machine α) (ticks : List (Tick α)) :
    (m.walk ticks).1 =
      { reentry := m.reentry
        position := m.position.after m.reentry ticks
        trades := m.trades ++ (m.position.trips m.reentry ticks).map RoundTrip.trade } := by
  induction ticks generalizing m with
  | nil => simp [walk, Position.after, Position.trips]
  | cons tick ticks ih =>
    have hs := step_eq m tick
    obtain ⟨here, enter, exit⟩ := tick
    simp only [walk, ih, hs, Position.after, Position.trips, List.foldl_cons, List.map_append,
      List.append_assoc]
    cases m.position.completed (here, enter, exit) <;> rfl

theorem causal_exposure (m : Machine α) : Causal (fun ticks => (m.walk ticks).2) where
  length_eq ticks := by
    induction ticks generalizing m with
    | nil => rfl
    | cons tick ticks ih => simp [walk, ih]
  take_eq k ticks := by
    induction ticks generalizing m k with
    | nil => simp [walk]
    | cons tick ticks ih =>
      cases k with
      | zero => simp [walk]
      | succ k => simp [walk, ih]

theorem getElem?_walk_snd (m : Machine α) {ticks : List (Tick α)} {i : Nat}
    (h : i < ticks.length) :
    (m.walk ticks).2[i]? = some (m.position.after m.reentry (ticks.take i)).isLong := by
  induction ticks generalizing m i with
  | nil => simp at h
  | cons tick ticks ih =>
    have hs := step_eq m tick
    obtain ⟨here, enter, exit⟩ := tick
    cases i with
    | zero => rfl
    | succ i =>
      have hh := ih (m.step here enter exit).1 (Nat.lt_of_succ_lt_succ h)
      simpa only [walk, List.getElem?_cons_succ, hs, List.take_succ_cons, Position.after,
        List.foldl_cons] using hh

end Machine

namespace EndOfSeries

/-- The round trip that the end of a series completes. -/
def sold : EndOfSeries → Position α → Option (Mark α) → Option (RoundTrip α)
  | .liquidate, .long entry, some last =>
    if entry.index = last.index then none else some ⟨entry, last⟩
  | _, _, _ => none

/-- The entry of a position that outlives the series. -/
def kept : EndOfSeries → Position α → Option (Mark α)
  | .markToMarket, position => position.openedAt
  | .liquidate, _ => none

theorem settle_trades (policy : EndOfSeries) (m : Machine α) (last : Option (Mark α)) :
    (policy.settle m last).1.trades =
      m.trades ++ ((policy.sold m.position last).map RoundTrip.trade).toList := by
  obtain ⟨reentry, position, trades⟩ := m
  cases last with
  | none => cases policy <;> cases position <;> simp [settle, sold]
  | some last =>
    cases policy with
    | markToMarket => simp [settle, sold]
    | liquidate =>
      cases position with
      | flat => simp [settle, sold, Machine.liquidate]
      | long entry =>
        by_cases he : entry.index = last.index
        · simp [settle, sold, Machine.liquidate, he]
        · simp [settle, sold, Machine.liquidate, Machine.close, he, RoundTrip.trade]

theorem settle_openPosition (policy : EndOfSeries) (m : Machine α) (last : Option (Mark α)) :
    (policy.settle m last).2 =
      (policy.kept m.position).bind (fun entry => last.map (OpenPosition.valued entry)) := by
  obtain ⟨reentry, position, trades⟩ := m
  cases last with
  | none => simp [settle]
  | some last =>
    cases policy <;> cases position <;>
      simp [settle, kept, Position.openedAt, Machine.openPosition]

end EndOfSeries

end Backtest
