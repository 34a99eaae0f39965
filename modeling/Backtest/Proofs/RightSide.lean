import Backtest.Proofs.Crossings
import Backtest.Proofs.ExactArithmetic
import Backtest.Proofs.RunHistory

/-!
The side of a cross on which a position sits. A strategy that enters on a cross and leaves on the
opposite one is long on one side of the lines and flat on the other, and where the lines touch it
may be either.
-/

namespace Backtest

def Polarity.opposite : Polarity → Polarity
  | .above => .below
  | .below => .above

/-- The lines touch, or lie as a cross in this direction leaves them. -/
def Polarity.OnSide : Polarity → ℚ → ℚ → Prop
  | .above, left, right => right ≤ left
  | .below, left, right => left ≤ right

theorem Polarity.onSide_of_not_opposite {direction : Polarity} {left right : ℚ}
    (h : ¬ direction.opposite.OnSide left right) : direction.OnSide left right := by
  cases direction <;> exact le_of_not_ge h

theorem passes_iff (direction : Polarity) (left right left' right' : ℚ) :
    passes direction (some left, some right) (some left', some right') = true ↔
      direction.opposite.OnSide left right ∧ ¬ direction.opposite.OnSide left' right' := by
  cases direction <;> simp [passes, Polarity.opposite, Polarity.OnSide, Scalar.le, Scalar.lt_rat]

/-- A bar does not enter and leave at once, so the position goes by one of the two alone. -/
theorem Position.isLong_next {α : Type} (reentry : Reentry) (position : Position α) {tick : Tick α}
    (h : tick.2.1 = true → tick.2.2 = false) :
    (position.next reentry tick).isLong = if position.isLong then !tick.2.2 else tick.2.1 := by
  obtain ⟨here, enter, exit⟩ := tick
  cases position with
  | flat => cases enter <;> rfl
  | long entry => cases enter <;> cases exit <;> simp_all [next, isLong]

/-- The two lines of a pattern that cross each other. -/
inductive Pattern.Lines {α : Type} [Scalar α] (prices : List α) :
    Pattern α → Line α → Line α → Prop
  | maCross (fast slow : Nat) (average : MovingAverage) :
      Lines prices (.maCross fast slow average) (average.line fast prices) (average.line slow prices)
  | macdCross (fast slow signal : Nat) :
      Lines prices (.macdCross fast slow signal) (Indicator.macdLines fast slow signal prices).line
        (Indicator.macdLines fast slow signal prices).signal

namespace Pattern.Lines

variable {α : Type} [Scalar α] {prices : List α} {pattern : Pattern α} {left right : Line α}

theorem tracks_eq (h : pattern.Lines prices left right) :
    pattern.tracks prices = ⟨left, right, right⟩ := by
  cases h <;> rfl

theorem length_eq (h : pattern.Lines prices left right) :
    left.length = prices.length ∧ right.length = prices.length := by
  have hl := pattern.causal_tracks.1.length_eq prices
  have hr := pattern.causal_tracks.2.1.length_eq prices
  rw [h.tracks_eq] at hl hr
  exact ⟨hl, hr⟩

theorem definedFrom (h : pattern.Lines prices left right) :
    (∃ first, left.DefinedFrom first) ∧ ∃ first, right.DefinedFrom first := by
  cases h with
  | maCross fast slow average =>
    exact ⟨average.definedFrom_line fast prices, average.definedFrom_line slow prices⟩
  | macdCross fast slow signal => exact Indicator.exists_definedFrom_macdLines fast slow signal prices

theorem later (h : pattern.Lines prices left right) {i j : Nat} {l r : α}
    (hl : left.at? i = some l) (hr : right.at? i = some r) (hij : i ≤ j) (hj : j < prices.length) :
    ∃ l' r', left.at? j = some l' ∧ right.at? j = some r' := by
  obtain ⟨⟨_, hleft⟩, _, hright⟩ := h.definedFrom
  obtain ⟨hllen, hrlen⟩ := h.length_eq
  obtain ⟨l', hl'⟩ := hleft.later hl hij (by omega)
  obtain ⟨r', hr'⟩ := hright.later hr hij (by omega)
  exact ⟨l', r', hl', hr'⟩

end Pattern.Lines

theorem not_passes_both {direction : Polarity} {before now : Sides ℚ}
    (h : passes direction before now = true) : passes direction.opposite before now = false := by
  obtain ⟨⟨l, r, rfl⟩, l', r', rfl⟩ := passes_eq_true h
  have hnow := ((passes_iff direction l r l' r').mp h).2
  cases hboth : passes direction.opposite (some l, some r) (some l', some r') with
  | false => rfl
  | true =>
    have hnow' := ((passes_iff direction.opposite l r l' r').mp hboth).2
    exact absurd (Polarity.onSide_of_not_opposite hnow') hnow

section Invariant

variable {strategy : Strategy ℚ} (reentry : Reentry) {bars : List (Bar ℚ)} {pattern : Pattern ℚ}
  {direction : Polarity} {left right : Line ℚ} (hlines : pattern.Lines (closes bars) left right)
  (hrules : strategy.rules = [⟨pattern, direction, direction.opposite⟩])

include hlines hrules

theorem signals_of_lines :
    strategy.signals (closes bars) =
      ⟨crossings direction left right, crossings direction.opposite left right⟩ := by
  unfold Strategy.signals
  simp only [hrules, List.map_cons, List.map_nil, List.foldl_nil, Rule.signals, hlines.tracks_eq]

theorem flat_machineAfter_one (h : 0 < bars.length) :
    (strategy.machineAfter reentry bars 1).isLong = false := by
  obtain ⟨tick, htick⟩ := strategy.exists_tick bars h
  have hflags := (strategy.getElem?_ticks bars |>.mp htick).2
  rw [signals_of_lines hlines hrules] at hflags
  have henter : tick.2.1 = false := getElem?_crossings_zero hflags.1
  rw [Strategy.machineAfter_eq, Machine.isLong, Position.after_take_succ htick,
    Position.isLong_next _ _ (fun he => by simp [henter] at he), henter]
  rfl

theorem isLong_machineAfter_succ {i : Nat} (hi : i + 1 < bars.length) :
    (strategy.machineAfter reentry bars (i + 2)).isLong =
      if (strategy.machineAfter reentry bars (i + 1)).isLong then
        !passes direction.opposite (Line.sides left right i) (Line.sides left right (i + 1))
      else passes direction (Line.sides left right i) (Line.sides left right (i + 1)) := by
  obtain ⟨tick, htick⟩ := strategy.exists_tick bars hi
  have hflags := (strategy.getElem?_ticks bars |>.mp htick).2
  have hcloses : (closes bars).length = bars.length := List.length_map _
  obtain ⟨hl, hr⟩ := hlines.length_eq
  rw [signals_of_lines hlines hrules,
    getElem?_crossings_succ direction (by omega) (by omega),
    getElem?_crossings_succ direction.opposite (by omega) (by omega)] at hflags
  obtain ⟨henter, hexit⟩ := hflags
  rw [Option.some_inj] at henter hexit
  have hone : tick.2.1 = true → tick.2.2 = false := by
    rw [← henter, ← hexit]
    exact not_passes_both
  rw [Strategy.machineAfter_eq, Strategy.machineAfter_eq, Machine.isLong, Machine.isLong,
    Position.after_take_succ htick, Position.isLong_next _ _ hone, henter, hexit]

theorem onSide_of_long {i : Nat} (hi : i < bars.length)
    (hlong : (strategy.machineAfter reentry bars (i + 1)).isLong = true) :
    ∃ l r, left.at? i = some l ∧ right.at? i = some r ∧ direction.OnSide l r := by
  induction i with
  | zero => simp [flat_machineAfter_one reentry hlines hrules hi] at hlong
  | succ i ih =>
    have hstep := isLong_machineAfter_succ reentry hlines hrules hi
    rw [hlong] at hstep
    cases hbefore : (strategy.machineAfter reentry bars (i + 1)).isLong with
    | true =>
      obtain ⟨l, r, hl, hr, hside⟩ := ih (by omega) hbefore
      have hcloses : (closes bars).length = bars.length := List.length_map _
      obtain ⟨l', r', hl', hr'⟩ := hlines.later hl hr (Nat.le_succ i) (by omega)
      refine ⟨l', r', hl', hr', ?_⟩
      by_contra hleft
      have hexit : passes direction.opposite (some l, some r) (some l', some r') = true := by
        refine (passes_iff direction.opposite l r l' r').mpr ?_
        cases direction <;> exact ⟨hside, hleft⟩
      simp [hbefore, Line.sides, hl, hr, hl', hr', hexit] at hstep
    | false =>
      rw [hbefore] at hstep
      have henter := hstep.symm
      simp only [Bool.false_eq_true, if_false] at henter
      obtain ⟨⟨l, r, hsides⟩, l', r', hsides'⟩ := passes_eq_true henter
      rw [hsides, hsides'] at henter
      have hnow := ((passes_iff direction l r l' r').mp henter).2
      exact ⟨l', r', congrArg Prod.fst hsides', congrArg Prod.snd hsides',
        Polarity.onSide_of_not_opposite hnow⟩

/-- Once the lines have been where no entry is due, being flat means that none is due still. -/
theorem onSide_of_flat {j i : Nat} {l₀ r₀ : ℚ} (hl₀ : left.at? j = some l₀)
    (hr₀ : right.at? j = some r₀) (hside : direction.opposite.OnSide l₀ r₀) (hji : j ≤ i)
    (hi : i < bars.length)
    (hflat : (strategy.machineAfter reentry bars (i + 1)).isLong = false) :
    ∃ l r, left.at? i = some l ∧ right.at? i = some r ∧ direction.opposite.OnSide l r := by
  induction i, hji using Nat.le_induction with
  | base => exact ⟨l₀, r₀, hl₀, hr₀, hside⟩
  | succ i hji ih =>
    have hstep := isLong_machineAfter_succ reentry hlines hrules hi
    have hcloses : (closes bars).length = bars.length := List.length_map _
    obtain ⟨l', r', hl', hr'⟩ := hlines.later hl₀ hr₀ (Nat.le_succ_of_le hji) (by omega)
    refine ⟨l', r', hl', hr', ?_⟩
    rw [hflat] at hstep
    cases hbefore : (strategy.machineAfter reentry bars (i + 1)).isLong with
    | true =>
      rw [hbefore] at hstep
      have hexit : passes direction.opposite (Line.sides left right i)
          (Line.sides left right (i + 1)) = true := by simpa using hstep.symm
      obtain ⟨⟨l, r, hsides⟩, _⟩ := passes_eq_true hexit
      rw [hsides, Line.sides, hl', hr'] at hexit
      have hnow := ((passes_iff direction.opposite l r l' r').mp hexit).2
      exact Polarity.onSide_of_not_opposite hnow
    | false =>
      obtain ⟨l, r, hl, hr, hwaits⟩ := ih (by omega) hbefore
      by_contra hleft
      have henter := (passes_iff direction l r l' r').mpr ⟨hwaits, hleft⟩
      simp [hbefore, Line.sides, hl, hr, hl', hr', henter] at hstep

end Invariant

/-- In exact arithmetic, a strategy of one rule that enters on a cross of two lines and leaves on the
opposite cross is long only on the side on which it enters, and flat only on the other one as soon
as the lines have been there. -/
theorem run_stays_on_right_side (strategy : Strategy ℚ) (options : Options ℚ) (bars : List (Bar ℚ))
    {pattern : Pattern ℚ} {left right : Line ℚ} (hlines : pattern.Lines (closes bars) left right) :
    let isLongAfter (i : Nat) := (strategy.machineAfter options.reentry bars (i + 1)).isLong
    (∀ i, ∀ point ∈ (run strategy bars options).equity[i + 1]?, point.inPosition = isLongAfter i) ∧
    ∀ i l r, left.at? i = some l → right.at? i = some r →
      (strategy.rules = [⟨pattern, .above, .below⟩] →
        (isLongAfter i = true → l ≥ r) ∧
        ∀ j ≤ i, ∀ l₀ r₀, left.at? j = some l₀ → right.at? j = some r₀ → l₀ ≤ r₀ →
          isLongAfter i = false → l ≤ r) ∧
      (strategy.rules = [⟨pattern, .below, .above⟩] →
        (isLongAfter i = true → l ≤ r) ∧
        ∀ j ≤ i, ∀ l₀ r₀, left.at? j = some l₀ → right.at? j = some r₀ → l₀ ≥ r₀ →
          isLongAfter i = false → l ≥ r) := by
  intro isLongAfter
  refine ⟨fun i point hpoint => ?_, fun i l r hl hr => ?_⟩
  · have hlen := (causal_run_equity strategy options).length_eq bars
    have hlt := (List.getElem?_eq_some_iff.mp hpoint).1
    have hflags := congrArg (·[i + 1]?) (run_inPosition strategy options bars)
    rw [strategy.getElem?_exposure options.reentry bars (by omega), List.getElem?_map, hpoint]
      at hflags
    exact Option.some.inj hflags
  · have hi : i < bars.length := by
      obtain ⟨⟨first, hfirst⟩, _⟩ := hlines.definedFrom
      have hlt := hfirst.lt_length hl
      rw [hlines.length_eq.1] at hlt
      simpa [closes] using hlt
    have hsides : ∀ direction : Polarity,
        strategy.rules = [⟨pattern, direction, direction.opposite⟩] →
        (isLongAfter i = true → direction.OnSide l r) ∧
        ∀ j ≤ i, ∀ l₀ r₀, left.at? j = some l₀ → right.at? j = some r₀ →
          direction.opposite.OnSide l₀ r₀ → isLongAfter i = false →
            direction.opposite.OnSide l r := by
      intro direction hrules
      refine ⟨fun hlong => ?_, fun j hji l₀ r₀ hl₀ hr₀ hside hflat => ?_⟩
      · obtain ⟨l', r', hl', hr', hh⟩ := onSide_of_long options.reentry hlines hrules hi hlong
        obtain rfl := Option.some.inj (hl.symm.trans hl')
        obtain rfl := Option.some.inj (hr.symm.trans hr')
        exact hh
      · obtain ⟨l', r', hl', hr', hh⟩ :=
          onSide_of_flat options.reentry hlines hrules hl₀ hr₀ hside hji hi hflat
        obtain rfl := Option.some.inj (hl.symm.trans hl')
        obtain rfl := Option.some.inj (hr.symm.trans hr')
        exact hh
    exact ⟨hsides .above, hsides .below⟩

/-- The lines touch on the fourth bar and again on the sixth. -/
theorem run_stays_on_right_side_touching :
    let bars : List (Bar ℚ) := dailyBars [10, 9, 8, 8, 12, 12, 7]
    let left := Indicator.smaLine 1 (closes bars)
    let right := Indicator.smaLine 2 (closes bars)
    let isLongAfter (i : Nat) := (followTurns.machineAfter .sameBar bars (i + 1)).isLong
    (Pattern.maCross 1 2 .sma).Lines (closes bars) left right ∧
    (left.at? 3 = some 8 ∧ right.at? 3 = some 8) ∧
    (left.at? 5 = some 12 ∧ right.at? 5 = some 12 ∧ isLongAfter 5 = true ∧ (12 : ℚ) ≥ 12) ∧
    left.at? 6 = some 7 ∧ right.at? 6 = some (19 / 2) ∧ isLongAfter 6 = false ∧ (7 : ℚ) ≤ 19 / 2 := by
  intro bars left right isLongAfter
  have hlines : (Pattern.maCross 1 2 .sma).Lines (closes bars) left right := .maCross 1 2 .sma
  have hl₃ : left.at? 3 = some 8 := by decide +kernel
  have hr₃ : right.at? 3 = some 8 := by decide +kernel
  have hl₅ : left.at? 5 = some 12 := by decide +kernel
  have hr₅ : right.at? 5 = some 12 := by decide +kernel
  have hl₆ : left.at? 6 = some 7 := by decide +kernel
  have hr₆ : right.at? 6 = some (19 / 2) := by decide +kernel
  have hlong : isLongAfter 5 = true := by decide +kernel
  have hflat : isLongAfter 6 = false := by decide +kernel
  have hsides := (run_stays_on_right_side followTurns .standard bars hlines).2
  have hheld := ((hsides 5 12 12 hl₅ hr₅).1 rfl).1 hlong
  have hwaits := ((hsides 6 7 (19 / 2) hl₆ hr₆).1 rfl).2 3 (by decide) 8 8 hl₃ hr₃ le_rfl hflat
  exact ⟨hlines, ⟨hl₃, hr₃⟩, ⟨hl₅, hr₅, hlong, hheld⟩, hl₆, hr₆, hflat, hwaits⟩

end Backtest
