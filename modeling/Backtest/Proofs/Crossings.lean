import Backtest.Proofs.Definedness

/-!
Crossings bar by bar. A bar fires only if both lines are defined on it and on the bar before it,
so the first bars of a rule stay silent up to its warm-up.
-/

namespace Backtest

variable {α : Type}

def Line.sides (left right : Line α) (i : Nat) : Sides α := (left.at? i, right.at? i)

theorem Line.getElem?_zip {left right : Line α} {i : Nat} (hl : i < left.length)
    (hr : i < right.length) : (left.zip right)[i]? = some (Line.sides left right i) := by
  rw [List.getElem?_eq_getElem (by rw [List.length_zip]; omega), List.getElem_zip]
  simp [Line.sides, Line.at?, hl, hr]

variable [Scalar α]

theorem length_crossings (direction : Polarity) (left right : Line α) :
    (crossings direction left right).length = min left.length right.length := by
  have hzip : (left.zip right).length = min left.length right.length := List.length_zip
  unfold crossings
  cases hz : left.zip right with
  | nil => simpa [hz] using hzip
  | cons sides rest =>
    rw [hz, List.length_cons] at hzip
    rw [← hzip, List.length_cons, List.length_zipWith, List.length_cons]
    omega

theorem getElem?_crossings_zero {direction : Polarity} {left right : Line α} {fires : Bool}
    (h : (crossings direction left right)[0]? = some fires) : fires = false := by
  unfold crossings at h
  split at h
  · cases h
  · exact (Option.some.inj h).symm

theorem getElem?_crossings_succ (direction : Polarity) {left right : Line α} {i : Nat}
    (hl : i + 1 < left.length) (hr : i + 1 < right.length) :
    (crossings direction left right)[i + 1]? =
      some (passes direction (Line.sides left right i) (Line.sides left right (i + 1))) := by
  have hbefore := Line.getElem?_zip (Nat.lt_of_succ_lt hl) (Nat.lt_of_succ_lt hr)
  have hnow := Line.getElem?_zip hl hr
  unfold crossings
  cases hz : left.zip right with
  | nil => simp [hz] at hnow
  | cons sides rest =>
    rw [hz] at hbefore hnow
    rw [List.getElem?_cons_succ] at hnow ⊢
    rw [List.getElem?_zipWith, hbefore, hnow]

theorem passes_eq_true {direction : Polarity} {before now : Sides α}
    (h : passes direction before now = true) :
    (∃ l r, before = (some l, some r)) ∧ ∃ l r, now = (some l, some r) := by
  unfold passes at h
  split at h
  · exact ⟨⟨_, _, rfl⟩, _, _, rfl⟩
  · cases h

/-- A bar that fires has a bar before it, and both lines are defined on the two. -/
theorem passes_of_crossings {direction : Polarity} {left right : Line α} {i : Nat}
    (h : (crossings direction left right)[i]? = some true) :
    ∃ j l r l' r', i = j + 1 ∧ left.at? j = some l ∧ right.at? j = some r ∧
      left.at? (j + 1) = some l' ∧ right.at? (j + 1) = some r' ∧
      passes direction (some l, some r) (some l', some r') = true := by
  cases i with
  | zero => exact absurd (getElem?_crossings_zero h) (by decide)
  | succ j =>
    have hlen := (List.getElem?_eq_some_iff.mp h).1
    rw [length_crossings] at hlen
    rw [getElem?_crossings_succ direction (by omega) (by omega)] at h
    have hpasses := Option.some.inj h
    obtain ⟨⟨l, r, hbefore⟩, l', r', hnow⟩ := passes_eq_true hpasses
    rw [hbefore, hnow] at hpasses
    exact ⟨j, l, r, l', r', rfl, congrArg Prod.fst hbefore, congrArg Prod.snd hbefore,
      congrArg Prod.fst hnow, congrArg Prod.snd hnow, hpasses⟩

theorem defined_of_crossings {direction : Polarity} {left right : Line α} {i : Nat}
    (h : (crossings direction left right)[i]? = some true) :
    ∃ j l r, i = j + 1 ∧ left.at? j = some l ∧ right.at? j = some r := by
  obtain ⟨j, l, r, _, _, hj, hl, hr, _⟩ := passes_of_crossings h
  exact ⟨j, l, r, hj, hl, hr⟩

/-- Where the line of a pattern and what it is held against are both defined, no period of the
pattern is zero and all of its indicators are warmed up. -/
theorem Pattern.ready_of_defined {pattern : Pattern α} {prices : List α} {i : Nat} {x y : α}
    (hx : (pattern.tracks prices).line.at? i = some x)
    (hy : (pattern.tracks prices).enterLine.at? i = some y ∨
      (pattern.tracks prices).exitLine.at? i = some y) :
    ∀ indicator ∈ pattern.indicators, 0 ∉ indicator.periods ∧ indicator.warmup ≤ i := by
  have hready : ∀ {indicator : Indicator} {line : Line α} {value : α},
      line ∈ indicator.lines prices → line.at? i = some value →
      0 ∉ indicator.periods ∧ indicator.warmup ≤ i := by
    intro indicator line value hmem hvalue
    obtain ⟨hperiods, hwarm, _⟩ := (Indicator.defined_iff hmem i).mp ⟨value, hvalue⟩
    exact ⟨hperiods, hwarm⟩
  cases pattern with
  | maCross fast slow average =>
    have hfast := hready (average.line_mem_lines fast prices) hx
    have hslow := hready (average.line_mem_lines slow prices) (hy.elim id id)
    simpa [indicators] using ⟨hfast, hslow⟩
  | rsiThreshold period low high =>
    have hmem : Indicator.rsiLine period prices ∈ (Indicator.rsi period).lines prices :=
      List.mem_singleton_self _
    simpa [indicators] using hready hmem hx
  | macdCross fast slow signal =>
    have hmem : (Indicator.macdLines fast slow signal prices).signal ∈
        (Indicator.macd fast slow signal).lines prices := List.mem_cons_self
    simpa [indicators] using hready hmem (hy.elim id id)

namespace Rule

/-- The warm-up of a rule with no bound on the count. -/
def fullWarmup {α : Type} (rule : Rule α) : Nat :=
  (rule.indicators.map Indicator.warmup).foldl max 0 + 1

def periods {α : Type} (rule : Rule α) : List Nat :=
  rule.indicators.flatMap Indicator.periods

omit [Scalar α] in
theorem warmup_le_fullWarmup (rule : Rule α) : rule.warmup ≤ rule.fullWarmup :=
  Nat.mod_le _ _

theorem ready_of_fires {rule : Rule α} {prices : List α} {i : Nat}
    (h : (rule.signals prices).enter[i]? = some true ∨ (rule.signals prices).exit[i]? = some true) :
    rule.fullWarmup ≤ i ∧ 0 ∉ rule.periods := by
  obtain ⟨j, hj, hready⟩ : ∃ j, i = j + 1 ∧
      ∀ indicator ∈ rule.indicators, 0 ∉ indicator.periods ∧ indicator.warmup ≤ j := by
    rcases h with h | h
    · obtain ⟨j, l, r, hj, hl, hr⟩ := defined_of_crossings h
      exact ⟨j, hj, Pattern.ready_of_defined hl (Or.inl hr)⟩
    · obtain ⟨j, l, r, hj, hl, hr⟩ := defined_of_crossings h
      exact ⟨j, hj, Pattern.ready_of_defined hl (Or.inr hr)⟩
  constructor
  · have hlongest : (rule.indicators.map Indicator.warmup).foldl max 0 ≤ j := by
      refine List.foldlRecOn (motive := (· ≤ j)) _ max (Nat.zero_le j) fun longest hle warmup hm => ?_
      obtain ⟨indicator, hi, rfl⟩ := List.mem_map.mp hm
      exact Nat.max_le.mpr ⟨hle, (hready indicator hi).2⟩
    exact hj ▸ Nat.succ_le_succ hlongest
  · intro hzero
    obtain ⟨indicator, hi, hmem⟩ := List.mem_flatMap.mp hzero
    exact (hready indicator hi).1 hmem

/-- A rule never fires inside its warm-up, and not at all with a period of zero. -/
theorem silent_of_early {rule : Rule α} {i : Nat} (h : i < rule.fullWarmup ∨ 0 ∈ rule.periods)
    (prices : List α) :
    (rule.signals prices).enter.getD i false = false ∧
    (rule.signals prices).exit.getD i false = false := by
  have hquiet : ∀ flags : List Bool,
      (flags[i]? = some true → rule.fullWarmup ≤ i ∧ 0 ∉ rule.periods) →
      flags.getD i false = false := by
    intro flags hfires
    cases hf : flags[i]? with
    | none => simp [hf]
    | some fires =>
      cases fires with
      | false => simp [hf]
      | true =>
        obtain ⟨hwarm, hperiods⟩ := hfires hf
        exact absurd h (by simp [hperiods]; omega)
  exact ⟨hquiet _ fun hf => ready_of_fires (Or.inl hf),
    hquiet _ fun hf => ready_of_fires (Or.inr hf)⟩

end Rule

end Backtest
