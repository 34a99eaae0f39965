import Backtest.Proofs.ExactAverages
import Backtest.Proofs.ExactStrength
import Backtest.Proofs.RightSide

/-!
Signals do not depend on the unit of prices or on where their zero lies. Turned upside down, prices
give the same signals to the mirrored strategy: every cross is looked for in the other direction, and
strength is measured from the other end of its scale.
-/

namespace Backtest

/-- Another unit and another zero for prices. A negative factor turns rises into falls. -/
structure Scale where
  factor : ℚ
  shift : ℚ
  factor_ne_zero : factor ≠ 0

namespace Scale

def apply (s : Scale) (x : ℚ) : ℚ := s.factor * x + s.shift

def ofDifferences (s : Scale) : Scale := ⟨s.factor, 0, s.factor_ne_zero⟩

/-- The scale of relative strength, which runs from 0 to 100 either way. -/
def ofStrength (s : Scale) : Scale :=
  if 0 < s.factor then ⟨1, 0, one_ne_zero⟩ else ⟨-1, 100, neg_ne_zero.mpr one_ne_zero⟩

/-- What stands for a value on the new scale: its mirror image where up and down change places. -/
def turn {β : Type} (s : Scale) (mirror : β → β) (x : β) : β :=
  if 0 < s.factor then x else mirror x

theorem neg_of_not_pos {s : Scale} (h : ¬ 0 < s.factor) : s.factor < 0 :=
  lt_of_le_of_ne (not_lt.mp h) s.factor_ne_zero

theorem apply_sub (s : Scale) (x y : ℚ) : s.apply x - s.apply y = s.factor * (x - y) := by
  simp only [apply]
  ring

theorem apply_ofDifferences (s : Scale) (x : ℚ) : s.ofDifferences.apply x = s.factor * x := by
  simp [apply, ofDifferences]

theorem turn_mirror {β : Type} (s : Scale) (mirror : β → β) (x : β) :
    s.turn mirror (mirror x) = mirror (s.turn mirror x) := by
  by_cases h : 0 < s.factor <;> simp [turn, h]

theorem turn_of_fixed {β : Type} (s : Scale) {mirror : β → β} {x : β} (h : mirror x = x) :
    s.turn mirror x = x := by
  rw [turn, h, ite_self]

theorem turn_congr {β : Type} {s t : Scale} (h : 0 < s.factor ↔ 0 < t.factor) (mirror : β → β) :
    s.turn mirror = t.turn mirror := by
  funext x
  simp only [turn, h]

theorem onSide_apply (s : Scale) (direction : Polarity) (left right : ℚ) :
    (s.turn Polarity.opposite direction).OnSide (s.apply left) (s.apply right) ↔ direction.OnSide left right := by
  have hpos : 0 < s.factor → ∀ x y, s.apply x ≤ s.apply y ↔ x ≤ y := by
    intro h x y
    simp only [apply, add_le_add_iff_right]
    exact mul_le_mul_iff_right₀ h
  have hneg : s.factor < 0 → ∀ x y, s.apply x ≤ s.apply y ↔ y ≤ x := by
    intro h x y
    simp only [apply, add_le_add_iff_right]
    exact mul_le_mul_left_of_neg h
  by_cases h : 0 < s.factor
  · cases direction <;> simp [turn, h, Polarity.OnSide, hpos h]
  · cases direction <;>
      simp [turn, h, Polarity.OnSide, Polarity.opposite, hneg (neg_of_not_pos h)]

end Scale

def Line.scaled (s : Scale) (line : Line ℚ) : Line ℚ := line.map (Option.map s.apply)

def Tracks.scaled (s : Scale) (tracks : Tracks ℚ) : Tracks ℚ :=
  ⟨tracks.line.scaled s, tracks.enterLine.scaled s, tracks.exitLine.scaled s⟩

theorem passes_scaled (s : Scale) (direction : Polarity) (before now : Sides ℚ) :
    passes (s.turn Polarity.opposite direction) (before.map (Option.map s.apply) (Option.map s.apply))
        (now.map (Option.map s.apply) (Option.map s.apply)) =
      passes direction before now := by
  obtain ⟨l, r⟩ := before
  obtain ⟨l', r'⟩ := now
  cases l with
  | none => rfl
  | some l =>
    cases r with
    | none => rfl
    | some r =>
      cases l' with
      | none => rfl
      | some l' =>
        cases r' with
        | none => rfl
        | some r' =>
          rw [Bool.eq_iff_iff]
          simp only [Prod.map, Option.map_some, passes_iff, ← Scale.turn_mirror,
            Scale.onSide_apply]

theorem crossings_scaled (s : Scale) (direction : Polarity) (left right : Line ℚ) :
    crossings (s.turn Polarity.opposite direction) (left.scaled s) (right.scaled s) =
      crossings direction left right := by
  unfold crossings
  rw [Line.scaled, Line.scaled, List.zip_map]
  cases left.zip right with
  | nil => rfl
  | cons sides rest =>
    rw [List.map_cons]
    simp only [← List.map_cons, List.zipWith_map, passes_scaled]

namespace Line

theorem ext_at? {β : Type} {left right : Line β} (hlen : left.length = right.length)
    (h : ∀ i < left.length, left.at? i = right.at? i) : left = right := by
  refine List.ext_getElem hlen fun i hl hr => ?_
  simpa [at?, hl, hr] using h i hl

@[simp] theorem length_scaled (s : Scale) (line : Line ℚ) : (line.scaled s).length = line.length :=
  List.length_map _

theorem at?_scaled (s : Scale) (values : Line ℚ) (i : Nat) :
    (values.scaled s).at? i = (values.at? i).map s.apply := by
  simp only [at?, scaled, List.getElem?_map]
  cases values[i]? <;> rfl

/-- Lines that begin together are compared from there on. -/
theorem eq_scaled (s : Scale) {left right : Line ℚ} {first : Nat}
    (hlen : left.length = right.length) (hl : left.DefinedFrom first) (hr : right.DefinedFrom first)
    (h : ∀ i, first ≤ i → i < right.length → left.at? i = (right.at? i).map s.apply) :
    left = right.scaled s := by
  refine ext_at? (by simp [hlen]) fun i hi => ?_
  rw [at?_scaled]
  by_cases hwarm : first ≤ i
  · exact h i hwarm (hlen ▸ hi)
  · rw [hl.eq_none (Nat.lt_of_not_le hwarm), hr.eq_none (Nat.lt_of_not_le hwarm)]
    rfl

theorem scaled_after (s : Scale) (warmup : Nat) (values : List ℚ) :
    (after warmup values).scaled s = after warmup (values.map s.apply) := by
  induction values generalizing warmup with
  | nil => cases warmup <;> rfl
  | cons x xs ih =>
    cases warmup with
    | zero => simp [after, scaled, Function.comp_def]
    | succ warmup => simpa [after, scaled] using ih warmup

theorem scaled_undefined (s : Scale) (n : Nat) : (undefined n).scaled s = undefined n := by
  simp [scaled, undefined]

theorem scaled_constant (s : Scale) (n : Nat) (level : ℚ) :
    (constant n level).scaled s = constant n (s.apply level) := by
  simp [scaled, constant]

end Line

namespace Indicator

theorem sum_map_apply (s : Scale) (prices : List ℚ) :
    (prices.map s.apply).sum = s.factor * prices.sum + s.shift * prices.length := by
  induction prices with
  | nil => simp
  | cons price prices ih =>
    rw [List.map_cons, List.sum_cons, ih, List.sum_cons, List.length_cons, Nat.cast_succ, Scale.apply]
    ring

theorem smaLine_scaled (s : Scale) (period : Nat) (prices : List ℚ) :
    smaLine period (prices.map s.apply) = (smaLine period prices).scaled s := by
  have hsma : ∀ prices : List ℚ, (smaLine period prices).length = prices.length :=
    (causal_smaLine period).length_eq
  by_cases hp : period = 0
  · simp [smaLine, hp, Line.scaled_undefined]
  refine Line.eq_scaled s (by simp [hsma]) (definedFrom_smaLine hp _) (definedFrom_smaLine hp _)
    fun i hwarm hi => ?_
  rw [hsma] at hi
  have hfull : period ≤ i + 1 := Nat.le_add_of_sub_le hwarm
  have hnow : (prices.take (i + 1)).length = (i + 1 - period) + period := by
    rw [List.length_take]
    omega
  have hbefore : (prices.take (i + 1 - period)).length = i + 1 - period := by
    rw [List.length_take]
    omega
  have hperiod : (period : ℚ) ≠ 0 := Nat.cast_ne_zero.mpr hp
  rw [at?_smaLine_rat hp hfull hi, at?_smaLine_rat hp hfull (by simpa using hi), ← List.map_take,
    ← List.map_take, sum_map_apply, sum_map_apply, hnow, hbefore, Option.map_some, Scale.apply,
    Nat.cast_add]
  congr 1
  field_simp
  ring

theorem emaFrom_scaled (s : Scale) (weight average : ℚ) (prices : List ℚ) :
    emaFrom weight (s.apply average) (prices.map s.apply) =
      (emaFrom weight average prices).map s.apply := by
  induction prices generalizing average with
  | nil => rfl
  | cons price prices ih =>
    have hnext : s.apply price * weight + s.apply average * (Scalar.one - weight) =
        s.apply (price * weight + average * (Scalar.one - weight)) := by
      simp only [Scale.apply, Scalar.one_rat]
      ring
    simp only [List.map_cons, emaFrom, hnext, ih]

theorem emaValues_scaled (s : Scale) (period : Nat) (prices : List ℚ) :
    emaValues period (prices.map s.apply) = (emaValues period prices).map s.apply := by
  cases prices with
  | nil => rfl
  | cons price prices => simp [emaValues, emaFrom_scaled]

theorem emaLine_scaled (s : Scale) (period : Nat) (prices : List ℚ) :
    emaLine period (prices.map s.apply) = (emaLine period prices).scaled s := by
  by_cases hp : period = 0
  · simp [emaLine, hp, Line.scaled_undefined]
  · simp [emaLine, hp, emaValues_scaled, Line.scaled_after]

/-- The undefined start of the difference line counts as zero on either scale. -/
theorem macdLines_scaled (s : Scale) (fast slow signal : Nat) (prices : List ℚ) :
    (macdLines fast slow signal (prices.map s.apply)).line =
        (macdLines fast slow signal prices).line.scaled s.ofDifferences ∧
      (macdLines fast slow signal (prices.map s.apply)).signal =
        (macdLines fast slow signal prices).signal.scaled s.ofDifferences := by
  by_cases hp : fast = 0 ∨ slow = 0 ∨ signal = 0
  · simp [macdLines, hp, Line.scaled_undefined]
  have hdifference :
      List.zipWith (· - ·) (emaValues fast (prices.map s.apply)) (emaValues slow (prices.map s.apply))
        = (List.zipWith (· - ·) (emaValues fast prices) (emaValues slow prices)).map
          s.ofDifferences.apply := by
    rw [emaValues_scaled, emaValues_scaled, List.zipWith_map, List.map_zipWith]
    simp only [Scale.apply_sub, Scale.apply_ofDifferences]
  have hfed : ∀ line : Line ℚ, (line.scaled s.ofDifferences).map (·.getD Scalar.zero) =
      (line.map (·.getD Scalar.zero)).map s.ofDifferences.apply := by
    intro line
    rw [Line.scaled, List.map_map, List.map_map]
    refine List.map_congr_left fun value _ => ?_
    cases value <;> simp [Scalar.zero_rat, Scale.apply_ofDifferences]
  simp only [macdLines, if_neg hp, hdifference, Line.scaled_after, ← hfed, ← emaValues_scaled,
    and_self]

namespace Move

def scaled (s : Scale) (m : Move ℚ) : Move ℚ :=
  if 0 < s.factor then ⟨s.factor * m.gain, s.factor * m.loss⟩
  else ⟨-s.factor * m.loss, -s.factor * m.gain⟩

theorem ofChange_scaled (s : Scale) (change : ℚ) :
    ofChange (s.factor * change) = (ofChange change).scaled s := by
  rw [ofChange_rat, ofChange_rat]
  by_cases h : 0 < s.factor
  · simp [scaled, h, mul_max_of_nonneg _ _ h.le]
  · have hneg : 0 ≤ -s.factor := neg_nonneg.mpr (not_lt.mp h)
    simp only [scaled, h, if_false, mul_max_of_nonneg _ _ hneg, mul_zero, neg_mul, mul_neg,
      neg_neg]

theorem add_scaled (s : Scale) (a b : Move ℚ) :
    (a.scaled s).add (b.scaled s) = (a.add b).scaled s := by
  by_cases h : 0 < s.factor <;> simp [scaled, h, add] <;> constructor <;> ring

theorem divide_scaled (s : Scale) (a : Move ℚ) (count : ℚ) :
    (a.scaled s).divide count = (a.divide count).scaled s := by
  by_cases h : 0 < s.factor <;> simp [scaled, h, divide] <;> constructor <;> ring

theorem smooth_scaled (s : Scale) (count : ℚ) (average move : Move ℚ) :
    (average.scaled s).smooth count (move.scaled s) = (average.smooth count move).scaled s := by
  by_cases h : 0 < s.factor <;> simp [scaled, h, smooth] <;> constructor <;> ring

theorem Nonnegative.scaled {m : Move ℚ} (h : m.Nonnegative) (s : Scale) :
    (m.scaled s).Nonnegative := by
  by_cases hs : 0 < s.factor
  · simp only [Move.scaled, hs, if_true]
    exact ⟨mul_nonneg hs.le h.1, mul_nonneg hs.le h.2⟩
  · have hneg : 0 ≤ -s.factor := neg_nonneg.mpr (not_lt.mp hs)
    simp only [Move.scaled, hs, if_false]
    exact ⟨mul_nonneg hneg h.2, mul_nonneg hneg h.1⟩

theorem strength_scaled (s : Scale) {m : Move ℚ} (h : m.Nonnegative) :
    (m.scaled s).strength = s.ofStrength.apply m.strength := by
  have hne := s.factor_ne_zero
  rw [strength_eq (h.scaled s), strength_eq h]
  by_cases hs : 0 < s.factor
  · have hsum : s.factor * m.gain + s.factor * m.loss = s.factor * (m.gain + m.loss) := by ring
    simp only [Move.scaled, Scale.ofStrength, Scale.apply, hs, if_true, hsum, mul_eq_zero, hne,
      false_or, mul_div_mul_left _ _ hne]
    ring
  · have hsum : -s.factor * m.loss + -s.factor * m.gain = -s.factor * (m.gain + m.loss) := by ring
    simp only [Move.scaled, Scale.ofStrength, Scale.apply, hs, if_false, hsum, mul_eq_zero,
      neg_eq_zero, hne, false_or, mul_div_mul_left _ _ (neg_ne_zero.mpr hne)]
    by_cases hmoved : m.gain + m.loss = 0
    · simp only [hmoved, if_true]
      norm_num
    · simp only [hmoved, if_false]
      field_simp
      ring

end Move

theorem moveFrom?_scaled (s : Scale) (prices : List ℚ) (i : Nat) :
    moveFrom? (prices.map s.apply) i = (moveFrom? prices i).map (Move.scaled s) := by
  simp only [moveFrom?, List.getElem?_map]
  cases prices[i + 1]? with
  | none => rfl
  | some now =>
    cases prices[i]? with
    | none => rfl
    | some before => simp [Scale.apply_sub, Move.ofChange_scaled]

theorem totalMove?_scaled (s : Scale) (prices : List ℚ) (count : Nat) :
    totalMove? (prices.map s.apply) count = (totalMove? prices count).map (Move.scaled s) := by
  induction count with
  | zero => simp [totalMove?, Move.scaled, Scalar.zero_rat]
  | succ count ih =>
    rw [totalMove?, totalMove?, ih, moveFrom?_scaled]
    cases totalMove? prices count with
    | none => rfl
    | some total => cases moveFrom? prices count <;> simp [Move.add_scaled]

theorem averageMove?_scaled (s : Scale) (period : Nat) (prices : List ℚ) (later : Nat) :
    averageMove? period (prices.map s.apply) later =
      (averageMove? period prices later).map (Move.scaled s) := by
  induction later with
  | zero =>
    rw [averageMove?, averageMove?, totalMove?_scaled]
    cases totalMove? prices period <;> simp [Move.divide_scaled]
  | succ later ih =>
    rw [averageMove?, averageMove?, ih, moveFrom?_scaled]
    cases averageMove? period prices later with
    | none => rfl
    | some average => cases moveFrom? prices (period + later) <;> simp [Move.smooth_scaled]

theorem rsiLine_scaled (s : Scale) (period : Nat) (prices : List ℚ) :
    rsiLine period (prices.map s.apply) = (rsiLine period prices).scaled s.ofStrength := by
  have hrsi : ∀ prices : List ℚ, (rsiLine period prices).length = prices.length :=
    (causal_rsiLine period).length_eq
  by_cases hp : period = 0
  · simp [rsiLine, hp, Line.scaled_undefined]
  refine Line.eq_scaled _ (by simp [hrsi]) (definedFrom_rsiLine hp _) (definedFrom_rsiLine hp _)
    fun i hwarm hi => ?_
  rw [hrsi] at hi
  obtain ⟨later, rfl⟩ := Nat.exists_eq_add_of_le hwarm
  have hnonneg := nonnegative_smoothedMove hp prices (period + later)
  rw [at?_rsiLine hp (by simp; omega), at?_rsiLine hp (by omega), averageMove?_scaled,
    averageMove?_rat hp hi]
  simp [Move.strength_scaled s hnonneg]

end Indicator

theorem MovingAverage.line_scaled (s : Scale) (average : MovingAverage) (period : Nat)
    (prices : List ℚ) :
    average.line period (prices.map s.apply) = (average.line period prices).scaled s := by
  cases average with
  | sma => exact Indicator.smaLine_scaled s period prices
  | ema => exact Indicator.emaLine_scaled s period prices

/-- What a rule watches, on prices that are turned upside down. -/
def Pattern.mirrored : Pattern ℚ → Pattern ℚ
  | .rsiThreshold period low high => .rsiThreshold period (100 - low) (100 - high)
  | pattern => pattern

def Rule.mirrored (rule : Rule ℚ) : Rule ℚ where
  pattern := rule.pattern.mirrored
  enter := rule.enter.opposite
  exit := rule.exit.opposite

def Strategy.mirrored (strategy : Strategy ℚ) : Strategy ℚ :=
  { strategy with rules := strategy.rules.map Rule.mirrored }

/-- Each pattern watches lines on a scale of its own, which runs the way that of the prices does. -/
theorem Pattern.tracks_scaled (s : Scale) (pattern : Pattern ℚ) (prices : List ℚ) :
    ∃ t : Scale, (0 < s.factor ↔ 0 < t.factor) ∧
      (s.turn mirrored pattern).tracks (prices.map s.apply) =
        (pattern.tracks prices).scaled t := by
  cases pattern with
  | maCross fast slow average =>
    have hturn : s.turn mirrored (maCross fast slow average) = maCross fast slow average :=
      s.turn_of_fixed rfl
    refine ⟨s, Iff.rfl, ?_⟩
    rw [hturn]
    simp only [tracks, Tracks.scaled, MovingAverage.line_scaled]
  | rsiThreshold period low high =>
    refine ⟨s.ofStrength, ?_, ?_⟩
    · by_cases h : 0 < s.factor <;> simp [Scale.ofStrength, h]
    · have hturn : s.turn mirrored (rsiThreshold period low high) =
          rsiThreshold period (s.ofStrength.apply low) (s.ofStrength.apply high) := by
        by_cases h : 0 < s.factor <;>
          simp [Scale.turn, h, mirrored, Scale.ofStrength, Scale.apply, sub_eq_neg_add]
      simp only [hturn, tracks, Tracks.scaled, Indicator.rsiLine_scaled, Line.scaled_constant,
        List.length_map]
  | macdCross fast slow signal =>
    have hturn : s.turn mirrored (macdCross fast slow signal) = macdCross fast slow signal :=
      s.turn_of_fixed rfl
    obtain ⟨hline, hsignal⟩ := Indicator.macdLines_scaled s fast slow signal prices
    refine ⟨s.ofDifferences, Iff.rfl, ?_⟩
    simp only [hturn, tracks, Tracks.scaled, hline, hsignal]

theorem Rule.signals_scaled (s : Scale) (rule : Rule ℚ) (prices : List ℚ) :
    (s.turn mirrored rule).signals (prices.map s.apply) = rule.signals prices := by
  obtain ⟨t, hsign, htracks⟩ := rule.pattern.tracks_scaled s prices
  have hturn : s.turn mirrored rule = ⟨s.turn Pattern.mirrored rule.pattern,
      s.turn Polarity.opposite rule.enter, s.turn Polarity.opposite rule.exit⟩ := by
    by_cases h : 0 < s.factor <;> simp [Scale.turn, h, mirrored]
  rw [hturn, Rule.signals, htracks, Scale.turn_congr hsign Polarity.opposite]
  simp only [Tracks.scaled, crossings_scaled, Rule.signals]

theorem Strategy.signals_scaled (s : Scale) (strategy : Strategy ℚ) (prices : List ℚ) :
    (s.turn mirrored strategy).signals (prices.map s.apply) = strategy.signals prices := by
  have hturn : s.turn mirrored strategy =
      { strategy with rules := strategy.rules.map (s.turn Rule.mirrored) } := by
    by_cases h : 0 < s.factor
    · have hid : s.turn Rule.mirrored = id := funext fun rule => by simp [Scale.turn, h]
      simp [Scale.turn, h, hid]
    · have hmirror : s.turn Rule.mirrored = Rule.mirrored :=
        funext fun rule => by simp [Scale.turn, h]
      simp [Scale.turn, h, hmirror, mirrored]
  have hrules : (strategy.rules.map (s.turn Rule.mirrored)).map
      (fun rule => rule.signals (prices.map s.apply)) =
        strategy.rules.map (fun rule => rule.signals prices) := by
    rw [List.map_map]
    exact List.map_congr_left fun rule _ => rule.signals_scaled s prices
  rw [hturn, Strategy.signals, hrules, List.length_map, Strategy.signals]

/-- In exact arithmetic, signals stay the same where all prices are multiplied by a number and moved
by another. If the number is negative, they are those of the mirrored strategy. -/
theorem signals_unchanged_by_affine_prices (strategy : Strategy ℚ) (prices : List ℚ) {a : ℚ}
    (ha : a ≠ 0) (b : ℚ) :
    (if 0 < a then strategy else strategy.mirrored).signals
        (prices.map (fun price => a * price + b)) =
      strategy.signals prices :=
  strategy.signals_scaled ⟨a, b, ha⟩ prices

def oneOfEach : Strategy ℚ :=
  ⟨"one of each",
    [⟨.maCross 1 2 .ema, .above, .below⟩, ⟨.rsiThreshold 2 40 60, .above, .below⟩,
      ⟨.macdCross 1 2 3, .below, .above⟩], .any⟩

theorem signals_unchanged_by_affine_prices_upside_down :
    let prices := [10, 9, 8, 12, 13, 7, 11]
    (-2 : ℚ) ≠ 0 ∧
    oneOfEach.mirrored.signals (prices.map (fun price => -2 * price + 50)) =
      oneOfEach.signals prices ∧
    (oneOfEach.signals prices).enter = [false, false, false, true, false, true, true] := by
  intro prices
  have ha : (-2 : ℚ) ≠ 0 := by norm_num
  have hsame := signals_unchanged_by_affine_prices oneOfEach prices ha 50
  rw [if_neg (by norm_num)] at hsame
  exact ⟨ha, hsame, by decide +kernel⟩

end Backtest
