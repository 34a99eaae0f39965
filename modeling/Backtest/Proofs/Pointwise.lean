import Backtest.Proofs.Definedness

/-!
Indicators index by index. Here each value is worked out from the value before it and from prices
that are read by their index, and a price that is not there leaves no value. The lines are the same.
-/

namespace Backtest.Indicator

open Scalar

variable {α : Type} [Scalar α]

def windowSum? (period : Nat) (prices : List α) : Nat → Option α
  | 0 => do return zero + (← prices[0]?)
  | i + 1 => do
    let entered := (← windowSum? period prices i) + (← prices[i + 1]?)
    if i + 1 < period then return entered
    return entered - (← prices[i + 1 - period]?)

def emaValue? (period : Nat) (prices : List α) : Nat → Option α
  | 0 => prices[0]?
  | i + 1 => do
    let average ← emaValue? period prices i
    return (← prices[i + 1]?) * smoothing period + average * (one - smoothing period)

def moveFrom? (prices : List α) (i : Nat) : Option (Move α) := do
  return Move.ofChange ((← prices[i + 1]?) - (← prices[i]?))

def totalMove? (prices : List α) : Nat → Option (Move α)
  | 0 => some ⟨zero, zero⟩
  | count + 1 => do return (← totalMove? prices count).add (← moveFrom? prices count)

/-- The average move after the first full period and some further moves. -/
def averageMove? (period : Nat) (prices : List α) : Nat → Option (Move α)
  | 0 => do return (← totalMove? prices period).divide (ofNat period)
  | later + 1 => do
    let average ← averageMove? period prices later
    return average.smooth (ofNat period) (← moveFrom? prices (period + later))

/-- What one bar does to the sum of a window: its price enters, and another one may leave. -/
def slide (total price : α) : Option α → α
  | some old => total + price - old
  | none => total + price

theorem getElem?_windowSums_zero (total : α) (prices : List α) (leaving : List (Option α)) :
    (windowSums total prices leaving)[0]? =
      do return slide total (← prices[0]?) (← leaving[0]?) := by
  cases prices with
  | nil => rfl
  | cons price prices =>
    cases leaving with
    | nil => rfl
    | cons out leaving => cases out <;> rfl

theorem getElem?_windowSums_succ (total : α) (prices : List α) (leaving : List (Option α))
    (i : Nat) :
    (windowSums total prices leaving)[i + 1]? = do
      let before ← (windowSums total prices leaving)[i]?
      return slide before (← prices[i + 1]?) (← leaving[i + 1]?) := by
  induction prices generalizing total leaving i with
  | nil => rfl
  | cons price prices ih =>
    cases leaving with
    | nil => rfl
    | cons out leaving =>
      cases i with
      | zero => exact getElem?_windowSums_zero _ prices leaving
      | succ i => exact ih _ leaving i

omit [Scalar α] in
theorem getElem?_leaving (period i : Nat) (prices : List α) :
    (List.replicate period none ++ prices.map some)[i]? =
      if i < period then some none else prices[i - period]?.map some := by
  by_cases hi : i < period <;> simp [List.getElem?_append, hi]

theorem getElem?_windowSums_eq {period : Nat} (hp : period ≠ 0) (prices : List α) (i : Nat) :
    (windowSums zero prices (List.replicate period none ++ prices.map some))[i]? =
      windowSum? period prices i := by
  induction i with
  | zero =>
    rw [getElem?_windowSums_zero, getElem?_leaving, if_pos (Nat.pos_of_ne_zero hp)]
    rfl
  | succ i ih =>
    rw [getElem?_windowSums_succ, ih, getElem?_leaving, windowSum?]
    by_cases hi : i + 1 < period
    · simp [hi, slide]
    · cases prices[i + 1 - period]? <;> simp [hi, slide]

theorem getElem?_emaFrom_succ (weight average : α) (prices : List α) (i : Nat) :
    (emaFrom weight average prices)[i + 1]? = do
      let before ← (emaFrom weight average prices)[i]?
      return (← prices[i + 1]?) * weight + before * (one - weight) := by
  induction prices generalizing average i with
  | nil => rfl
  | cons price prices ih =>
    cases i with
    | zero => cases prices <;> rfl
    | succ i => exact ih _ i

theorem getElem?_emaValues (period : Nat) (prices : List α) (i : Nat) :
    (emaValues period prices)[i]? = emaValue? period prices i := by
  cases prices with
  | nil =>
    induction i with
    | zero => rfl
    | succ i ih => simp [emaValues, emaValue?]
  | cons price prices =>
    induction i with
    | zero => rfl
    | succ i ih =>
      rw [emaValue?, ← ih, emaValues]
      cases i with
      | zero => cases prices <;> rfl
      | succ i => exact getElem?_emaFrom_succ _ _ _ _

theorem getElem?_moves (prices : List α) (i : Nat) : (moves prices)[i]? = moveFrom? prices i := by
  induction prices generalizing i with
  | nil => simp [moves, moveFrom?]
  | cons before prices ih =>
    cases prices with
    | nil => simp [moves, moveFrom?]
    | cons now prices =>
      cases i with
      | zero => simp [moves, moveFrom?]
      | succ i => exact ih i

theorem foldl_take_moves {prices : List α} {count : Nat} (hcount : count < prices.length) :
    totalMove? prices count = some (((moves prices).take count).foldl Move.add ⟨zero, zero⟩) := by
  induction count with
  | zero => rfl
  | succ count ih =>
    have hmoves : count < (moves prices).length := by
      rw [length_moves]
      omega
    rw [totalMove?, ih (Nat.lt_of_succ_lt hcount), ← getElem?_moves, List.take_add_one,
      List.foldl_append, List.getElem?_eq_getElem hmoves]
    rfl

theorem getElem?_smoothed_succ (count : α) (average : Move α) (later : List (Move α)) (k : Nat) :
    (smoothed count average later)[k + 1]? = do
      let before ← (smoothed count average later)[k]?
      return before.smooth count (← later[k]?) := by
  induction later generalizing average k with
  | nil => cases k <;> rfl
  | cons move later ih =>
    cases k with
    | zero => cases later <;> rfl
    | succ k => exact ih _ k

theorem getElem?_smoothed {period : Nat} {prices : List α} (hlong : period < prices.length)
    (k : Nat) :
    (smoothed (ofNat period)
      ((((moves prices).take period).foldl Move.add ⟨zero, zero⟩).divide (ofNat period))
      ((moves prices).drop period))[k]? = averageMove? period prices k := by
  induction k with
  | zero =>
    rw [averageMove?, foldl_take_moves hlong]
    cases (moves prices).drop period <;> rfl
  | succ k ih =>
    rw [getElem?_smoothed_succ, ih, List.getElem?_drop, getElem?_moves]
    rfl

theorem at?_smaLine {period : Nat} (hp : period ≠ 0) (prices : List α) (i : Nat) :
    (smaLine period prices).at? i =
      if i < period - 1 then none else (windowSum? period prices i).map (· / ofNat period) := by
  rw [smaLine_eq hp, Line.at?_after, List.getElem?_map, getElem?_windowSums_eq hp]

theorem at?_emaLine {period : Nat} (hp : period ≠ 0) (prices : List α) (i : Nat) :
    (emaLine period prices).at? i =
      if i < period - 1 then none else emaValue? period prices i := by
  rw [emaLine, if_neg hp, Line.at?_after, getElem?_emaValues]

theorem at?_rsiLine {period : Nat} (hp : period ≠ 0) {prices : List α}
    (hlong : period < prices.length) (later : Nat) :
    (rsiLine period prices).at? (period + later) =
      (averageMove? period prices later).map Move.strength := by
  rw [rsiLine_of_long hp hlong, Line.at?, List.getElem?_append_right (by simp)]
  simp only [List.length_replicate, Nat.add_sub_cancel_left, List.getElem?_map,
    getElem?_smoothed hlong]
  cases averageMove? period prices later <;> rfl

/-- Within the series no price that is asked for is missing. -/
theorem exists_windowSum? {period : Nat} (hp : period ≠ 0) {prices : List α} {i : Nat}
    (hi : i < prices.length) : ∃ total, windowSum? period prices i = some total := by
  have hlen := (causal_windowSums (α := α) period).length_eq prices
  rw [← getElem?_windowSums_eq hp]
  exact ⟨_, List.getElem?_eq_getElem (by omega)⟩

theorem exists_emaValue? (period : Nat) {prices : List α} {i : Nat} (hi : i < prices.length) :
    ∃ average, emaValue? period prices i = some average := by
  have hlen := (causal_emaValues (α := α) period).length_eq prices
  rw [← getElem?_emaValues]
  exact ⟨_, List.getElem?_eq_getElem (by omega)⟩

theorem exists_averageMove? {period : Nat} {prices : List α} {later : Nat}
    (hlen : period + later < prices.length) :
    ∃ average, averageMove? period prices later = some average := by
  rw [← getElem?_smoothed (by omega)]
  refine ⟨_, List.getElem?_eq_getElem ?_⟩
  rw [length_smoothed, List.length_drop, length_moves]
  omega

end Backtest.Indicator
