import Backtest.Proofs.ExactArithmetic
import Backtest.Proofs.FadingAverage
import Backtest.Proofs.Pointwise
import Mathlib.Tactic.Linarith

/-!
Relative strength in exact arithmetic: the share of gains in all moves, where the first full period
of moves counts as a mean, and each later one fades what came before it.
-/

namespace Backtest.Indicator

namespace Move

def Nonnegative (m : Move ℚ) : Prop := 0 ≤ m.gain ∧ 0 ≤ m.loss

theorem ofChange_rat (change : ℚ) : ofChange change = ⟨max change 0, max (-change) 0⟩ := by
  by_cases h : 0 < change
  · rw [max_eq_left h.le, max_eq_right (neg_nonpos.mpr h.le)]
    simp [ofChange, Scalar.isPositive_rat, h, Scalar.zero_rat]
  · have hle : change ≤ 0 := not_lt.mp h
    rw [max_eq_right hle, max_eq_left (neg_nonneg.mpr hle)]
    simp [ofChange, Scalar.isPositive_rat, h, Scalar.zero_rat]

theorem smooth_rat {count : ℚ} (hcount : count ≠ 0) (average move : Move ℚ) :
    average.smooth count move =
      ⟨(count - 1) / count * average.gain + (1 - (count - 1) / count) * move.gain,
        (count - 1) / count * average.loss + (1 - (count - 1) / count) * move.loss⟩ := by
  rw [smooth, Scalar.one_rat, mk.injEq]
  constructor <;> field_simp <;> ring

/-- The share of gains in all that moved, in percent. -/
theorem strength_eq {m : Move ℚ} (h : m.Nonnegative) :
    m.strength = if m.gain + m.loss = 0 then 50 else 100 * (m.gain / (m.gain + m.loss)) := by
  obtain ⟨hgain, hloss⟩ := h
  by_cases hl : m.loss = 0
  · by_cases hg : m.gain = 0
    · simp [strength, Scalar.eq, Scalar.zero_rat, hl, hg]
      rfl
    · simp [strength, Scalar.eq, Scalar.zero_rat, hl, hg, Scalar.hundred_rat]
  · have hpos : 0 < m.loss := lt_of_le_of_ne hloss (Ne.symm hl)
    have hsum : m.gain + m.loss ≠ 0 := by linarith
    have hsum' : 1 + m.gain / m.loss ≠ 0 := by
      have := div_nonneg hgain hloss
      linarith
    simp [strength, Scalar.eq, Scalar.zero_rat, hl, hsum, Scalar.hundred_rat, Scalar.one_rat]
    field_simp
    ring

theorem strength_mem {m : Move ℚ} (h : m.Nonnegative) : 0 ≤ m.strength ∧ m.strength ≤ 100 := by
  obtain ⟨hgain, hloss⟩ := h
  rw [strength_eq ⟨hgain, hloss⟩]
  by_cases hmoved : m.gain + m.loss = 0
  · rw [if_pos hmoved]
    norm_num
  · have hshare : m.gain / (m.gain + m.loss) ≤ 1 := div_le_one_of_le₀ (by linarith) (by linarith)
    have hshare' := div_nonneg hgain (add_nonneg hgain hloss)
    rw [if_neg hmoved]
    constructor <;> linarith

theorem strength_eq_hundred_iff {m : Move ℚ} (h : m.Nonnegative) :
    m.strength = 100 ↔ m.gain ≠ 0 ∧ m.loss = 0 := by
  rw [strength_eq h]
  by_cases hmoved : m.gain + m.loss = 0
  · have hgain : m.gain = 0 := ((add_eq_zero_iff_of_nonneg h.1 h.2).mp hmoved).1
    rw [if_pos hmoved]
    norm_num [hgain]
  · have hshare : 100 * (m.gain / (m.gain + m.loss)) = 100 ↔ m.loss = 0 := by
      rw [mul_eq_left₀ (by norm_num), div_eq_one_iff_eq hmoved, left_eq_add]
    rw [if_neg hmoved, hshare]
    refine ⟨fun hloss => ⟨fun hgain => hmoved (by rw [hgain, hloss, add_zero]), hloss⟩, And.right⟩

theorem strength_eq_zero_iff {m : Move ℚ} (h : m.Nonnegative) :
    m.strength = 0 ↔ m.loss ≠ 0 ∧ m.gain = 0 := by
  rw [strength_eq h]
  by_cases hmoved : m.gain + m.loss = 0
  · have hloss : m.loss = 0 := ((add_eq_zero_iff_of_nonneg h.1 h.2).mp hmoved).2
    rw [if_pos hmoved]
    norm_num [hloss]
  · have hshare : 100 * (m.gain / (m.gain + m.loss)) = 0 ↔ m.gain = 0 := by
      rw [mul_eq_zero_iff_left (by norm_num), div_eq_zero_iff, or_iff_left hmoved]
    rw [if_neg hmoved, hshare]
    refine ⟨fun hgain => ⟨fun hloss => hmoved (by rw [hgain, hloss, add_zero]), hgain⟩, And.right⟩

end Move

/-- What the price gained into a bar, and what it lost. -/
def gainAt (prices : List ℚ) (j : Nat) : ℚ := max (prices.getD j 0 - prices.getD (j - 1) 0) 0

def lossAt (prices : List ℚ) (j : Nat) : ℚ := max (prices.getD (j - 1) 0 - prices.getD j 0) 0

/-- The average of some amounts up to a bar: the mean of the first full period, and one part in
`period` of each amount behind it, faded by what came later. -/
def smoothedAmount (period : Nat) (amount : Nat → ℚ) (i : Nat) : ℚ :=
  ((period - 1) / period) ^ (i - period) * ((∑ j ∈ Finset.Icc 1 period, amount j) / period) +
    ∑ j ∈ Finset.Icc (period + 1) i, 1 / period * ((period - 1) / period) ^ (i - j) * amount j

theorem smoothedAmount_eq {period : Nat} (hp : period ≠ 0) (amount : Nat → ℚ) (i : Nat) :
    smoothedAmount period amount i =
      fading ((period - 1) / period) ((∑ j ∈ Finset.Icc 1 period, amount j) / period) period
        amount i := by
  have hperiod : (period : ℚ) ≠ 0 := Nat.cast_ne_zero.mpr hp
  have hshare : 1 / (period : ℚ) = 1 - (period - 1) / period := by
    field_simp
    ring
  rw [smoothedAmount, hshare, fading]

theorem moveFrom?_rat {prices : List ℚ} {i : Nat} (hi : i + 1 < prices.length) :
    moveFrom? prices i = some ⟨gainAt prices (i + 1), lossAt prices (i + 1)⟩ := by
  have hbefore : prices[i]? = some (prices.getD i 0) := by
    simp [List.getD_eq_getElem?_getD, Nat.lt_of_succ_lt hi]
  have hnow : prices[i + 1]? = some (prices.getD (i + 1) 0) := by
    simp [List.getD_eq_getElem?_getD, hi]
  rw [moveFrom?, hbefore, hnow]
  simp [Move.ofChange_rat, gainAt, lossAt]

theorem totalMove?_rat {prices : List ℚ} {count : Nat} (hcount : count < prices.length) :
    totalMove? prices count =
      some ⟨∑ j ∈ Finset.Icc 1 count, gainAt prices j, ∑ j ∈ Finset.Icc 1 count, lossAt prices j⟩ := by
  induction count with
  | zero => simp [totalMove?, Scalar.zero_rat]
  | succ count ih =>
    rw [totalMove?, ih (Nat.lt_of_succ_lt hcount), moveFrom?_rat hcount,
      Finset.sum_Icc_succ_top (Nat.le_add_left 1 count),
      Finset.sum_Icc_succ_top (Nat.le_add_left 1 count)]
    rfl

def smoothedMove (period : Nat) (prices : List ℚ) (i : Nat) : Move ℚ :=
  ⟨smoothedAmount period (gainAt prices) i, smoothedAmount period (lossAt prices) i⟩

theorem averageMove?_rat {period : Nat} (hp : period ≠ 0) {prices : List ℚ} {later : Nat}
    (hlen : period + later < prices.length) :
    averageMove? period prices later = some (smoothedMove period prices (period + later)) := by
  simp only [smoothedMove, smoothedAmount_eq hp]
  induction later with
  | zero =>
    rw [Nat.add_zero] at hlen ⊢
    rw [averageMove?, totalMove?_rat hlen, fading_start, fading_start]
    rfl
  | succ later ih =>
    rw [← Nat.add_assoc] at hlen ⊢
    rw [averageMove?, ih (Nat.lt_of_succ_lt hlen), moveFrom?_rat hlen,
      fading_succ (Nat.le_add_right _ _), fading_succ (Nat.le_add_right _ _)]
    exact congrArg some (Move.smooth_rat (Nat.cast_ne_zero.mpr hp) _ _)

section Amounts

variable {period i : Nat} {amount : Nat → ℚ}

theorem kept_share (hp : period ≠ 0) :
    0 ≤ ((period : ℚ) - 1) / period ∧ ((period : ℚ) - 1) / period < 1 := by
  have hperiod : (1 : ℚ) ≤ period := Nat.one_le_cast.mpr (Nat.pos_of_ne_zero hp)
  exact ⟨div_nonneg (by linarith) (by linarith), (div_lt_one (by linarith)).mpr (by linarith)⟩

theorem smoothedAmount_nonneg (hp : period ≠ 0) (hamount : ∀ j, 0 ≤ amount j) :
    0 ≤ smoothedAmount period amount i := by
  obtain ⟨hkeep, hkeep'⟩ := kept_share hp
  rw [smoothedAmount_eq hp]
  exact fading_mem hkeep hkeep'.le (convex_Ici 0)
    (div_nonneg (Finset.sum_nonneg fun j _ => hamount j) (Nat.cast_nonneg period))
    fun j _ => hamount j

theorem smoothedAmount_pos (hp : period ≠ 0) (hi : period ≤ i)
    (hamount : ∀ j ∈ Finset.Icc 1 i, 0 < amount j) : 0 < smoothedAmount period amount i := by
  obtain ⟨hkeep, hkeep'⟩ := kept_share hp
  have hfirst : (Finset.Icc 1 period).Nonempty :=
    Finset.nonempty_Icc.mpr (Nat.one_le_iff_ne_zero.mpr hp)
  have hmean : 0 < (∑ j ∈ Finset.Icc 1 period, amount j) / period :=
    div_pos (Finset.sum_pos (fun j hj => hamount j (Finset.Icc_subset_Icc_right hi hj)) hfirst)
      (Nat.cast_pos.mpr (Nat.pos_of_ne_zero hp))
  rw [smoothedAmount_eq hp]
  exact fading_mem hkeep hkeep'.le (convex_Ioi 0) hmean fun j hj =>
    hamount j (Finset.Icc_subset_Icc_left (Nat.le_add_left 1 period) hj)

theorem smoothedAmount_of_zero (hi : period ≤ i) (hamount : ∀ j ∈ Finset.Icc 1 i, amount j = 0) :
    smoothedAmount period amount i = 0 := by
  have hfirst : ∑ j ∈ Finset.Icc 1 period, amount j = 0 :=
    Finset.sum_eq_zero fun j hj => hamount j (Finset.Icc_subset_Icc_right hi hj)
  have hlater : ∑ j ∈ Finset.Icc (period + 1) i,
      1 / period * ((period - 1) / period : ℚ) ^ (i - j) * amount j = 0 :=
    Finset.sum_eq_zero fun j hj => by
      rw [hamount j (Finset.Icc_subset_Icc_left (Nat.le_add_left 1 period) hj), mul_zero]
  rw [smoothedAmount, hfirst, hlater, zero_div, mul_zero, add_zero]

/-- With a period of one each move takes the place of all that came before. With a longer one every
amount counts on. -/
theorem smoothedAmount_eq_zero_iff (hp : 2 ≤ period) (hi : period ≤ i)
    (hamount : ∀ j, 0 ≤ amount j) :
    smoothedAmount period amount i = 0 ↔ ∀ j ∈ Finset.Icc 1 i, amount j = 0 := by
  have hp' : period ≠ 0 := by omega
  have hperiod : (2 : ℚ) ≤ period := Nat.ofNat_le_cast.mpr hp
  have hkeep : 0 < ((period : ℚ) - 1) / period := div_pos (by linarith) (by linarith)
  have hsum : 0 ≤ ∑ j ∈ Finset.Icc 1 period, amount j := Finset.sum_nonneg fun j _ => hamount j
  rw [smoothedAmount_eq hp', fading_eq_zero_iff hkeep (kept_share hp').2
    (div_nonneg hsum (Nat.cast_nonneg period)) hamount, div_eq_zero_iff,
    Finset.sum_eq_zero_iff_of_nonneg fun j _ => hamount j]
  simp only [Nat.cast_eq_zero, hp', or_false, Finset.mem_Icc]
  refine ⟨fun h j hj => ?_, fun h => ⟨fun j hj => h j (by omega), fun j hj => h j (by omega)⟩⟩
  by_cases hfirst : j ≤ period
  · exact h.1 j ⟨hj.1, hfirst⟩
  · exact h.2 j (by omega)

theorem smoothedAmount_ne_zero_iff (hp : 2 ≤ period) (hi : period ≤ i)
    (hamount : ∀ j, 0 ≤ amount j) :
    smoothedAmount period amount i ≠ 0 ↔ ∃ j ∈ Finset.Icc 1 i, 0 < amount j := by
  simp only [Ne, smoothedAmount_eq_zero_iff hp hi hamount, not_forall, exists_prop,
    (hamount _).lt_iff_ne']

end Amounts

theorem at?_rsiLine_rat {period i : Nat} (hp : period ≠ 0) (hi : period ≤ i) {prices : List ℚ}
    (hlen : i < prices.length) :
    (rsiLine period prices).at? i = some (smoothedMove period prices i).strength := by
  obtain ⟨later, rfl⟩ := Nat.exists_eq_add_of_le hi
  rw [at?_rsiLine hp (by omega), averageMove?_rat hp hlen]
  rfl

theorem at?_rsiLine_eq_some {period i : Nat} {prices : List ℚ} {value : ℚ} :
    (rsiLine period prices).at? i = some value ↔
      period ≠ 0 ∧ period ≤ i ∧ i < prices.length ∧
        (smoothedMove period prices i).strength = value := by
  constructor
  · intro h
    have hmem : rsiLine period prices ∈ (rsi period).lines prices := List.mem_singleton_self _
    obtain ⟨hperiods, hi, hlen⟩ := (defined_iff hmem i).mp ⟨value, h⟩
    have hp := ne_zero_of_mem_periods hperiods (List.mem_singleton_self period)
    rw [at?_rsiLine_rat hp hi hlen] at h
    exact ⟨hp, hi, hlen, Option.some.inj h⟩
  · rintro ⟨hp, hi, hlen, rfl⟩
    exact at?_rsiLine_rat hp hi hlen

theorem gainAt_nonneg (prices : List ℚ) (j : Nat) : 0 ≤ gainAt prices j := le_max_right _ _

theorem lossAt_nonneg (prices : List ℚ) (j : Nat) : 0 ≤ lossAt prices j := le_max_right _ _

theorem nonnegative_smoothedMove {period : Nat} (hp : period ≠ 0) (prices : List ℚ) (i : Nat) :
    (smoothedMove period prices i).Nonnegative :=
  ⟨smoothedAmount_nonneg hp (gainAt_nonneg prices), smoothedAmount_nonneg hp (lossAt_nonneg prices)⟩

/-- The index is the share of gains in percent, where gains and losses are smoothed alike, and one
half where nothing moved. A period of two or more never forgets a move: then the index is full if and
only if there were gains and no losses, and nothing if and only if there were losses and no gains. -/
theorem rsi_is_share_of_gains (prices : List ℚ) (period i : Nat) :
    (∀ value, (rsiLine period prices).at? i = some value → 0 ≤ value ∧ value ≤ 100) ∧
    (1 ≤ period → period ≤ i → i < prices.length →
      let gain := smoothedAmount period (gainAt prices) i
      let loss := smoothedAmount period (lossAt prices) i
      0 ≤ gain ∧ 0 ≤ loss ∧
      ∃ value, (rsiLine period prices).at? i = some value ∧
        (0 < gain + loss → value = 100 * gain / (gain + loss)) ∧
        (gain = 0 ∧ loss = 0 → value = 50) ∧
        (2 ≤ period →
          (value = 100 ↔ (∃ j ∈ Finset.Icc 1 i, 0 < gainAt prices j) ∧
            ∀ j ∈ Finset.Icc 1 i, lossAt prices j = 0) ∧
          (value = 0 ↔ (∃ j ∈ Finset.Icc 1 i, 0 < lossAt prices j) ∧
            ∀ j ∈ Finset.Icc 1 i, gainAt prices j = 0))) := by
  have hgain := gainAt_nonneg prices
  have hloss := lossAt_nonneg prices
  refine ⟨fun value hvalue => ?_, fun hp hi hlen => ?_⟩
  · obtain ⟨hp, _, _, rfl⟩ := at?_rsiLine_eq_some.mp hvalue
    exact Move.strength_mem (nonnegative_smoothedMove hp prices i)
  · have hp' : period ≠ 0 := Nat.one_le_iff_ne_zero.mp hp
    have hnonneg := nonnegative_smoothedMove hp' prices i
    intro gain loss
    have hshare : (smoothedMove period prices i).strength =
        if gain + loss = 0 then 50 else 100 * (gain / (gain + loss)) := Move.strength_eq hnonneg
    refine ⟨hnonneg.1, hnonneg.2, _, at?_rsiLine_rat hp' hi hlen, fun hmoved => ?_, fun hstill => ?_,
      fun hlong => ⟨?_, ?_⟩⟩
    · rw [hshare, if_neg hmoved.ne', mul_div_assoc]
    · have hsum : gain + loss = 0 := by rw [hstill.1, hstill.2, add_zero]
      rw [hshare, if_pos hsum]
    · rw [Move.strength_eq_hundred_iff hnonneg]
      exact and_congr (smoothedAmount_ne_zero_iff hlong hi hgain)
        (smoothedAmount_eq_zero_iff hlong hi hloss)
    · rw [Move.strength_eq_zero_iff hnonneg]
      exact and_congr (smoothedAmount_ne_zero_iff hlong hi hloss)
        (smoothedAmount_eq_zero_iff hlong hi hgain)

theorem rsi_is_share_of_gains_mixed :
    let mixed : List ℚ := [10, 12, 11, 15]
    let rising : List ℚ := [10, 12, 13, 17]
    (1 ≤ 2 ∧ 2 ≤ 3 ∧ 3 < mixed.length ∧ 3 < rising.length) ∧
    smoothedAmount 2 (gainAt mixed) 3 = 5 / 2 ∧ smoothedAmount 2 (lossAt mixed) 3 = 1 / 4 ∧
    (rsiLine 2 mixed).at? 3 = some (100 * (5 / 2) / (5 / 2 + 1 / 4)) ∧
    (rsiLine 2 rising).at? 3 = some 100 := by
  intro mixed rising
  have hlen : 1 ≤ 2 ∧ 2 ≤ 3 ∧ 3 < mixed.length ∧ 3 < rising.length := by decide
  have hgain : smoothedAmount 2 (gainAt mixed) 3 = 5 / 2 := by decide +kernel
  have hloss : smoothedAmount 2 (lossAt mixed) 3 = 1 / 4 := by decide +kernel
  have hrising : (∃ j ∈ Finset.Icc 1 3, 0 < gainAt rising j) ∧
      ∀ j ∈ Finset.Icc 1 3, lossAt rising j = 0 := by decide +kernel
  obtain ⟨_, _, value, hvalue, hshare, _⟩ :=
    (rsi_is_share_of_gains mixed 2 3).2 hlen.1 hlen.2.1 hlen.2.2.1
  obtain ⟨_, _, full, hfull, _, _, hextremes⟩ :=
    (rsi_is_share_of_gains rising 2 3).2 hlen.1 hlen.2.1 hlen.2.2.2
  rw [hgain, hloss] at hshare
  refine ⟨hlen, hgain, hloss, ?_, ?_⟩
  · rw [hvalue, hshare (by norm_num)]
  · rw [hfull, (hextremes le_rfl).1.mpr hrising]

end Backtest.Indicator
