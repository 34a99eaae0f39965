import Mathlib.Algebra.BigOperators.Intervals
import Mathlib.Algebra.BigOperators.Ring.Finset
import Mathlib.Algebra.Order.BigOperators.Group.Finset
import Mathlib.Algebra.Order.Field.Rat
import Mathlib.Analysis.Convex.Basic
import Mathlib.Tactic.Linarith
import Mathlib.Tactic.Ring

/-!
Averages that fade. Each amount that comes in takes a fixed share of the average, and what was there
before keeps the rest, so that an amount weighs the less the longer ago it came. The shares make up
one, so that an average stays in every convex set that holds all its amounts.
-/

namespace Backtest

/-- The average at an index: the seed, faded since the start, and what came after it. -/
def fading (keep seed : ℚ) (start : Nat) (amount : Nat → ℚ) (i : Nat) : ℚ :=
  keep ^ (i - start) * seed +
    ∑ j ∈ Finset.Icc (start + 1) i, (1 - keep) * keep ^ (i - j) * amount j

variable {keep seed : ℚ} {start : Nat} {amount : Nat → ℚ} {i : Nat}

theorem fading_of_le (hi : i ≤ start) : fading keep seed start amount i = seed := by
  simp [fading, Nat.sub_eq_zero_of_le hi, Nat.lt_succ_of_le hi]

theorem fading_start : fading keep seed start amount start = seed :=
  fading_of_le le_rfl

theorem fading_succ (hi : start ≤ i) :
    fading keep seed start amount (i + 1) =
      keep * fading keep seed start amount i + (1 - keep) * amount (i + 1) := by
  have hseed : keep ^ (i + 1 - start) = keep * keep ^ (i - start) := by
    rw [Nat.sub_add_comm hi, pow_succ']
  have hsum : ∑ j ∈ Finset.Icc (start + 1) i, (1 - keep) * keep ^ (i + 1 - j) * amount j =
      keep * ∑ j ∈ Finset.Icc (start + 1) i, (1 - keep) * keep ^ (i - j) * amount j := by
    rw [Finset.mul_sum]
    refine Finset.sum_congr rfl fun j hj => ?_
    rw [Nat.sub_add_comm (Finset.mem_Icc.mp hj).2, pow_succ']
    ring
  rw [fading, Finset.sum_Icc_succ_top (Nat.succ_le_succ hi), hseed, hsum, Nat.sub_self, pow_zero,
    fading]
  ring

section Convex

variable (hkeep : 0 ≤ keep) (hkeep' : keep ≤ 1)

include hkeep hkeep'

theorem fading_mem {values : Set ℚ} (hvalues : Convex ℚ values) (hseed : seed ∈ values)
    (hamount : ∀ j ∈ Finset.Icc (start + 1) i, amount j ∈ values) :
    fading keep seed start amount i ∈ values := by
  induction i with
  | zero => rwa [fading_of_le (Nat.zero_le start)]
  | succ i ih =>
    rcases Nat.lt_or_ge i start with hi | hi
    · -- nothing has come in yet
      rwa [fading_of_le hi]
    · have hbefore := ih fun j hj => hamount j (Finset.Icc_subset_Icc_right (Nat.le_succ i) hj)
      have hnow := hamount (i + 1) (Finset.right_mem_Icc.mpr (Nat.succ_le_succ hi))
      rw [fading_succ hi]
      exact hvalues hbefore hnow hkeep (sub_nonneg.mpr hkeep') (add_sub_cancel keep 1)

theorem sum_shares (start i : Nat) :
    keep ^ (i - start) + ∑ j ∈ Finset.Icc (start + 1) i, (1 - keep) * keep ^ (i - j) = 1 := by
  have hone : fading keep 1 start (fun _ => 1) i ∈ ({1} : Set ℚ) :=
    fading_mem hkeep hkeep' (convex_singleton 1) rfl fun _ _ => rfl
  simpa only [fading, mul_one, Set.mem_singleton_iff] using hone

end Convex

/-- As long as something is kept, nothing that came in is forgotten. -/
theorem fading_eq_zero_iff (hkeep : 0 < keep) (hkeep' : keep < 1) (hseed : 0 ≤ seed)
    (hamount : ∀ j, 0 ≤ amount j) :
    fading keep seed start amount i = 0 ↔
      seed = 0 ∧ ∀ j ∈ Finset.Icc (start + 1) i, amount j = 0 := by
  have hshare : 0 < 1 - keep := by linarith
  have hterm : ∀ j, 0 ≤ (1 - keep) * keep ^ (i - j) * amount j := fun j =>
    mul_nonneg (mul_nonneg hshare.le (pow_nonneg hkeep.le _)) (hamount j)
  rw [fading, add_eq_zero_iff_of_nonneg (mul_nonneg (pow_nonneg hkeep.le _) hseed)
    (Finset.sum_nonneg fun j _ => hterm j), Finset.sum_eq_zero_iff_of_nonneg fun j _ => hterm j]
  simp [hshare.ne', hkeep.ne']

end Backtest
