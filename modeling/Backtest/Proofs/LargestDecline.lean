import Backtest.Proofs.EquityReplay
import Mathlib.Tactic.Linarith

/-!
The largest decline. One pass along a curve keeps its peak and the worst decline so far; what it
ends with is the greatest of the declines between any two values of the curve.
-/

namespace Backtest

theorem Scalar.larger_rat (a b : ℚ) : Scalar.larger a b = max a b := by
  by_cases h : a < b
  · simp [larger, lt_rat, h, h.le]
  · simp [larger, lt_rat, h, not_lt.mp h]

section Decline

variable {peak peak' equity equity' : ℚ}

theorem declinePct_rat : declinePct peak equity = (peak - equity) / peak * 100 := by
  rw [declinePct, Scalar.hundred_rat]

theorem declinePct_self : declinePct peak peak = 0 := by
  simp [declinePct_rat]

/-- A decline is what is missing of the share that is left. -/
theorem declinePct_eq (hpeak : 0 < peak) : declinePct peak equity = (1 - equity / peak) * 100 := by
  rw [declinePct_rat, sub_div, div_self hpeak.ne']

theorem declinePct_nonpos_iff (hpeak : 0 < peak) : declinePct peak equity ≤ 0 ↔ peak ≤ equity := by
  rw [declinePct_eq hpeak, ← one_le_div₀ hpeak]
  constructor <;> intro h <;> linarith

theorem declinePct_lt (hpeak : 0 < peak) (hequity : 0 < equity) : declinePct peak equity < 100 := by
  have hshare : 0 < equity / peak := div_pos hequity hpeak
  rw [declinePct_eq hpeak]
  linarith

/-- From a higher peak the decline to a value is larger. -/
theorem declinePct_le (hpeak : 0 < peak) (hle : peak ≤ peak') (hequity : 0 < equity) :
    declinePct peak equity ≤ declinePct peak' equity := by
  have hshare : equity / peak' ≤ equity / peak := div_le_div_of_nonneg_left hequity.le hpeak hle
  rw [declinePct_eq hpeak, declinePct_eq (hpeak.trans_le hle)]
  linarith

end Decline

/-- The declines between two values of a curve, the first of them as the peak, in percent. Any value
is one decline of nothing below itself. -/
def declines (equities : List ℚ) : Set ℚ :=
  {decline | ∃ (i j : Nat) (before now : ℚ), i ≤ j ∧ equities[i]? = some before ∧
    equities[j]? = some now ∧ decline = (before - now) / before * 100}

theorem mem_declines_cons {first decline : ℚ} {rest : List ℚ} :
    decline ∈ declines (first :: rest) ↔
      (∃ now ∈ first :: rest, decline = declinePct first now) ∨ decline ∈ declines rest := by
  constructor
  · rintro ⟨i, j, before, now, hij, hbefore, hnow, rfl⟩
    cases i with
    | zero =>
      obtain rfl : first = before := by simpa using hbefore
      exact Or.inl ⟨now, List.mem_of_getElem? hnow, declinePct_rat.symm⟩
    | succ i =>
      obtain ⟨j, rfl⟩ : ∃ k, j = k + 1 := ⟨j - 1, by omega⟩
      exact Or.inr ⟨i, j, before, now, by omega, hbefore, hnow, rfl⟩
  · rintro (⟨now, hm, rfl⟩ | ⟨i, j, before, now, hij, hbefore, hnow, rfl⟩)
    · obtain ⟨j, hj⟩ := List.mem_iff_getElem?.mp hm
      exact ⟨0, j, first, now, Nat.zero_le j, rfl, hj, declinePct_rat⟩
    · exact ⟨i + 1, j + 1, before, now, by omega, hbefore, hnow, rfl⟩

/-- The first two values give one decline of their own; any other one lies within the rest behind
one of them. -/
theorem mem_declines_cons_cons {first second decline : ℚ} {rest : List ℚ} :
    decline ∈ declines (first :: second :: rest) ↔
      decline = declinePct first second ∨ decline ∈ declines (first :: rest) ∨
        decline ∈ declines (second :: rest) := by
  simp only [mem_declines_cons, List.exists_mem_cons_iff]
  grind

theorem declinePct_mem_declines {first now : ℚ} {rest : List ℚ} (h : now ∈ first :: rest) :
    declinePct first now ∈ declines (first :: rest) := mem_declines_cons.mpr (Or.inl ⟨now, h, rfl⟩)

theorem zero_mem_declines {equities : List ℚ} (h : equities ≠ []) : 0 ∈ declines equities := by
  cases equities with
  | nil => exact absurd rfl h
  | cons first rest =>
    have hself : declinePct first first ∈ declines (first :: rest) :=
      declinePct_mem_declines List.mem_cons_self
    rwa [declinePct_self] at hself

theorem worstDecline_cons_of_lt {peak equity : ℚ} (h : peak < equity) (worst : ℚ) (rest : List ℚ) :
    worstDecline peak worst (equity :: rest) = worstDecline equity worst rest := by
  simp [worstDecline, Scalar.lt_rat, h]

theorem worstDecline_cons_of_le {peak equity : ℚ} (hpeak : 0 < peak) (h : equity ≤ peak) (worst : ℚ)
    (rest : List ℚ) :
    worstDecline peak worst (equity :: rest) =
      worstDecline peak (max worst (declinePct peak equity)) rest := by
  simp [worstDecline, Scalar.lt_rat, Scalar.isPositive_rat, hpeak, not_lt.mpr h, Scalar.larger_rat]

section Pass

variable {peak equity worst greatest : ℚ} {rest : List ℚ}

/-- A new peak hides no decline, since to any later value the decline from it is larger. -/
theorem isGreatest_of_new_peak (hpeak : 0 < peak) (hrest : ∀ now ∈ equity :: rest, 0 < now)
    (hworst : 0 ≤ worst) (hnew : peak < equity)
    (h : IsGreatest (insert worst (declines (equity :: rest))) greatest) :
    IsGreatest (insert worst (declines (peak :: equity :: rest))) greatest := by
  obtain ⟨hmem, hupper⟩ := h
  refine ⟨hmem.imp_right fun hm => mem_declines_cons.mpr (Or.inr hm), ?_⟩
  have hleast := hworst.trans (hupper (Set.mem_insert _ _))
  rintro decline (rfl | hm)
  · exact hupper (Set.mem_insert _ _)
  · obtain ⟨now, hnow, rfl⟩ | hm := mem_declines_cons.mp hm
    · rcases List.mem_cons.mp hnow with rfl | hnow
      · rwa [declinePct_self]
      · exact (declinePct_le hpeak hnew.le (hrest now hnow)).trans
          (hupper (Set.mem_insert_of_mem _ (declinePct_mem_declines hnow)))
    · exact hupper (Set.mem_insert_of_mem _ hm)

/-- As long as a peak stands, no decline from a value below it has to be looked at. -/
theorem isGreatest_of_same_peak (hrest : ∀ now ∈ equity :: rest, 0 < now) (hworst : 0 ≤ worst)
    (hle : equity ≤ peak)
    (h : IsGreatest (insert (max worst (declinePct peak equity)) (declines (peak :: rest)))
      greatest) :
    IsGreatest (insert worst (declines (peak :: equity :: rest))) greatest := by
  obtain ⟨hmem, hupper⟩ := h
  obtain ⟨hequity, hlater⟩ := List.forall_mem_cons.mp hrest
  have hmax := hupper (Set.mem_insert _ _)
  have hfromPeak : ∀ decline ∈ declines (peak :: rest), decline ≤ greatest :=
    fun decline hm => hupper (Set.mem_insert_of_mem _ hm)
  constructor
  · rcases hmem with rfl | hm
    · rcases max_choice worst (declinePct peak equity) with h | h <;> rw [h]
      · exact Set.mem_insert _ _
      · exact Set.mem_insert_of_mem _ (mem_declines_cons_cons.mpr (Or.inl rfl))
    · exact Set.mem_insert_of_mem _ (mem_declines_cons_cons.mpr (Or.inr (Or.inl hm)))
  · rintro decline (rfl | hm)
    · exact (le_max_left _ _).trans hmax
    · obtain rfl | hm | hm := mem_declines_cons_cons.mp hm
      · exact (le_max_right _ _).trans hmax
      · exact hfromPeak decline hm
      · obtain ⟨now, hnow, rfl⟩ | hm := mem_declines_cons.mp hm
        · rcases List.mem_cons.mp hnow with rfl | hnow
          · rw [declinePct_self]
            exact hworst.trans ((le_max_left _ _).trans hmax)
          · exact (declinePct_le hequity hle (hlater now hnow)).trans
              (hfromPeak _ (declinePct_mem_declines (List.mem_cons_of_mem _ hnow)))
        · exact hfromPeak decline (mem_declines_cons.mpr (Or.inr hm))

end Pass

theorem isGreatest_worstDecline {rest : List ℚ} {peak worst : ℚ} (hpeak : 0 < peak)
    (hrest : ∀ equity ∈ rest, 0 < equity) (hworst : 0 ≤ worst) :
    IsGreatest (insert worst (declines (peak :: rest))) (worstDecline peak worst rest) := by
  induction rest generalizing peak worst with
  | nil =>
    refine ⟨Set.mem_insert _ _, ?_⟩
    rintro decline (rfl | hm)
    · exact le_rfl
    · obtain ⟨now, hnow, rfl⟩ | ⟨i, j, before, now, _, hbefore, _⟩ := mem_declines_cons.mp hm
      · obtain rfl : now = peak := by simpa using hnow
        rwa [declinePct_self]
      · simp at hbefore
  | cons equity rest ih =>
    obtain ⟨hequity, hlater⟩ := List.forall_mem_cons.mp hrest
    by_cases hnew : peak < equity
    · rw [worstDecline_cons_of_lt hnew]
      exact isGreatest_of_new_peak hpeak hrest hworst hnew
        (ih hequity hlater hworst)
    · have hle := not_lt.mp hnew
      rw [worstDecline_cons_of_le hpeak hle]
      exact isGreatest_of_same_peak hrest hworst hle
        (ih hpeak hlater (hworst.trans (le_max_left _ _)))

/-- The pass starts at the first value, which is its own peak and declines by nothing. -/
theorem isGreatest_maxDrawdownPct {equities : List ℚ} (hne : equities ≠ [])
    (hpos : ∀ equity ∈ equities, 0 < equity) :
    IsGreatest (declines equities) (maxDrawdownPct equities) := by
  cases equities with
  | nil => exact absurd rfl hne
  | cons first rest =>
    obtain ⟨hfirst, hlater⟩ := List.forall_mem_cons.mp hpos
    have hstart : maxDrawdownPct (first :: rest) = worstDecline first 0 rest := by
      rw [maxDrawdownPct, Scalar.zero_rat, worstDecline_cons_of_le hfirst le_rfl, declinePct_self,
        max_self]
    rw [hstart, ← Set.insert_eq_of_mem (zero_mem_declines hne)]
    exact isGreatest_worstDecline hfirst hlater le_rfl

theorem decline_lt {equities : List ℚ} (hpos : ∀ equity ∈ equities, 0 < equity) {decline : ℚ}
    (h : decline ∈ declines equities) : decline < 100 := by
  obtain ⟨i, j, before, now, _, hbefore, hnow, rfl⟩ := h
  rw [← declinePct_rat]
  exact declinePct_lt (hpos before (List.mem_of_getElem? hbefore))
    (hpos now (List.mem_of_getElem? hnow))

/-- A curve that never decreases is one without any decline. -/
theorem isChain_le_iff {equities : List ℚ} (hpos : ∀ equity ∈ equities, 0 < equity) :
    equities.IsChain (· ≤ ·) ↔ ∀ decline ∈ declines equities, decline ≤ 0 := by
  rw [List.isChain_iff_pairwise]
  induction equities with
  | nil =>
    refine ⟨?_, fun _ => List.Pairwise.nil⟩
    rintro _ decline ⟨i, j, before, now, _, hbefore, _⟩
    simp at hbefore
  | cons first rest ih =>
    obtain ⟨hfirst, hlater⟩ := List.forall_mem_cons.mp hpos
    rw [List.pairwise_cons, ih hlater]
    constructor
    · rintro ⟨hle, hrest⟩ decline hm
      obtain ⟨now, hnow, rfl⟩ | hm := mem_declines_cons.mp hm
      · rcases List.mem_cons.mp hnow with rfl | hnow
        · exact declinePct_self.le
        · exact (declinePct_nonpos_iff hfirst).mpr (hle now hnow)
      · exact hrest decline hm
    · intro hall
      refine ⟨fun now hnow => ?_,
        fun decline hm => hall decline (mem_declines_cons.mpr (Or.inr hm))⟩
      exact (declinePct_nonpos_iff hfirst).mp
        (hall _ (declinePct_mem_declines (List.mem_cons_of_mem _ hnow)))

/-- On a curve of positive values the figure is the greatest decline between two values in their
order, which is nothing on a curve that never decreases and always less than everything. The curve
of a run is such a one, if it starts at a positive base and the closes are positive. -/
theorem maxDrawdown_is_greatest_decline :
    (∀ equities : List ℚ, (∀ equity ∈ equities, 0 < equity) →
      (equities ≠ [] → IsGreatest (declines equities) (maxDrawdownPct equities)) ∧
      (equities = [] → maxDrawdownPct equities = 0) ∧
      (maxDrawdownPct equities = 0 ↔ equities.IsChain (· ≤ ·)) ∧
      0 ≤ maxDrawdownPct equities ∧ maxDrawdownPct equities < 100) ∧
    ∀ (strategy : Strategy ℚ) (options : Options ℚ) (bars : List (Bar ℚ)),
      0 < options.equityBase → (∀ bar ∈ bars, 0 < bar.close) →
      let equities := (run strategy bars options).equity.map (·.equity)
      (∀ equity ∈ equities, 0 < equity) ∧
      (run strategy bars options).maxDrawdownPct = maxDrawdownPct equities ∧
      (bars ≠ [] → IsGreatest (declines equities) (run strategy bars options).maxDrawdownPct) := by
  constructor
  · intro equities hpos
    by_cases hne : equities = []
    · subst hne
      have hzero : maxDrawdownPct ([] : List ℚ) = 0 := Scalar.zero_rat
      simp [hzero]
    · have hgreatest := isGreatest_maxDrawdownPct hne hpos
      have hnonneg := hgreatest.2 (zero_mem_declines hne)
      refine ⟨fun _ => hgreatest, fun h => absurd h hne, ?_, hnonneg, decline_lt hpos hgreatest.1⟩
      rw [isChain_le_iff hpos]
      exact ⟨fun hzero decline hm => hzero ▸ hgreatest.2 hm,
        fun hall => le_antisymm (hall _ hgreatest.1) hnonneg⟩
  · intro strategy options bars hbase hcloses equities
    have hpos : ∀ equity ∈ equities, 0 < equity := by
      intro equity hm
      obtain ⟨point, hpoint, rfl⟩ := List.mem_map.mp hm
      obtain ⟨i, hi⟩ := List.mem_iff_getElem?.mp hpoint
      exact run_equity_pos strategy options hcloses hbase hi
    refine ⟨hpos, rfl, fun hbars => isGreatest_maxDrawdownPct ?_ hpos⟩
    have hlen := (causal_run_equity strategy options).length_eq bars
    intro hnil
    have hnone : (run strategy bars options).equity = [] := by simpa [equities] using hnil
    rw [hnone] at hlen
    exact hbars (List.eq_nil_of_length_eq_zero hlen.symm)

/-- The worst decline of this curve ends at its third value, and is not undone by the later peak. -/
theorem maxDrawdown_is_greatest_decline_early :
    let equities : List ℚ := [100, 120, 90, 130, 117]
    let bars : List (Bar ℚ) := dailyBars [10, 9, 8, 12, 13, 7]
    (∀ equity ∈ equities, 0 < equity) ∧ equities ≠ [] ∧
    IsGreatest (declines equities) (maxDrawdownPct equities) ∧ maxDrawdownPct equities = 25 ∧
    0 < (Options.standard : Options ℚ).equityBase ∧ (∀ bar ∈ bars, 0 < bar.close) ∧ bars ≠ [] ∧
    ∀ equity ∈ (run followTurns bars .standard).equity.map (·.equity), 0 < equity := by
  intro equities bars
  have hpos : ∀ equity ∈ equities, 0 < equity := by decide +kernel
  have hne : equities ≠ [] := List.cons_ne_nil _ _
  have hbase : 0 < (Options.standard : Options ℚ).equityBase := by decide +kernel
  have hcloses : ∀ bar ∈ bars, 0 < bar.close := by decide +kernel
  exact ⟨hpos, hne, (maxDrawdown_is_greatest_decline.1 equities hpos).1 hne, by decide +kernel,
    hbase, hcloses, List.cons_ne_nil _ _,
    (maxDrawdown_is_greatest_decline.2 followTurns .standard bars hbase hcloses).1⟩

end Backtest
