import Backtest.Proofs.Rounding
import Backtest.Run

/-!
Bounds for the figures of a run. No close is further above an earlier one than the closes climb in
all, so the climb bounds the growth of the index and the returns, and these bound their sum. Every
operation adds its rounding error.
-/

namespace Backtest

open Scalar Binary64

/-! ## How far a series climbs -/

/-- The product of all moves upwards. -/
def climb : List ℚ → ℚ
  | a :: b :: rest => max 1 (b / a) * climb (b :: rest)
  | _ => 1

section Climb

variable {a : ℚ} {xs : List ℚ}

theorem one_le_climb (xs : List ℚ) : 1 ≤ climb xs := by
  fun_induction climb xs with
  | case1 a b rest ih => exact one_le_mul_of_one_le_of_one_le (le_max_left _ _) ih
  | case2 => exact le_rfl

theorem climb_nonneg (xs : List ℚ) : 0 ≤ climb xs := zero_le_one.trans (one_le_climb xs)

theorem climb_tail_le (a : ℚ) (xs : List ℚ) : climb xs ≤ climb (a :: xs) := by
  cases xs with
  | nil => exact le_rfl
  | cons b rest => exact le_mul_of_one_le_left (climb_nonneg _) (le_max_left _ _)

theorem le_climb_mul_head (hpos : ∀ x ∈ a :: xs, 0 < x) {x : ℚ} (hx : x ∈ a :: xs) :
    x ≤ climb (a :: xs) * a := by
  induction xs generalizing a with
  | nil => simpa [climb] using (List.mem_singleton.mp hx).le
  | cons b rest ih =>
    have ha := hpos a List.mem_cons_self
    rcases List.mem_cons.mp hx with rfl | hx
    · exact le_mul_of_one_le_left ha.le (one_le_climb _)
    · have hmove : b ≤ max 1 (b / a) * a := (div_le_iff₀ ha).mp (le_max_right _ _)
      calc x ≤ climb (b :: rest) * b := ih (fun y hy => hpos y (List.mem_cons_of_mem _ hy)) hx
        _ ≤ climb (b :: rest) * (max 1 (b / a) * a) :=
            mul_le_mul_of_nonneg_left hmove (climb_nonneg _)
        _ = climb (a :: b :: rest) * a := by rw [climb]; ring

theorem getElem?_le_climb_mul (hpos : ∀ x ∈ xs, 0 < x) {i j : Nat} {p q : ℚ} (hij : i ≤ j)
    (hp : xs[i]? = some p) (hq : xs[j]? = some q) : q ≤ climb xs * p := by
  induction xs generalizing i j with
  | nil => simp at hp
  | cons a xs ih =>
    cases i with
    | zero =>
      obtain rfl : a = p := by simpa using hp
      exact le_climb_mul_head hpos (List.mem_of_getElem? hq)
    | succ i =>
      cases j with
      | zero => omega
      | succ j =>
        have hpos' : ∀ x ∈ xs, 0 < x := fun x hx => hpos x (List.mem_cons_of_mem _ hx)
        have hle := ih hpos' (Nat.le_of_succ_le_succ hij) hp hq
        exact hle.trans (mul_le_mul_of_nonneg_right (climb_tail_le a xs)
          (hpos' p (List.mem_of_getElem? hp)).le)

end Climb

/-! ## Prices -/

def exactValue (x : Float) : ℚ := (exactValue? x).getD 0

structure IsPrice (x : Float) : Prop where
  exact : exactValue? x = some (exactValue x)
  pos : 0 < exactValue x

section Prices

variable {x : Float}

theorem isPositive_iff {q : ℚ} (hx : exactValue? x = some q) : isPositive x = true ↔ 0 < q := by
  have hzero : exactValue? (Nat.toFloat 0) = some ((0 : Nat) : ℚ) := exactValue?_toFloat (by decide)
  rw [← Nat.cast_zero, ← lt_iff_exactValue_lt hzero hx]
  exact decide_eq_true_iff

theorem isPrice_iff : IsPrice x ↔ x.isFinite = true ∧ isPositive x = true := by
  rw [isFinite_iff]
  constructor
  · rintro ⟨hexact, hpos⟩
    exact ⟨⟨_, hexact⟩, (isPositive_iff hexact).mpr hpos⟩
  · rintro ⟨⟨q, hq⟩, hpositive⟩
    have hvalue : exactValue x = q := by rw [exactValue, hq]; rfl
    exact ⟨hvalue ▸ hq, hvalue ▸ (isPositive_iff hq).mp hpositive⟩

theorem IsPrice.isPositive (h : IsPrice x) : isPositive x = true := (isPrice_iff.mp h).2

theorem IsPrice.isFinite (h : IsPrice x) : x.isFinite = true := (isPrice_iff.mp h).1

theorem IsPrice.within (h : IsPrice x) : Within x (exactValue x) :=
  ⟨_, h.exact, (abs_of_pos h.pos).le⟩

theorem Bar.isPrice_close {bar : Bar Float} (h : bar.hasValidPrices = true) :
    IsPrice bar.close := by
  simp only [Bar.hasValidPrices, List.all_eq_true, Bool.and_eq_true] at h
  exact isPrice_iff.mpr (h bar.close (by simp))

theorem IsPrice.mul_lt_huge (h : IsPrice x) : exactValue x * (1 + epsilon) < huge :=
  abs_of_pos h.pos ▸ abs_mul_lt_huge h.exact

/-- No price is so small that the least normal value is far above it. -/
theorem IsPrice.tiny_le (h : IsPrice x) : tiny ≤ 2 ^ 52 * exactValue x := by
  have hleast := le_abs_of_ne_zero h.exact h.pos.ne'
  rw [abs_of_pos h.pos] at hleast
  have hscale : (2 : ℚ) ^ 52 * (2 * epsilon) = 1 := by norm_num [epsilon]
  calc tiny = 2 ^ 52 * (2 * epsilon) * tiny := by rw [hscale, one_mul]
    _ = 2 ^ 52 * (2 * (epsilon * tiny)) := by ring
    _ ≤ _ := by gcongr

end Prices

/-! ## Room below the end of the range -/

/-- A bound that may be exceeded by an error, or be doubled. -/
structure Roomy (bound : ℚ) : Prop where
  one_le : 1 ≤ bound
  le : bound ≤ 2 ^ 1022

section Room

variable {x : Float} {bound : ℚ}

theorem one_add_epsilon_le : 1 + epsilon ≤ 2 := by norm_num [epsilon]

theorem one_lt_one_add_epsilon : 1 < 1 + epsilon := lt_add_of_pos_right 1 epsilon_pos

theorem tiny_le_one : tiny ≤ 1 := zpow_le_one_of_nonpos₀ one_le_two (by decide)

theorem Roomy.tiny_le (h : Roomy bound) : tiny ≤ bound := tiny_le_one.trans h.one_le

theorem Roomy.le_double (h : Roomy bound) : bound * (1 + epsilon) ≤ 2 * bound := by
  rw [mul_comm 2]
  exact mul_le_mul_of_nonneg_left one_add_epsilon_le (zero_le_one.trans h.one_le)

theorem two_mul_lt_huge (h : bound ≤ 2 ^ 1022) : 2 * bound < huge := by
  calc 2 * bound ≤ 2 ^ 1023 := by
        rw [pow_succ']
        exact mul_le_mul_of_nonneg_left h zero_le_two
    _ < 2 ^ 1024 := pow_lt_pow_right₀ one_lt_two (by decide)
    _ = huge := (zpow_natCast 2 1024).symm

theorem Roomy.lt_huge (h : Roomy bound) : bound * (1 + epsilon) < huge :=
  h.le_double.trans_lt (two_mul_lt_huge h.le)

theorem Roomy.within (h : Roomy bound) (hx : Within x (bound * (1 + epsilon))) :
    Within x (2 * bound) := hx.mono h.le_double

theorem Roomy.within_div (h : Roomy bound) {y : Float} {p q : ℚ} (hx : exactValue? x = some p)
    (hy : exactValue? y = some q) (hne : q ≠ 0) (hpq : |p / q| ≤ bound) :
    Within (x / y) (2 * bound) :=
  h.within (Backtest.within_div hx hy hne hpq h.tiny_le h.lt_huge)

/-- Many roundings in a row do not even double a value. -/
theorem one_add_epsilon_pow_le {n : Nat} (hn : n ≤ 2 ^ 52) : (1 + epsilon) ^ n ≤ 2 := by
  have hbernoulli : 1 - n * epsilon ≤ (1 - epsilon) ^ n := by
    simpa [sub_eq_add_neg] using one_add_mul_le_pow (a := -epsilon) (by norm_num [epsilon]) n
  have hhalf : (n : ℚ) * epsilon ≤ 1 / 2 := by
    have hn' : (n : ℚ) ≤ 2 ^ 52 := by exact_mod_cast hn
    calc (n : ℚ) * epsilon ≤ 2 ^ 52 * epsilon := mul_le_mul_of_nonneg_right hn' epsilon_pos.le
      _ = 1 / 2 := by norm_num [epsilon]
  have hproduct : (1 + epsilon) ^ n * (1 - epsilon) ^ n ≤ 1 := by
    rw [← mul_pow]
    exact pow_le_one₀ (by norm_num [epsilon]) (by norm_num [epsilon])
  have hpos : (0 : ℚ) ≤ (1 + epsilon) ^ n := pow_nonneg (by linarith [epsilon_pos]) n
  have hstep : (1 + epsilon) ^ n * (1 / 2) ≤ (1 + epsilon) ^ n * (1 - epsilon) ^ n :=
    mul_le_mul_of_nonneg_left (by linarith) hpos
  linarith

end Room

/-! ## The index -/

section Index

variable {before close equity : Float} {bound : ℚ} {bars : List (Bar Float)}

theorem le_mul_mul_pow {a b : ℚ} (ha : 0 ≤ a) (hb : 1 ≤ b) (n : Nat) :
    a ≤ a * b * (1 + epsilon) ^ n := by
  rw [mul_assoc]
  exact le_mul_of_one_le_right ha
    (one_le_mul_of_one_le_of_one_le hb (one_le_pow₀ one_lt_one_add_epsilon.le))

theorem within_compound (hbefore : IsPrice before) (hclose : IsPrice close)
    (hequity : Within equity bound) (htiny : tiny ≤ bound) {move : ℚ}
    (hmove : move = max 1 (exactValue close / exactValue before))
    (hratio : move * (1 + epsilon) < huge) (hhuge : bound * move * (1 + epsilon) ^ 2 < huge) :
    Within (compound equity before close) (bound * move * (1 + epsilon) ^ 2) := by
  have hone : 1 ≤ move := hmove ▸ le_max_left _ _
  have hbound : 0 ≤ bound := tiny_pos.le.trans htiny
  obtain ⟨q, hq, hle⟩ := hequity
  unfold compound
  split
  · have hquotient : |exactValue close / exactValue before| ≤ move := by
      rw [abs_of_pos (div_pos hclose.pos hbefore.pos), hmove]
      exact le_max_right _ _
    obtain ⟨r, hr, hle'⟩ := within_div hclose.exact hbefore.exact hbefore.pos.ne' hquotient
      (tiny_le_one.trans hone) hratio
    have hproduct : |q * r| ≤ bound * move * (1 + epsilon) := by
      rw [abs_mul, mul_assoc]
      exact mul_le_mul hle hle' (abs_nonneg r) hbound
    have hgrown : tiny ≤ bound * move * (1 + epsilon) := by
      simpa using htiny.trans (le_mul_mul_pow hbound hone 1)
    rw [pow_two, ← mul_assoc] at hhuge ⊢
    exact within_mul hq hr hproduct hgrown hhuge
  · exact ⟨q, hq, hle.trans (le_mul_mul_pow hbound hone 2)⟩

/-- What one bar does to the index, whether a position is held or not. -/
theorem within_next (held : Bool) (hbefore : IsPrice before) (hclose : IsPrice close)
    (hequity : Within equity bound) (htiny : tiny ≤ bound) {move : ℚ}
    (hmove : move = max 1 (exactValue close / exactValue before))
    (hratio : move * (1 + epsilon) < huge) (hhuge : bound * move * (1 + epsilon) ^ 2 < huge) :
    Within (if held then compound equity before close else equity)
      (bound * move * (1 + epsilon) ^ 2) := by
  cases held with
  | true => exact within_compound hbefore hclose hequity htiny hmove hratio hhuge
  | false =>
    have hone : 1 ≤ move := hmove ▸ le_max_left _ _
    exact hequity.mono (le_mul_mul_pow (tiny_pos.le.trans htiny) hone 2)

/-- The index stays below its first value times the climb, but for the errors of two operations
at each bar. -/
theorem within_equityAfter {exposure : List Bool} (hbefore : IsPrice before)
    (hbars : ∀ bar ∈ bars, IsPrice bar.close) (hequity : Within equity bound) (htiny : tiny ≤ bound)
    {total : ℚ} (htotal : total = climb (exactValue before :: (closes bars).map exactValue))
    (hratio : total * (1 + epsilon) < huge)
    (hhuge : bound * total * (1 + epsilon) ^ (2 * bars.length) < huge) :
    ∀ point ∈ equityAfter before equity bars exposure,
      Within point.equity (bound * total * (1 + epsilon) ^ (2 * bars.length)) := by
  induction bars generalizing before equity bound exposure total with
  | nil => simp [equityAfter]
  | cons bar bars ih =>
    have hbar := hbars bar List.mem_cons_self
    have hbound : 0 ≤ bound := tiny_pos.le.trans htiny
    have heps : 0 ≤ 1 + epsilon := zero_le_one.trans one_lt_one_add_epsilon.le
    obtain ⟨move, hmove⟩ : ∃ move, move = max 1 (exactValue bar.close / exactValue before) :=
      ⟨_, rfl⟩
    obtain ⟨rest, hrest⟩ :
        ∃ rest, rest = climb (exactValue bar.close :: (closes bars).map exactValue) := ⟨_, rfl⟩
    have hsplit : total = move * rest := by rw [htotal, hmove, hrest]; rfl
    have hone : 1 ≤ move := hmove ▸ le_max_left _ _
    have hone' : 1 ≤ rest := hrest ▸ one_le_climb _
    have hmoveLe : move ≤ total := hsplit ▸ le_mul_of_one_le_right (zero_le_one.trans hone) hone'
    have hrestLe : rest ≤ total := hsplit ▸ le_mul_of_one_le_left (zero_le_one.trans hone') hone
    -- What the first bar adds to the bound, and what remains for the others.
    have hproduct : bound * total * (1 + epsilon) ^ (2 * (bar :: bars).length) =
        bound * move * (1 + epsilon) ^ 2 * rest * (1 + epsilon) ^ (2 * bars.length) := by
      rw [hsplit, List.length_cons, Nat.mul_succ, pow_add]
      ring
    have hgrown : tiny ≤ bound * move * (1 + epsilon) ^ 2 :=
      htiny.trans (le_mul_mul_pow hbound hone 2)
    have hfirst : bound * move * (1 + epsilon) ^ 2 ≤
        bound * total * (1 + epsilon) ^ (2 * (bar :: bars).length) :=
      hproduct ▸ le_mul_mul_pow (tiny_pos.le.trans hgrown) hone' _
    have hnext := within_next (exposure.headD false) hbefore hbar hequity htiny hmove
      ((mul_le_mul_of_nonneg_right hmoveLe heps).trans_lt hratio) (hfirst.trans_lt hhuge)
    intro point hpoint
    rcases List.mem_cons.mp hpoint with rfl | hpoint
    · exact hnext.mono hfirst
    · rw [hproduct] at hhuge ⊢
      exact ih hbar (fun bar' hm => hbars bar' (List.mem_cons_of_mem _ hm)) hnext hgrown hrest
        ((mul_le_mul_of_nonneg_right hrestLe heps).trans_lt hratio) hhuge point hpoint

end Index

/-! ## Returns -/

section Returns

variable {entry exit base final : Float} {limit : ℚ}

theorem Roomy.of_scale {k : Nat} (hone : 1 ≤ limit) (hlimit : limit ≤ 2 ^ 900) (hk : k ≤ 122) :
    Roomy (2 ^ k * limit) where
  one_le := one_le_mul_of_one_le_of_one_le (one_le_pow₀ one_le_two) hone
  le := by
    calc (2 : ℚ) ^ k * limit ≤ 2 ^ k * 2 ^ 900 := by gcongr
      _ = 2 ^ (k + 900) := (pow_add 2 k 900).symm
      _ ≤ 2 ^ 1022 := pow_le_pow_right₀ one_le_two (by omega)

theorem exactValue?_hundred : exactValue? (hundred : Float) = some 100 :=
  exactValue?_toFloat (n := 100) (by decide)

theorem within_hundredfold {x : Float} {k : Nat} (hx : Within x (2 ^ k * limit)) (hone : 1 ≤ limit)
    (hlimit : limit ≤ 2 ^ 900) (hk : k ≤ 115) : Within (x * hundred) (2 ^ (k + 8) * limit) := by
  obtain ⟨q, hq, hle⟩ := hx
  have hroomy : Roomy (2 ^ (k + 7) * limit) := Roomy.of_scale hone hlimit (by omega)
  have hproduct : |q * 100| ≤ 2 ^ (k + 7) * limit := by
    rw [abs_mul, abs_of_pos (by norm_num : (0 : ℚ) < 100), pow_add]
    linarith [abs_nonneg q]
  have hdouble : 2 * (2 ^ (k + 7) * limit) = 2 ^ (k + 8) * limit := by ring
  exact hdouble ▸ hroomy.within
    (within_mul hq exactValue?_hundred hproduct hroomy.tiny_le hroomy.lt_huge)

/-- The difference of two prices is finite, also of prices at the end of the range. -/
theorem within_difference (hentry : IsPrice entry) (hexit : IsPrice exit) :
    Within (exit - entry) (2 * max (max (exactValue entry) (exactValue exit)) tiny) := by
  have hentryLe := le_max_left (exactValue entry) (exactValue exit)
  have hexitLe := le_max_right (exactValue entry) (exactValue exit)
  have hhuge : max (exactValue entry) (exactValue exit) * (1 + epsilon) < huge := by
    rcases max_choice (exactValue entry) (exactValue exit) with h | h <;> rw [h]
    · exact hentry.mul_lt_huge
    · exact hexit.mul_lt_huge
  generalize max (exactValue entry) (exactValue exit) = larger at *
  have hdifference : |exactValue exit - exactValue entry| ≤ max larger tiny := by
    have hentryPos := hentry.pos
    have hexitPos := hexit.pos
    have hlarger := le_max_left larger tiny
    exact abs_sub_le_iff.mpr ⟨by linarith, by linarith⟩
  have hhuge' : max larger tiny * (1 + epsilon) < huge := by
    rcases max_choice larger tiny with h | h <;> rw [h]
    · exact hhuge
    · exact (mul_le_mul_of_nonneg_right tiny_le_one
        (zero_le_one.trans one_lt_one_add_epsilon.le)).trans_lt
          (Roomy.lt_huge ⟨le_rfl, one_le_pow₀ one_le_two⟩)
  have hwide : max larger tiny * (1 + epsilon) ≤ 2 * max larger tiny := by
    rw [mul_comm 2]
    exact mul_le_mul_of_nonneg_left one_add_epsilon_le (tiny_pos.le.trans (le_max_right _ _))
  exact (within_sub hexit.exact hentry.exact hdifference (le_max_right _ _) hhuge').mono hwide

/-- The return between two prices, where the second is at most some multiple of the first. -/
theorem within_returnPct (hentry : IsPrice entry) (hexit : IsPrice exit)
    (hle : exactValue exit ≤ limit * exactValue entry) (hone : 1 ≤ limit)
    (hlimit : limit ≤ 2 ^ 900) : Within (returnPct entry exit) (2 ^ 62 * limit) := by
  have hp := hentry.pos
  have hentryLe : exactValue entry ≤ limit * exactValue entry :=
    le_mul_of_one_le_left hp.le hone
  have hwiden : limit * exactValue entry ≤ 2 ^ 52 * (limit * exactValue entry) :=
    le_mul_of_one_le_left (hp.le.trans hentryLe) (one_le_pow₀ one_le_two)
  have htiny : tiny ≤ 2 ^ 52 * (limit * exactValue entry) :=
    hentry.tiny_le.trans (mul_le_mul_of_nonneg_left hentryLe (by positivity))
  obtain ⟨d, hd, hdLe⟩ := within_difference hentry hexit
  have hquotient : |d / exactValue entry| ≤ 2 ^ 53 * limit := by
    rw [abs_div, abs_of_pos hp, div_le_iff₀ hp]
    calc |d| ≤ 2 * max (max (exactValue entry) (exactValue exit)) tiny := hdLe
      _ ≤ 2 * (2 ^ 52 * (limit * exactValue entry)) := mul_le_mul_of_nonneg_left
          (max_le (max_le (hentryLe.trans hwiden) (hle.trans hwiden)) htiny) zero_le_two
      _ = 2 ^ 53 * limit * exactValue entry := by ring
  have hroomy : Roomy (2 ^ 53 * limit) := Roomy.of_scale hone hlimit (by decide)
  have hdouble : 2 * (2 ^ 53 * limit) = 2 ^ 54 * limit := by ring
  have hreturn : Within ((exit - entry) / entry) (2 ^ 54 * limit) := hdouble ▸
    hroomy.within_div hd hentry.exact hp.ne' hquotient
  rw [returnPct, if_pos hentry.isPositive]
  exact within_hundredfold hreturn hone hlimit (by decide)

/-- The return of the index, which may have lost its last bits near zero. -/
theorem within_totalReturnPct (hbase : IsPrice base)
    (hfinal : Within final (2 * (max (exactValue base) tiny * limit))) (hone : 1 ≤ limit)
    (hlimit : limit ≤ 2 ^ 900) : Within ((final / base - one) * hundred) (2 ^ 64 * limit) := by
  have hp := hbase.pos
  obtain ⟨q, hq, hle⟩ := hfinal
  have hsize : max (exactValue base) tiny ≤ 2 ^ 52 * exactValue base :=
    max_le (le_mul_of_one_le_left hp.le (one_le_pow₀ one_le_two)) hbase.tiny_le
  have hquotient : |q / exactValue base| ≤ 2 ^ 53 * limit := by
    rw [abs_div, abs_of_pos hp, div_le_iff₀ hp]
    calc |q| ≤ 2 * (max (exactValue base) tiny * limit) := hle
      _ ≤ 2 * (2 ^ 52 * exactValue base * limit) := by gcongr
      _ = 2 ^ 53 * limit * exactValue base := by ring
  have hroomy : Roomy (2 ^ 53 * limit) := Roomy.of_scale hone hlimit (by decide)
  obtain ⟨r, hr, hrLe⟩ := hroomy.within_div hq hbase.exact hp.ne' hquotient
  have honeExact : exactValue? (one : Float) = some 1 :=
    (exactValue?_toFloat (n := 1) (by decide)).trans (congrArg some Nat.cast_one)
  have hroomy' : Roomy (2 ^ 55 * limit) := Roomy.of_scale hone hlimit (by decide)
  have hdifference : |r - 1| ≤ 2 ^ 55 * limit := by
    have := abs_sub r 1
    rw [abs_one] at this
    linarith
  have hdouble : 2 * (2 ^ 55 * limit) = 2 ^ 56 * limit := by ring
  have hreturn : Within (final / base - one) (2 ^ 56 * limit) := hdouble ▸ hroomy'.within
    (within_sub hr honeExact hdifference hroomy'.tiny_le hroomy'.lt_huge)
  exact within_hundredfold hreturn hone hlimit (by decide)

end Returns

/-! ## Summary figures -/

section Summary

variable {xs : List Float} {bound limit : ℚ}

/-- Each term adds its bound and an error to the sum. -/
theorem within_foldl_add {acc : Float} {start : ℚ} (hacc : Within acc start)
    (hxs : ∀ x ∈ xs, Within x bound) (htiny : tiny ≤ start) (hbound : 0 ≤ bound)
    (hhuge : (start + xs.length * bound) * (1 + epsilon) ^ xs.length < huge) :
    Within (xs.foldl (· + ·) acc) ((start + xs.length * bound) * (1 + epsilon) ^ xs.length) := by
  induction xs generalizing acc start with
  | nil => simpa using hacc
  | cons x xs ih =>
    have heps := one_lt_one_add_epsilon.le
    have hstart : 0 ≤ start := tiny_pos.le.trans htiny
    have hcount : (0 : ℚ) ≤ xs.length * bound := mul_nonneg (Nat.cast_nonneg _) hbound
    have hsum : 0 ≤ start + bound := add_nonneg hstart hbound
    have hlength : ((x :: xs).length : ℚ) * bound = bound + xs.length * bound := by
      rw [List.length_cons, Nat.cast_succ]
      ring
    have hrest : ((start + bound) * (1 + epsilon) + xs.length * bound) * (1 + epsilon) ^ xs.length ≤
        (start + (x :: xs).length * bound) * (1 + epsilon) ^ (x :: xs).length := by
      rw [hlength, List.length_cons, pow_succ', ← mul_assoc]
      refine mul_le_mul_of_nonneg_right ?_ (pow_nonneg (zero_le_one.trans heps) _)
      have := le_mul_of_one_le_right hcount heps
      linarith
    have hfirst : (start + bound) * (1 + epsilon) < huge := by
      refine lt_of_le_of_lt ?_ (hrest.trans_lt hhuge)
      exact (le_add_of_nonneg_right hcount).trans (le_mul_of_one_le_right
        (add_nonneg (mul_nonneg hsum (zero_le_one.trans heps)) hcount) (one_le_pow₀ heps))
    obtain ⟨p, hp, hpLe⟩ := hacc
    obtain ⟨q, hq, hqLe⟩ := hxs x List.mem_cons_self
    have hwide : tiny ≤ start + bound := htiny.trans (le_add_of_nonneg_right hbound)
    have hnext : Within (acc + x) ((start + bound) * (1 + epsilon)) :=
      within_add hp hq ((abs_add_le p q).trans (add_le_add hpLe hqLe)) hwide hfirst
    exact (ih hnext (fun y hy => hxs y (List.mem_cons_of_mem _ hy))
      (hwide.trans (le_mul_of_one_le_right hsum heps)) (hrest.trans_lt hhuge)).mono hrest

theorem within_sum (hxs : ∀ x ∈ xs, Within x bound) (hne : xs ≠ []) (hlength : xs.length ≤ 2 ^ 52)
    (hroomy : Roomy (xs.length * bound)) (hbound : 1 ≤ bound) :
    Within (sum xs) (2 * (xs.length * bound)) := by
  cases xs with
  | nil => exact absurd rfl hne
  | cons x xs =>
    have hnonneg := zero_le_one.trans hbound
    have hcount : bound + xs.length * bound = (x :: xs).length * bound := by
      rw [List.length_cons, Nat.cast_succ]
      ring
    have hle : (bound + xs.length * bound) * (1 + epsilon) ^ xs.length ≤
        2 * ((x :: xs).length * bound) := by
      rw [hcount, mul_comm 2]
      exact mul_le_mul_of_nonneg_left (one_add_epsilon_pow_le (Nat.le_of_succ_le hlength))
        (zero_le_one.trans hroomy.one_le)
    exact (within_foldl_add (hxs x List.mem_cons_self)
      (fun y hy => hxs y (List.mem_cons_of_mem _ hy)) (tiny_le_one.trans hbound) hnonneg
      (hle.trans_lt (two_mul_lt_huge hroomy.le))).mono hle

theorem exactValue?_count {n : Nat} (hn : n ≤ 2 ^ 52) :
    exactValue? (ofNat n : Float) = some (n : ℚ) :=
  exactValue?_toFloat (hn.trans_lt (by decide))

/-- No average is above the bound of what it is taken of, but for the errors in the sum. -/
theorem within_average (hxs : ∀ x ∈ xs, Within x bound) (hne : xs ≠ [])
    (hlength : xs.length ≤ 2 ^ 52) (hroomy : Roomy (2 * (xs.length * bound))) (hbound : 1 ≤ bound) :
    Within (sum xs / ofNat xs.length) (2 * (2 * (xs.length * bound))) := by
  have hcount : (1 : ℚ) ≤ xs.length := by exact_mod_cast List.length_pos_iff.mpr hne
  have hone : 1 ≤ xs.length * bound := one_le_mul_of_one_le_of_one_le hcount hbound
  have hhalf : Roomy (xs.length * bound) :=
    ⟨hone, (le_mul_of_one_le_left (zero_le_one.trans hone) one_le_two).trans hroomy.le⟩
  obtain ⟨q, hq, hle⟩ := within_sum hxs hne hlength hhalf hbound
  have hquotient : |q / xs.length| ≤ 2 * (xs.length * bound) := by
    rw [abs_div, abs_of_pos (zero_lt_one.trans_le hcount)]
    exact (div_le_self (abs_nonneg q) hcount).trans hle
  exact hroomy.within_div hq (exactValue?_count hlength) (by positivity) hquotient

theorem within_winRatePct {wins count : Nat} (hle : wins ≤ count) (hpos : 0 < count)
    (hcount : count ≤ 2 ^ 52) :
    Within ((ofNat wins : Float) / ofNat count * hundred) (2 ^ 9 * 1) := by
  have hquotient : |(wins : ℚ) / count| ≤ 1 := by
    rw [abs_of_nonneg (by positivity)]
    exact div_le_one_of_le₀ (by exact_mod_cast hle) (Nat.cast_nonneg _)
  have hroomy : Roomy 1 := ⟨le_rfl, one_le_pow₀ one_le_two⟩
  have hrate : Within ((ofNat wins : Float) / ofNat count) (2 ^ 1 * 1) := by
    rw [pow_one]
    exact hroomy.within_div (exactValue?_count (hle.trans hcount)) (exactValue?_count hcount)
      (by exact_mod_cast hpos.ne') hquotient
  exact within_hundredfold hrate le_rfl (one_le_pow₀ one_le_two) (by decide)

theorem finite_summarize {returns : List Float} {base final : Float} (hbase : IsPrice base)
    (hfinal : Within final (2 * (max (exactValue base) tiny * limit)))
    (hreturns : ∀ x ∈ returns, Within x (2 ^ 62 * limit)) (hcount : returns.length ≤ 2 ^ 51)
    (hone : 1 ≤ limit) (hlimit : limit ≤ 2 ^ 900) :
    let stats := Stats.summarize returns base final
    stats.totalReturnPct.isFinite = true ∧ stats.winRatePct.isFinite = true ∧
      stats.avgTradePct.isFinite = true := by
  intro stats
  have htotal := (within_totalReturnPct hbase hfinal hone hlimit).isFinite
  have hzero : (zero : Float).isFinite = true := rfl
  simp only [stats, Stats.summarize, if_pos hbase.isPositive]
  cases hempty : returns.isEmpty with
  | true =>
    rw [if_pos rfl]
    exact ⟨htotal, hzero, hzero⟩
  | false =>
    rw [if_neg Bool.false_ne_true]
    have hne : returns ≠ [] := by simpa using hempty
    have hpos := List.length_pos_iff.mpr hne
    have hlength : returns.length ≤ 2 ^ 52 := hcount.trans (by decide)
    have hbound : 1 ≤ 2 ^ 62 * limit := one_le_mul_of_one_le_of_one_le (one_le_pow₀ one_le_two) hone
    have hleast : 1 ≤ 2 * (returns.length * (2 ^ 62 * limit)) :=
      one_le_mul_of_one_le_of_one_le one_le_two
        (one_le_mul_of_one_le_of_one_le (by exact_mod_cast hpos) hbound)
    have hmost : 2 * (returns.length * (2 ^ 62 * limit)) ≤ 2 ^ 114 * limit := by
      have hcount' : (returns.length : ℚ) ≤ 2 ^ 51 := by exact_mod_cast hcount
      calc 2 * (returns.length * (2 ^ 62 * limit)) ≤ 2 * (2 ^ 51 * (2 ^ 62 * limit)) := by gcongr
        _ = 2 ^ 114 * limit := by ring
    have hroomy : Roomy (2 * (returns.length * (2 ^ 62 * limit))) :=
      ⟨hleast, hmost.trans (Roomy.of_scale hone hlimit (by decide)).le⟩
    exact ⟨htotal, (within_winRatePct List.countP_le_length hpos hlength).isFinite,
      (within_average hreturns hne hlength hroomy hbound).isFinite⟩

end Summary

end Backtest
