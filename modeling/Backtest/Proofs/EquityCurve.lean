import Backtest.Equity

/-!
The equity curve point by point: each bar has its point, and a point follows from the one before
it by the move between the two closes.
-/

namespace Backtest

variable {α : Type} [Scalar α]

theorem length_equityAfter (before equity : α) (bars : List (Bar α)) (exposure : List Bool) :
    (equityAfter before equity bars exposure).length = bars.length := by
  induction bars generalizing before equity exposure with
  | nil => rfl
  | cons bar bars ih => simp [equityAfter, ih]

theorem equityAfter_take (k : Nat) (before equity : α) (bars : List (Bar α)) (exposure : List Bool) :
    (equityAfter before equity bars exposure).take k =
      equityAfter before equity (bars.take k) (exposure.take k) := by
  induction bars generalizing before equity exposure k with
  | nil => simp [equityAfter]
  | cons bar bars ih =>
    cases k with
    | zero => simp [equityAfter]
    | succ k => cases exposure <;> simp [equityAfter, ih]

theorem dates_equityAfter (before equity : α) (bars : List (Bar α)) (exposure : List Bool) :
    (equityAfter before equity bars exposure).map (·.date) = bars.map (·.date) := by
  induction bars generalizing before equity exposure with
  | nil => rfl
  | cons bar bars ih => simp [equityAfter, ih]

theorem flags_equityAfter (before equity : α) {bars : List (Bar α)} {exposure : List Bool}
    (h : exposure.length = bars.length) :
    (equityAfter before equity bars exposure).map (·.inPosition) = exposure := by
  induction bars generalizing before equity exposure with
  | nil => rw [List.eq_nil_of_length_eq_zero h]; rfl
  | cons bar bars ih =>
    cases exposure with
    | nil => cases h
    | cons held exposure => simp [equityAfter, ih _ _ (Nat.succ.inj h)]

theorem dates_equityCurve (bars : List (Bar α)) (exposure : List Bool) (base : α) :
    (equityCurve bars exposure base).map (·.date) = bars.map (·.date) := by
  cases bars with
  | nil => rfl
  | cons bar bars => simp [equityCurve, dates_equityAfter]

theorem flags_equityCurve {bars : List (Bar α)} {exposure : List Bool} (base : α)
    (h : exposure.length = bars.length) (hfirst : exposure[0]? ≠ some true) :
    (equityCurve bars exposure base).map (·.inPosition) = exposure := by
  cases bars with
  | nil => rw [List.eq_nil_of_length_eq_zero h]; rfl
  | cons bar bars =>
    cases exposure with
    | nil => cases h
    | cons held exposure =>
      have hheld : held = false := by simpa using hfirst
      simp [equityCurve, flags_equityAfter _ _ (Nat.succ.inj h), hheld]

theorem equityAfter_of_idle (before equity : α) (bars : List (Bar α)) {exposure : List Bool}
    (h : ∀ held ∈ exposure, held = false) :
    equityAfter before equity bars exposure = bars.map (fun bar => ⟨bar.date, equity, false⟩) := by
  induction bars generalizing before exposure with
  | nil => rfl
  | cons bar bars ih =>
    have hheld : exposure.headD false = false := by
      cases exposure with
      | nil => rfl
      | cons held exposure => exact h held List.mem_cons_self
    have htail := ih bar.close (fun held hm => h held (List.mem_of_mem_tail hm))
    simpa only [equityAfter, hheld, Bool.false_eq_true, if_false, List.map_cons] using
      congrArg _ htail

/-- The curve stands still while nothing is held. -/
theorem equityCurve_of_idle (bars : List (Bar α)) {exposure : List Bool} (base : α)
    (h : ∀ held ∈ exposure, held = false) :
    equityCurve bars exposure base = bars.map (fun bar => ⟨bar.date, base, false⟩) := by
  cases bars with
  | nil => rfl
  | cons bar bars =>
    exact congrArg _
      (equityAfter_of_idle bar.close base bars (fun held hm => h held (List.mem_of_mem_tail hm)))

/-- The point after a move between two bars. -/
def EquityPoint.next (point : EquityPoint α) (before bar : Bar α) (held : Bool) : EquityPoint α :=
  ⟨bar.date, if held then compound point.equity before.close bar.close else point.equity, held⟩

theorem getElem?_cons_equityAfter (point : EquityPoint α) {point' : EquityPoint α}
    {first before bar : Bar α} {rest : List (Bar α)} {exposure : List Bool} {i : Nat} {held : Bool}
    (hpoint : (point :: equityAfter first.close point.equity rest exposure)[i]? = some point')
    (hbefore : (first :: rest)[i]? = some before) (hbar : rest[i]? = some bar)
    (hheld : exposure[i]? = some held) :
    (equityAfter first.close point.equity rest exposure)[i]? =
      some (point'.next before bar held) := by
  induction rest generalizing point first exposure i with
  | nil => simp at hbar
  | cons second rest ih =>
    cases exposure with
    | nil => simp at hheld
    | cons flag exposure =>
      cases i with
      | zero =>
        obtain rfl : point = point' := by simpa using hpoint
        obtain rfl : first = before := by simpa using hbefore
        obtain rfl : second = bar := by simpa using hbar
        obtain rfl : flag = held := by simpa using hheld
        rfl
      | succ i => exact ih (point.next first second flag) hpoint hbefore hbar hheld

theorem getElem?_equityCurve_zero {bars : List (Bar α)} {exposure : List Bool} {base : α}
    {point : EquityPoint α} (h : (equityCurve bars exposure base)[0]? = some point) :
    point.equity = base := by
  cases bars with
  | nil => cases h
  | cons bar bars => rw [← Option.some.inj h]

theorem getElem?_equityCurve_succ {bars : List (Bar α)} {exposure : List Bool} {base : α} {i : Nat}
    {before bar : Bar α} {held : Bool} {point : EquityPoint α}
    (hpoint : (equityCurve bars exposure base)[i]? = some point)
    (hbefore : bars[i]? = some before) (hbar : bars[i + 1]? = some bar)
    (hheld : exposure[i + 1]? = some held) :
    (equityCurve bars exposure base)[i + 1]? = some (point.next before bar held) := by
  cases bars with
  | nil => cases hbar
  | cons first rest =>
    cases exposure with
    | nil => simp at hheld
    | cons flag exposure => exact getElem?_cons_equityAfter ⟨_, base, _⟩ hpoint hbefore hbar hheld

end Backtest
