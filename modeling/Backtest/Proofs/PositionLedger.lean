import Backtest.Proofs.ExactArithmetic
import Backtest.Proofs.RoundTrips
import Mathlib.Data.List.Forall2

/-!
The positions of a machine under any sequence of calls. Whatever is opened is sold, dropped or still
open, once and in order, and the log has what was sold. The calls need not follow a series: bars and
their indices may come in any order and more than once.
-/

namespace Backtest

variable {α : Type}

inductive Call (α : Type) where
  | step (here : Mark α) (enter exit : Bool)
  | liquidate (here : Mark α)
  | openPosition (here : Mark α)
  deriving DecidableEq, Repr

namespace Call

def here : Call α → Mark α
  | step here _ _ | liquidate here | openPosition here => here

def asks : Call α → Bool
  | openPosition _ => true
  | _ => false

end Call

inductive Ending (α : Type) where
  | sold (exit : Mark α) (trade : Trade α)
  | dropped (exit : Mark α)
  deriving DecidableEq, Repr

namespace Ending

def sale? : Ending α → Option (Mark α × Trade α)
  | sold exit trade => some (exit, trade)
  | dropped _ => none

def drop? : Ending α → Option (Mark α)
  | sold _ _ => none
  | dropped exit => some exit

end Ending

variable [Scalar α]

/-- How an ending fits the bar at which the position was opened. A position is held for no bar where
the index of its exit is not above that of its entry. -/
def Ending.Of (opening : Mark α) : Ending α → Prop
  | sold exit trade =>
    trade.entryDate = opening.date ∧ trade.entryPrice = opening.price ∧
    trade.exitDate = exit.date ∧ trade.exitPrice = exit.price ∧
    trade.returnPct = returnPct opening.price exit.price ∧
    trade.barsHeld = if exit.index < opening.index then 0 else exit.index - opening.index
  | dropped exit => exit.index = opening.index

namespace Machine

def call (m : Machine α) : Call α → Machine α × Option (Trade α)
  | .step here enter exit => m.step here enter exit
  | .liquidate here => m.liquidate here
  | .openPosition _ => (m, none)

def after (m : Machine α) (calls : List (Call α)) : Machine α :=
  calls.foldl (fun m c => (m.call c).1) m

/-- What happens at some of the calls, in order. -/
def along {β : Type} (happens : Machine α → Call α → Option β) (m : Machine α) :
    List (Call α) → List β
  | [] => []
  | c :: calls => (happens m c).toList ++ along happens (m.call c).1 calls

def sale? (m : Machine α) (c : Call α) : Option (Mark α × Trade α) :=
  (m.call c).2.map (c.here, ·)

/-- A step opens a position if there is one after it, and there was none before it or that one has
been sold. -/
def opening? (m : Machine α) : Call α → Option (Mark α)
  | .step here enter exit =>
    let (after, trade) := m.step here enter exit
    if after.isLong && (!m.isLong || trade.isSome) then some here else none
  | _ => none

/-- A position that was open before liquidation and has left no trade. -/
def drop? (m : Machine α) : Call α → Option (Mark α)
  | .liquidate here => if m.isLong && (m.liquidate here).2.isNone then some here else none
  | _ => none

end Machine

theorem Ending.of_between (entry exit : Mark α) :
    Ending.Of entry (.sold exit (Trade.between entry exit)) := by
  refine ⟨rfl, rfl, rfl, rfl, rfl, ?_⟩
  change exit.index - entry.index = _
  by_cases h : exit.index < entry.index <;> simp [h]
  omega

namespace Machine

/-- All that a call can do: nothing, open a position, sell the one that is open and perhaps open
the next one, or drop it. -/
theorem call_cases (m : Machine α) (c : Call α) :
    (m.call c = (m, none) ∧ m.opening? c = none ∧ m.drop? c = none) ∨
    (m.position = .flat ∧ m.call c = ({ m with position := .long c.here }, none) ∧
      m.opening? c = some c.here ∧ m.drop? c = none) ∨
    (∃ entry next, m.position = .long entry ∧
      m.call c = (⟨m.reentry, next, m.trades ++ [Trade.between entry c.here]⟩,
        some (Trade.between entry c.here)) ∧
      (next = .flat ∨ m.reentry = .sameBar ∧ next = .long c.here) ∧
      m.opening? c = next.openedAt ∧ m.drop? c = none) ∨
    (∃ entry, m.position = .long entry ∧ entry.index = c.here.index ∧
      m.call c = ({ m with position := .flat }, none) ∧ m.opening? c = none ∧
      m.drop? c = some c.here) := by
  obtain ⟨reentry, position, trades⟩ := m
  cases c with
  | openPosition here => exact Or.inl ⟨rfl, rfl, rfl⟩
  | liquidate here =>
    cases position with
    | flat => exact Or.inl ⟨rfl, rfl, rfl⟩
    | long entry =>
      by_cases hindex : entry.index = here.index
      · simp [call, liquidate, opening?, drop?, hindex, isLong, Position.isLong, Call.here]
      · simp [call, liquidate, close, opening?, drop?, hindex, isLong, Position.isLong, Call.here,
          Position.openedAt]
  | step here enter exit =>
    cases position with
    | flat =>
      cases enter <;> cases exit <;>
        simp [call, step, close, Machine.enter, opening?, drop?, isLong, Position.isLong, Call.here]
    | long entry =>
      cases enter <;> cases exit <;> cases reentry <;>
        simp [call, step, close, Machine.enter, opening?, drop?, isLong, Position.isLong, Call.here,
          Position.openedAt]

theorem call_trades (m : Machine α) (c : Call α) :
    (m.call c).1.trades = m.trades ++ (m.sale? c).toList.map (·.2) := by
  rcases call_cases m c with ⟨hc, -⟩ | ⟨-, hc, -⟩ | ⟨_, _, -, hc, -⟩ | ⟨_, -, -, hc, -⟩ <;>
    simp [sale?, hc]

theorem call_reentry (m : Machine α) (c : Call α) : (m.call c).1.reentry = m.reentry := by
  rcases call_cases m c with ⟨hc, -⟩ | ⟨-, hc, -⟩ | ⟨_, _, -, hc, -⟩ | ⟨_, -, -, hc, -⟩ <;>
    simp [hc]

/-- The position before a call and the one that it opens are those that it ends and the one after
it, in this order. -/
theorem call_conserves (m : Machine α) (c : Call α) :
    ∃ (ended : List (Mark α)) (endings : List (Ending α)),
      m.position.openedAt.toList ++ (m.opening? c).toList =
        ended ++ (m.call c).1.position.openedAt.toList ∧
      List.Forall₂ Ending.Of ended endings ∧
      endings.filterMap Ending.sale? = (m.sale? c).toList ∧
      endings.filterMap Ending.drop? = (m.drop? c).toList := by
  rcases call_cases m c with ⟨hc, ho, hd⟩ | ⟨hp, hc, ho, hd⟩ | ⟨entry, next, hp, hc, -, ho, hd⟩ |
    ⟨entry, hp, hindex, hc, ho, hd⟩
  · exact ⟨[], [], by simp [hc, ho], .nil, by simp [sale?, hc], by simp [hd]⟩
  · exact ⟨[], [], by simp [hp, hc, ho, Position.openedAt], .nil, by simp [sale?, hc],
      by simp [hd]⟩
  · refine ⟨[entry], [.sold c.here (Trade.between entry c.here)], ?_,
      .cons (Ending.of_between entry c.here) .nil, ?_, ?_⟩
    · simp [hp, hc, ho, Position.openedAt]
    · simp [sale?, hc, Ending.sale?]
    · simp [hd, Ending.drop?]
  · refine ⟨[entry], [.dropped c.here], ?_, .cons hindex.symm .nil, ?_, ?_⟩
    · simp [hp, hc, ho, Position.openedAt]
    · simp [sale?, hc, Ending.sale?]
    · simp [hd, Ending.drop?]

/-! ## Any sequence of calls -/

theorem after_trades (m : Machine α) (calls : List (Call α)) :
    (m.after calls).trades = m.trades ++ (along sale? m calls).map (·.2) := by
  induction calls generalizing m with
  | nil => simp [after, along]
  | cons c calls ih =>
    have hh := ih (m.call c).1
    rw [call_trades] at hh
    simpa [after, along] using hh

theorem after_reentry (m : Machine α) (calls : List (Call α)) :
    (m.after calls).reentry = m.reentry := by
  induction calls generalizing m with
  | nil => rfl
  | cons c calls ih => exact (ih (m.call c).1).trans (call_reentry m c)

theorem after_filter_asks (m : Machine α) (calls : List (Call α)) :
    m.after (calls.filter (!·.asks)) = m.after calls := by
  induction calls generalizing m with
  | nil => rfl
  | cons c calls ih =>
    cases c with
    | openPosition here => exact ih m
    | step here enter exit => exact ih _
    | liquidate here => exact ih _

theorem after_conserves (m : Machine α) (calls : List (Call α)) :
    ∃ (ended : List (Mark α)) (endings : List (Ending α)),
      m.position.openedAt.toList ++ along opening? m calls =
        ended ++ (m.after calls).position.openedAt.toList ∧
      List.Forall₂ Ending.Of ended endings ∧
      endings.filterMap Ending.sale? = along sale? m calls ∧
      endings.filterMap Ending.drop? = along drop? m calls := by
  -- What the first call leaves open is what the other calls start from.
  induction calls generalizing m with
  | nil => exact ⟨[], [], by simp [along, after], .nil, rfl, rfl⟩
  | cons c calls ih =>
    obtain ⟨ended, endings, hopen, hof, hsold, hdropped⟩ := call_conserves m c
    obtain ⟨ended', endings', hopen', hof', hsold', hdropped'⟩ := ih (m.call c).1
    refine ⟨ended ++ ended', endings ++ endings', ?_, List.rel_append hof hof', ?_, ?_⟩
    · calc m.position.openedAt.toList ++ along opening? m (c :: calls)
          = (m.position.openedAt.toList ++ (m.opening? c).toList) ++
              along opening? (m.call c).1 calls := by rw [along, List.append_assoc]
        _ = ended ++ ((m.call c).1.position.openedAt.toList ++
              along opening? (m.call c).1 calls) := by rw [hopen, List.append_assoc]
        _ = ended ++ ended' ++ (m.after (c :: calls)).position.openedAt.toList := by
            rw [hopen', List.append_assoc]
            rfl
    · rw [List.filterMap_append, hsold, hsold', along]
    · rw [List.filterMap_append, hdropped, hdropped', along]

theorem openPosition_eq (m : Machine α) (here : Mark α) :
    m.openPosition here = m.position.openedAt.map (OpenPosition.valued · here) := by
  unfold openPosition
  cases m.position with
  | flat => rfl
  | long entry => rfl

theorem flat_of_sale {m : Machine α} {here : Mark α} {enter exit : Bool} {trade : Trade α}
    (hreentry : m.reentry = .nextBar) (h : (m.step here enter exit).2 = some trade) :
    (m.step here enter exit).1.position = .flat := by
  change (m.call (.step here enter exit)).2 = some trade at h
  change (m.call (.step here enter exit)).1.position = .flat
  rcases call_cases m (.step here enter exit) with ⟨hc, -⟩ | ⟨-, hc, -⟩ |
    ⟨_, next, -, hc, hnext, -⟩ | ⟨_, -, -, hc, -⟩
  · simp [hc] at h
  · simp [hc] at h
  · -- Only the other policy lets a bar open again what it has sold.
    simpa [hc, hreentry] using hnext
  · simp [hc]

end Machine

/-- Under any calls to a new machine, the log has the trades that were answered. Of the positions
opened all but the one that is still open have ended, each in one way: sold, as one trade of the
log, or dropped by a liquidation at the index of its own entry, without a trade. Questions change
nothing and are answered from the opening that has not ended. Where the policy is to wait for the
next bar, a sale leaves the machine flat. -/
theorem calls_conserve_positions (reentry : Reentry) (calls : List (Call α)) :
    let m : Machine α := .start reentry
    (m.after calls).trades = (Machine.along Machine.sale? m calls).map (·.2) ∧
    (∃ (ended : List (Mark α)) (endings : List (Ending α)),
      Machine.along Machine.opening? m calls =
        ended ++ (m.after calls).position.openedAt.toList ∧
      List.Forall₂ Ending.Of ended endings ∧
      endings.filterMap Ending.sale? = Machine.along Machine.sale? m calls ∧
      endings.filterMap Ending.drop? = Machine.along Machine.drop? m calls) ∧
    m.after (calls.filter (!·.asks)) = m.after calls ∧
    (∀ here, (m.after calls).openPosition here =
      (m.after calls).position.openedAt.map (OpenPosition.valued · here)) ∧
    (reentry = .nextBar → ∀ here enter exit trade,
      ((m.after calls).step here enter exit).2 = some trade →
        ((m.after calls).step here enter exit).1.position = .flat) := by
  intro m
  refine ⟨Machine.after_trades m calls, Machine.after_conserves m calls,
    Machine.after_filter_asks m calls, (m.after calls).openPosition_eq, ?_⟩
  intro hnext here enter exit trade h
  exact Machine.flat_of_sale ((Machine.after_reentry m calls).trans hnext) h

theorem calls_conserve_positions_backwards :
    let m : Machine ℚ := .start .nextBar
    let calls : List (Call ℚ) :=
      [.step ⟨5, ⟨5⟩, 10⟩ true true, .openPosition ⟨9, ⟨9⟩, 1⟩, .step ⟨6, ⟨6⟩, 20⟩ true false,
        .step ⟨2, ⟨2⟩, 15⟩ false true, .step ⟨3, ⟨3⟩, 12⟩ true false, .liquidate ⟨3, ⟨4⟩, 7⟩,
        .step ⟨7, ⟨7⟩, 8⟩ true false]
    (m.after calls).trades = [⟨⟨5⟩, 10, ⟨2⟩, 15, 50, 0⟩] ∧
    Machine.along Machine.opening? m calls = [⟨5, ⟨5⟩, 10⟩, ⟨3, ⟨3⟩, 12⟩, ⟨7, ⟨7⟩, 8⟩] ∧
    Machine.along Machine.drop? m calls = [⟨3, ⟨4⟩, 7⟩] ∧
    ((m.after calls).step ⟨8, ⟨8⟩, 9⟩ true true).1.position = .flat := by
  intro m calls
  have hflat := (calls_conserve_positions .nextBar calls).2.2.2.2 rfl ⟨8, ⟨8⟩, 9⟩ true true
    ⟨⟨7⟩, 8, ⟨8⟩, 9, 25 / 2, 1⟩ (by decide +kernel)
  exact ⟨by decide +kernel, by decide +kernel, by decide +kernel, hflat⟩

end Backtest
