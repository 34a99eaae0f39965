import Backtest.Bar

/-!
The equity curve: an index that moves with the closes while a position is held and stands still
while none is.
-/

namespace Backtest

open Scalar

variable {α : Type} [Scalar α]

structure EquityPoint (α : Type) where
  date : Date
  equity : α
  /-- The move into this bar counted. -/
  inPosition : Bool
  deriving DecidableEq, Repr

/-- A move that starts at no positive price or ends at no finite one is skipped. -/
def compound (equity before close : α) : α :=
  if isPositive before && isFinite close then equity * (close / before) else equity

def equityAfter (before equity : α) : List (Bar α) → List Bool → List (EquityPoint α)
  | [], _ => []
  | bar :: bars, exposure =>
    let held := exposure.headD false
    let equity' := if held then compound equity before bar.close else equity
    ⟨bar.date, equity', held⟩ :: equityAfter bar.close equity' bars exposure.tail

/-- The flags tell for each bar whether a position was open at the close before it; where they end,
none was. The first point is the base. -/
def equityCurve (bars : List (Bar α)) (exposure : List Bool) (base : α) : List (EquityPoint α) :=
  match bars with
  | [] => []
  | bar :: rest => ⟨bar.date, base, false⟩ :: equityAfter bar.close base rest exposure.tail

def declinePct (peak equity : α) : α := (peak - equity) / peak * hundred

def worstDecline (peak worst : α) : List α → α
  | [] => worst
  | equity :: rest =>
    if lt peak equity then worstDecline equity worst rest
    else if isPositive peak then
      worstDecline peak (larger worst (declinePct peak equity)) rest
    else worstDecline peak worst rest

def maxDrawdownPct (equities : List α) : α :=
  match equities with
  | [] => zero
  | first :: _ => worstDecline first zero equities

end Backtest
