import Backtest.Json

/-!
The members of an object, looked up by name.
-/

namespace Backtest.Json

theorem lookup?_cons (name first : String) (value : Json) (members : List (String × Json)) :
    lookup? name ((first, value) :: members) =
      if first = name then some value else lookup? name members := by
  by_cases hname : first = name <;> simp [lookup?, hname]

theorem lookup?_insert (name inserted : String) (value : Json) (members : List (String × Json)) :
    lookup? name (insert inserted value members) =
      if inserted = name then some value else lookup? name members := by
  induction members with
  | nil => exact lookup?_cons name inserted value []
  | cons member members ih =>
    obtain ⟨first, firstValue⟩ := member
    unfold insert
    by_cases hlt : inserted < first
    · rw [if_pos hlt, lookup?_cons]
    · by_cases heq : inserted = first
      · subst heq
        rw [if_neg hlt, if_pos rfl, lookup?_cons, lookup?_cons]
        by_cases hname : inserted = name <;> simp [hname]
      · rw [if_neg hlt, if_neg heq, lookup?_cons, ih, lookup?_cons]
        by_cases hname : first = name
        · have hother : inserted ≠ name := fun h => heq (h.trans hname.symm)
          simp [hname, hother]
        · simp [hname]

def erase (name : String) (members : List (String × Json)) : List (String × Json) :=
  members.filter (·.1 ≠ name)

theorem lookup?_erase (name erased : String) (members : List (String × Json)) :
    lookup? name (erase erased members) = if erased = name then none else lookup? name members := by
  by_cases hname : erased = name
  · simp [lookup?, erase, hname, List.find?_filter]
  · have hkept (member : String × Json) :
        (member.1 ≠ erased ∧ member.1 = name) ↔ member.1 = name :=
      ⟨fun h => h.2, fun h => ⟨fun herased => hname (herased.symm.trans h), h⟩⟩
    simp [lookup?, erase, hname, List.find?_filter, hkept]

theorem lookup?_append (name : String) (front back : List (String × Json)) :
    lookup? name (front ++ back) = (lookup? name front).or (lookup? name back) := by
  induction front with
  | nil => rfl
  | cons member front ih =>
    obtain ⟨first, value⟩ := member
    by_cases hname : first = name <;> simp [lookup?_cons, hname, ih]

theorem lookup?_filterMap (find : String → Option Json) (names : List String) (name : String) :
    lookup? name (names.filterMap fun other => (find other).map (other, ·)) =
      if name ∈ names then find name else none := by
  induction names with
  | nil => rfl
  | cons first names ih =>
    by_cases hname : name = first
    · subst hname
      cases hfind : find name with
      | none => simp [hfind, ih]
      | some value => simp [hfind, lookup?_cons]
    · cases hfind : find first with
      | none => simp [hfind, ih, hname]
      | some value => simp [hfind, lookup?_cons, ih, hname, Ne.symm hname]

/-! ## Members that count -/

theorem present?_of_lookup? {members : List (String × Json)} {name : String} {value : Json}
    (h : lookup? name members = some value) (hvalue : value.isNull = false) :
    present? name members = some value := by
  simp [present?, h, hvalue]

theorem present?_insert_of_ne {name inserted : String} (h : inserted ≠ name) (value : Json)
    (members : List (String × Json)) :
    present? name (insert inserted value members) = present? name members := by
  simp [present?, lookup?_insert, h]

theorem present?_insert_null (name inserted : String) (members : List (String × Json)) :
    present? name (insert inserted null members) = present? name (erase inserted members) := by
  by_cases hname : inserted = name <;>
    simp [present?, lookup?_insert, lookup?_erase, hname, isNull]

end Backtest.Json
