import Backtest.Csv
import Mathlib.Data.List.Induction
import Mathlib.Tactic.SplitIfs

/-!
Where records begin. The reader of comma-separated records leaves the space between two of them at
the first character that ends no line, and remembers the line that it is on.
-/

namespace Backtest

namespace Csv

namespace Scan

/-- What one character does to a reader. -/
inductive Takes (s : Scan) (c : Char) (s' : Scan) : Prop where
  | skips (hplace : s.place = .betweenRecords) (hend : isLineEnd c = true)
      (hplace' : s'.place = .betweenRecords) (hrecords : s'.records = s.records)
  | begins (hplace : s.place = .betweenRecords) (hend : isLineEnd c = false)
      (hplace' : s'.place ≠ .betweenRecords) (hrecords : s'.records = s.records)
      (hfirst : s'.firstLine = s.line)
  | goesOn (hplace : s.place ≠ .betweenRecords)
      (hend : isLineEnd c = true → s.place = .inQuotes ∧ s'.place = .inQuotes)
      (hplace' : s'.place ≠ .betweenRecords) (hrecords : s'.records = s.records)
      (hfirst : s'.firstLine = s.firstLine)
  | completes (fields : List String) (hplace : s.place ≠ .betweenRecords)
      (hquotes : s.place ≠ .inQuotes) (hend : isLineEnd c = true)
      (hplace' : s'.place = .betweenRecords)
      (hrecords : s'.records = ⟨s.firstLine, fields⟩ :: s.records)

/-- Whatever ends no line is part of the record. -/
theorem plain_of_inner {c : Char} (hend : isLineEnd c = false) (s : Scan) :
    (s.plain c).place ≠ .betweenRecords ∧ (s.plain c).records = s.records ∧
      (s.plain c).firstLine = s.firstLine := by
  by_cases hcomma : c = ','
  · simp [plain, hcomma, isLineEnd, endField]
  · simp [plain, hcomma, hend, keep]

theorem opening_of_inner {c : Char} (hend : isLineEnd c = false) (s : Scan) :
    (s.opening c).place ≠ .betweenRecords ∧ (s.opening c).records = s.records ∧
      (s.opening c).firstLine = s.firstLine := by
  by_cases hquote : c = '"'
  · simp [opening, hquote]
  · simpa only [opening, hquote, if_false] using s.plain_of_inner hend

theorem takes_plain {s : Scan} (hplace : s.place ≠ .betweenRecords) (hquotes : s.place ≠ .inQuotes)
    (c : Char) : Takes s c (s.plain c) := by
  cases hend : isLineEnd c with
  | true =>
    have hplain : s.plain c = s.endRecord := by simp [plain, hend]
    rw [hplain]
    exact .completes _ hplace hquotes hend rfl rfl
  | false =>
    obtain ⟨hplace', hrecords, hfirst⟩ := s.plain_of_inner hend
    exact .goesOn hplace (by simp [hend]) hplace' hrecords hfirst

theorem takes_take (s : Scan) (c : Char) : Takes s c (s.take c) := by
  cases hplace : s.place with
  | betweenRecords =>
    cases hend : isLineEnd c with
    | true =>
      have htake : s.take c = s := by simp [take, hplace, hend]
      rw [htake]
      exact .skips hplace hend hplace rfl
    | false =>
      have htake : s.take c = opening { s with firstLine := s.line } c := by
        simp [take, hplace, hend]
      obtain ⟨hplace', hrecords, hfirst⟩ := opening_of_inner hend { s with firstLine := s.line }
      rw [htake]
      exact .begins hplace hend hplace' hrecords hfirst
  | fieldStart =>
    have hne : s.place ≠ .betweenRecords := by simp [hplace]
    have htake : s.take c = if c = '"' then { s with place := .inQuotes } else s.plain c := by
      simp [take, hplace, opening]
    rw [htake]
    by_cases hquote : c = '"'
    · rw [if_pos hquote]
      exact .goesOn hne (by simp [hquote, isLineEnd]) (by simp) rfl rfl
    · rw [if_neg hquote]
      exact takes_plain hne (by simp [hplace]) c
  | inField =>
    have htake : s.take c = s.plain c := by simp [take, hplace]
    rw [htake]
    exact takes_plain (by simp [hplace]) (by simp [hplace]) c
  | inQuotes =>
    have hne : s.place ≠ .betweenRecords := by simp [hplace]
    by_cases hquote : c = '"'
    · have htake : s.take c = { s with place := .behindQuote } := by simp [take, hplace, hquote]
      rw [htake]
      exact .goesOn hne (by simp [hquote, isLineEnd]) (by simp) rfl rfl
    · have htake : s.take c = s.keep c .inQuotes := by simp [take, hplace, hquote]
      rw [htake]
      exact .goesOn hne (fun _ => ⟨hplace, rfl⟩) (by simp [keep]) rfl rfl
  | behindQuote =>
    have hne : s.place ≠ .betweenRecords := by simp [hplace]
    by_cases hquote : c = '"'
    · have htake : s.take c = s.keep c .inQuotes := by simp [take, hplace, hquote]
      rw [htake]
      exact .goesOn hne (by simp [hquote, isLineEnd]) (by simp [keep]) rfl rfl
    · have htake : s.take c = s.plain c := by simp [take, hplace, hquote]
      rw [htake]
      exact takes_plain hne (by simp [hplace]) c

theorem step_eq (s : Scan) (c : Char) :
    s.step c = { s.take c with line := if c = '\n' then s.line + 1 else (s.take c).line } := by
  by_cases h : c = '\n' <;> simp [step, h]

/-- Counting lines changes nothing else. -/
theorem takes_step (s : Scan) (c : Char) : Takes s c (s.step c) := by
  rw [step_eq]
  cases takes_take s c with
  | skips hplace hend hplace' hrecords => exact .skips hplace hend hplace' hrecords
  | begins hplace hend hplace' hrecords hfirst => exact .begins hplace hend hplace' hrecords hfirst
  | goesOn hplace hend hplace' hrecords hfirst => exact .goesOn hplace hend hplace' hrecords hfirst
  | completes fields hplace hquotes hend hplace' hrecords =>
    exact .completes fields hplace hquotes hend hplace' hrecords

/-- Between records a line end is passed over, and any other character begins the next record. -/
theorem step_of_between {s : Scan} (hplace : s.place = .betweenRecords) (c : Char) :
    (s.step c).records = s.records ∧
      ((s.step c).place = .betweenRecords ↔ isLineEnd c = true) := by
  cases s.takes_step c with
  | skips _ hend hplace' hrecords => exact ⟨hrecords, iff_of_true hplace' hend⟩
  | begins _ hend hplace' hrecords => exact ⟨hrecords, iff_of_false hplace' (by simp [hend])⟩
  | goesOn hopen => exact absurd hplace hopen
  | completes _ hopen => exact absurd hplace hopen

/-- Inside a record a line end completes it unless it stands in quotes, and any other character is
part of it. -/
theorem step_of_open {s : Scan} (hplace : s.place ≠ .betweenRecords) (c : Char) :
    ((s.step c).place ≠ .betweenRecords ∧ (s.step c).records = s.records ∧
      (isLineEnd c = true → (s.step c).place = .inQuotes)) ∨
    ((s.step c).place = .betweenRecords ∧ (s.step c).records.length = s.records.length + 1) := by
  cases s.takes_step c with
  | skips hbetween => exact absurd hbetween hplace
  | begins hbetween => exact absurd hbetween hplace
  | goesOn _ hend hplace' hrecords =>
    exact Or.inl ⟨hplace', hrecords, fun h => (hend h).2⟩
  | completes _ _ _ _ hplace' hrecords => exact Or.inr ⟨hplace', congrArg List.length hrecords⟩

theorem lineEnd_of_step {s : Scan} {c : Char} (h : (s.step c).place = .betweenRecords) :
    isLineEnd c = true ∧ s.place ≠ .inQuotes := by
  cases s.takes_step c with
  | skips hplace hend => exact ⟨hend, by simp [hplace]⟩
  | begins _ _ hplace' => exact absurd h hplace'
  | goesOn _ _ hplace' => exact absurd h hplace'
  | completes _ _ hquotes hend => exact ⟨hend, hquotes⟩

theorem line_take (s : Scan) (c : Char) : (s.take c).line = s.line := by
  cases hplace : s.place <;>
    simp only [take, hplace, opening, plain, endRecord, endField, keep] <;> split_ifs <;> rfl

def after (cs : List Char) : Scan := cs.foldl step {}

theorem after_concat (cs : List Char) (c : Char) : after (cs ++ [c]) = (after cs).step c := by
  simp [after]

theorem line_after (cs : List Char) : (after cs).line = cs.count '\n' + 1 := by
  induction cs using List.reverseRecOn with
  | nil => rfl
  | append_singleton cs c ih =>
    rw [after_concat, step_eq, line_take, ih, List.count_append, List.count_singleton]
    by_cases h : c = '\n'
    · simp [h, Nat.add_assoc]
    · simp [h]

end Scan

def body (text : String) : List Char :=
  match text.toList with
  | c :: rest => if c = byteOrderMark then rest else c :: rest
  | [] => []

theorem records_eq (text : String) : records text = (Scan.after (body text)).finish := rfl

/-- A record begins behind `above`, where the reader is done with as many records as its index. -/
structure Begins (index : Nat) (above rest : List Char) : Prop where
  between : (Scan.after above).place = .betweenRecords
  done : (Scan.after above).records.length = index
  starts : ∃ c ∈ rest.head?, Scan.isLineEnd c = false

/-- A record begins somewhere in a text, on a line of that number. -/
def BeginsOn (index line : Nat) (cs : List Char) : Prop :=
  ∃ above rest, cs = above ++ rest ∧ Begins index above rest ∧ line = above.count '\n' + 1

theorem BeginsOn.append {index line : Nat} {cs : List Char} (h : BeginsOn index line cs)
    (more : List Char) : BeginsOn index line (cs ++ more) := by
  obtain ⟨above, rest, rfl, ⟨hbetween, hdone, c, hc, hstart⟩, hline⟩ := h
  refine ⟨above, rest ++ more, List.append_assoc _ _ _, ⟨hbetween, hdone, c, ?_, hstart⟩, hline⟩
  rw [List.head?_append, Option.mem_def.mp hc]
  rfl

/-- Every record that the reader is done with has begun on its line, and so has the one that it is
reading. -/
structure Placed (cs : List Char) : Prop where
  done : ∀ index record, (Scan.after cs).records.reverse[index]? = some record →
    BeginsOn index record.line cs
  current : (Scan.after cs).place ≠ .betweenRecords →
    BeginsOn (Scan.after cs).records.length (Scan.after cs).firstLine cs

theorem Placed.completed {cs : List Char} (h : Placed cs)
    (hplace : (Scan.after cs).place ≠ .betweenRecords) {fields : List String} {index : Nat}
    {record : Record}
    (hrecord : (⟨(Scan.after cs).firstLine, fields⟩ :: (Scan.after cs).records).reverse[index]? =
      some record) : BeginsOn index record.line cs := by
  rw [List.reverse_cons] at hrecord
  by_cases hearlier : index < (Scan.after cs).records.reverse.length
  · rw [List.getElem?_append_left hearlier] at hrecord
    exact h.done index record hrecord
  · rw [List.getElem?_append_right (Nat.le_of_not_lt hearlier)] at hrecord
    have hlast := (List.getElem?_eq_some_iff.mp hrecord).1
    rw [List.length_singleton, Nat.lt_one_iff] at hlast
    rw [List.length_reverse] at hearlier hlast
    have hindex : index = (Scan.after cs).records.length := by omega
    rw [List.length_reverse, hlast] at hrecord
    obtain rfl := Option.some.inj hrecord
    exact hindex ▸ h.current hplace

theorem placed (cs : List Char) : Placed cs := by
  induction cs using List.reverseRecOn with
  | nil => exact ⟨by simp [Scan.after], fun h => absurd rfl h⟩
  | append_singleton cs c ih =>
    have hlater : ∀ index record, (Scan.after cs).records.reverse[index]? = some record →
        BeginsOn index record.line (cs ++ [c]) :=
      fun index record h => (ih.done index record h).append [c]
    constructor <;> rw [Scan.after_concat]
    · intro index record hrecord
      cases (Scan.after cs).takes_step c with
      | skips _ _ _ hrecords => exact hlater index record (hrecords ▸ hrecord)
      | begins _ _ _ hrecords => exact hlater index record (hrecords ▸ hrecord)
      | goesOn _ _ _ hrecords => exact hlater index record (hrecords ▸ hrecord)
      | completes fields hplace _ _ _ hrecords =>
        exact (ih.completed hplace (hrecords ▸ hrecord)).append [c]
    · intro hopen
      cases (Scan.after cs).takes_step c with
      | skips _ _ hplace' => exact absurd hplace' hopen
      | begins hplace hend _ hrecords hfirst =>
        rw [hrecords, hfirst, Scan.line_after]
        exact ⟨cs, [c], rfl, ⟨hplace, rfl, c, rfl, hend⟩, rfl⟩
      | goesOn hplace _ _ hrecords hfirst =>
        rw [hrecords, hfirst]
        exact (ih.current hplace).append [c]
      | completes fields _ _ _ hplace' => exact absurd hplace' hopen

theorem beginsOn_of_records {text : String} {index : Nat} {record : Record}
    (h : (records text)[index]? = some record) : BeginsOn index record.line (body text) := by
  rw [records_eq] at h
  by_cases hplace : (Scan.after (body text)).place = .betweenRecords
  · rw [Scan.finish, hplace] at h
    exact (placed _).done index record h
  · have hfinish : (Scan.after (body text)).finish =
        (Scan.after (body text)).endRecord.records.reverse := by
      rw [Scan.finish]
      split
      · next heq => exact absurd heq hplace
      · rfl
    exact (placed _).completed hplace (hfinish ▸ h)

end Csv

end Backtest
