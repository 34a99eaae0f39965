import Backtest.Proofs.LatestBars
import Backtest.Proofs.RecordStarts

/-!
Lines of a table. A fault is told with the number that its record has among all records, and that is
the line on which the record begins less the lines above it on which no record ended.
-/

namespace Backtest

namespace Csv

/-- Some lines as one text, each with a line feed at its end. -/
def unlines (lines : List (List Char)) : List Char := lines.flatMap (· ++ ['\n'])

theorem unlines_cons (line : List Char) (lines : List (List Char)) :
    unlines (line :: lines) = (line ++ ['\n']) ++ unlines lines := rfl

/-- Whether every carriage return stands inside quotes or in front of a line feed, for a reader that
stands in front of the text. -/
def endsInLineFeeds (s : Scan) : List Char → Bool
  | [] => true
  | c :: cs =>
    (c ≠ '\r' || s.place = .inQuotes || cs.head? = some '\n') && endsInLineFeeds (s.step c) cs

/-- Whether no record ends on a line: it is empty in between two records, or breaks off inside
quotes. -/
def isIdle (s : Scan) (line : List Char) : Bool :=
  s.place = .betweenRecords && line.all (· = '\r') ||
    ((line ++ ['\n']).foldl Scan.step s).place = .inQuotes

/-- How many lines there are on which no record ends. -/
def idleLines (s : Scan) : List (List Char) → Nat
  | [] => 0
  | line :: lines =>
    (if isIdle s line then 1 else 0) + idleLines ((line ++ ['\n']).foldl Scan.step s) lines

theorem endsInLineFeeds_of_append {s : Scan} (cs : List Char) {rest : List Char}
    (h : endsInLineFeeds s (cs ++ rest) = true) :
    endsInLineFeeds (cs.foldl Scan.step s) rest = true := by
  induction cs generalizing s with
  | nil => exact h
  | cons c cs ih =>
    rw [List.cons_append, endsInLineFeeds, Bool.and_eq_true] at h
    exact ih h.2

/-- A carriage return outside quotes has its line feed behind it. -/
theorem head?_of_return {s : Scan} {rest : List Char} (h : endsInLineFeeds s ('\r' :: rest) = true)
    (hplace : s.place ≠ .inQuotes) : rest.head? = some '\n' := by
  simpa [endsInLineFeeds, hplace] using (Bool.and_eq_true_iff.mp h).1

theorem eq_nil_of_return {s : Scan} {line rest : List Char} (hline : '\n' ∉ line)
    (hends : endsInLineFeeds s ('\r' :: (line ++ '\n' :: rest)) = true)
    (hplace : s.place ≠ .inQuotes) : line = [] := by
  have hhead := head?_of_return hends hplace
  cases line with
  | nil => rfl
  | cons c line =>
    obtain rfl : c = '\n' := by simpa using hhead
    exact absurd List.mem_cons_self hline

theorem eq_return_of_lineEnd {c : Char} (hend : Scan.isLineEnd c = true) (hc : c ≠ '\n') :
    c = '\r' := by
  simpa [Scan.isLineEnd, hc] using hend

/-- A line that goes on with a record ends it, unless it breaks off inside quotes. -/
theorem line_of_open {s : Scan} {line rest : List Char} (hplace : s.place ≠ .betweenRecords)
    (hline : '\n' ∉ line) (hends : endsInLineFeeds s (line ++ '\n' :: rest) = true) :
    let s' := (line ++ ['\n']).foldl Scan.step s
    (s'.place = .inQuotes ∧ s'.records = s.records) ∨
    (s'.place = .betweenRecords ∧ s'.records.length = s.records.length + 1) := by
  induction line generalizing s with
  | nil => exact (Scan.step_of_open hplace '\n').imp_left fun h => ⟨h.2.2 rfl, h.2.1⟩
  | cons c line ih =>
    obtain ⟨hc, hrest⟩ := List.ne_and_not_mem_of_not_mem_cons hline
    rcases Scan.step_of_open hplace c with ⟨hplace', hrecords, _⟩ | ⟨hplace', hrecords⟩
    · have hlater := ih hplace' hrest (endsInLineFeeds_of_append [c] hends)
      rwa [hrecords] at hlater
    · -- a return has ended the record, and the line feed behind it ends the line
      obtain ⟨hend, hquotes⟩ := Scan.lineEnd_of_step hplace'
      obtain rfl := eq_return_of_lineEnd hend hc.symm
      obtain rfl := eq_nil_of_return hrest hends hquotes
      obtain ⟨hsame, hbetween⟩ := Scan.step_of_between hplace' '\n'
      exact Or.inr ⟨hbetween.mpr rfl, (congrArg List.length hsame).trans hrecords⟩

theorem line_of_empty {s : Scan} {line : List Char} (hplace : s.place = .betweenRecords)
    (hline : line.all (· = '\r') = true) :
    let s' := (line ++ ['\n']).foldl Scan.step s
    s'.place = .betweenRecords ∧ s'.records = s.records := by
  induction line generalizing s with
  | nil =>
    obtain ⟨hrecords, hbetween⟩ := Scan.step_of_between hplace '\n'
    exact ⟨hbetween.mpr rfl, hrecords⟩
  | cons c line ih =>
    obtain ⟨hc, hline⟩ : c = '\r' ∧ line.all (· = '\r') = true := by simpa using hline
    obtain ⟨hrecords, hbetween⟩ := Scan.step_of_between hplace c
    obtain ⟨hplace', hsame⟩ := ih (hbetween.mpr (by simp [Scan.isLineEnd, hc])) hline
    exact ⟨hplace', hsame.trans hrecords⟩

/-- At the start of a line the reader is between records or inside quotes. -/
def AtLineStart (s : Scan) : Prop := s.place = .betweenRecords ∨ s.place = .inQuotes

/-- A line ends one record or is idle. -/
theorem line_of_start {s : Scan} {line rest : List Char} (hstart : AtLineStart s)
    (hline : '\n' ∉ line) (hends : endsInLineFeeds s (line ++ '\n' :: rest) = true) :
    let s' := (line ++ ['\n']).foldl Scan.step s
    AtLineStart s' ∧
      s'.records.length + (if isIdle s line then 1 else 0) = s.records.length + 1 := by
  intro s'
  by_cases hempty : s.place = .betweenRecords ∧ line.all (· = '\r') = true
  · obtain ⟨hplace, hrecords⟩ := line_of_empty hempty.1 hempty.2
    have hidle : isIdle s line = true := by simp [isIdle, hempty]
    refine ⟨Or.inl hplace, ?_⟩
    rw [if_pos hidle]
    exact congrArg (·.length + 1) hrecords
  · have hidle : isIdle s line = decide (s'.place = .inQuotes) := by
      have hfirst : (s.place = .betweenRecords && line.all (· = '\r')) = false := by
        simpa using hempty
      rw [isIdle, hfirst, Bool.false_or]
    have hcases : (s'.place = .inQuotes ∧ s'.records = s.records) ∨
        (s'.place = .betweenRecords ∧ s'.records.length = s.records.length + 1) := by
      rcases hstart with hplace | hplace
      · cases line with
        | nil => simp [hplace] at hempty
        | cons c line =>
          obtain ⟨hc, hrest⟩ := List.ne_and_not_mem_of_not_mem_cons hline
          obtain ⟨hrecords, hbetween⟩ := Scan.step_of_between hplace c
          by_cases hend : Scan.isLineEnd c = true
          · obtain rfl := eq_return_of_lineEnd hend hc.symm
            obtain rfl := eq_nil_of_return hrest hends (by simp [hplace])
            simp [hplace] at hempty
          · have hopen := line_of_open (mt hbetween.mp hend) hrest
              (endsInLineFeeds_of_append [c] hends)
            rwa [hrecords] at hopen
      · exact line_of_open (by simp [hplace]) hline hends
    rcases hcases with ⟨hplace, hrecords⟩ | ⟨hplace, hrecords⟩
    · exact ⟨Or.inr hplace, by simp [hidle, hplace, hrecords]⟩
    · exact ⟨Or.inl hplace, by simp [hidle, hplace, hrecords]⟩

theorem records_of_lines {s : Scan} {lines : List (List Char)} {rest : List Char}
    (hstart : AtLineStart s) (hlines : ∀ line ∈ lines, '\n' ∉ line)
    (hends : endsInLineFeeds s (unlines lines ++ rest) = true) :
    ((unlines lines).foldl Scan.step s).records.length + idleLines s lines =
      s.records.length + lines.length := by
  induction lines generalizing s with
  | nil => rfl
  | cons line lines ih =>
    obtain ⟨hline, hlines⟩ := List.forall_mem_cons.mp hlines
    rw [unlines_cons, List.append_assoc] at hends
    have hhere : endsInLineFeeds s (line ++ '\n' :: (unlines lines ++ rest)) = true := by
      simpa using hends
    obtain ⟨hstart', hcount⟩ := line_of_start hstart hline hhere
    have hlater := ih hstart' hlines (endsInLineFeeds_of_append _ hends)
    rw [unlines_cons, List.foldl_append, idleLines, List.length_cons]
    omega

theorem exists_unlines (cs : List Char) :
    ∃ lines last, cs = unlines lines ++ last ∧ (∀ line ∈ lines, '\n' ∉ line) ∧ '\n' ∉ last := by
  induction cs with
  | nil => exact ⟨[], [], rfl, by simp, by simp⟩
  | cons c cs ih =>
    obtain ⟨lines, last, rfl, hlines, hlast⟩ := ih
    by_cases hc : c = '\n'
    · exact ⟨[] :: lines, last, by simp [unlines, hc], by simpa using hlines, hlast⟩
    · cases lines with
      | nil => exact ⟨[], c :: last, rfl, by simp, by simp [hlast, Ne.symm hc]⟩
      | cons line lines =>
        refine ⟨(c :: line) :: lines, last, rfl, fun other hm => ?_, hlast⟩
        rcases List.mem_cons.mp hm with rfl | hm
        · simp [hlines line List.mem_cons_self, Ne.symm hc]
        · exact hlines other (List.mem_cons_of_mem _ hm)

theorem count_unlines {lines : List (List Char)} (h : ∀ line ∈ lines, '\n' ∉ line) :
    (unlines lines).count '\n' = lines.length := by
  induction lines with
  | nil => rfl
  | cons line lines ih =>
    obtain ⟨hline, hlines⟩ := List.forall_mem_cons.mp h
    rw [unlines_cons, List.count_append, List.count_append, List.count_eq_zero_of_not_mem hline,
      ih hlines, List.length_cons]
    simp [Nat.add_comm]

/-- Where no record ends but at a line feed, records begin at the start of a line. -/
theorem Begins.exists_lines {index : Nat} {above rest : List Char} (h : Begins index above rest)
    (hends : endsInLineFeeds {} (above ++ rest) = true) :
    ∃ lines, above = unlines lines ∧ ∀ line ∈ lines, '\n' ∉ line := by
  obtain ⟨lines, last, rfl, hlines, hlast⟩ := exists_unlines above
  rcases List.eq_nil_or_concat last with rfl | ⟨init, c, rfl⟩
  · exact ⟨lines, List.append_nil _, hlines⟩
  · obtain ⟨hbetween, _, c', hc', hstart⟩ := h
    have hc : c ≠ '\n' := fun hc => hlast (by simp [hc])
    have habove : unlines lines ++ init.concat c = (unlines lines ++ init) ++ [c] := by simp
    rw [habove] at hbetween hends
    rw [Scan.after_concat] at hbetween
    -- only a line end leads in between records, and a return has its line feed behind it
    obtain ⟨hend, hquotes⟩ := Scan.lineEnd_of_step hbetween
    obtain rfl := eq_return_of_lineEnd hend hc
    rw [List.append_assoc] at hends
    have hhead := head?_of_return (endsInLineFeeds_of_append _ hends) hquotes
    obtain rfl : c' = '\n' := by simpa [Option.mem_def.mp hc'] using hhead
    cases hstart

end Csv

namespace Bar

theorem exists_record {text : String} {i : Nat} {row : Option (Bar Float)}
    (h : (rowsOf text)[i]? = some row) : ∃ record, (Csv.records text)[i + 1]? = some record := by
  unfold rowsOf at h
  cases hrecords : Csv.records text with
  | nil => simp [hrecords] at h
  | cons header records =>
    simp only [hrecords, List.getElem?_map, Option.map_eq_some_iff] at h
    obtain ⟨record, hrecord, _⟩ := h
    exact ⟨record, hrecord⟩

theorem fault_of_error {path : String} {window : Window} {text : String} {e : Error}
    (h : ofTable path window text = .error e) :
    ∃ (i : Nat) (row : Option (Bar Float)) (fault : RowFault), (rowsOf text)[i]? = some row ∧
      e = .data s!"{path}:{i + 2}: {fault.reason}" := by
  rcases sound_or_fault (rowsOf text) with
    ⟨bars, hrows, hvalid⟩ | ⟨i, row, fault, hrow, hfault, hbefore⟩
  · rw [ofTable, hrows, ofRows_of_sound hvalid] at h
    cases h
  · rw [ofTable, ofRows_of_fault hrow hfault hbefore] at h
    exact ⟨i, row, fault, hrow, (Except.error.inj h).symm⟩

/-- A fault is told with the number of its record, the header being the first one. In a table whose
lines end with line feeds, alone or behind a carriage return, this number is the line of the record
as long as each line above ends a record. It falls behind by one for each line that ends none. -/
theorem fault_line_misses_idle_lines (path code : String) (window : Window) (text : String)
    (hends : Csv.endsInLineFeeds {} (Csv.body text) = true) (e : Error)
    (h : ofReading path code window (.ok text) = .error e) :
    ∃ (i : Nat) (fault : RowFault) (record : Csv.Record) (above : List (List Char))
      (rest : List Char),
      e = .data s!"{path}:{i + 2}: {fault.reason}" ∧
      (Csv.records text)[i + 1]? = some record ∧
      Csv.body text = Csv.unlines above ++ rest ∧ (∀ line ∈ above, '\n' ∉ line) ∧
      Csv.Begins (i + 1) (Csv.unlines above) rest ∧ record.line = above.length + 1 ∧
      i + 2 + Csv.idleLines {} above = above.length + 1 := by
  have htable : ofTable path window text = .error e := h
  obtain ⟨i, row, fault, hrow, rfl⟩ := fault_of_error htable
  obtain ⟨record, hrecord⟩ := exists_record hrow
  obtain ⟨above, rest, hbody, hbegins, hline⟩ := Csv.beginsOn_of_records hrecord
  rw [hbody] at hends
  obtain ⟨lines, rfl, hlines⟩ := hbegins.exists_lines hends
  have hcount := Csv.records_of_lines (Or.inl rfl) hlines hends
  have hdone : ((Csv.unlines lines).foldl Csv.Scan.step {}).records.length = i + 1 := hbegins.done
  have hnone : ({} : Csv.Scan).records.length = 0 := rfl
  refine ⟨i, fault, record, lines, rest, rfl, hrecord, hbody, hlines, hbegins, ?_, by omega⟩
  rw [hline, Csv.count_unlines hlines]

/-- A table with an empty line, a field that holds a line feed, and a faulty last row. -/
def gappyTable (lineEnd : String) : String :=
  "date,open,high,low,close,volume,note" ++ lineEnd ++ lineEnd ++
    "2024-01-01,1,1,1,1,1,\"two\nlines\"" ++ lineEnd ++ "2024-01-02,1,1,1,0,1," ++ lineEnd

theorem fault_line_misses_idle_lines_gappy :
    let path := "data/A.csv"
    let text := gappyTable "\r\n"
    let e := Error.data "data/A.csv:3: prices must be positive and finite"
    Csv.endsInLineFeeds {} (Csv.body text) = true ∧
    ofReading path "A" ⟨none, none⟩ (.ok text) = .error e ∧
    Csv.idleLines {} ["date,open,high,low,close,volume,note\r".toList, ['\r'],
      "2024-01-01,1,1,1,1,1,\"two".toList, "lines\"\r".toList] = 2 ∧
    ∃ (i : Nat) (fault : RowFault) (record : Csv.Record) (above : List (List Char))
      (rest : List Char),
      e = .data s!"{path}:{i + 2}: {fault.reason}" ∧
      (Csv.records text)[i + 1]? = some record ∧
      Csv.body text = Csv.unlines above ++ rest ∧ (∀ line ∈ above, '\n' ∉ line) ∧
      Csv.Begins (i + 1) (Csv.unlines above) rest ∧ record.line = above.length + 1 ∧
      i + 2 + Csv.idleLines {} above = above.length + 1 := by
  intro path text e
  have hends : Csv.endsInLineFeeds {} (Csv.body text) = true := by decide +kernel
  have hfault : ofReading path "A" ⟨none, none⟩ (.ok text) = .error e := by decide +kernel
  exact ⟨hends, hfault, by decide +kernel,
    fault_line_misses_idle_lines path "A" ⟨none, none⟩ text hends e hfault⟩

/-- The faulty row begins on the fifth line, and is told of the third. -/
theorem fault_told_above_its_line :
    let text := gappyTable "\n"
    (rowsOf text).map faultOf = [none, some .badPrices] ∧ Csv.BeginsOn 2 5 (Csv.body text) ∧
    (Csv.records text).map (·.line) = [1, 3, 5] ∧
    ofReading "data/A.csv" "A" ⟨none, none⟩ (.ok text) =
      .error (.data "data/A.csv:3: prices must be positive and finite") ∧
    ofReading "data/A.csv" "A" ⟨none, none⟩ (.ok text) ≠
      .error (.data "data/A.csv:5: prices must be positive and finite") := by
  intro text
  have hlines : (Csv.records text).map (·.line) = [1, 3, 5] := by decide +kernel
  have hrecord : ∃ record, (Csv.records text)[2]? = some record ∧ record.line = 5 := by
    have hfifth := congrArg (·[2]?) hlines
    simpa using hfifth
  obtain ⟨record, hrecord, hline⟩ := hrecord
  exact ⟨by decide +kernel, hline ▸ Csv.beginsOn_of_records hrecord, hlines, by decide +kernel,
    by decide +kernel⟩

end Bar

end Backtest
