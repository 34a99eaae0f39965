import Mathlib.Data.List.DropRight
import Backtest.Text.Pieces

/-!
Trimming text, and cutting it into pieces. Cutting undoes the joining of pieces that are free of the
separator, and joining undoes every cut.
-/

namespace Backtest.Text

/-! ## Blanks at the ends -/

theorem trimChars_eq (cs : List Char) :
    trimChars cs = (cs.dropWhile isBlank).rdropWhile isBlank := rfl

theorem trim_eq_empty_iff {s : String} : trim s = "" ↔ isBlankText s = true := by
  have hempty : trim s = "" ↔ trimChars s.toList = [] := by
    unfold trim
    rw [← String.toList_inj, String.toList_ofList]
    rfl
  rw [hempty, isBlankText, List.all_eq_true, trimChars_eq, List.rdropWhile_eq_nil_iff]
  constructor
  · intro h
    -- A blank rest would start with a character that was not dropped.
    by_contra hall
    have hne : 0 < (s.toList.dropWhile isBlank).length :=
      List.length_pos_iff.2 (List.dropWhile_eq_nil_iff.not.2 hall)
    exact List.dropWhile_get_zero_not isBlank s.toList hne (h _ (List.getElem_mem hne))
  · intro h
    rw [List.dropWhile_eq_nil_iff.2 h]
    simp

theorem trimChars_trimChars (cs : List Char) : trimChars (trimChars cs) = trimChars cs := by
  have hstart : (trimChars cs).dropWhile isBlank = trimChars cs := by
    rw [trimChars_eq, List.dropWhile_eq_self_iff]
    intro hl
    obtain ⟨t, ht⟩ := @List.rdropWhile_prefix _ isBlank (cs.dropWhile isBlank)
    have hpos : 0 < (cs.dropWhile isBlank).length := by
      rw [← ht, List.length_append]
      omega
    have hfirst := List.dropWhile_get_zero_not isBlank cs hpos
    rwa [List.get_eq_getElem, List.getElem_of_eq ht.symm, List.getElem_append_left hl] at hfirst
  rw [trimChars_eq (trimChars _), hstart, trimChars_eq, List.rdropWhile_idempotent]

theorem toList_trim (s : String) : (trim s).toList = trimChars s.toList := String.toList_ofList

theorem trim_trim (s : String) : trim (trim s) = trim s := by
  rw [trim, toList_trim, trimChars_trimChars, trim]

/-! ## Separators -/

theorem split_eq_splitOn (separator : Char) (cs : List Char) :
    split separator cs = cs.splitOn separator := by
  induction cs with
  | nil => rfl
  | cons c cs ih =>
    rw [split, ih, List.splitOn, List.splitOn, List.splitOnP_cons_eq_if_modifyHead]
    by_cases hc : c = separator
    · simp [hc]
    · obtain ⟨piece, pieces, hpieces⟩ :=
        List.exists_cons_of_ne_nil (List.splitOnP_ne_nil (· == separator) cs)
      simp [hc, hpieces]

theorem not_mem_of_mem_split {separator : Char} {cs piece : List Char}
    (h : piece ∈ split separator cs) : separator ∉ piece := by
  induction cs generalizing piece with
  | nil => simp_all [split]
  | cons c cs ih =>
    rw [split] at h
    by_cases hc : c = separator
    · rw [if_pos hc] at h
      rcases List.mem_cons.1 h with rfl | h
      · exact List.not_mem_nil
      · exact ih h
    · rw [if_neg hc] at h
      cases hsplit : split separator cs with
      | nil => simp_all [Ne.symm hc]
      | cons first pieces =>
        rw [hsplit] at h
        rcases List.mem_cons.1 h with rfl | h
        · have hfirst := ih (hsplit ▸ List.mem_cons_self)
          simp [hfirst, Ne.symm hc]
        · exact ih (hsplit ▸ List.mem_cons_of_mem _ h)

/-- Every text is its own pieces, joined. -/
theorem exists_segments (s : String) :
    ∃ segments : List String, (∀ segment ∈ segments, ',' ∉ segment.toList) ∧
      ",".intercalate segments = s := by
  refine ⟨(split ',' s.toList).map String.ofList, ?_, ?_⟩
  · intro segment hm
    obtain ⟨piece, hpiece, rfl⟩ := List.mem_map.1 hm
    rw [String.toList_ofList]
    exact not_mem_of_mem_split hpiece
  · have hback : ((split ',' s.toList).map String.ofList).map String.toList =
        split ',' s.toList := by simp [Function.comp_def]
    rw [← String.toList_inj, String.toList_intercalate, hback, split_eq_splitOn]
    exact List.intercalate_splitOn ','

theorem trim_ofList (cs : List Char) : trim (String.ofList cs) = String.ofList (trimChars cs) := by
  rw [trim, String.toList_ofList]

theorem map_ofList_filter (pieces : List (List Char)) :
    ((pieces.map trimChars).filter (· ≠ [])).map String.ofList =
      ((pieces.map String.ofList).map trim).filter (· ≠ "") := by
  induction pieces with
  | nil => rfl
  | cons piece pieces ih =>
    by_cases hpiece : trimChars piece = []
    · simpa [hpiece, trim_ofList] using ih
    · have hne : String.ofList (trimChars piece) ≠ "" := fun h =>
        hpiece (by rw [← String.toList_ofList (l := trimChars piece), h]; rfl)
      simpa [hpiece, hne, trim_ofList] using ih

theorem listed_intercalate {segments : List String}
    (h : ∀ segment ∈ segments, ',' ∉ segment.toList) :
    listed (",".intercalate segments) = (segments.map trim).filter (· ≠ "") := by
  by_cases hnil : segments = []
  · simp only [hnil]
    rfl
  · have hpieces : split ',' (",".intercalate segments).toList = segments.map String.toList := by
      rw [String.toList_intercalate, split_eq_splitOn]
      exact List.splitOn_intercalate ',' (by simpa using h) (by simpa using hnil)
    have hback : (segments.map String.toList).map String.ofList = segments := by
      simp [Function.comp_def]
    rw [listed, hpieces, map_ofList_filter, hback]

theorem listed_intercalate_of_trimmed {codes : List String}
    (h : ∀ code ∈ codes, code ≠ "" ∧ trim code = code ∧ ',' ∉ code.toList) :
    listed (",".intercalate codes) = codes := by
  have htrim : codes.map trim = codes :=
    (List.map_congr_left fun code hm => (h code hm).2.1).trans (List.map_id codes)
  rw [listed_intercalate fun code hm => (h code hm).2.2, htrim, List.filter_eq_self]
  exact fun code hm => decide_eq_true (h code hm).1

end Backtest.Text
