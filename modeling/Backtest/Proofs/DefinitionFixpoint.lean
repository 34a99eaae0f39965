import Backtest.Proofs.JsonRoundTrip
import Backtest.Proofs.WrittenForm

/-!
What a definition defines, written out, defines itself: as a value, and as the page that is printed
if the thresholds survive printing.
-/

namespace Backtest

open Json

/-- The thresholds survive being printed and read. -/
def Pattern.ReadsBack : Pattern Float → Prop
  | .rsiThreshold _ low high => (Number.real low).ReadsBack ∧ (Number.real high).ReadsBack
  | .maCross .. | .macdCross .. => True

instance : (pattern : Pattern Float) → Decidable pattern.ReadsBack
  | .rsiThreshold .. => inferInstanceAs (Decidable (_ ∧ _))
  | .maCross .. | .macdCross .. => inferInstanceAs (Decidable True)

theorem Rule.written_sorted (rule : Rule Float) : Rule.Written rule.toJson.sorted rule := by
  have hleaves : sorted.sortedMembers rule.members = rule.members := by
    obtain ⟨pattern, enter, exit⟩ := rule
    cases pattern with
    | maCross | rsiThreshold | macdCross => rfl
  have hnames : (rule.members.map (·.1)).Nodup := by
    obtain ⟨pattern, enter, exit⟩ := rule
    cases pattern with
    | maCross | rsiThreshold | macdCross => simp [Rule.members, Pattern.members]
  have hsorted : rule.toJson.sorted = ofMembers (sorted.sortedMembers rule.members) := rfl
  rw [hsorted, hleaves]
  exact exists_ofMembers_eq hnames

theorem Strategy.written_sorted (strategy : Strategy Float) :
    Strategy.Written strategy.toJson.sorted strategy := by
  let raws := strategy.rules.map fun rule => rule.toJson.sorted
  let members := [("name", Json.string strategy.name), ("rules", .array raws),
    ("combine", .string strategy.combine.word)]
  have hsorted : strategy.toJson.sorted = ofMembers members := by
    rw [Strategy.toJson, sorted, sortedMembers_eq]
    simp only [List.map_cons, List.map_nil, sorted, sortedItems_eq, List.map_map]
    rfl
  have hnames : (members.map (·.1)).Nodup := by simp [members]
  obtain ⟨others, hothers, hlookup⟩ := exists_ofMembers_eq hnames
  refine ⟨others, raws, hsorted.trans hothers, hlookup _, hlookup _, hlookup _, ?_⟩
  rw [List.forall₂_map_left_iff, List.forall₂_same]
  exact fun rule _ => rule.written_sorted

theorem Pattern.Valid.readable {depth : Nat} {pattern : Pattern Float} (hvalid : pattern.Valid)
    (hnumbers : pattern.ReadsBack) : ∀ member ∈ pattern.members, Readable depth member.2 := by
  have hnatural {period : Nat} (h : IsBarCount period) : Readable depth (.natural period) :=
    .number (Number.readsBack_natural (by have := h.2; omega))
  cases pattern with
  | maCross fast slow average =>
    obtain ⟨hfast, hslow⟩ := hvalid
    simp only [Pattern.members, List.forall_mem_cons]
    exact ⟨hnatural hfast, hnatural hslow, .string _, by simp⟩
  | rsiThreshold period low high =>
    simp only [Pattern.members, List.forall_mem_cons]
    exact ⟨hnatural hvalid.1, .number hnumbers.1, .number hnumbers.2, by simp⟩
  | macdCross fast slow signal =>
    obtain ⟨hfast, hslow, hsignal⟩ := hvalid
    simp only [Pattern.members, List.forall_mem_cons]
    exact ⟨hnatural hfast, hnatural hslow, hnatural hsignal, by simp⟩

theorem Rule.readable_toJson {depth : Nat} {rule : Rule Float} (hvalid : rule.pattern.Valid)
    (hnumbers : rule.pattern.ReadsBack) : Readable (depth + 1) rule.toJson := by
  refine .object fun member hmember => ?_
  simp only [Rule.members, List.mem_append, List.mem_cons, List.not_mem_nil, or_false] at hmember
  rcases hmember with (rfl | hmember) | rfl | rfl
  · exact .string _
  · exact hvalid.readable hnumbers member hmember
  · exact .string _
  · exact .string _

theorem Strategy.readable_toJson {strategy : Strategy Float} (hvalid : strategy.Valid)
    (hnumbers : ∀ rule ∈ strategy.rules, rule.pattern.ReadsBack) :
    Readable Document.maxDepth strategy.toJson := by
  have hrules : Readable 126 (.array (strategy.rules.map Rule.toJson)) := by
    refine .array fun raw hraw => ?_
    obtain ⟨rule, hrule, rfl⟩ := List.mem_map.1 hraw
    exact Rule.readable_toJson (hvalid.rule_valid rule hrule) (hnumbers rule hrule)
  have hmembers : ∀ member ∈ [("name", Json.string strategy.name),
      ("rules", .array (strategy.rules.map Rule.toJson)), ("combine", .string strategy.combine.word)],
      Readable 126 member.2 := by
    simp only [List.forall_mem_cons]
    exact ⟨.string _, hrules, .string _, by simp⟩
  exact .object hmembers

theorem Strategy.parse_page {strategy : Strategy Float} (hvalid : strategy.Valid)
    (hnumbers : ∀ rule ∈ strategy.rules, rule.pattern.ReadsBack) :
    Strategy.parse strategy.toJson.page = .ok strategy := by
  have hread := Json.read?_page (Strategy.readable_toJson hvalid hnumbers)
  have hdefine := Strategy.define_of_written strategy.written_sorted hvalid
  simp only [Strategy.parse, hread, hdefine]
  rfl

/-- A strategy that was defined is defined again by its written form, which the exact reader reads
as that strategy, too. -/
theorem define_of_define {value : Json} {strategy : Strategy Float}
    (h : Strategy.define value = .ok strategy) :
    (∀ written ∈ [strategy.toJson, strategy.toJson.sorted],
        Strategy.define written = .ok strategy ∧ Strategy.ofJson? written = some strategy) ∧
      ((∀ rule ∈ strategy.rules, rule.pattern.ReadsBack) →
        Strategy.parse strategy.toJson.page = .ok strategy) := by
  have hvalid : strategy.Valid := (Strategy.define_eq_ok_iff.1 h).valid
  refine ⟨?_, Strategy.parse_page hvalid⟩
  intro written hmember
  have hwritten : Strategy.Written written strategy := by
    rw [List.mem_cons, List.mem_singleton] at hmember
    rcases hmember with rfl | rfl
    · exact strategy.written_toJson
    · exact strategy.written_sorted
  exact ⟨Strategy.define_of_written hwritten hvalid, Strategy.ofJson?_of_written hwritten⟩

/-- Other spellings, a number in quotes, and parameters in two places. -/
def swingDefinition : Json :=
  .object [("name", .string " Swing "), ("combine", .string "OR"),
    ("rules", .array [
      .object [("kind", .string "RSI"), ("period", .natural 9),
        ("params", .object [("low", .string " 25.5"), ("high", .null)])],
      .object [("type", .string "Trend-Signal-Cross"), ("exit", .string "Price-Below")]])]

def swing : Strategy Float where
  name := "Swing"
  rules := [⟨.rsiThreshold 9 25.5 70, .above, .above⟩, ⟨.macdCross 12 26 9, .above, .below⟩]
  combine := .any

theorem define_of_define_swing :
    Strategy.define swingDefinition = .ok swing ∧
      (Strategy.define swing.toJson = .ok swing ∧ Strategy.ofJson? swing.toJson = some swing) ∧
      (∀ rule ∈ swing.rules, rule.pattern.ReadsBack) ∧
      Strategy.parse swing.toJson.page = .ok swing := by
  have hdefine : Strategy.define swingDefinition = .ok swing := by decide +kernel
  have hnumbers : ∀ rule ∈ swing.rules, rule.pattern.ReadsBack := by decide +kernel
  obtain ⟨hwritten, hpage⟩ := define_of_define hdefine
  exact ⟨hdefine, hwritten _ List.mem_cons_self, hnumbers, hpage hnumbers⟩

end Backtest
