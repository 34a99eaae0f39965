import Backtest.Json.Document
import Backtest.Proofs.JsonTokens
import Backtest.Proofs.Members
import Backtest.Report

/-!
Printed documents. Reading a page gives back the value that was printed, with the names of each
object in order.
-/

namespace Backtest.Json

/-- The token of a number; a number without a decimal form is written as null. -/
def Number.token (n : Number) : Token := (n.numeral?.map Token.numeral).getD .null

def Number.document (n : Number) : Document := (n.numeral?.map Document.numeral).getD .null

def tokens : Json → List Token
  | null => [.null]
  | bool b => [.bool b]
  | number n => [n.token]
  | string s => [.string (some s)]
  | array items => .openArray :: ([.comma].intercalate (tokensOfItems items) ++ [.closeArray])
  | object members =>
    .openObject :: ([.comma].intercalate (tokensOfMembers members) ++ [.closeObject])
where
  tokensOfItems : List Json → List (List Token)
    | [] => []
    | item :: items => tokens item :: tokensOfItems items
  tokensOfMembers : List (String × Json) → List (List Token)
    | [] => []
    | (name, value) :: members =>
      (.string (some name) :: .colon :: tokens value) :: tokensOfMembers members

def memberTokens (member : String × Json) : List Token :=
  .string (some member.1) :: .colon :: member.2.tokens

def document : Json → Document
  | null => .null
  | bool b => .bool b
  | number n => n.document
  | string s => .string (some s)
  | array items => .array (documentsOfItems items)
  | object members => .object (documentsOfMembers members)
where
  documentsOfItems : List Json → List Document
    | [] => []
    | item :: items => document item :: documentsOfItems items
  documentsOfMembers : List (String × Json) → List (Option String × Document)
    | [] => []
    | (name, value) :: members => (some name, document value) :: documentsOfMembers members

def memberDocument (member : String × Json) : Option String × Document :=
  (some member.1, member.2.document)

/-- The value with the names of each object in order. -/
def sorted : Json → Json
  | array items => .array (sortedItems items)
  | object members => Json.ofMembers (sortedMembers members)
  | value => value
where
  sortedItems : List Json → List Json
    | [] => []
    | item :: items => sorted item :: sortedItems items
  sortedMembers : List (String × Json) → List (String × Json)
    | [] => []
    | (name, value) :: members => (name, sorted value) :: sortedMembers members

/-- Every number can be read back, and containers stand at most so deep. -/
inductive Readable : Nat → Json → Prop
  | null {depth : Nat} : Readable depth .null
  | bool {depth : Nat} (b : Bool) : Readable depth (.bool b)
  | number {depth : Nat} {n : Number} (h : n.ReadsBack) : Readable depth (.number n)
  | string {depth : Nat} (s : String) : Readable depth (.string s)
  | array {depth : Nat} {items : List Json} (h : ∀ item ∈ items, Readable depth item) :
      Readable (depth + 1) (.array items)
  | object {depth : Nat} {members : List (String × Json)}
      (h : ∀ member ∈ members, Readable depth member.2) : Readable (depth + 1) (.object members)

theorem intercalate_cons {β : Type} (sep x : List β) (xs : List (List β)) :
    sep.intercalate (x :: xs) = x ++ xs.flatMap (sep ++ ·) := by
  induction xs generalizing x with
  | nil => simp
  | cons y ys ih => rw [List.intercalate_cons_cons, ih, List.flatMap_cons, List.append_assoc,
      List.append_assoc]

/-! ## Containers, entry by entry -/

theorem eq_map_of_cons {β γ : Type} {f : β → γ} {g : List β → List γ} (hnil : g [] = [])
    (hcons : ∀ x xs, g (x :: xs) = f x :: g xs) (xs : List β) : g xs = xs.map f := by
  induction xs with
  | nil => exact hnil
  | cons x xs ih => rw [hcons, ih, List.map_cons]

theorem prettyItems_eq (margin : String) (items : List Json) :
    prettyAt.prettyItems margin items = items.map (prettyAt margin) :=
  eq_map_of_cons rfl (fun _ _ => rfl) items

theorem prettyMembers_eq (margin : String) (members : List (String × Json)) :
    prettyAt.prettyMembers margin members =
      members.map fun (name, value) => quoted name ++ ": " ++ prettyAt margin value :=
  eq_map_of_cons rfl (fun _ _ => rfl) members

theorem tokensOfItems_eq (items : List Json) : tokens.tokensOfItems items = items.map tokens :=
  eq_map_of_cons rfl (fun _ _ => rfl) items

theorem tokensOfMembers_eq (members : List (String × Json)) :
    tokens.tokensOfMembers members = members.map memberTokens :=
  eq_map_of_cons rfl (fun _ _ => rfl) members

theorem documentsOfItems_eq (items : List Json) :
    document.documentsOfItems items = items.map document :=
  eq_map_of_cons rfl (fun _ _ => rfl) items

theorem documentsOfMembers_eq (members : List (String × Json)) :
    document.documentsOfMembers members = members.map memberDocument :=
  eq_map_of_cons rfl (fun _ _ => rfl) members

theorem sortedItems_eq (items : List Json) : sorted.sortedItems items = items.map sorted :=
  eq_map_of_cons rfl (fun _ _ => rfl) items

theorem sortedMembers_eq (members : List (String × Json)) :
    sorted.sortedMembers members = members.map fun (name, value) => (name, value.sorted) :=
  eq_map_of_cons rfl (fun _ _ => rfl) members

/-! ## From text to tokens -/

def AllBlank (margin : String) : Prop := ∀ c ∈ margin.toList, isSpace c = true

theorem AllBlank.indent {margin : String} (h : AllBlank margin) : AllBlank (margin ++ indent) := by
  intro c hc
  rw [String.toList_append, List.mem_append] at hc
  rcases hc with hc | hc
  · exact h c hc
  · have hblanks : Json.indent.toList = [' ', ' '] := rfl
    rw [hblanks, List.mem_pair] at hc
    rcases hc with rfl | rfl <;> rfl

theorem ends_comma (rest : List Char) : Ends (',' :: rest) := by
  rintro c ⟨⟩
  decide

theorem ends_newline (rest : List Char) : Ends ('\n' :: rest) := by
  rintro c ⟨⟩
  decide

theorem scans_comma (rest : List Char) : Scans ",\n".toList [.comma] rest := by
  have hcomma : Scans ",".toList [.comma] ('\n' :: rest) := .lexeme rfl
  exact hcomma.append (.blank rfl .nil)

theorem scans_colon (rest : List Char) : Scans ": ".toList [.colon] rest := by
  have hcolon : Scans ":".toList [.colon] (' ' :: rest) := .lexeme rfl
  exact hcolon.append (.blank rfl .nil)

theorem Number.ReadsBack.scans {n : Number} (h : n.ReadsBack) {rest : List Char}
    (hrest : Ends rest) : Scans n.text.toList [n.token] rest := by
  obtain ⟨numeral, hnumeral, -⟩ := Option.bind_eq_some_iff.1 h
  rw [Number.token, hnumeral]
  exact .numeral (Number.numeral?_eq_some_iff.1 hnumeral) hrest

section Block

variable {β : Type} {margin opening closing : String} {openToken closeToken : Token}
  {entries : List β} {text : β → String} {tokens : β → List Token}

theorem scans_lines (hmargin : AllBlank margin) {rest : List Char} (hrest : Ends rest)
    (hentries : ∀ entry ∈ entries, ∀ rest, Ends rest →
      Scans (text entry).toList (tokens entry) rest) :
    Scans (",\n".intercalate (entries.map fun entry => margin ++ text entry)).toList
      ([Token.comma].intercalate (entries.map tokens)) rest := by
  have hline : ∀ entry ∈ entries, ∀ rest, Ends rest →
      Scans (margin ++ text entry).toList (tokens entry) rest := by
    intro entry hentry rest hrest
    rw [String.toList_append]
    exact (Scans.blanks hmargin).append (hentries entry hentry rest hrest)
  rw [String.toList_intercalate, List.map_map]
  -- A comma or a line break follows each line, so that a number at its end is read to there.
  induction entries with
  | nil => exact .nil
  | cons entry entries ih =>
    obtain ⟨hfirst, hothers⟩ := List.forall_mem_cons.1 hline
    cases entries with
    | nil =>
      simp only [List.map_cons, List.map_nil, List.intercalate_singleton]
      exact hfirst rest hrest
    | cons entry' entries =>
      simp only [List.map_cons, List.intercalate_cons_cons]
      refine .append (.append (hfirst _ (ends_comma _)) (scans_comma _)) ?_
      exact ih (List.forall_mem_cons.1 hentries).2 hothers

theorem scans_block (hmargin : AllBlank margin)
    (hopening : ∀ rest, Scans opening.toList [openToken] rest)
    (hclosing : ∀ rest, Scans closing.toList [closeToken] rest)
    (hentries : ∀ entry ∈ entries, ∀ rest, Ends rest →
      Scans (text entry).toList (tokens entry) rest) (rest : List Char) :
    Scans (block margin opening closing (entries.map text)).toList
      (openToken :: ([.comma].intercalate (entries.map tokens) ++ [closeToken])) rest := by
  unfold block
  cases entries with
  | nil =>
    rw [List.map_nil, List.isEmpty_nil, if_pos rfl, String.toList_append]
    exact (hopening _).append (hclosing _)
  | cons entry entries =>
    have hend : Scans ('\n' :: (margin.toList ++ closing.toList)) [closeToken] rest :=
      .blank rfl ((Scans.blanks hmargin).append (hclosing rest))
    have hlines := scans_lines hmargin.indent
      (ends_newline (margin.toList ++ closing.toList ++ rest)) hentries
    have hbody := Scans.blank (show isSpace '\n' = true from rfl) (hlines.append hend)
    have hblock := (hopening _).append hbody
    simpa [Function.comp_def] using hblock

end Block

theorem scans_prettyAt {depth : Nat} {value : Json} (h : Readable depth value) {margin : String}
    (hmargin : AllBlank margin) {rest : List Char} (hrest : Ends rest) :
    Scans (value.prettyAt margin).toList value.tokens rest := by
  induction h generalizing margin rest with
  | null | bool b => exact .lexeme rfl
  | number hn => exact hn.scans hrest
  | string s => exact .quoted s rest
  | @array depth items _ ih =>
    rw [prettyAt, prettyItems_eq, tokens, tokensOfItems_eq]
    exact scans_block hmargin (fun _ => .lexeme rfl) (fun _ => .lexeme rfl)
      (fun item hitem rest hrest => ih item hitem hmargin.indent hrest) rest
  | @object depth members _ ih =>
    rw [prettyAt, prettyMembers_eq, tokens, tokensOfMembers_eq]
    refine scans_block hmargin (fun _ => .lexeme rfl) (fun _ => .lexeme rfl) ?_ rest
    rintro ⟨name, value⟩ hmember rest hrest
    simp only [String.toList_append, List.append_assoc]
    exact (Scans.quoted name _).append
      ((scans_colon _).append (ih _ hmember hmargin.indent hrest))

theorem tokens?_page {depth : Nat} {value : Json} (h : Readable depth value) :
    tokens? value.page.toList = some value.tokens := by
  have hvalue : Scans (value.prettyAt "").toList value.tokens ['\n'] :=
    scans_prettyAt h (by simp [AllBlank]) (ends_newline [])
  have hpage := Scans.append hvalue (.blank rfl .nil)
  rw [List.append_nil] at hpage
  rw [page, pretty, String.toList_append]
  exact hpage.tokens?_eq

/-! ## From tokens to documents -/

namespace Document

theorem foldlM_cons {progress next : Progress} {token : Token} (h : step progress token = some next)
    (tokens : List Token) : (token :: tokens).foldlM step progress = tokens.foldlM step next := by
  rw [List.foldlM_cons, h]
  rfl

theorem foldlM_append {progress next : Progress} {tokens : List Token}
    (h : tokens.foldlM step progress = some next) (tokens' : List Token) :
    (tokens ++ tokens').foldlM step progress = tokens'.foldlM step next := by
  rw [List.foldlM_append, h]
  rfl

theorem foldlM_singleton (progress : Progress) (token : Token) :
    [token].foldlM step progress = step progress token := by
  rw [List.foldlM_cons]
  exact bind_pure _

theorem foldlM_firstItem {value : Json} (frames : List Frame) :
    value.tokens.foldlM step (.firstItem frames) = value.tokens.foldlM step (.value frames) := by
  cases value with
  | null | bool | string | array | object => rfl
  | number n =>
    rw [tokens, Number.token]
    cases n.numeral? <;> rfl

/-- The tokens hand the value over to the container it stands in. -/
def Placed (value : Json) : Prop :=
  ∀ frames, value.tokens.foldlM step (.value frames) = place value.document frames

theorem foldlM_items {items : List Json} (h : ∀ item ∈ items, Placed item)
    (before : List Document) (frames : List Frame) :
    (items.flatMap ([Token.comma] ++ ·.tokens)).foldlM step (.after (.array before :: frames)) =
      some (.after (.array ((items.map document).reverse ++ before) :: frames)) := by
  induction items generalizing before with
  | nil => rfl
  | cons item items ih =>
    obtain ⟨hitem, hitems⟩ := List.forall_mem_cons.1 h
    have hplaced : ([Token.comma] ++ item.tokens).foldlM step (.after (.array before :: frames)) =
        some (.after (.array (item.document :: before) :: frames)) :=
      hitem (.array before :: frames)
    rw [List.flatMap_cons, foldlM_append hplaced]
    simpa using ih hitems (item.document :: before)

theorem foldlM_members {members : List (String × Json)} (h : ∀ member ∈ members, Placed member.2)
    (before : List (Option String × Document)) (frames : List Frame) :
    (members.flatMap ([Token.comma] ++ memberTokens ·)).foldlM step
        (.after (.object before :: frames)) =
      some (.after (.object ((members.map memberDocument).reverse ++ before) :: frames)) := by
  induction members generalizing before with
  | nil => rfl
  | cons member members ih =>
    obtain ⟨hmember, hmembers⟩ := List.forall_mem_cons.1 h
    have hplaced : ([Token.comma] ++ memberTokens member).foldlM step
          (.after (.object before :: frames)) =
        some (.after (.object (memberDocument member :: before) :: frames)) :=
      hmember (.member before (some member.1) :: frames)
    rw [List.flatMap_cons, foldlM_append hplaced]
    simpa using ih hmembers (memberDocument member :: before)

theorem placed_of_readable {depth : Nat} {value : Json} (h : Readable depth value) :
    Placed value := by
  -- Of any frames, since the entries of a container stand one level further in.
  induction h with
  | null | bool b | string s => exact fun frames => foldlM_singleton _ _
  | @number depth n _ =>
    intro frames
    rw [tokens, Number.token, document, Number.document]
    cases n.numeral? <;> exact foldlM_singleton _ _
  | @array depth items _ ih =>
    intro frames
    have hopen : step (.value frames) .openArray = some (.firstItem (.array [] :: frames)) := rfl
    rw [tokens, document, tokensOfItems_eq, documentsOfItems_eq, foldlM_cons hopen]
    cases items with
    | nil => exact foldlM_singleton _ _
    | cons item items =>
      obtain ⟨hitem, hitems⟩ := List.forall_mem_cons.1 ih
      have hfirst : item.tokens.foldlM step (.firstItem (.array [] :: frames)) =
          some (.after (.array [item.document] :: frames)) :=
        (foldlM_firstItem _).trans (hitem _)
      rw [List.map_cons, intercalate_cons, List.flatMap_map, List.append_assoc,
        foldlM_append hfirst, foldlM_append (foldlM_items hitems _ _), foldlM_singleton]
      simp [step, finish]
  | @object depth members _ ih =>
    intro frames
    have hopen : step (.value frames) .openObject = some (.firstName (.object [] :: frames)) := rfl
    rw [tokens, document, tokensOfMembers_eq, documentsOfMembers_eq, foldlM_cons hopen]
    cases members with
    | nil => exact foldlM_singleton _ _
    | cons member members =>
      obtain ⟨hmember, hmembers⟩ := List.forall_mem_cons.1 ih
      have hfirst : (memberTokens member).foldlM step (.firstName (.object [] :: frames)) =
          some (.after (.object [memberDocument member] :: frames)) :=
        hmember (.member [] (some member.1) :: frames)
      rw [List.map_cons, intercalate_cons, List.flatMap_map, List.append_assoc,
        foldlM_append hfirst, foldlM_append (foldlM_members hmembers _ _), foldlM_singleton]
      simp [step, finish]

theorem read?_page {depth : Nat} {value : Json} (h : Readable depth value) :
    read? value.page = some value.document := by
  rw [read?, tokens?_page h]
  simp only [Option.bind_eq_bind, Option.bind_some, placed_of_readable h []]
  rfl

/-! ## From documents to values -/

theorem valuesWithin_map {depth : Nat} {items : List Json}
    (h : ∀ item ∈ items, item.document.valueWithin depth = some item.sorted) :
    valueWithin.valuesWithin depth (items.map document) = some (items.map sorted) := by
  induction items with
  | nil => rfl
  | cons item items ih =>
    obtain ⟨hitem, hitems⟩ := List.forall_mem_cons.1 h
    simp [valueWithin.valuesWithin, hitem, ih hitems]

theorem membersWithin_map {depth : Nat} {members : List (String × Json)}
    (h : ∀ member ∈ members, member.2.document.valueWithin depth = some member.2.sorted) :
    valueWithin.membersWithin depth (members.map memberDocument) =
      some (members.map fun (name, value) => (name, value.sorted)) := by
  induction members with
  | nil => rfl
  | cons member members ih =>
    obtain ⟨hmember, hmembers⟩ := List.forall_mem_cons.1 h
    simp [valueWithin.membersWithin, memberDocument, hmember, ih hmembers]

theorem valueWithin_document {depth : Nat} {value : Json} (h : Readable depth value) :
    value.document.valueWithin depth = some value.sorted := by
  induction h with
  | null | bool b | string s => rfl
  | number hn =>
    obtain ⟨numeral, hnumeral, hvalue⟩ := Option.bind_eq_some_iff.1 hn
    simp [document, Number.document, hnumeral, valueWithin, hvalue, sorted]
  | @array depth items _ ih =>
    rw [document, documentsOfItems_eq, valueWithin, valuesWithin_map ih, sorted, sortedItems_eq]
    rfl
  | @object depth members _ ih =>
    rw [document, documentsOfMembers_eq, valueWithin, membersWithin_map ih, sorted,
      sortedMembers_eq]
    rfl

end Document

theorem read?_page {value : Json} (h : Readable Document.maxDepth value) :
    read? value.page = some value.sorted := by
  rw [read?, Document.read?_page h]
  exact Document.valueWithin_document h

/-! ## Names in order -/

theorem lookup?_eq_none {name : String} {members : List (String × Json)}
    (h : name ∉ members.map (·.1)) : lookup? name members = none := by
  induction members with
  | nil => rfl
  | cons member members ih =>
    obtain ⟨first, value⟩ := member
    rw [List.map_cons, List.mem_cons, not_or] at h
    obtain ⟨hfirst, hothers⟩ := h
    rw [lookup?_cons, if_neg (Ne.symm hfirst), ih hothers]

theorem lookup?_foldl_insert {members : List (String × Json)} (h : (members.map (·.1)).Nodup)
    (name : String) (before : List (String × Json)) :
    lookup? name (members.foldl (fun sorted (name, value) => insert name value sorted) before) =
      (lookup? name members).or (lookup? name before) := by
  induction members generalizing before with
  | nil => rfl
  | cons member members ih =>
    obtain ⟨first, value⟩ := member
    obtain ⟨hfirst, hothers⟩ := List.nodup_cons.1 h
    rw [List.foldl_cons, ih hothers, lookup?_insert, lookup?_cons]
    by_cases hname : first = name
    · subst hname
      simp [lookup?_eq_none hfirst]
    · simp [hname]

theorem exists_ofMembers_eq {members : List (String × Json)} (h : (members.map (·.1)).Nodup) :
    ∃ others, ofMembers members = .object others ∧
      ∀ name, lookup? name others = lookup? name members := by
  refine ⟨_, rfl, fun name => ?_⟩
  rw [lookup?_foldl_insert h]
  exact Option.or_none

end Backtest.Json
