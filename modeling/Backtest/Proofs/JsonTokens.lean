import Backtest.Json.Printer
import Backtest.Json.Token
import Mathlib

/-!
Tokens of printed text. Numbers and strings are read up to their ends whatever comes next, and a
text is read piece by piece.
-/

namespace Backtest.Json

open Decimal

/-! ## Numerals -/

/-- What may follow a number: nothing that would go on with it. -/
def Ends (rest : List Char) : Prop :=
  ∀ c ∈ rest.head?, c.isDigit = false ∧ c ≠ '.' ∧ c ≠ 'e' ∧ c ≠ 'E'

theorem spanDigits_append {rest : List Char} (hrest : Ends rest) (cs : List Char) :
    spanDigits (cs ++ rest) = ((spanDigits cs).1, (spanDigits cs).2 ++ rest) := by
  unfold spanDigits
  induction cs with
  | nil =>
    cases rest with
    | nil => rfl
    | cons c rest =>
      have hc : c.isDigit = false := (hrest c rfl).1
      simp [hc]
  | cons c cs ih =>
    by_cases hc : c.isDigit = true
    · simp only [List.cons_append, List.takeWhile_cons_of_pos hc, List.dropWhile_cons_of_pos hc]
      rw [Prod.mk.injEq] at ih ⊢
      exact ⟨congrArg _ ih.1, ih.2⟩
    · simp [hc]

namespace Numeral

theorem takeSign_append {cs rest : List Char} (hcs : cs ≠ []) :
    takeSign (cs ++ rest) = ((takeSign cs).1, (takeSign cs).2 ++ rest) := by
  obtain ⟨c, cs, rfl⟩ := List.exists_cons_of_ne_nil hcs
  by_cases hc : c = '-'
  · subst hc
    rfl
  · simp [takeSign, hc]

theorem spanSign_append {cs rest : List Char} (hcs : cs ≠ []) :
    spanSign (cs ++ rest) = ((spanSign cs).1, (spanSign cs).2 ++ rest) := by
  obtain ⟨c, cs, rfl⟩ := List.exists_cons_of_ne_nil hcs
  by_cases hminus : c = '-'
  · subst hminus
    rfl
  · by_cases hplus : c = '+'
    · subst hplus
      rfl
    · simp [spanSign, hminus, hplus]

theorem takeFraction?_append {cs rest tail : List Char} {fraction : Option (List Char)}
    (hrest : Ends rest) (h : takeFraction? cs = some (fraction, tail)) :
    takeFraction? (cs ++ rest) = some (fraction, tail ++ rest) := by
  have hstop (cs : List Char) (hcs : ∀ c ∈ cs.head?, c ≠ '.') :
      takeFraction? cs = some (none, cs) := by
    cases cs with
    | nil => rfl
    | cons c cs =>
      have hc : c ≠ '.' := hcs c rfl
      simp [takeFraction?, hc]
  cases cs with
  | nil =>
    cases h
    exact hstop rest fun c hc => (hrest c hc).2.1
  | cons c cs =>
    by_cases hc : c = '.'
    · subst hc
      simp only [List.cons_append, takeFraction?, spanDigits_append hrest cs] at h ⊢
      by_cases hempty : (spanDigits cs).1.isEmpty = true
      · simp [hempty] at h
      · rw [if_neg hempty] at h ⊢
        cases h
        rfl
    · rw [hstop (c :: cs) (by simpa using hc)] at h
      cases h
      exact hstop _ (by simpa using hc)

theorem takeExponent?_append {cs rest tail : List Char} {exponent : Option Exponent}
    (hrest : Ends rest) (h : takeExponent? cs = some (exponent, tail)) :
    takeExponent? (cs ++ rest) = some (exponent, tail ++ rest) := by
  have hstop (cs : List Char) (hcs : ∀ c ∈ cs.head?, ¬(c = 'e' ∨ c = 'E')) :
      takeExponent? cs = some (none, cs) := by
    cases cs with
    | nil => rfl
    | cons c cs =>
      have hc := hcs c rfl
      simp [takeExponent?, hc]
  cases cs with
  | nil =>
    cases h
    refine hstop rest fun c hc => ?_
    obtain ⟨-, -, he, hE⟩ := hrest c hc
    exact not_or.2 ⟨he, hE⟩
  | cons c cs =>
    by_cases hc : c = 'e' ∨ c = 'E'
    · have hsigned : cs ≠ [] := by
        rintro rfl
        simp [takeExponent?, hc, spanSign, spanDigits] at h
      simp only [List.cons_append, takeExponent?, spanSign_append hsigned,
        spanDigits_append hrest] at h ⊢
      rw [if_pos (by simpa using hc)] at h ⊢
      by_cases hempty : (spanDigits (spanSign cs).2).1.isEmpty = true
      · simp [hempty] at h
      · rw [if_neg hempty] at h ⊢
        cases h
        rfl
    · rw [hstop (c :: cs) (by simpa using hc)] at h
      cases h
      exact hstop _ (by simpa using hc)

theorem take?_append {cs rest tail : List Char} {numeral : Numeral} (hrest : Ends rest)
    (h : take? cs = some (numeral, tail)) :
    take? (cs ++ rest) = some (numeral, tail ++ rest) := by
  have hcs : cs ≠ [] := by
    rintro rfl
    cases h
  simp only [take?, takeSign_append hcs, spanDigits_append hrest, Option.bind_eq_bind,
    Option.bind_eq_some_iff] at h ⊢
  obtain ⟨_, hwhole, ⟨fraction, afterFraction⟩, hfraction, ⟨exponent, afterExponent⟩, hexponent,
    hnumeral⟩ := h
  cases hnumeral
  exact ⟨_, hwhole, _, takeFraction?_append hrest hfraction, _,
    takeExponent?_append hrest hexponent, rfl⟩

end Numeral

theorem head?_toDigits_ne_zero {n : Nat} (hn : 0 < n) : (Nat.toDigits 10 n).head? ≠ some '0' := by
  induction n using Nat.strong_induction_on with
  | _ n ih =>
    rw [Nat.toDigits_eq_if (by decide)]
    split
    · rename_i hlt
      intro hzero
      have htoNat := Nat.toNat_digitChar_of_lt_ten hlt
      rw [Option.some.inj hzero] at htoNat
      have : '0'.toNat = 48 := rfl
      omega
    · rename_i hge
      rw [List.head?_append_of_ne_nil _ Nat.toDigits_ne_nil]
      exact ih (n / 10) (by omega) (by omega)

def Numeral.ofNat (n : Nat) : Numeral := ⟨false, Nat.toDigits 10 n, none, none⟩

theorem Numeral.take?_toDigits (n : Nat) :
    Numeral.take? (Nat.toDigits 10 n) = some (Numeral.ofNat n, []) := by
  have hdigit : ∀ c ∈ Nat.toDigits 10 n, c.isDigit = true :=
    fun c hc => Nat.isDigit_of_mem_toDigits (by decide) (by decide) hc
  have hsign : takeSign (Nat.toDigits 10 n) = (false, Nat.toDigits 10 n) := by
    obtain ⟨c, cs, hcs⟩ := List.exists_cons_of_ne_nil (Nat.toDigits_ne_nil (n := n) (b := 10))
    have hc : c ≠ '-' := by
      rintro rfl
      exact absurd (hdigit '-' (by simp [hcs])) (by decide)
    simp [hcs, takeSign, hc]
  have hspan : spanDigits (Nat.toDigits 10 n) = (Nat.toDigits 10 n, []) := by
    unfold spanDigits
    rw [List.takeWhile_eq_self_iff.2 hdigit, List.dropWhile_eq_nil_iff.2 hdigit]
  have hwhole : isWhole (Nat.toDigits 10 n) = true := by
    unfold isWhole
    rcases Nat.eq_zero_or_pos n with rfl | hn
    · decide
    · simp [Nat.toDigits_ne_nil, head?_toDigits_ne_zero hn]
  simp [take?, hsign, hspan, hwhole, takeFraction?, takeExponent?, Numeral.ofNat]

theorem Numeral.value?_ofNat {n : Nat} (hn : n < 2 ^ 64) :
    (Numeral.ofNat n).value? = some (.natural n) := by
  have hdigits : ofDigits (Nat.toDigits 10 n) = n := by
    conv_rhs => rw [← Nat.ofDigitChars_ten_toDigits (n := n)]
    rw [Nat.ofDigitChars_eq_foldl]
    rfl
  have hbound : n < Nat.pow 2 64 := hn
  simp only [Numeral.value?, Numeral.ofNat, hdigits]
  simp [hbound]

def Number.numeral? (n : Number) : Option Numeral :=
  match Numeral.take? n.text.toList with
  | some (numeral, []) => some numeral
  | _ => none

/-- The text of a number stands for the number. -/
def Number.ReadsBack (n : Number) : Prop := n.numeral?.bind Numeral.value? = some n

instance (n : Number) : Decidable n.ReadsBack := inferInstanceAs (Decidable (_ = _))

theorem Number.numeral?_eq_some_iff {n : Number} {numeral : Numeral} :
    n.numeral? = some numeral ↔ Numeral.take? n.text.toList = some (numeral, []) := by
  unfold Number.numeral?
  split
  · rename_i other h
    simp [h]
  · rename_i h
    constructor
    · exact fun hnone => nomatch hnone
    · exact fun hsome => absurd hsome (h numeral)

theorem Number.readsBack_natural {n : Nat} (hn : n < 2 ^ 64) : (Number.natural n).ReadsBack := by
  have htext : (Number.natural n).text.toList = Nat.toDigits 10 n := by
    rw [Number.text, Nat.toString_eq_ofList_toDigits, String.toList_ofList]
  rw [Number.ReadsBack, Number.numeral?, htext, Numeral.take?_toDigits]
  exact Numeral.value?_ofNat hn

theorem Token.take?_numeral {cs rest : List Char} {numeral : Numeral}
    (h : Numeral.take? cs = some (numeral, rest)) :
    Token.take? cs = some (.numeral numeral, rest) := by
  unfold Token.take?
  split
  case h_11 => rw [h]; rfl
  all_goals cases h

/-! ## Strings -/

theorem ofHex?_digitChar {n : Nat} (hn : n < 0x20) :
    ofHex? ['0', '0', Nat.digitChar (n / 16), Nat.digitChar (n % 16)] = some n := by
  decide +revert

theorem takeString?_escape (c : Char) (units : List Nat) (cs : List Char) :
    takeString? units ((escape c).toList ++ cs) = takeString? (c.toNat :: units) cs := by
  unfold escape
  split_ifs with hquote hbackslash hb hf hn hr ht hcontrol
  case pos | pos | pos | pos | pos | pos | pos =>
    subst_vars
    rfl
  · rw [String.toList_ofList]
    simp only [List.cons_append, List.nil_append, takeString?]
    rw [ofHex?_digitChar hcontrol]
  · rw [Char.toString, String.toList_singleton, List.singleton_append]
    rw [takeString?]
    · rw [if_neg hcontrol]
    all_goals simp_all

theorem takeString?_escaped (s rest : List Char) (units : List Nat) :
    takeString? units (s.flatMap (fun c => (escape c).toList) ++ '"' :: rest) =
      some (units.reverse ++ s.map Char.toNat, rest) := by
  induction s generalizing units with
  | nil => simp [takeString?]
  | cons c s ih =>
    rw [List.flatMap_cons, List.append_assoc, takeString?_escape, ih]
    simp

theorem joined?_toNat (chars s : List Char) :
    joined? chars (s.map Char.toNat) = some (chars.reverse ++ s) := by
  induction s generalizing chars with
  | nil => simp [joined?]
  | cons c s ih =>
    have hvalid : c.toNat < 0xD800 ∨ 0xDFFF < c.toNat ∧ c.toNat < 0x110000 := c.valid
    have hhigh : isHighUnit c.toNat = false := by
      simp only [isHighUnit, Bool.and_eq_false_iff, decide_eq_false_iff_not]
      omega
    have hlow : isLowUnit c.toNat = false := by
      simp only [isLowUnit, Bool.and_eq_false_iff, decide_eq_false_iff_not]
      omega
    rw [List.map_cons, joined?.eq_def]
    simp [hhigh, hlow, ih]

theorem toList_quoted (s : String) :
    (quoted s).toList = '"' :: (s.toList.flatMap (fun c => (escape c).toList) ++ ['"']) := by
  simp [quoted, String.toList_join, List.flatMap_map]

theorem Token.take?_quoted (s : String) (rest : List Char) :
    Token.take? ((quoted s).toList ++ rest) = some (.string (some s), rest) := by
  rw [toList_quoted]
  simp only [List.cons_append, List.append_assoc, List.nil_append, Token.take?,
    takeString?_escaped, Option.map_some, List.reverse_nil, joined?_toNat, String.ofList_toList]

/-! ## Texts -/

/-- The text of a token that is always written alike. -/
def Token.lexeme? : Token → Option String
  | openArray => some "["
  | closeArray => some "]"
  | openObject => some "\x7b"
  | closeObject => some "\x7d"
  | comma => some ","
  | colon => some ":"
  | null => some "null"
  | bool b => some (if b then "true" else "false")
  | numeral _ => none
  | string _ => none

/-- The characters are read as these tokens, with blanks between them, when `rest` follows. -/
inductive Scans : List Char → List Token → List Char → Prop
  | nil {rest : List Char} : Scans [] [] rest
  | blank {c : Char} {cs : List Char} {tokens : List Token} {rest : List Char}
      (hc : isSpace c = true) (h : Scans cs tokens rest) : Scans (c :: cs) tokens rest
  | token {c : Char} {lexeme cs : List Char} {token : Token} {tokens : List Token}
      {rest : List Char} (hc : isSpace c = false)
      (htake : Token.take? (c :: lexeme ++ (cs ++ rest)) = some (token, cs ++ rest))
      (h : Scans cs tokens rest) : Scans (c :: lexeme ++ cs) (token :: tokens) rest

namespace Scans

theorem append {cs cs' rest : List Char} {tokens tokens' : List Token}
    (h : Scans cs tokens (cs' ++ rest)) (h' : Scans cs' tokens' rest) :
    Scans (cs ++ cs') (tokens ++ tokens') rest := by
  generalize hrest : cs' ++ rest = mid at h
  induction h with
  | nil => exact h'
  | blank hc _ ih => exact .blank hc (ih hrest)
  | token hc htake _ ih =>
    subst hrest
    rw [List.append_assoc]
    refine .token hc ?_ (ih rfl)
    rw [List.append_assoc]
    exact htake

theorem blanks {cs rest : List Char} (h : ∀ c ∈ cs, isSpace c = true) : Scans cs [] rest := by
  induction cs with
  | nil => exact .nil
  | cons c cs ih =>
    obtain ⟨hc, hcs⟩ := List.forall_mem_cons.1 h
    exact .blank hc (ih hcs)

theorem single {c : Char} {cs rest : List Char} {token : Token} (hfirst : cs.head? = some c)
    (hc : isSpace c = false) (htake : Token.take? (cs ++ rest) = some (token, rest)) :
    Scans cs [token] rest := by
  obtain ⟨lexeme, rfl⟩ := List.head?_eq_some_iff.1 hfirst
  have h : Scans (c :: lexeme ++ []) [token] rest := .token hc htake .nil
  rwa [List.append_nil] at h

theorem lexeme {token : Token} {text : String} (h : token.lexeme? = some text) {rest : List Char} :
    Scans text.toList [token] rest := by
  cases token with
  | openArray | closeArray | openObject | closeObject | comma | colon | null =>
    cases h
    exact .single rfl rfl rfl
  | bool b =>
    cases b with
    | false | true =>
      cases h
      exact .single rfl rfl rfl
  | numeral | string => cases h

theorem numeral {cs : List Char} {numeral : Numeral}
    (h : Numeral.take? cs = some (numeral, [])) {rest : List Char} (hrest : Ends rest) :
    Scans cs [.numeral numeral] rest := by
  cases cs with
  | nil => cases h
  | cons c cs =>
    have hspace : isSpace c = false := by
      by_contra hspace
      simp only [isSpace, Bool.not_eq_false, Bool.or_eq_true, decide_eq_true_eq] at hspace
      rcases hspace with ((rfl | rfl) | rfl) | rfl <;> cases h
    exact .single rfl hspace (Token.take?_numeral (Numeral.take?_append hrest h))

theorem quoted (s : String) (rest : List Char) :
    Scans (Json.quoted s).toList [.string (some s)] rest := by
  have htake := Token.take?_quoted s rest
  rw [toList_quoted] at htake ⊢
  exact .single rfl rfl htake

theorem tokensFrom?_eq {cs : List Char} {tokens : List Token} (h : Scans cs tokens []) :
    ∀ (count : Nat) (before : List Token), cs.length < count →
      tokensFrom? count before cs = some (before.reverse ++ tokens) := by
  generalize hrest : [] = rest at h
  -- A blank takes no token and a token takes a character, so the count outlasts the text.
  induction h with
  | nil =>
    intro count before hcount
    obtain ⟨count, rfl⟩ := Nat.exists_eq_succ_of_ne_zero (Nat.ne_zero_of_lt hcount)
    simp [tokensFrom?]
  | @blank c cs tokens rest hc _ ih =>
    intro count before hcount
    rw [List.length_cons] at hcount
    rw [← ih hrest count before (by omega)]
    cases count with
    | zero => rfl
    | succ count => rw [tokensFrom?, tokensFrom?, List.dropWhile_cons_of_pos hc]
  | @token c lexeme cs token tokens rest hc htake _ ih =>
    intro count before hcount
    subst hrest
    rw [List.length_append, List.length_cons] at hcount
    obtain ⟨count, rfl⟩ := Nat.exists_eq_succ_of_ne_zero (Nat.ne_zero_of_lt hcount)
    have hdrop : (c :: (lexeme ++ cs)).dropWhile isSpace = c :: (lexeme ++ cs) := by
      simp [hc]
    rw [List.append_nil, List.cons_append] at htake
    rw [tokensFrom?, List.cons_append, hdrop]
    simp only [htake]
    rw [ih rfl count _ (by omega)]
    simp

theorem tokens?_eq {cs : List Char} {tokens : List Token} (h : Scans cs tokens []) :
    tokens? cs = some tokens := by
  rw [tokens?, h.tokensFrom?_eq _ _ (Nat.lt_succ_self _)]
  rfl

end Scans

end Backtest.Json
