import Backtest.Signals

/-!
Causality of indicators and signals: each has one value per price, and the values of a prefix are
a prefix of the values. The early returns for short series and zero periods do not disturb this.
-/

namespace Backtest

variable {β γ δ : Type}

/-- A computation along a series that never looks ahead. -/
structure Causal (f : List β → List γ) : Prop where
  length_eq : ∀ xs, (f xs).length = xs.length
  take_eq : ∀ k xs, f (xs.take k) = (f xs).take k

namespace Causal

theorem map (g : β → γ) : Causal (List.map g) where
  length_eq _ := List.length_map g
  take_eq _ _ := List.map_take

theorem comp {g : List γ → List δ} {f : List β → List γ} (hg : Causal g) (hf : Causal f) :
    Causal (fun xs => g (f xs)) where
  length_eq xs := (hg.length_eq (f xs)).trans (hf.length_eq xs)
  take_eq k xs := by rw [hf.take_eq, hg.take_eq]

theorem zipWith {ε : Type} (h : γ → δ → ε) {f : List β → List γ} {g : List β → List δ}
    (hf : Causal f) (hg : Causal g) : Causal (fun xs => List.zipWith h (f xs) (g xs)) where
  length_eq xs := by rw [List.length_zipWith, hf.length_eq, hg.length_eq, Nat.min_self]
  take_eq k xs := by rw [hf.take_eq, hg.take_eq, List.take_zipWith]

theorem of_eq {f g : List β → List γ} (hg : Causal g) (h : ∀ xs, f xs = g xs) : Causal f := by
  rw [funext h]
  exact hg

theorem getElem?_agree {f : List β → List γ} (hf : Causal f) {k : Nat} {xs ys : List β}
    (hk : k ≤ xs.length) (h : f (xs.take k) = f (ys.take k)) {i : Nat} (hi : i < k) :
    ∃ y, (f xs)[i]? = some y ∧ (f ys)[i]? = some y := by
  rw [hf.take_eq, hf.take_eq] at h
  have hl := hf.length_eq xs
  refine ⟨(f xs)[i], List.getElem?_eq_getElem (by omega), ?_⟩
  rw [← List.getElem?_take_of_lt hi, ← h, List.getElem?_take_of_lt hi]
  exact List.getElem?_eq_getElem (by omega)

end Causal

namespace Line

theorem causal_after (warmup : Nat) : Causal (after warmup (α := β)) where
  length_eq := length_after warmup
  take_eq k xs := by
    induction xs generalizing warmup k with
    | nil => simp [after]
    | cons x xs ih =>
      cases k with
      | zero => cases warmup <;> simp [after]
      | succ k =>
        cases warmup with
        | zero => simp [after, List.map_take]
        | succ warmup => simp [after, ih]

theorem causal_constant (level : γ) :
    Causal (fun xs : List β => constant xs.length level) where
  length_eq _ := length_constant _ _
  take_eq k xs := by simp [constant, List.take_replicate]

theorem causal_undefined : Causal (fun xs : List β => (undefined xs.length : Line γ)) where
  length_eq _ := length_undefined _
  take_eq k xs := by simp [undefined, List.take_replicate]

theorem after_eq_undefined {warmup : Nat} {values : List β} (h : values.length ≤ warmup) :
    after warmup values = undefined values.length := by
  induction values generalizing warmup with
  | nil => simp [after, undefined]
  | cons x xs ih =>
    obtain ⟨w, rfl⟩ : ∃ w, warmup = w + 1 := ⟨warmup - 1, by simp at h; omega⟩
    have hh := ih (Nat.le_of_succ_le_succ h)
    simp [after, hh, undefined, List.replicate_succ]

end Line

namespace Indicator

open Scalar

variable {α : Type} [Scalar α]

theorem length_windowSums (total : α) (prices : List α) (leaving : List (Option α)) :
    (windowSums total prices leaving).length = min prices.length leaving.length := by
  induction prices generalizing total leaving with
  | nil => simp [windowSums]
  | cons price prices ih =>
    cases leaving with
    | nil => simp [windowSums]
    | cons out rest => simp [windowSums, ih, Nat.add_min_add_right]

theorem windowSums_take (k : Nat) (total : α) (prices : List α) (leaving : List (Option α)) :
    (windowSums total prices leaving).take k =
      windowSums total (prices.take k) (leaving.take k) := by
  induction prices generalizing total leaving k with
  | nil => simp [windowSums]
  | cons price prices ih =>
    cases k with
    | zero => simp [windowSums]
    | succ k =>
      cases leaving with
      | nil => simp [windowSums]
      | cons out rest => simp [windowSums, ih]

/-- The window of a period sees only the prices up to its end, although the list of leaving prices
is built from the whole series. -/
theorem causal_windowSums (period : Nat) :
    Causal (fun prices : List α =>
      windowSums zero prices (List.replicate period none ++ prices.map some)) where
  length_eq prices := by simp [length_windowSums]
  take_eq k prices := by
    have hlen : (windowSums zero (prices.take k)
        (List.replicate period none ++ (prices.take k).map some)).length ≤ k := by
      rw [length_windowSums, List.length_take]
      omega
    have hleaving : (List.replicate period none ++ (prices.take k).map some).take k =
        (List.replicate period none ++ prices.map some).take k := by
      rw [List.take_append, List.take_append, ← List.map_take, ← List.map_take, List.take_take]
      simp
    rw [← List.take_of_length_le hlen, windowSums_take, windowSums_take, List.take_take,
      Nat.min_self, hleaving]

/-- A series shorter than the period needs no case of its own. -/
theorem smaLine_eq {period : Nat} (hp : period ≠ 0) (prices : List α) :
    smaLine period prices = Line.after (period - 1)
      ((windowSums zero prices (List.replicate period none ++ prices.map some)).map
        (· / ofNat period)) := by
  unfold smaLine
  split
  · next h =>
    have hlen : prices.length ≤ period - 1 := by omega
    rw [Line.after_eq_undefined (by simpa [length_windowSums] using hlen)]
    simp [length_windowSums]
  · rfl

theorem causal_smaLine (period : Nat) : Causal (smaLine period (α := α)) := by
  by_cases hp : period = 0
  · exact Line.causal_undefined.of_eq (fun prices => by simp [smaLine, hp])
  · exact ((Line.causal_after _).comp ((Causal.map _).comp (causal_windowSums period))).of_eq
      (smaLine_eq hp)

theorem causal_emaFrom (weight average : α) : Causal (emaFrom weight average) where
  length_eq prices := by
    induction prices generalizing average with
    | nil => rfl
    | cons price prices ih => simp [emaFrom, ih]
  take_eq k prices := by
    induction prices generalizing average k with
    | nil => simp [emaFrom]
    | cons price prices ih =>
      cases k with
      | zero => simp [emaFrom]
      | succ k => simp [emaFrom, ih]

theorem causal_emaValues (period : Nat) : Causal (emaValues period (α := α)) where
  length_eq prices := by
    cases prices with
    | nil => rfl
    | cons price prices => simp [emaValues, (causal_emaFrom _ _).length_eq]
  take_eq k prices := by
    cases prices with
    | nil => simp [emaValues]
    | cons price prices =>
      cases k with
      | zero => simp [emaValues]
      | succ k => simp [emaValues, (causal_emaFrom _ _).take_eq]

theorem causal_emaLine (period : Nat) : Causal (emaLine period (α := α)) := by
  by_cases hp : period = 0
  · exact Line.causal_undefined.of_eq (fun prices => by simp [emaLine, hp])
  · exact ((Line.causal_after (period - 1)).comp (causal_emaValues period)).of_eq
      (fun prices => by simp [emaLine, hp])

theorem length_moves (prices : List α) : (moves prices).length = prices.length - 1 := by
  fun_induction moves prices with
  | case1 before now prices ih =>
    simp only [List.length_cons] at ih ⊢
    omega
  | case2 prices h =>
    match prices with
    | [] => rfl
    | [_] => rfl
    | before :: now :: prices => exact absurd rfl (h before now prices)

theorem moves_take (k : Nat) (prices : List α) :
    moves (prices.take (k + 1)) = (moves prices).take k := by
  induction prices generalizing k with
  | nil => simp [moves]
  | cons before prices ih =>
    cases prices with
    | nil => simp [moves]
    | cons now prices =>
      cases k with
      | zero => simp [moves]
      | succ k => simpa [moves] using ih k

theorem length_smoothed (count : α) (average : Move α) (later : List (Move α)) :
    (smoothed count average later).length = later.length + 1 := by
  induction later generalizing average with
  | nil => rfl
  | cons move rest ih => simp [smoothed, ih]

theorem smoothed_take (k : Nat) (count : α) (average : Move α) (later : List (Move α)) :
    smoothed count average (later.take k) = (smoothed count average later).take (k + 1) := by
  induction later generalizing average k with
  | nil => simp [smoothed]
  | cons move rest ih =>
    cases k with
    | zero => simp [smoothed]
    | succ k => simp [smoothed, ih]

theorem rsiLine_of_short {period : Nat} {prices : List α} (h : prices.length ≤ period) :
    rsiLine period prices = Line.undefined prices.length := by
  simp [rsiLine, h]

theorem rsiLine_of_long {period : Nat} {prices : List α} (hp : period ≠ 0)
    (h : period < prices.length) :
    rsiLine period prices = List.replicate period none ++
      (smoothed (ofNat period)
        ((((moves prices).take period).foldl Move.add ⟨zero, zero⟩).divide (ofNat period))
        ((moves prices).drop period)).map (fun average => some average.strength) := by
  have hn : ¬ (period = 0 ∨ prices.length ≤ period) := by omega
  simp only [rsiLine, if_neg hn]

theorem rsiLine_take {period : Nat} (hp : period ≠ 0) (k : Nat) (prices : List α) :
    rsiLine period (prices.take k) = (rsiLine period prices).take k := by
  by_cases hlong : period < prices.length
  · rw [rsiLine_of_long hp hlong]
    by_cases hk : period < k
    · obtain ⟨j, rfl⟩ : ∃ j, k = period + j + 1 := ⟨k - period - 1, by omega⟩
      have hlong' : period < (prices.take (period + j + 1)).length := by
        rw [List.length_take]
        omega
      rw [rsiLine_of_long hp hlong', moves_take, List.take_take, List.drop_take,
        Nat.min_eq_left (Nat.le_add_right period j), Nat.add_sub_cancel_left, smoothed_take,
        List.take_append, List.map_take]
      simp [Nat.add_assoc]
    · have hlen : (prices.take k).length = k := by
        rw [List.length_take]
        omega
      rw [rsiLine_of_short (by omega), hlen, List.take_append, List.length_replicate,
        Nat.sub_eq_zero_of_le (by omega), List.take_zero, List.append_nil, List.take_replicate,
        Nat.min_eq_left (by omega), Line.undefined]
  · have hshort : (prices.take k).length ≤ period := by
      rw [List.length_take]
      omega
    rw [rsiLine_of_short hshort, rsiLine_of_short (Nat.le_of_not_lt hlong)]
    exact Line.causal_undefined.take_eq k prices

theorem causal_rsiLine (period : Nat) : Causal (rsiLine period (α := α)) := by
  by_cases hp : period = 0
  · exact Line.causal_undefined.of_eq (fun prices => by simp [rsiLine, hp])
  · refine ⟨fun prices => ?_, fun k prices => rsiLine_take hp k prices⟩
    by_cases hlong : period < prices.length
    · rw [rsiLine_of_long hp hlong]
      simp only [List.length_append, List.length_replicate, List.length_map, length_smoothed,
        List.length_drop, length_moves]
      omega
    · rw [rsiLine_of_short (by omega), Line.length_undefined]

/-- The difference line is fed on with zeros for its undefined start, bar by bar. -/
theorem causal_macdLines (fast slow signal : Nat) :
    Causal (fun prices : List α => (macdLines fast slow signal prices).line) ∧
    Causal (fun prices : List α => (macdLines fast slow signal prices).signal) := by
  by_cases hp : fast = 0 ∨ slow = 0 ∨ signal = 0
  · exact ⟨Line.causal_undefined.of_eq (fun prices => by simp [macdLines, hp]),
      Line.causal_undefined.of_eq (fun prices => by simp [macdLines, hp])⟩
  · have hline : Causal (fun prices : List α => Line.after (max fast slow - 1)
        (List.zipWith (· - ·) (emaValues fast prices) (emaValues slow prices))) :=
      (Line.causal_after _).comp
        ((causal_emaValues fast).zipWith (· - ·) (causal_emaValues slow))
    have hsignal := (Line.causal_after (max (max fast slow - 1) (signal - 1))).comp
      ((causal_emaValues signal).comp ((Causal.map (fun v : Option α => v.getD zero)).comp hline))
    exact ⟨hline.of_eq (fun prices => by simp only [macdLines, if_neg hp]),
      hsignal.of_eq (fun prices => by simp only [macdLines, if_neg hp])⟩

end Indicator

variable {α : Type} [Scalar α]

theorem zipWith_previous_take (h : β → β → γ) (k : Nat) (x : β) (xs : List β) :
    (List.zipWith h (x :: xs) xs).take k = List.zipWith h (x :: xs.take k) (xs.take k) := by
  induction xs generalizing x k with
  | nil => simp
  | cons y xs ih =>
    cases k with
    | zero => simp
    | succ k => simpa using ih k y

theorem causal_crossings (direction : Polarity) {f g : List β → Line α}
    (hf : Causal f) (hg : Causal g) :
    Causal (fun xs => crossings direction (f xs) (g xs)) where
  length_eq xs := by
    have hl := hf.length_eq xs
    have hr := hg.length_eq xs
    unfold crossings
    split
    · next h =>
      have hz := congrArg List.length h
      rw [List.length_zip, hl, hr, Nat.min_self] at hz
      exact hz.symm
    · next sides rest h =>
      have hz := congrArg List.length h
      rw [List.length_zip, hl, hr, Nat.min_self, List.length_cons] at hz
      rw [List.length_cons, List.length_zipWith, List.length_cons, hz]
      omega
  take_eq k xs := by
    have hz : (f (xs.take k)).zip (g (xs.take k)) = ((f xs).zip (g xs)).take k := by
      rw [hf.take_eq, hg.take_eq, List.zip_eq_zipWith, List.zip_eq_zipWith, List.take_zipWith]
    unfold crossings
    rw [hz]
    cases (f xs).zip (g xs) with
    | nil => simp
    | cons sides rest =>
      cases k with
      | zero => simp
      | succ k => simp only [List.take_succ_cons, zipWith_previous_take]

theorem MovingAverage.causal_line (average : MovingAverage) (period : Nat) :
    Causal (average.line (α := α) period) := by
  cases average with
  | sma => exact Indicator.causal_smaLine period
  | ema => exact Indicator.causal_emaLine period

theorem Pattern.causal_tracks (pattern : Pattern α) :
    Causal (fun prices => (pattern.tracks prices).line) ∧
    Causal (fun prices => (pattern.tracks prices).enterLine) ∧
    Causal (fun prices => (pattern.tracks prices).exitLine) := by
  cases pattern with
  | maCross fast slow average =>
    exact ⟨average.causal_line fast, average.causal_line slow, average.causal_line slow⟩
  | rsiThreshold period low high =>
    exact ⟨Indicator.causal_rsiLine period, Line.causal_constant low, Line.causal_constant high⟩
  | macdCross fast slow signal =>
    have hh := Indicator.causal_macdLines (α := α) fast slow signal
    exact ⟨hh.1, hh.2, hh.2⟩

theorem Rule.causal_signals (rule : Rule α) :
    Causal (fun prices => (rule.signals prices).enter) ∧
    Causal (fun prices => (rule.signals prices).exit) := by
  obtain ⟨hl, hn, hx⟩ := rule.pattern.causal_tracks
  exact ⟨causal_crossings rule.enter hl hn, causal_crossings rule.exit hl hx⟩

theorem Signals.causal_foldl_merge (combine : Combine) (rules : List (Rule α))
    {f : List α → Signals} (hn : Causal (fun prices => (f prices).enter))
    (hx : Causal (fun prices => (f prices).exit)) :
    Causal (fun prices =>
      ((rules.map (·.signals prices)).foldl (Signals.merge combine) (f prices)).enter) ∧
    Causal (fun prices =>
      ((rules.map (·.signals prices)).foldl (Signals.merge combine) (f prices)).exit) := by
  induction rules generalizing f with
  | nil => exact ⟨hn, hx⟩
  | cons rule rules ih =>
    exact ih (f := fun prices => Signals.merge combine (f prices) (rule.signals prices))
      (hn.zipWith _ rule.causal_signals.1) (hx.zipWith _ rule.causal_signals.2)

theorem Strategy.causal_signals (strategy : Strategy α) :
    Causal (fun prices => (strategy.signals prices).enter) ∧
    Causal (fun prices => (strategy.signals prices).exit) := by
  unfold Strategy.signals
  cases strategy.rules with
  | nil =>
    have hh : Causal (fun prices : List α => List.replicate prices.length false) :=
      ⟨fun _ => List.length_replicate, fun _ _ => by simp [List.take_replicate]⟩
    exact ⟨hh, hh⟩
  | cons rule rules =>
    exact Signals.causal_foldl_merge strategy.combine rules
      rule.causal_signals.1 rule.causal_signals.2

end Backtest
