import Backtest.Bar.Folder
import Mathlib.Data.List.Sort

/-!
Loading bars from a table. All rows are checked before any is left out; of the bars of a date inside
the window the last one stays, and the dates ascend.
-/

namespace Backtest

theorem Window.holds_iff (window : Window) (date : Date) :
    window.holds date = true ↔
      (∀ first ∈ window.first, first.day ≤ date.day) ∧
        ∀ last ∈ window.last, date.day ≤ last.day := by
  obtain ⟨first, last⟩ := window
  cases first <;> cases last <;> simp [holds, Date.before]

namespace Bar

def faultOf : Option (Bar Float) → Option RowFault
  | none => some .unreadable
  | some bar => if bar.hasValidPrices then none else some .badPrices

theorem faultOf_eq_none_iff {row : Option (Bar Float)} :
    faultOf row = none ↔ ∃ bar, row = some bar ∧ bar.hasValidPrices = true := by
  cases row <;> simp [faultOf]

theorem checkRows_cons {row : Option (Bar Float)} (start : Nat) (rows : List (Option (Bar Float)))
    {bar : Bar Float} (hrow : row = some bar) (hvalid : bar.hasValidPrices = true) :
    checkRows start (row :: rows) = (checkRows (start + 1) rows).map (bar :: ·) := by
  rw [hrow, checkRows]
  cases checkRows (start + 1) rows <;> simp [hvalid] <;> rfl

theorem checkRows_map_some {bars : List (Bar Float)} (h : ∀ bar ∈ bars, bar.hasValidPrices = true)
    (start : Nat) : checkRows start (bars.map some) = .ok bars := by
  induction bars generalizing start with
  | nil => rfl
  | cons bar bars ih =>
    have hrest := ih (fun other hm => h other (List.mem_cons_of_mem _ hm)) (start + 1)
    rw [List.map_cons, checkRows_cons start _ rfl (h bar List.mem_cons_self), hrest]
    rfl

theorem checkRows_of_fault {rows : List (Option (Bar Float))} {i : Nat}
    {row : Option (Bar Float)} {fault : RowFault} (hrow : rows[i]? = some row)
    (hfault : faultOf row = some fault) (hbefore : ∀ earlier ∈ rows.take i, faultOf earlier = none)
    (start : Nat) : checkRows start rows = .error (start + i, fault) := by
  induction rows generalizing start i with
  | nil => simp at hrow
  | cons head rows ih =>
    cases i with
    | zero =>
      obtain rfl : head = row := by simpa using hrow
      cases head with
      | none =>
        obtain rfl : RowFault.unreadable = fault := by simpa [faultOf] using hfault
        rfl
      | some bar =>
        by_cases hvalid : bar.hasValidPrices = true
        · simp [faultOf, hvalid] at hfault
        · obtain rfl : RowFault.badPrices = fault := by simpa [faultOf, hvalid] using hfault
          simp [checkRows, hvalid]
          rfl
    | succ i =>
      have hhead := hbefore head (by simp)
      obtain ⟨bar, hbar, hvalid⟩ := faultOf_eq_none_iff.mp hhead
      have hrest := ih (i := i) (by simpa using hrow)
        (fun earlier hm => hbefore earlier (by simp [hm])) (start + 1)
      rw [checkRows_cons start rows hbar hvalid, hrest, Nat.add_assoc, Nat.add_comm 1 i]
      rfl

def lastOn (bars : List (Bar Float)) (date : Date) : Option (Bar Float) :=
  (bars.filter (·.date = date)).getLast?

theorem lastOn_cons (bar : Bar Float) (bars : List (Bar Float)) (date : Date) :
    lastOn (bar :: bars) date =
      (lastOn bars date).or (if bar.date = date then some bar else none) := by
  by_cases h : bar.date = date
  · cases hrest : lastOn bars date <;> rw [lastOn] at hrest <;>
      simp [lastOn, h, List.getLast?_cons, hrest]
  · simp [lastOn, h]

theorem mem_of_lastOn {bars : List (Bar Float)} {date : Date} {bar : Bar Float}
    (h : lastOn bars date = some bar) : bar ∈ bars ∧ bar.date = date := by
  simpa using List.mem_filter.mp (List.mem_of_getLast? h)

theorem exists_lastOn_iff {bars : List (Bar Float)} {date : Date} :
    (∃ bar, lastOn bars date = some bar) ↔ date ∈ bars.map (·.date) := by
  constructor
  · rintro ⟨bar, h⟩
    obtain ⟨hm, hd⟩ := mem_of_lastOn h
    exact List.mem_map.mpr ⟨bar, hm, hd⟩
  · intro h
    obtain ⟨bar, hm, hd⟩ := List.mem_map.mp h
    have hne : bars.filter (·.date = date) ≠ [] :=
      List.ne_nil_of_mem (List.mem_filter.mpr ⟨hm, by simpa using hd⟩)
    exact ⟨_, List.getLast?_eq_some_getLast hne⟩

theorem lastOn_filter (p : Date → Bool) (bars : List (Bar Float)) (date : Date) :
    lastOn (bars.filter (p ·.date)) date = if p date then lastOn bars date else none := by
  have hcomm : (bars.filter (p ·.date)).filter (·.date = date) =
      (bars.filter (·.date = date)).filter (fun _ => p date) := by
    rw [List.filter_filter, List.filter_filter]
    refine List.filter_congr fun bar _ => ?_
    by_cases h : bar.date = date <;> simp [h]
  rw [lastOn, hcomm, lastOn]
  cases p date <;> simp

def notAfter (a b : Bar Float) : Bool := !b.date.before a.date

theorem notAfter_iff {a b : Bar Float} : notAfter a b = true ↔ a.date.day ≤ b.date.day := by
  simp [notAfter, Date.before]

theorem notAfter_trans (a b c : Bar Float) (hab : notAfter a b = true)
    (hbc : notAfter b c = true) : notAfter a c = true := by
  rw [notAfter_iff] at hab hbc ⊢
  exact Int.le_trans hab hbc

theorem notAfter_total (a b : Bar Float) : (notAfter a b || notAfter b a) = true := by
  rw [Bool.or_eq_true, notAfter_iff, notAfter_iff]
  exact Int.le_total _ _

/-- Sorting by date is stable, so the bars of one date stay as they were. -/
theorem lastOn_mergeSort (bars : List (Bar Float)) (date : Date) :
    lastOn (bars.mergeSort notAfter) date = lastOn bars date := by
  have hordered : (bars.filter (·.date = date)).Pairwise (fun a b => notAfter a b = true) := by
    apply List.pairwise_of_forall_mem_list
    intro a ha b hb
    have hda : a.date = date := by simpa using (List.mem_filter.mp ha).2
    have hdb : b.date = date := by simpa using (List.mem_filter.mp hb).2
    exact notAfter_iff.mpr (hda.trans hdb.symm ▸ Int.le_refl _)
  have hsub := (List.sublist_mergeSort notAfter_trans notAfter_total hordered
    List.filter_sublist).filter (·.date = date)
  rw [List.filter_filter] at hsub
  simp only [Bool.and_self] at hsub
  -- the bars of the date, in their order, are some of the sorted ones, and there are no more of them
  have hlen := ((List.mergeSort_perm bars notAfter).filter (·.date = date)).length_eq
  exact congrArg List.getLast? (hsub.eq_of_length hlen.symm).symm

theorem sorted_mergeSort (bars : List (Bar Float)) :
    (bars.mergeSort notAfter).Pairwise (fun a b => a.date.day ≤ b.date.day) :=
  (List.pairwise_mergeSort notAfter_trans notAfter_total bars).imp notAfter_iff.mp

section Ordered

variable {bars : List (Bar Float)}

theorem mem_of_mem_lastOfEach {bar : Bar Float} (h : bar ∈ lastOfEach bars) : bar ∈ bars := by
  fun_induction lastOfEach bars with
  | case1 first second rest heq ih => exact List.mem_cons_of_mem _ (ih h)
  | case2 first second rest hne ih =>
    rcases List.mem_cons.mp h with rfl | h
    · exact List.mem_cons_self
    · exact List.mem_cons_of_mem _ (ih h)
  | case3 => exact h

/-- Where the dates of two neighbours differ, the first bar is the only one of its date. -/
theorem day_lt_of_ne {first second : Bar Float} {rest : List (Bar Float)}
    (h : (first :: second :: rest).Pairwise (fun a b => a.date.day ≤ b.date.day))
    (hne : first.date ≠ second.date) : ∀ bar ∈ second :: rest, first.date.day < bar.date.day := by
  obtain ⟨hfirst, htail⟩ := List.pairwise_cons.mp h
  have hle := hfirst second List.mem_cons_self
  have hday : first.date.day ≠ second.date.day := fun heq => hne (congrArg Date.mk heq)
  intro bar hm
  rcases List.mem_cons.mp hm with rfl | hm
  · omega
  · have hsecond := (List.pairwise_cons.mp htail).1 bar hm
    omega

theorem lastOfEach_ascending (h : bars.Pairwise (fun a b => a.date.day ≤ b.date.day)) :
    (lastOfEach bars).Pairwise (fun a b => a.date.day < b.date.day) := by
  fun_induction lastOfEach bars with
  | case1 first second rest heq ih => exact ih h.tail
  | case2 first second rest hne ih =>
    refine List.pairwise_cons.mpr ⟨fun bar hm => ?_, ih h.tail⟩
    exact day_lt_of_ne h hne bar (mem_of_mem_lastOfEach hm)
  | case3 bars hshort =>
    match bars with
    | [] => exact List.Pairwise.nil
    | [bar] => exact List.pairwise_singleton _ bar
    | first :: second :: rest => exact absurd rfl (hshort first second rest)

theorem mem_lastOfEach_iff (h : bars.Pairwise (fun a b => a.date.day ≤ b.date.day))
    {bar : Bar Float} : bar ∈ lastOfEach bars ↔ lastOn bars bar.date = some bar := by
  fun_induction lastOfEach bars with
  | case1 first second rest heq ih =>
    have hlast : lastOn (first :: second :: rest) bar.date = lastOn (second :: rest) bar.date := by
      by_cases hd : second.date = bar.date
      · obtain ⟨later, hlater⟩ := exists_lastOn_iff.mpr
          (List.mem_map.mpr ⟨second, List.mem_cons_self (l := rest), hd⟩)
        rw [lastOn_cons, hlater, Option.some_or]
      · rw [lastOn_cons, if_neg (heq ▸ hd), Option.or_none]
    rw [ih h.tail, hlast]
  | case2 first second rest hne ih =>
    have halone := day_lt_of_ne h hne
    rw [List.mem_cons, ih h.tail, lastOn_cons first]
    by_cases hd : first.date = bar.date
    · have hnone : lastOn (second :: rest) bar.date = none := by
        refine Option.eq_none_iff_forall_ne_some.mpr fun other hother => ?_
        obtain ⟨hm, hdate⟩ := mem_of_lastOn hother
        have hlt := halone other hm
        rw [hdate, hd] at hlt
        exact Int.lt_irrefl _ hlt
      simp [hnone, hd, eq_comm]
    · have hbar : bar ≠ first := fun heq => hd (heq ▸ rfl)
      simp [hbar, hd]
  | case3 bars hshort =>
    match bars with
    | [] => simp [lastOn]
    | [only] =>
      by_cases hd : only.date = bar.date
      · simp [lastOn, hd, eq_comm]
      · have hbar : bar ≠ only := fun heq => hd (heq ▸ rfl)
        simp [lastOn, hd, hbar]
    | first :: second :: rest => exact absurd rfl (hshort first second rest)

end Ordered

/-- The last bar of every date, in the order of the dates. -/
def latest (bars : List (Bar Float)) : List (Bar Float) := lastOfEach (bars.mergeSort notAfter)

theorem latest_ascending (bars : List (Bar Float)) :
    (latest bars).Pairwise (fun a b => a.date.day < b.date.day) :=
  lastOfEach_ascending (sorted_mergeSort bars)

theorem mem_latest_iff {bars : List (Bar Float)} {bar : Bar Float} :
    bar ∈ latest bars ↔ lastOn bars bar.date = some bar := by
  rw [latest, mem_lastOfEach_iff (sorted_mergeSort bars), lastOn_mergeSort]

theorem mem_dates_latest_iff (bars : List (Bar Float)) {date : Date} :
    date ∈ (latest bars).map (·.date) ↔ date ∈ bars.map (·.date) := by
  rw [List.mem_map, ← exists_lastOn_iff]
  constructor
  · rintro ⟨bar, hm, rfl⟩
    exact ⟨bar, mem_latest_iff.mp hm⟩
  · rintro ⟨bar, hlast⟩
    obtain ⟨_, rfl⟩ := mem_of_lastOn hlast
    exact ⟨bar, mem_latest_iff.mpr hlast, rfl⟩

/-- Dates may be left out before the last bar of each is taken, or afterwards. -/
theorem latest_filter (p : Date → Bool) (bars : List (Bar Float)) :
    latest (bars.filter (p ·.date)) = (latest bars).filter (p ·.date) := by
  have hirrefl : Std.Irrefl (fun a b : Bar Float => a.date.day < b.date.day) :=
    ⟨fun a => Int.lt_irrefl _⟩
  have hantisymm : Std.Antisymm (fun a b : Bar Float => a.date.day < b.date.day) :=
    ⟨fun a b hab hba => absurd hba (Int.not_lt.mpr (Int.le_of_lt hab))⟩
  refine (latest_ascending _).eq_of_mem_iff ((latest_ascending bars).filter _) fun bar => ?_
  rw [mem_latest_iff, lastOn_filter, List.mem_filter, mem_latest_iff]
  by_cases hp : p bar.date <;> simp [hp]

theorem mem_dates_filter_latest_iff (p : Date → Bool) (bars : List (Bar Float)) {date : Date} :
    date ∈ ((latest bars).filter (p ·.date)).map (·.date) ↔
      date ∈ bars.map (·.date) ∧ p date = true := by
  rw [← latest_filter, mem_dates_latest_iff, List.mem_map, List.mem_map]
  constructor
  · rintro ⟨bar, hm, rfl⟩
    obtain ⟨hbar, hp⟩ := List.mem_filter.mp hm
    exact ⟨⟨bar, hbar, rfl⟩, hp⟩
  · rintro ⟨⟨bar, hbar, rfl⟩, hp⟩
    exact ⟨bar, List.mem_filter.mpr ⟨hbar, hp⟩, rfl⟩

/-- Either every row is a bar with valid prices, or there is a first row that is not. -/
theorem sound_or_fault (rows : List (Option (Bar Float))) :
    (∃ bars : List (Bar Float), rows = bars.map some ∧ ∀ bar ∈ bars, bar.hasValidPrices = true) ∨
    ∃ i row fault, rows[i]? = some row ∧ faultOf row = some fault ∧
      ∀ earlier ∈ rows.take i, faultOf earlier = none := by
  induction rows with
  | nil => exact Or.inl ⟨[], rfl, by simp⟩
  | cons row rows ih =>
    cases hfault : faultOf row with
    | some fault => exact Or.inr ⟨0, row, fault, rfl, hfault, by simp⟩
    | none =>
      rcases ih with ⟨bars, rfl, hbars⟩ | ⟨i, other, fault, hother, hother', hbefore⟩
      · obtain ⟨bar, rfl, hvalid⟩ := faultOf_eq_none_iff.mp hfault
        refine Or.inl ⟨bar :: bars, rfl, fun other hm => ?_⟩
        rcases List.mem_cons.mp hm with rfl | hm
        · exact hvalid
        · exact hbars other hm
      · refine Or.inr ⟨i + 1, other, fault, hother, hother', fun earlier hm => ?_⟩
        rcases List.mem_cons.mp hm with rfl | hm
        · exact hfault
        · exact hbefore earlier hm

theorem ofRows_of_sound {bars : List (Bar Float)} (h : ∀ bar ∈ bars, bar.hasValidPrices = true)
    (path : String) (window : Window) :
    ofRows path window (bars.map some) = .ok ((latest bars).filter (window.holds ·.date)) := by
  rw [ofRows, select, checkRows_map_some h, ← latest_filter]
  rfl

theorem ofRows_of_fault {rows : List (Option (Bar Float))} {i : Nat} {row : Option (Bar Float)}
    {fault : RowFault} (hrow : rows[i]? = some row) (hfault : faultOf row = some fault)
    (hbefore : ∀ earlier ∈ rows.take i, faultOf earlier = none) (path : String) (window : Window) :
    ofRows path window rows = .error (.data s!"{path}:{i + 2}: {fault.reason}") := by
  rw [ofRows, select, checkRows_of_fault hrow hfault hbefore, Nat.zero_add]
  rfl

/-- If all rows of a table are bars with valid prices, loading gives one bar for each of their dates
inside the window, in ascending order, and of several rows of a date the last. Otherwise it gives no
bars but tells the first row at fault, inside the window or not. -/
theorem ofRows_keeps_last_of_each_date (path : String) (window : Window)
    (rows : List (Option (Bar Float))) :
    (∀ code text, ofReading path code window (.ok text) = ofRows path window (rowsOf text)) ∧
    (∀ bars : List (Bar Float), rows = bars.map some → (∀ bar ∈ bars, bar.hasValidPrices = true) →
      ∃ all kept, ofRows path ⟨none, none⟩ rows = .ok all ∧ ofRows path window rows = .ok kept ∧
        kept = all.filter (window.holds ·.date) ∧
        kept.Pairwise (fun a b => a.date.day < b.date.day) ∧
        (∀ date, date ∈ kept.map (·.date) ↔ date ∈ bars.map (·.date) ∧
          (∀ first ∈ window.first, first.day ≤ date.day) ∧
          ∀ last ∈ window.last, date.day ≤ last.day) ∧
        ∀ bar ∈ kept, (bars.filter (·.date = bar.date)).getLast? = some bar) ∧
    ((¬ ∃ bars : List (Bar Float), rows = bars.map some ∧
        ∀ bar ∈ bars, bar.hasValidPrices = true) →
      ∃ i row fault, rows[i]? = some row ∧ faultOf row = some fault ∧
        (∀ earlier ∈ rows.take i, faultOf earlier = none) ∧
        ofRows path window rows = .error (.data s!"{path}:{i + 2}: {fault.reason}")) := by
  refine ⟨fun _ _ => rfl, ?_, ?_⟩
  · rintro bars rfl hvalid
    have hall : ofRows path ⟨none, none⟩ (bars.map some) = .ok (latest bars) := by
      rw [ofRows_of_sound hvalid]
      exact congrArg Except.ok (List.filter_eq_self.mpr fun _ _ => rfl)
    refine ⟨latest bars, _, hall, ofRows_of_sound hvalid path window, rfl,
      (latest_ascending bars).filter _, fun date => ?_, fun bar hm => ?_⟩
    · rw [← window.holds_iff]
      exact mem_dates_filter_latest_iff window.holds bars
    · exact mem_latest_iff.mp (List.mem_of_mem_filter hm)
  · intro hunsound
    obtain ⟨i, row, fault, hrow, hfault, hbefore⟩ := (sound_or_fault rows).resolve_left hunsound
    exact ⟨i, row, fault, hrow, hfault, hbefore, ofRows_of_fault hrow hfault hbefore path window⟩

/-- A bar at one price all day, told apart by its volume. -/
def steadyBar (day : Int) (volume : Nat) : Bar Float := ⟨⟨day⟩, 1, 1, 1, 1, volume, none, none⟩

theorem ofRows_keeps_last_of_each_date_repeated :
    let bars := [steadyBar 3 30, steadyBar 1 10, steadyBar 3 31, steadyBar 2 20]
    let window : Window := ⟨some ⟨2⟩, none⟩
    (∀ bar ∈ bars, bar.hasValidPrices = true) ∧
    ∃ kept, ofRows "MSFT.csv" window (bars.map some) = .ok kept ∧
      (∀ bar ∈ kept, (bars.filter (·.date = bar.date)).getLast? = some bar) ∧
      kept.map (·.volume) = [20, 31] := by
  intro bars window
  have hvalid : ∀ bar ∈ bars, bar.hasValidPrices = true := by decide +kernel
  have hvolumes : ((latest bars).filter (window.holds ·.date)).map (·.volume) = [20, 31] := by
    simp [bars, window, latest, steadyBar, List.mergeSort, List.MergeSort.Internal.splitInTwo, notAfter,
      lastOfEach, Window.holds, Date.before]
  obtain ⟨_, kept, _, hkept, _, _, _, hlast⟩ :=
    (ofRows_keeps_last_of_each_date "MSFT.csv" window (bars.map some)).2.1 bars rfl hvalid
  have heq := Except.ok.inj (hkept.symm.trans (ofRows_of_sound hvalid _ window))
  exact ⟨hvalid, kept, hkept, hlast, heq ▸ hvolumes⟩

end Bar

end Backtest
