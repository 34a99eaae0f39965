import Mathlib.Logic.Basic
import Backtest.Files.Tree
import Backtest.Proofs.Outcomes

/-!
Writing a file with the folders around it. A failure leaves nothing behind but folders where nothing
was; a success leaves the text, in the place that the path leads to from then on.
-/

namespace Backtest.Tree

variable {tree tree' tree'' : Tree} {place : Place} {steps : List String} {path text : String}

/-- What stands at a place is as it was, unless a folder was made where nothing was. -/
def GrowsAt (tree tree' : Tree) (place : Place) : Prop :=
  tree'.at? place = tree.at? place ∨
    tree.at? place = none ∧ tree'.at? place = some .folder

def Grows (tree tree' : Tree) : Prop := ∀ place, tree.GrowsAt tree' place

theorem Grows.refl (tree : Tree) : tree.Grows tree := fun _ => Or.inl rfl

theorem Grows.trans (h : tree.Grows tree') (h' : tree'.Grows tree'') : tree.Grows tree'' := by
  intro place
  rcases h' place with hsame | ⟨hnone, hfolder⟩
  · rw [GrowsAt, hsame]
    exact h place
  · rcases h place with hsame | ⟨_, hfolder'⟩
    · exact Or.inr ⟨hsame ▸ hnone, hfolder⟩
    · rw [hnone] at hfolder'
      cases hfolder'

theorem lookup_filter_key {β : Type} (keep : Place → Bool) (place : Place)
    (entries : List (Place × β)) :
    (entries.filter (keep ·.1)).lookup place = if keep place then entries.lookup place else none := by
  induction entries with
  | nil => simp
  | cons first rest ih =>
    obtain ⟨other, value⟩ := first
    rw [List.filter_cons]
    by_cases h : place = other
    · subst h
      cases hkeep : keep place <;> simp [hkeep, ih]
    · have hne : (place == other) = false := beq_eq_false_iff_ne.mpr h
      cases keep other <;> simp [ih, List.lookup_cons, hne]

theorem at?_set (tree : Tree) (place other : Place) (entry : Entry) :
    (tree.set place entry).at? other =
      if isGiven other then some .folder
      else if other = place then some entry else tree.at? other := by
  unfold at? set
  split
  · rfl
  · rw [List.lookup_append, lookup_filter_key (fun kept => kept ≠ place)]
    by_cases h : other = place
    · simp [h]
    · have hne : (other == place) = false := beq_eq_false_iff_ne.mpr h
      simp [h, List.lookup_cons, hne]

theorem at?_set_of_ne {other : Place} (h : other ≠ place) (entry : Entry) :
    (tree.set place entry).at? other = tree.at? other := by
  rw [at?_set, if_neg h]
  split
  · rename_i hgiven
    rw [at?, if_pos hgiven]
  · rfl

/-! ## Folders -/

theorem makeFolder_grows (h : tree.makeFolder steps = .ok tree') : tree.Grows tree' := by
  unfold makeFolder at h
  split at h
  · cases h
  obtain ⟨place, hplace, h⟩ := bind_eq_ok_iff.mp h
  split at h
  · cases h
  · rename_i hnone
    obtain rfl := Except.ok.inj h
    intro other
    by_cases hother : other = place
    · subst hother
      exact Or.inr ⟨hnone, by rw [at?_set, if_pos rfl, ite_self]⟩
    · exact Or.inl (at?_set_of_ne hother _)

theorem ensureFolder_grows (h : tree.ensureFolder steps = .ok tree') : tree.Grows tree' := by
  unfold ensureFolder at h
  split at h
  · rename_i made hmade
    obtain rfl := Except.ok.inj h
    exact makeFolder_grows hmade
  · split at h
    · split at h
      · obtain rfl := Except.ok.inj h
        exact .refl tree
      · cases h
    · cases h

theorem makeFolders_grows (tree : Tree) (steps : List String) :
    tree.Grows (tree.makeFolders steps).1 := by
  induction steps with
  | nil => exact .refl tree
  | cons step before ih =>
    simp only [makeFolders]
    generalize (step :: before).reverse = steps
    cases hmade : tree.ensureFolder steps with
    | ok made => exact ensureFolder_grows hmade
    | error e =>
      cases e with
      | notFound =>
        rcases haround : tree.makeFolders before with ⟨around, outcome⟩
        have hgrows : tree.Grows around := by rwa [haround] at ih
        cases outcome with
        | error e => exact hgrows
        | ok _ =>
          cases hmade : around.ensureFolder steps with
          | ok made => simpa only [hmade] using hgrows.trans (ensureFolder_grows hmade)
          | error e => simpa only [hmade] using hgrows
      | _ => exact .refl tree

/-! ## Files -/

theorem descend_set {here next : Place} {name : String} (hplace : tree.isFolder place = false)
    (h : tree.descend here name = .ok next) (entry : Entry) :
    (tree.set place entry).descend here name = .ok next := by
  have hne : here ≠ place := by
    rintro rfl
    unfold descend at h
    split at h
    · cases h
    · cases h
    · rename_i hfolder
      simp [isFolder, hfolder] at hplace
  unfold descend at h ⊢
  rwa [at?_set_of_ne hne]

theorem foldlM_descend_set {here next : Place} (hplace : tree.isFolder place = false)
    (entry : Entry) (h : steps.foldlM tree.descend here = .ok next) :
    steps.foldlM (tree.set place entry).descend here = .ok next := by
  induction steps generalizing here with
  | nil => exact h
  | cons name steps ih =>
    rw [List.foldlM_cons] at h ⊢
    obtain ⟨there, hstep, hrest⟩ := bind_eq_ok_iff.mp h
    exact bind_eq_ok_iff.mpr ⟨there, descend_set hplace hstep entry, ih hrest⟩

/-- What is written in a place which is no folder does not change where paths lead to. -/
theorem locate_set {next : Place} (hplace : tree.isFolder place = false) (entry : Entry)
    (h : tree.locate path = .ok next) : (tree.set place entry).locate path = .ok next := by
  unfold locate at h ⊢
  split at h
  · cases h
  split at h
  · cases h
  split at h
  · cases h
  · simp only [*, if_false, Bool.false_eq_true]
    exact foldlM_descend_set hplace entry h

theorem writeText_eq_ok_iff :
    tree.writeText path text = .ok tree' ↔ ∃ place, tree.locate path = .ok place ∧
      tree.isFolder place = false ∧ path.endsWith "/" = false ∧
      tree' = tree.set place (.file (some text)) := by
  unfold writeText
  refine bind_eq_ok_iff.trans (exists_congr fun place => and_congr_right fun _ => ?_)
  cases tree.isFolder place <;> cases path.endsWith "/"
  · exact pure_eq_ok_iff.trans (by simp [eq_comm])
  all_goals simp [bind, Except.bind, throw, throwThe, MonadExceptOf.throw]

/-- The text stands in the place that the path leads to, and elsewhere only folders may be new. -/
def Delivered (tree tree' : Tree) (path text : String) : Prop :=
  tree'.readText path = .ok text ∧
    ∃ place, tree'.locate path = .ok place ∧ ∀ other, other ≠ place → tree.GrowsAt tree' other

theorem writeText_delivered (hgrows : tree.Grows tree') (h : tree'.writeText path text = .ok tree'') :
    tree.Delivered tree'' path text := by
  obtain ⟨place, hlocate, hfile, hpath, rfl⟩ := writeText_eq_ok_iff.mp h
  have hlocate' := locate_set hfile (.file (some text)) hlocate
  refine ⟨?_, place, hlocate', fun other hother => ?_⟩
  · have hentry : (tree'.set place (.file (some text))).at? place = some (.file (some text)) := by
      have hgiven : isGiven place = false := by
        cases hgiven : isGiven place with
        | false => rfl
        | true => simp [isFolder, at?, hgiven] at hfile
      simp [at?_set, hgiven]
    refine bind_eq_ok_iff.mpr ⟨place, hlocate', ?_⟩
    simp only [hentry, hpath]
    rfl
  · rw [GrowsAt, at?_set_of_ne hother]
    exact hgrows other

theorem deliver_grows_of_error {e : FileError} (h : (tree.deliver path text).2 = .error e) :
    tree.Grows (tree.deliver path text).1 := by
  have hgrows := tree.makeFolders_grows (Path.parent path).reverse
  unfold deliver at h ⊢
  split at h
  · rename_i made e hmade
    simpa only [hmade] using hgrows
  · rename_i made hmade
    split at h
    · rename_i e hwritten
      simpa only [hmade, hwritten] using hgrows
    · cases h

theorem deliver_delivered (h : (tree.deliver path text).2 = .ok ()) :
    tree.Delivered (tree.deliver path text).1 path text := by
  have hgrows := tree.makeFolders_grows (Path.parent path).reverse
  unfold deliver at h ⊢
  split at h
  · cases h
  · rename_i made hmade
    rw [hmade] at hgrows
    split at h
    · cases h
    · rename_i written hwritten
      simpa only [hmade, hwritten] using writeText_delivered hgrows hwritten

end Backtest.Tree
