import DiskDiff.Path
import Mathlib.Data.List.Sort

/-!
# `operator<` on records, and the order of a directory's entries

`operator<` puts directories first and orders records of the same kind by path. It is
`flagFirst isDirectory` over `Path.compare` (`lt_iff_order`), so it is a strict weak order:
irreflexive, transitive, and with incomparability transitive. Two records are incomparable
exactly when both or neither are directories and their paths have the same root directory
and the same names (`incomparable_iff`).

`recursiveListFiles` sorts the records of the entries of one directory with `fe.sort()`, a
stable merge sort. The entries of a directory have distinct names, so the sorted list is
the one arrangement with the directories first and each group in ascending order of name
(`sortElements_arranged`, `eq_sortElements_of_arranged`).
-/

namespace DiskDiff

open Batteries

namespace FilesystemElement

/-- `operator<(a, b)`: if both or neither are directories, `a.relativePath() <
b.relativePath()`, else `a.isDirectory() > b.isDirectory()`. -/
def lt (a b : FilesystemElement) : Bool :=
  if a.isDirectory == b.isDirectory then Path.lt a.rp b.rp else a.isDirectory && !b.isDirectory

/-- The comparator `operator<` is the strict part of. -/
def order : FilesystemElement → FilesystemElement → Ordering :=
  flagFirst isDirectory fun a b => Path.compare a.rp b.rp

instance : TransCmp fun a b : FilesystemElement => Path.compare a.rp b.rp where
  symm a b := Path.compare_swap a.rp b.rp
  le_trans := Path.compare_le_trans

instance : TransCmp order where
  symm := flagFirst_swap
  le_trans := flagFirst_le_trans

theorem order_refl (a : FilesystemElement) : order a a = .eq := OrientedCmp.cmp_refl

theorem lt_iff_order {a b : FilesystemElement} : lt a b ↔ order a b = .lt := by
  unfold lt order flagFirst Path.lt
  cases a.isDirectory <;> cases b.isDirectory <;> simp

theorem not_lt_iff_order {a b : FilesystemElement} : lt a b = false ↔ order b a ≠ .gt := by
  rw [← Bool.not_eq_true, lt_iff_order, OrientedCmp.cmp_ne_gt]

theorem lt_irrefl (a : FilesystemElement) : lt a a = false :=
  not_lt_iff_order.2 (by rw [order_refl]; decide)

theorem lt_trans {a b c : FilesystemElement} (hab : lt a b) (hbc : lt b c) : lt a c :=
  lt_iff_order.2 (TransCmp.lt_trans (lt_iff_order.1 hab) (lt_iff_order.1 hbc))

/-- Neither record is before the other. -/
def Incomparable (a b : FilesystemElement) : Prop := lt a b = false ∧ lt b a = false

theorem incomparable_iff_order {a b : FilesystemElement} : Incomparable a b ↔ order a b = .eq := by
  rw [Incomparable, not_lt_iff_order, not_lt_iff_order, OrientedCmp.cmp_ne_gt]
  exact ⟨fun ⟨h1, h2⟩ => Path.eq_of_ne_lt_of_ne_gt h1 h2, fun h => by simp [h]⟩

theorem incomparable_trans {a b c : FilesystemElement} (hab : Incomparable a b)
    (hbc : Incomparable b c) : Incomparable a c := by
  rw [incomparable_iff_order] at *
  rw [TransCmp.cmp_congr_left hab, hbc]

/-- Incomparable records are those of the same kind whose paths have the same elements. -/
theorem incomparable_iff {a b : FilesystemElement} :
    Incomparable a b ↔ a.isDirectory = b.isDirectory ∧
      Path.hasRootDirectory a.rp = Path.hasRootDirectory b.rp ∧ Path.cmpts a.rp = Path.cmpts b.rp := by
  rw [incomparable_iff_order, order, flagFirst_eq_eq, Path.compare_eq_eq]

instance : IsStrictWeakOrder FilesystemElement fun a b => lt a b where
  irrefl a := by simp [lt_irrefl]
  trans _ _ _ := lt_trans
  incomp_trans a b c hab hbc := by
    have hac := incomparable_trans (show Incomparable a b by simpa [Incomparable] using hab)
      (show Incomparable b c by simpa [Incomparable] using hbc)
    simpa [Incomparable] using hac

/-! ## The entries of one directory -/

/-- `fe.sort()`: `std::list::sort` with `operator<`, a stable merge sort. -/
def sortElements (fe : List FilesystemElement) : List FilesystemElement :=
  fe.mergeSort fun a b => !lt b a

/-- The last name of the path of a record. -/
def name (e : FilesystemElement) : String := (Path.cmpts e.rp).getLastD ""

/-- Records of the entries of one directory, whose names relative to the top are `dir`:
relative paths, one more name than `dir`, and no name twice. -/
structure Siblings (dir : List String) (l : List FilesystemElement) : Prop where
  relative : ∀ e ∈ l, Path.hasRootDirectory e.rp = false
  child : ∀ e ∈ l, Path.cmpts e.rp = dir ++ [name e]
  distinct : l.Pairwise fun a b => name a ≠ name b

/-- `a` comes before `b` in a listing: a directory before a record of another kind, else
by name. -/
def Before (a b : FilesystemElement) : Prop :=
  a.isDirectory ∧ !b.isDirectory ∨ a.isDirectory = b.isDirectory ∧ name a < name b

/-- Directories first, then the other records, each group in strictly ascending order of
name. -/
def Arranged (l : List FilesystemElement) : Prop := l.Pairwise Before

section Siblings

variable {dir : List String} {l : List FilesystemElement}

/-- Between the entries of one directory, `operator<` is `Before`. -/
theorem lt_iff_before (hs : Siblings dir l) {a b : FilesystemElement} (ha : a ∈ l) (hb : b ∈ l) :
    lt a b ↔ Before a b := by
  have hpath : Path.compare a.rp b.rp = Ord.compare (name a) (name b) := by
    rw [Path.compare_eq_flagFirst, flagFirst, if_pos (by rw [hs.relative a ha, hs.relative b hb]),
      hs.child a ha, hs.child b hb, Path.compareCmpts_append_left, Path.compareCmpts_cons]
    cases Ord.compare (name a) (name b) <;> rfl
  have hname : Ord.compare (name a) (name b) = .lt ↔ name a < name b := compare_lt_iff_lt
  rw [lt_iff_order, order, flagFirst, hpath, Before]
  cases a.isDirectory <;> cases b.isDirectory <;> simp [hname]

theorem before_of_not_lt (hs : Siblings dir l) {a b : FilesystemElement} (ha : a ∈ l) (hb : b ∈ l)
    (hne : name a ≠ name b) (h : lt b a = false) : Before a b := by
  have hnb : ¬ Before b a := by rw [← lt_iff_before hs hb ha]; simp [h]
  have hlt : name a < name b ∨ name b < name a := by
    cases hc : Ord.compare (name a) (name b)
    · exact .inl (compare_lt_iff_lt.1 hc)
    · exact absurd (compare_eq_iff_eq.1 hc) hne
    · exact .inr (compare_gt_iff_gt.1 hc)
  unfold Before at hnb ⊢
  by_cases hd : a.isDirectory = b.isDirectory
  · exact .inr ⟨hd, hlt.resolve_right fun h => hnb (.inr ⟨hd.symm, h⟩)⟩
  · left
    cases hda : a.isDirectory <;> cases hdb : b.isDirectory <;> simp_all

end Siblings

theorem sortElements_perm (l : List FilesystemElement) : (sortElements l).Perm l :=
  List.mergeSort_perm l _

/-- The merge sort leaves no record after one that is `operator<` it. -/
theorem sortElements_sorted (l : List FilesystemElement) :
    (sortElements l).Pairwise fun a b => (!lt b a) = true := by
  refine List.sorted_mergeSort (fun a b c hab hbc => ?_) (fun a b => ?_) l
  · simp only [Bool.not_eq_true', not_lt_iff_order] at *
    exact TransCmp.le_trans hab hbc
  · cases h : lt b a
    · rfl
    · simp [lt_irrefl, ← Bool.not_eq_true, lt_iff_order, TransCmp.lt_asymm (lt_iff_order.1 h)]

/-- Sorting the records of one directory puts the directories first and each group in
ascending order of name. -/
theorem sortElements_arranged {dir : List String} {l : List FilesystemElement}
    (hs : Siblings dir l) : Arranged (sortElements l) := by
  have hmem : ∀ e ∈ sortElements l, e ∈ l := fun e he => (sortElements_perm l).mem_iff.1 he
  have hdist : (sortElements l).Pairwise fun a b => name a ≠ name b :=
    ((sortElements_perm l).pairwise_iff fun h => Ne.symm h).2 hs.distinct
  refine ((sortElements_sorted l).and hdist).imp_of_mem fun ha hb ⟨hle, hne⟩ => ?_
  exact before_of_not_lt hs (hmem _ ha) (hmem _ hb) hne (by simpa using hle)

/-- The arrangement of `sortElements_arranged` is the only one. -/
theorem eq_sortElements_of_arranged {dir : List String} {l l' : List FilesystemElement}
    (hs : Siblings dir l) (hp : l'.Perm l) (ha : Arranged l') : l' = sortElements l := by
  have : IsAntisymm FilesystemElement fun a b => lt a b = true :=
    ⟨fun a b hab hba => absurd (lt_trans hab hba) (by simp [lt_irrefl])⟩
  have hlt : ∀ {m : List FilesystemElement}, m.Perm l → Arranged m →
      m.Pairwise fun a b => lt a b = true := fun hm hma =>
    hma.imp_of_mem fun ha hb h => (lt_iff_before hs (hm.mem_iff.1 ha) (hm.mem_iff.1 hb)).2 h
  exact List.eq_of_perm_of_sorted (hp.trans (sortElements_perm l).symm) (hlt hp ha)
    (hlt (sortElements_perm l) (sortElements_arranged hs))

/-- `operator<` is a strict weak order whose incomparable pairs are the records of the same
kind with the same path elements; sorting the entries of one directory with it gives the one
arrangement with the directories first and each group in ascending order of name. -/
theorem lt_strictWeakOrder_sortElements :
    IsStrictWeakOrder FilesystemElement (fun a b => lt a b) ∧
    (∀ a b, Incomparable a b ↔ a.isDirectory = b.isDirectory ∧
      Path.hasRootDirectory a.rp = Path.hasRootDirectory b.rp ∧
      Path.cmpts a.rp = Path.cmpts b.rp) ∧
    ∀ dir l, Siblings dir l → (sortElements l).Perm l ∧ Arranged (sortElements l) ∧
      ∀ l', l'.Perm l → Arranged l' → l' = sortElements l :=
  ⟨inferInstance, fun _ _ => incomparable_iff, fun _ _ hs => ⟨sortElements_perm _,
    sortElements_arranged hs, fun _ hp ha => eq_sortElements_of_arranged hs hp ha⟩⟩

end FilesystemElement

end DiskDiff
