import DiskDiff.Element
import Mathlib.Data.String.Basic
import Mathlib.Data.List.Basic

/-!
# Paths and their order

A path is its text. `std::filesystem::path::compare` of libstdc++ compares two paths
element by element: equal texts are equal; a path without a root directory comes before
one with it; then the names after the root directory are compared from the left, as
strings, a path whose names are a prefix of the other's coming first. The names are those
`path::iterator` visits: the runs of characters between separators, and an empty name after
a trailing separator; the empty path has one empty name. Strings compare by
`char_traits<char>`, byte by byte as `unsigned char`. As everywhere in the model, one `Char`
stands for one byte of the C++ string, so the order of `String` is that of `char_traits<char>`
and `String.length` is `size()`.

`flagFirst` is the shape of both levels of the order of `operator<`: a Boolean flag
decides (no root directory first; directories first), and a comparator breaks ties. It
keeps the laws of a comparator (`TransCmp`), so `Path.compare` is one, by
`compare_eq_flagFirst`.
-/

namespace DiskDiff

open Batteries

/-! ## Flag first, then a comparator -/

/-- Elements whose flag `f` is set come first; elements of the same flag are ordered by
`cmp`. -/
def flagFirst {α : Type} (f : α → Bool) (cmp : α → α → Ordering) (x y : α) : Ordering :=
  if f x = f y then cmp x y else if f x then .lt else .gt

section FlagFirst

variable {α : Type} {f : α → Bool} {cmp : α → α → Ordering}

theorem flagFirst_swap [OrientedCmp cmp] (x y : α) :
    (flagFirst f cmp x y).swap = flagFirst f cmp y x := by
  unfold flagFirst
  cases hx : f x <;> cases hy : f y <;> simp [OrientedCmp.symm] <;> rfl

theorem flagFirst_le_trans [TransCmp cmp] {x y z : α} (hxy : flagFirst f cmp x y ≠ .gt)
    (hyz : flagFirst f cmp y z ≠ .gt) : flagFirst f cmp x z ≠ .gt := by
  unfold flagFirst at *
  cases hx : f x <;> cases hy : f y <;> cases hz : f z <;> simp_all <;> exact TransCmp.le_trans hxy hyz

instance [TransCmp cmp] : TransCmp (flagFirst f cmp) where
  symm := flagFirst_swap
  le_trans := flagFirst_le_trans

theorem flagFirst_eq_eq (x y : α) :
    flagFirst f cmp x y = .eq ↔ f x = f y ∧ cmp x y = .eq := by
  unfold flagFirst
  split_ifs <;> simp_all

end FlagFirst

/-! ## Elements of a path -/

namespace Path

/-- `has_root_directory()`: the path starts with a separator. -/
def hasRootDirectory (p : String) : Bool := p.data.head? == some '/'

/-- The names of `p` after its root directory, as `path::iterator` visits them. -/
def cmpts (p : String) : List String :=
  if p.isEmpty then [""] else
    let names := ((p.data.splitOn '/').filter (· ≠ [])).map String.mk
    if p.data.getLast? = some '/' ∧ names ≠ [] then names ++ [""] else names

/-- The loop of `path::compare` over the names: the first name that differs decides, and
a path whose names run out first comes first. -/
def compareCmpts : List String → List String → Ordering
  | [], [] => .eq
  | [], _ :: _ => .lt
  | _ :: _, [] => .gt
  | a :: as, b :: bs =>
    match Ord.compare a b with
    | .eq => compareCmpts as bs
    | o => o

/-- `p.compare(q)`. -/
def compare (p q : String) : Ordering :=
  if p = q then .eq
  else if !hasRootDirectory p && hasRootDirectory q then .lt
  else if hasRootDirectory p && !hasRootDirectory q then .gt
  else compareCmpts (cmpts p) (cmpts q)

/-- `p < q`, which is `p.compare(q) < 0`. -/
def lt (p q : String) : Bool := decide (compare p q = .lt)

theorem compareCmpts_cons (a b : String) (as bs : List String) :
    compareCmpts (a :: as) (b :: bs) = (Ord.compare a b).then (compareCmpts as bs) := by
  simp only [compareCmpts]
  cases Ord.compare a b <;> rfl

theorem eq_of_ne_lt_of_ne_gt {o : Ordering} (h1 : o ≠ .lt) (h2 : o ≠ .gt) : o = .eq := by
  cases o <;> simp_all

theorem compareCmpts_swap (xs ys : List String) : (compareCmpts xs ys).swap = compareCmpts ys xs := by
  induction xs generalizing ys with
  | nil => cases ys <;> rfl
  | cons a as ih =>
    cases ys with
    | nil => rfl
    | cons b bs => simp only [compareCmpts_cons, Ordering.swap_then, OrientedCmp.symm, ih]

theorem compareCmpts_le_trans {xs ys zs : List String} (hxy : compareCmpts xs ys ≠ .gt)
    (hyz : compareCmpts ys zs ≠ .gt) : compareCmpts xs zs ≠ .gt := by
  induction xs generalizing ys zs with
  | nil => cases ys <;> cases zs <;> simp_all [compareCmpts]
  | cons a as ih =>
    cases ys with
    | nil => simp [compareCmpts] at hxy
    | cons b bs =>
      cases zs with
      | nil => simp [compareCmpts] at hyz
      | cons c cs =>
        simp only [compareCmpts_cons, ne_eq, Ordering.then_eq_gt, not_or, not_and] at *
        obtain ⟨⟨hab, hab'⟩, ⟨hbc, hbc'⟩⟩ := And.intro hxy hyz
        refine ⟨TransCmp.le_trans hab hbc, fun hac => ih (hab' ?_) (hbc' ?_)⟩
        · refine eq_of_ne_lt_of_ne_gt ?_ hab
          rw [TransCmp.cmp_congr_left hac]; exact OrientedCmp.cmp_ne_gt.1 hbc
        · refine eq_of_ne_lt_of_ne_gt ?_ hbc
          rw [← TransCmp.cmp_congr_right hac]; exact OrientedCmp.cmp_ne_gt.1 hab

instance : TransCmp compareCmpts where
  symm := compareCmpts_swap
  le_trans := compareCmpts_le_trans

theorem compareCmpts_eq_eq {xs ys : List String} : compareCmpts xs ys = .eq ↔ xs = ys := by
  induction xs generalizing ys with
  | nil => cases ys <;> simp [compareCmpts]
  | cons a as ih =>
    cases ys with
    | nil => simp [compareCmpts]
    | cons b bs => simp [compareCmpts_cons, Ordering.then_eq_eq, BEqCmp.cmp_iff_eq, ih]

theorem compareCmpts_append_left (d xs ys : List String) :
    compareCmpts (d ++ xs) (d ++ ys) = compareCmpts xs ys := by
  induction d with
  | nil => rfl
  | cons a d ih => simp [compareCmpts_cons, OrientedCmp.cmp_refl, Ordering.then, ih]

instance : TransCmp fun p q => compareCmpts (cmpts p) (cmpts q) where
  symm p q := compareCmpts_swap (cmpts p) (cmpts q)
  le_trans := compareCmpts_le_trans

/-- `path::compare` is the order of the names, a path without a root directory first; its
shortcut on equal texts agrees with it. -/
theorem compare_eq_flagFirst (p q : String) :
    compare p q =
      flagFirst (fun p => !hasRootDirectory p) (fun p q => compareCmpts (cmpts p) (cmpts q)) p q := by
  unfold compare flagFirst
  by_cases h : p = q
  · subst h; simp [OrientedCmp.cmp_refl]
  · cases hp : hasRootDirectory p <;> cases hq : hasRootDirectory q <;> simp [h, hp, hq]

theorem compare_swap (p q : String) : (compare p q).swap = compare q p := by
  rw [compare_eq_flagFirst, compare_eq_flagFirst, flagFirst_swap]

theorem compare_le_trans {p q r : String} (hpq : compare p q ≠ .gt) (hqr : compare q r ≠ .gt) :
    compare p r ≠ .gt := by
  rw [compare_eq_flagFirst] at *
  exact flagFirst_le_trans hpq hqr

instance : TransCmp compare where
  symm := compare_swap
  le_trans := compare_le_trans

/-- Two paths are equivalent exactly when they have the same root directory and the same
names. -/
theorem compare_eq_eq {p q : String} :
    compare p q = .eq ↔ hasRootDirectory p = hasRootDirectory q ∧ cmpts p = cmpts q := by
  rw [compare_eq_flagFirst, flagFirst_eq_eq, compareCmpts_eq_eq, Bool.not_inj_iff]

/-! ## The paths of a directory tree -/

/-- `p / name` for the relative path `p` of a directory and the name of one of its entries,
which is also what `lexically_relative(top)` gives for the entry's path. -/
def join (p name : String) : String := if p.isEmpty then name else p ++ "/" ++ name

/-- A name of a directory entry: not empty, and without a separator. -/
def ValidName (n : String) : Prop := n.data ≠ [] ∧ '/' ∉ n.data

/-- The relative path whose names are `ns`. -/
def ofNames (ns : List String) : String := ⟨['/'].intercalate (ns.map String.data)⟩

theorem intercalate_cons_cons (a b : List Char) (L : List (List Char)) :
    ['/'].intercalate (a :: b :: L) = a ++ '/' :: ['/'].intercalate (b :: L) := by
  simp [List.intercalate, List.intersperse_cons_cons]

theorem intercalate_concat {L : List (List Char)} (hL : L ≠ []) (x : List Char) :
    ['/'].intercalate (L ++ [x]) = ['/'].intercalate L ++ '/' :: x := by
  induction L with
  | nil => exact absurd rfl hL
  | cons a L ih =>
    cases L with
    | nil => simp [List.intercalate, List.intersperse_cons_cons]
    | cons b L => rw [List.cons_append, List.cons_append, intercalate_cons_cons,
        ← List.cons_append, ih (List.cons_ne_nil _ _), intercalate_cons_cons]; simp

theorem data_ofNames_concat (init : List String) (x : String) :
    (ofNames (init ++ [x])).data =
      (if init = [] then [] else (ofNames init).data ++ ['/']) ++ x.data := by
  split
  · subst init; simp [ofNames, List.intercalate]
  · rw [ofNames, List.map_append, List.map_singleton,
      intercalate_concat (by simpa using ‹init ≠ []›)]
    simp [ofNames]

theorem ofNames_isEmpty {init : List String} {x : String} (hx : x.data ≠ []) :
    (ofNames (init ++ [x])).isEmpty = false := by
  rw [Bool.eq_false_iff, ne_eq, String.isEmpty_iff, String.ext_iff, data_ofNames_concat]
  simp [hx]

theorem join_ofNames {ns : List String} (hv : ∀ n ∈ ns, ValidName n) (n : String) :
    join (ofNames ns) n = ofNames (ns ++ [n]) := by
  rcases List.eq_nil_or_concat ns with rfl | ⟨init, x, rfl⟩
  · simp [join, ofNames, List.intercalate, show "".isEmpty = true from rfl]
  · rw [List.concat_eq_append] at hv ⊢
    rw [join, ofNames_isEmpty (hv x (by simp)).1, if_neg Bool.false_ne_true, String.ext_iff,
      data_ofNames_concat (init ++ [x]), if_neg (by simp)]
    simp

/-- The names of a path built from valid names are those names. -/
theorem cmpts_ofNames {ns : List String} (hne : ns ≠ []) (hv : ∀ n ∈ ns, ValidName n) :
    cmpts (ofNames ns) = ns := by
  obtain ⟨init, x, rfl⟩ : ∃ init x, ns = init ++ [x] := by
    rcases List.eq_nil_or_concat ns with h | ⟨i, x, h⟩
    · exact absurd h hne
    · exact ⟨i, x, by simpa using h⟩
  have hx := hv x (by simp)
  have hsplit : (ofNames (init ++ [x])).data.splitOn '/' = (init ++ [x]).map String.data :=
    List.splitOn_intercalate _ '/' (fun l hl => by
      obtain ⟨n, hn, rfl⟩ := List.mem_map.1 hl; exact (hv n hn).2) (by simp)
  have hfilter : ((init ++ [x]).map String.data).filter (· ≠ []) = (init ++ [x]).map String.data :=
    List.filter_eq_self.2 fun l hl => by
      obtain ⟨n, hn, rfl⟩ := List.mem_map.1 hl; simpa using (hv n hn).1
  have hlast : (ofNames (init ++ [x])).data.getLast? ≠ some '/' := by
    obtain ⟨c, hc⟩ : ∃ c, x.data.getLast? = some c :=
      Option.ne_none_iff_exists'.1 (by simpa [List.getLast?_eq_none_iff] using hx.1)
    rw [data_ofNames_concat, List.getLast?_append, hc]
    rintro ⟨⟩
    exact hx.2 (List.mem_of_getLast?_eq_some hc)
  unfold cmpts
  simp only [ofNames_isEmpty hx.1, Bool.false_eq_true, if_false, hsplit, hfilter]
  rw [if_neg fun h => hlast h.1]
  simp [Function.comp_def]

theorem hasRootDirectory_ofNames {ns : List String} (hv : ∀ n ∈ ns, ValidName n) :
    hasRootDirectory (ofNames ns) = false := by
  cases ns with
  | nil => rfl
  | cons a ns =>
    have ha := hv a (by simp)
    obtain ⟨t, ht⟩ : ∃ t, (ofNames (a :: ns)).data = a.data ++ t := by
      cases ns with
      | nil => exact ⟨[], by simp [ofNames, List.intercalate]⟩
      | cons b ns => exact ⟨_, intercalate_cons_cons _ _ _⟩
    obtain ⟨c, cs, hc⟩ := List.exists_cons_of_ne_nil ha.1
    have hc' : c ≠ '/' := fun h => ha.2 (hc ▸ h ▸ List.mem_cons_self _ _)
    simp [hasRootDirectory, ht, hc, hc']

end Path

end DiskDiff
