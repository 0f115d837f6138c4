import DiskDiff.Lister

/-!
# The listing does not depend on the order of directory entries

`directory_iterator` yields the entries of a directory in an order the file system chooses,
and `recursiveListFiles` sorts them with `fe.sort()` before it writes or descends. This module
proves that the sort does its job: two trees that differ only in the order of the entries of
some directories (`Reordered`) get the same listing from `listFiles`, text, warnings and flags
included (`listFiles_reordered`), as long as the names in each directory are distinct and
valid (`WellNamed`).

The proof goes through `dirRecords`, the records of each directory in the order of the
listing, from which `recursiveListFiles_eq_foldl` builds the whole state of the lister. A
permutation of one directory leaves its sorted entries unchanged, because their records are
siblings and `operator<` orders siblings strictly (`sortEntries_perm_eq`); a reordering inside
one entry leaves its record unchanged, and the merge sort only looks at records
(`mergeSort_forall₂`).
-/

namespace DiskDiff

open FilesystemElement

/-! ## Reordering a directory tree -/

/-- `es'` is the tree `es` with the entries of some of its directories in another order. -/
inductive Reordered : List Entry → List Entry → Prop
  | perm {es es' : List Entry} : es.Perm es' → Reordered es es'
  | inside {es₁ es₂ es es' : List Entry} {n : String} {st : ExtFileStatus} {h t : String} :
      Reordered es es' →
        Reordered (es₁ ++ .mk n st h t es :: es₂) (es₁ ++ .mk n st h t es' :: es₂)
  | trans {es₁ es₂ es₃ : List Entry} : Reordered es₁ es₂ → Reordered es₂ es₃ → Reordered es₁ es₃

theorem maxHeight_perm {es es' : List Entry} (h : es.Perm es') :
    Entry.maxHeight es = Entry.maxHeight es' := by
  induction h with
  | nil => rfl
  | cons e _ ih => simp only [Entry.maxHeight, ih]
  | swap a b l => simp only [Entry.maxHeight]; exact max_left_comm _ _ _
  | trans _ _ ih₁ ih₂ => exact ih₁.trans ih₂

theorem maxHeight_append (l₁ l₂ : List Entry) :
    Entry.maxHeight (l₁ ++ l₂) = max (Entry.maxHeight l₁) (Entry.maxHeight l₂) := by
  induction l₁ with
  | nil => simp [Entry.maxHeight]
  | cons e l ih => rw [List.cons_append, Entry.maxHeight, Entry.maxHeight, ih, max_assoc]

theorem Reordered.maxHeight_eq {es es' : List Entry} (h : Reordered es es') :
    Entry.maxHeight es = Entry.maxHeight es' := by
  induction h with
  | perm hp => exact maxHeight_perm hp
  | inside _ ih => simp only [maxHeight_append, Entry.maxHeight, Entry.height, ih]
  | trans _ _ ih₁ ih₂ => exact ih₁.trans ih₂

theorem mem_replace {e x x' : Entry} {es₁ es₂ : List Entry} (he : e ∈ es₁ ++ x' :: es₂) :
    e = x' ∨ e ∈ es₁ ++ x :: es₂ := by
  simp only [List.mem_append, List.mem_cons] at he ⊢
  tauto

theorem Reordered.wellNamed {es es' : List Entry} (h : Reordered es es') (hw : WellNamed es) :
    WellNamed es' := by
  induction h with
  | perm hp =>
    obtain ⟨hnd, hv, hs⟩ := hw
    exact ⟨(hp.map _).nodup_iff.1 hnd, fun e he => hv e (hp.mem_iff.2 he),
      fun e he => hs e (hp.mem_iff.2 he)⟩
  | @inside es₁ es₂ es es' n st h t _ ih =>
    obtain ⟨hnd, hv, hs⟩ := hw
    have hx : Entry.mk n st h t es ∈ es₁ ++ .mk n st h t es :: es₂ := by simp
    refine ⟨by simpa [Entry.name] using hnd, fun e he => ?_, fun e he => ?_⟩
    · rcases mem_replace he with rfl | he
      · exact hv (.mk n st h t es) hx
      · exact hv e he
    · rcases mem_replace he with rfl | he
      · exact ih (hs _ hx)
      · exact hs e he
  | trans _ _ ih₁ ih₂ => exact ih₂ (ih₁ hw)

/-! ## Sorting the entries of one directory -/

/-- A merge sort by a comparison that looks at its arguments only up to `S` sorts lists
related by `S` element by element into lists related by `S` element by element. -/
theorem mergeSort_forall₂ {α : Type} {r : α → α → Bool} {S : α → α → Prop} {l l' : List α}
    (h : List.Forall₂ S l l') (hr : ∀ a a' b b', S a a' → S b b' → r a b = r a' b') :
    List.Forall₂ S (l.mergeSort r) (l'.mergeSort r) := by
  have hlen := h.length_eq
  have hS : ∀ p ∈ l.zip l', S p.1 p.2 := fun p hp => (List.forall₂_iff_zip.1 h).2 hp
  have h₁ : ((l.zip l').mergeSort fun p q => r p.1 q.1).map Prod.fst = l.mergeSort r := by
    rw [@List.map_mergeSort _ _ (fun p q => r p.1 q.1) r Prod.fst _ fun _ _ _ _ => rfl,
      List.map_fst_zip _ _ hlen.le]
  have h₂ : ((l.zip l').mergeSort fun p q => r p.1 q.1).map Prod.snd = l'.mergeSort r := by
    rw [@List.map_mergeSort _ _ (fun p q => r p.1 q.1) r Prod.snd _
        fun p hp q hq => hr _ _ _ _ (hS p hp) (hS q hq),
      List.map_snd_zip _ _ hlen.ge]
  rw [← h₁, ← h₂, List.forall₂_map_left_iff, List.forall₂_map_right_iff, List.forall₂_same]
  exact fun p hp => hS p (List.mem_mergeSort.1 hp)

theorem eq_of_map_eq {α β : Type} {f : α → β} :
    ∀ {l l' : List α}, (∀ a ∈ l, ∀ b ∈ l', f a = f b → a = b) → l.map f = l'.map f → l = l'
  | [], [], _, _ => rfl
  | a :: l, b :: l', hinj, h => by
    simp only [List.map_cons, List.cons.injEq] at h
    rw [hinj a (List.mem_cons_self _ _) b (List.mem_cons_self _ _) h.1,
      eq_of_map_eq (fun x hx y hy => hinj x (List.mem_cons_of_mem _ hx) y (List.mem_cons_of_mem _ hy))
        h.2]
  | [], _ :: _, _, h => nomatch h
  | _ :: _, [], _, h => nomatch h

/-- The entries of a directory with distinct names are sorted into one order, whatever order
they come in. -/
theorem sortEntries_perm_eq {dir : List String} (hdir : ∀ n ∈ dir, Path.ValidName n)
    {es es' : List Entry} (hw : WellNamed es) (hp : es.Perm es') :
    sortEntries (Path.ofNames dir) es = sortEntries (Path.ofNames dir) es' := by
  have hrec : (sortEntries (Path.ofNames dir) es).map (record (Path.ofNames dir)) =
      (sortEntries (Path.ofNames dir) es').map (record (Path.ofNames dir)) := by
    rw [map_record_sortEntries, map_record_sortEntries]
    exact (eq_sortElements_of_arranged (siblings_records hdir hw)
      ((sortElements_perm _).trans (hp.map _).symm)
      (sortElements_arranged (siblings_records hdir ((Reordered.perm hp).wellNamed hw)))).symm
  obtain ⟨hnd, hv, -⟩ := hw
  refine eq_of_map_eq (fun a ha b hb hab => ?_) hrec
  have ha' : a ∈ es := List.mem_mergeSort.1 ha
  have hb' : b ∈ es := hp.mem_iff.2 (List.mem_mergeSort.1 hb)
  refine List.inj_on_of_nodup_map hnd ha' hb' ?_
  rw [← name_record hdir (hv a ha'), ← name_record hdir (hv b hb'), hab]

/-! ## The listing of a reordered tree -/

theorem map_flatMap_of_forall₂ {α β γ : Type} {f : α → β} {g : α → List γ} {l l' : List α}
    (h : List.Forall₂ (fun a a' => f a = f a' ∧ g a = g a') l l') :
    l.map f = l'.map f ∧ l.flatMap g = l'.flatMap g := by
  induction h with
  | nil => exact ⟨rfl, rfl⟩
  | cons hx _ ih => simp only [List.map_cons, List.flatMap_cons, hx.1, hx.2, ih.1, ih.2, and_self]

/-- Directories whose sorted entries have the same records, and the same listings under
them, have the same listing. -/
theorem dirRecords_congr {m : Nat} {rp : String} {es es' : List Entry}
    (h : List.Forall₂ (fun e e' => record rp e = record rp e' ∧
      dirRecords m (record rp e).rp e.entries = dirRecords m (record rp e').rp e'.entries)
      (sortEntries rp es) (sortEntries rp es')) :
    dirRecords (m + 1) rp es = dirRecords (m + 1) rp es' := by
  obtain ⟨h₁, h₂⟩ := @map_flatMap_of_forall₂ _ _ _ (record rp)
    (fun e => if (record rp e).isDirectory then dirRecords m (record rp e).rp e.entries else [])
    _ _ (h.imp fun _ _ ⟨hr, hd⟩ => ⟨hr, by dsimp only; rw [hd, hr]⟩)
  simp only [dirRecords, h₁, h₂]

/-- Reordering the entries of directories of a well-named tree does not change the records of
any directory of the listing, nor their order. -/
theorem dirRecords_reordered {es es' : List Entry} (h : Reordered es es') :
    ∀ m {dir : List String}, (∀ n ∈ dir, Path.ValidName n) → WellNamed es →
      dirRecords m (Path.ofNames dir) es = dirRecords m (Path.ofNames dir) es' := by
  induction h with
  | perm hp =>
    intro m dir hdir hw
    cases m with
    | zero => rfl
    | succ m => simp only [dirRecords, sortEntries_perm_eq hdir hw hp]
  | @inside es₁ es₂ es es' n st h t _ ih =>
    intro m dir hdir hw
    cases m with
    | zero => rfl
    | succ m =>
      obtain ⟨-, hv, hs⟩ := hw
      have hx : Entry.mk n st h t es ∈ es₁ ++ .mk n st h t es :: es₂ := by simp
      have hsub : dirRecords m (record (Path.ofNames dir) (.mk n st h t es)).rp es =
          dirRecords m (record (Path.ofNames dir) (.mk n st h t es')).rp es' := by
        simp only [rp_record_ofNames hdir, Entry.name]
        exact ih m (validName_append hdir (hv _ hx)) (hs _ hx)
      refine dirRecords_congr (mergeSort_forall₂ ?_ fun a a' b b' ha hb => by simp only [ha.1, hb.1])
      exact List.rel_append (List.forall₂_same.2 fun _ _ => ⟨rfl, rfl⟩)
        (.cons ⟨rfl, hsub⟩ (List.forall₂_same.2 fun _ _ => ⟨rfl, rfl⟩))
  | trans h₁ _ ih₁ ih₂ =>
    intro m dir hdir hw
    exact (ih₁ m hdir hw).trans (ih₂ m hdir (h₁.wellNamed hw))

/-- `listFiles` writes the same text and warnings, and ends with the same flags, whatever
order `directory_iterator` yields the entries of each directory in, as long as the names in a
directory are distinct and valid. -/
theorem listFiles_reordered (s : FileLister) (top : String) {es es' : List Entry}
    (hw : WellNamed es) (hr : Reordered es es') :
    listFiles s top (some es) = listFiles s top (some es') := by
  simp only [listFiles, recursiveListFiles_eq_foldl, hr.maxHeight_eq]
  rw [show "" = Path.ofNames [] from rfl,
    dirRecords_reordered hr _ (fun _ h => absurd h (List.not_mem_nil _)) hw]

theorem listFiles_reordered_swap :
    let a : Entry := .mk "a" ⟨.directory, 0o755, "root", "root", 0, 2, 0⟩ "" "" []
    let b : Entry := .mk "b" ⟨.regular, 0o644, "root", "root", 0, 1, 3⟩ "" "" []
    listFiles ⟨[], [], false, false⟩ "top" (some [a, b]) =
      listFiles ⟨[], [], false, false⟩ "top" (some [b, a]) :=
  listFiles_reordered _ _
    ⟨by decide, by simp [Path.ValidName, Entry.name], by simp [Entry.entries, WellNamed.mk]⟩
    (.perm (.swap _ _ _))

end DiskDiff
