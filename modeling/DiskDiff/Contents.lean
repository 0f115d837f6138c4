import DiskDiff.Reorder

/-!
# What the listing holds

`recursiveListFiles` writes a line for every entry it reaches, and it reaches the entries under
`top` through directories only. This module states both against a plain denotation of the tree:
`Entry.contentsAll` gives the records of the entries in the order `directory_iterator` yields
them, each entry before what it holds, and it enters an entry only when `ext_symlink_status`
reports a directory.

* The records of the listing are those of the tree, each once, in another order
  (`records_perm_contentsAll`). In a well-named tree no two of them have the same path
  (`records_rp_nodup`), so an index keyed by relative path loses none of them.
* What lies under an entry that is not a directory, such as the target of a symlink to a
  directory, never reaches the listing: pruning it leaves `listFiles` unchanged
  (`listFiles_pruneAll`). This is the note in `recursiveListFiles` about file system loops.
* The text `listFiles` writes, split at its line breaks with the empty lines left out and each
  line read by `readFrom` (`readListing`), gives back the records of the tree
  (`listFiles_readListing`). The line breaks `emit` puts between blocks only make empty lines
  (`nonEmptyLines_emit`).

The body of `DirectoryTree::readFrom` is not in the sources; `readListing` is the simplest
reader of the format, one `readFrom` per non-empty line.
-/

namespace DiskDiff

open FilesystemElement

/-! ## What a directory tree holds -/

namespace Entry

mutual

/-- The records of an entry of the directory `rp`, and of everything under it that the lister
can reach: the entries of an entry that `ext_symlink_status` reports as a directory, and of
nothing else (a symlink to a directory included). -/
def contents (rp : String) : Entry → List FilesystemElement
  | mk n st h t sub =>
    record rp (mk n st h t sub) ::
      if (record rp (mk n st h t sub)).isDirectory then
        contentsAll (record rp (mk n st h t sub)).rp sub else []

/-- The records of the entries of the directory `rp` and of everything under them, in the
order `directory_iterator` yields them, each entry before what it holds. -/
def contentsAll (rp : String) : List Entry → List FilesystemElement
  | [] => []
  | e :: es => e.contents rp ++ contentsAll rp es

end

theorem contents_eq (rp : String) (e : Entry) :
    e.contents rp = record rp e ::
      if (record rp e).isDirectory then contentsAll (record rp e).rp e.entries else [] := by
  cases e; rfl

theorem contentsAll_eq_flatMap (rp : String) (es : List Entry) :
    contentsAll rp es = es.flatMap (contents rp) := by
  induction es with
  | nil => rfl
  | cons e es ih => rw [contentsAll, ih, List.flatMap_cons]

end Entry

theorem flatten_flatMap_eq {α β : Type} (g : α → List (List β)) (l : List α) :
    (l.flatMap g).flatten = l.flatMap fun a => (g a).flatten := by
  simp only [List.flatMap_def, List.flatten_flatten, List.map_map]; rfl

theorem map_append_flatMap_perm {α β : Type} (f : α → β) (g : α → List β) (l : List α) :
    (l.map f ++ l.flatMap g).Perm (l.flatMap fun a => f a :: g a) := by
  induction l with
  | nil => rfl
  | cons a l ih =>
    simp only [List.map_cons, List.flatMap_cons, List.cons_append]
    exact .cons _ ((List.perm_append_comm_assoc _ _ _).trans (ih.append_left _))

/-- The records of the directories of the listing, all together, are the records the tree
holds, in another order. -/
theorem flatten_dirRecords_perm {n : Nat} (rp : String) (es : List Entry)
    (hn : Entry.maxHeight es < n) : (dirRecords n rp es).flatten.Perm (Entry.contentsAll rp es) := by
  induction n generalizing rp es with
  | zero => omega
  | succ n ih =>
    rw [dirRecords, List.flatten_cons, flatten_flatMap_eq, Entry.contentsAll_eq_flatMap]
    have hsub : ∀ e ∈ sortEntries rp es,
        (if (record rp e).isDirectory then dirRecords n (record rp e).rp e.entries else []).flatten.Perm
          (if (record rp e).isDirectory then Entry.contentsAll (record rp e).rp e.entries else []) := by
      intro e he
      have hle := Entry.height_le_of_mem ((List.mem_mergeSort).1 he)
      have hlt := Entry.maxHeight_entries_lt e
      split
      · exact ih _ _ (by omega)
      · rfl
    refine ((List.Perm.flatMap_left _ hsub).append_left _).trans <|
      (map_append_flatMap_perm _ _ _).trans <| ((List.mergeSort_perm _ _).flatMap_right _).trans <|
        .of_eq (List.flatMap_congr fun e _ => (Entry.contents_eq rp e).symm)

theorem records_perm_contentsAll (es : List Entry) : (records es).Perm (Entry.contentsAll "" es) :=
  flatten_dirRecords_perm _ _ (Nat.lt_succ_self _)

/-! ## No two records have one path -/

/-- In a well-named tree under the directory `dir`, the path of every record of an entry and
of what it holds starts with `dir` and the entry's name, and no two records have the same path. -/
theorem cmpts_contentsAll (n : Nat) {dir : List String} (hdir : ∀ n ∈ dir, Path.ValidName n)
    {es : List Entry} (hw : WellNamed es) (hn : Entry.maxHeight es < n) :
    (∀ e ∈ es, ∀ r ∈ e.contents (Path.ofNames dir), ∃ p, Path.cmpts r.rp = dir ++ e.name :: p) ∧
      ((Entry.contentsAll (Path.ofNames dir) es).map fun r => Path.cmpts r.rp).Nodup := by
  induction n generalizing dir es with
  | zero => omega
  | succ n ih =>
    obtain ⟨hnd, hv, hs⟩ := hw
    -- what an entry holds is a well-named tree under `dir ++ [e.name]`
    have hsub (e : Entry) (he : e ∈ es) := by
      have hle := Entry.height_le_of_mem he
      have hlt := Entry.maxHeight_entries_lt e
      exact ih (validName_append hdir (hv e he)) (hs e he) (by omega)
    have hmem : ∀ e ∈ es, ∀ r ∈ e.contents (Path.ofNames dir),
        ∃ p, Path.cmpts r.rp = dir ++ e.name :: p := by
      intro e he r hr
      rw [Entry.contents_eq, List.mem_cons] at hr
      rcases hr with rfl | hr
      · exact ⟨[], cmpts_record hdir (hv e he)⟩
      · split at hr
        · rw [rp_record_ofNames hdir, Entry.contentsAll_eq_flatMap, List.mem_flatMap] at hr
          obtain ⟨e', he', hr⟩ := hr
          obtain ⟨p, hp⟩ := (hsub e he).1 e' he' r hr
          exact ⟨e'.name :: p, by rw [hp, List.append_assoc, List.singleton_append]⟩
        · exact absurd hr (List.not_mem_nil r)
    refine ⟨hmem, ?_⟩
    rw [Entry.contentsAll_eq_flatMap, List.map_flatMap, List.nodup_flatMap]
    constructor
    · intro e he
      rw [Entry.contents_eq, List.map_cons, List.nodup_cons, cmpts_record hdir (hv e he)]
      split
      · rw [rp_record_ofNames hdir]
        refine ⟨fun hin => ?_, (hsub e he).2⟩
        obtain ⟨r, hr, hreq⟩ := List.mem_map.1 hin
        rw [Entry.contentsAll_eq_flatMap, List.mem_flatMap] at hr
        obtain ⟨e', he', hr⟩ := hr
        obtain ⟨p, hp⟩ := (hsub e he).1 e' he' r hr
        rw [hp] at hreq
        exact List.cons_ne_nil _ _ (List.append_right_eq_self.1 hreq)
      · exact ⟨List.not_mem_nil _, List.nodup_nil⟩
    · refine (List.pairwise_map.1 hnd).imp_of_mem fun {a b} ha hb hab => ?_
      refine List.disjoint_left.2 fun x hxa hxb => hab ?_
      obtain ⟨r, hr, rfl⟩ := List.mem_map.1 hxa
      obtain ⟨r', hr', hrr⟩ := List.mem_map.1 hxb
      obtain ⟨p, hp⟩ := hmem a ha r hr
      obtain ⟨q, hq⟩ := hmem b hb r' hr'
      rw [hp, hq, List.append_cancel_left_eq, List.cons.injEq] at hrr
      exact hrr.1.symm

/-- In the listing of a well-named tree, no two records have the same path. -/
theorem records_rp_nodup {es : List Entry} (hw : WellNamed es) :
    ((records es).map FilesystemElement.rp).Nodup := by
  have h := (cmpts_contentsAll _ (fun _ h => absurd h (List.not_mem_nil _)) hw
    (Nat.lt_succ_self (Entry.maxHeight es))).2
  rw [show Path.ofNames [] = "" from rfl] at h
  exact ((records_perm_contentsAll es).map _).nodup_iff.2 (List.Nodup.of_map Path.cmpts (by
    rwa [List.map_map]))

/-! ## The lister does not follow what is not a directory -/

namespace Entry

mutual

/-- The entry with nothing under it unless `ext_symlink_status` reports it as a directory. -/
def prune : Entry → Entry
  | mk n st h t sub => mk n st h t (if st.type = .directory then pruneAll sub else [])

/-- The entries of a directory, each pruned. -/
def pruneAll : List Entry → List Entry
  | [] => []
  | e :: es => e.prune :: pruneAll es

end

theorem pruneAll_eq_map (es : List Entry) : pruneAll es = es.map prune := by
  induction es with
  | nil => rfl
  | cons e es ih => rw [pruneAll, ih, List.map_cons]

mutual

theorem height_prune : ∀ e : Entry, e.prune.height ≤ e.height
  | mk n st h t sub => by
    simp only [prune, height]
    split
    · exact Nat.succ_le_succ (maxHeight_pruneAll sub)
    · exact Nat.succ_le_succ (Nat.zero_le _)

theorem maxHeight_pruneAll : ∀ es : List Entry, maxHeight (pruneAll es) ≤ maxHeight es
  | [] => le_refl _
  | e :: es => max_le_max (height_prune e) (maxHeight_pruneAll es)

end

end Entry

theorem record_prune (rp : String) (e : Entry) : record rp e.prune = record rp e := by
  cases e; rfl

theorem isDirectory_ofStatus (rp : String) (st : ExtFileStatus) (h t : String) :
    (ofStatus rp st h t).isDirectory = decide (st.type = .directory) := by
  obtain ⟨ty, _, _, _, _, _, _⟩ := st
  cases ty <;> rfl

theorem entries_prune {rp : String} {e : Entry} (h : (record rp e).isDirectory) :
    e.prune.entries = Entry.pruneAll e.entries := by
  obtain ⟨n, st, hs, t, sub⟩ := e
  rw [record, isDirectory_ofStatus, decide_eq_true_eq] at h
  simp only [Entry.prune, Entry.entries, if_pos h]

theorem sortEntries_pruneAll (rp : String) (es : List Entry) :
    sortEntries rp (Entry.pruneAll es) = (sortEntries rp es).map Entry.prune := by
  have hr (a b : Entry) : (!FilesystemElement.lt (record rp b.prune) (record rp a.prune)) =
      !FilesystemElement.lt (record rp b) (record rp a) := by rw [record_prune, record_prune]
  rw [Entry.pruneAll_eq_map, sortEntries, sortEntries,
    ← @List.map_mergeSort _ _ (fun a b => !FilesystemElement.lt (record rp b) (record rp a))
      (fun a b => !FilesystemElement.lt (record rp b) (record rp a)) Entry.prune es
      fun a _ b _ => (hr a b).symm]

theorem dirRecords_pruneAll (n : Nat) (rp : String) (es : List Entry) :
    dirRecords n rp (Entry.pruneAll es) = dirRecords n rp es := by
  induction n generalizing rp es with
  | zero => rfl
  | succ n ih =>
    simp only [dirRecords, sortEntries_pruneAll, List.map_map, Function.comp_def, record_prune,
      List.flatMap_map]
    congr 1
    refine List.flatMap_congr fun e _ => ?_
    split
    · rw [entries_prune ‹_›, ih]
    · rfl

/-- `listFiles` writes the same text and warnings, and ends with the same flags, whatever lies
under an entry that `ext_symlink_status` does not report as a directory: it never lists what a
symlink to a directory points to. -/
theorem listFiles_pruneAll (s : FileLister) (top : String) (es : List Entry) :
    listFiles s top (some (Entry.pruneAll es)) = listFiles s top (some es) := by
  have hle := Entry.maxHeight_pruneAll es
  simp only [listFiles, recursiveListFiles_eq_foldl]
  rw [dirRecords_fuel _ _ (Nat.lt_succ_self _) (by omega : _ < Entry.maxHeight es + 1),
    dirRecords_pruneAll]

theorem records_rp_nodup_nested :
    let es := [Entry.mk "a" ⟨.directory, 0o755, "root", "root", 0, 2, 0⟩ "" ""
        [.mk "b" ⟨.regular, 0o644, "root", "root", 0, 1, 3⟩ "" "" []],
      .mk "b" ⟨.regular, 0o644, "root", "root", 0, 1, 3⟩ "" "" []]
    WellNamed es ∧ ((records es).map FilesystemElement.rp).Nodup := by
  intro es
  have hw : WellNamed es := ⟨by decide, by simp [es, Path.ValidName, Entry.name], by
    simp only [es, List.mem_cons, List.mem_singleton, forall_eq_or_imp, forall_eq, Entry.entries,
      List.not_mem_nil, or_false]
    exact ⟨⟨by decide, by simp [Path.ValidName, Entry.name], by simp [Entry.entries, WellNamed.mk]⟩,
      by simp [WellNamed.mk]⟩⟩
  exact ⟨hw, records_rp_nodup hw⟩

/-! ## Reading a listing back -/

/-- The lines of a text that hold something: the pieces between line breaks, without the empty
ones. -/
def nonEmptyLines (text : List Char) : List (List Char) := (text.splitOn '\n').filter (· ≠ [])

/-- A listing read back line by line: every non-empty line of the text is read by `readFrom` on
the element `self`, with the default line number. -/
def readListing (self : FilesystemElement) (diffFileName : String) (text : List Char) :
    Except String (List FilesystemElement) :=
  (nonEmptyLines text).mapM fun l => self.readFrom ⟨l⟩ diffFileName (-1)

theorem nonEmptyLines_line {l : List Char} (hl : '\n' ∉ l) (rest : List Char) :
    nonEmptyLines (l ++ '\n' :: rest) = (if l = [] then [] else [l]) ++ nonEmptyLines rest := by
  unfold nonEmptyLines List.splitOn
  rw [List.splitOnP_first (· == '\n') l (fun c hc h => hl (beq_iff_eq.1 h ▸ hc)) '\n' (by decide)]
  by_cases h : l = [] <;> simp [h]

theorem body_ne_nil (e : FilesystemElement) : body e ≠ [] := List.cons_ne_nil _ _

/-- The lines of records, read as lines. -/
theorem nonEmptyLines_writeTo {fe : List FilesystemElement} (hfe : ∀ r ∈ fe, '\n' ∉ body r)
    (rest : List Char) : nonEmptyLines ((fe.map writeTo).flatten ++ rest) = fe.map body ++ nonEmptyLines rest := by
  induction fe with
  | nil => rfl
  | cons r fe ih =>
    rw [List.map_cons, List.flatten_cons, writeTo_eq_body, List.append_assoc, List.append_assoc,
      List.singleton_append, nonEmptyLines_line (hfe r (List.mem_cons_self _ _)),
      if_neg (body_ne_nil r), ih fun r' h => hfe r' (List.mem_cons_of_mem _ h)]
    rfl

/-- What `emit` writes for the directories `fes`, read as lines, is the lines of their records:
the separators are empty lines. -/
theorem nonEmptyLines_emit (pb : Bool) {fes : List (List FilesystemElement)}
    (h : ∀ r ∈ fes.flatten, '\n' ∉ body r) :
    nonEmptyLines (emit pb (fes.map fun fe => (fe.map writeTo).flatten)).1 = fes.flatten.map body := by
  induction fes generalizing pb with
  | nil => rfl
  | cons fe fes ih =>
    have hsep (x : List Char) : nonEmptyLines ((if pb then ['\n'] else []) ++ x) = nonEmptyLines x := by
      cases pb
      · rfl
      · exact nonEmptyLines_line (List.not_mem_nil _) x
    rw [List.map_cons, emit, List.append_assoc, hsep,
      nonEmptyLines_writeTo (fun r hr => h r (List.mem_flatten.2 ⟨fe, List.mem_cons_self _ _, hr⟩)),
      ih _ fun r hr => h r (by rw [List.flatten_cons]; exact List.mem_append_right _ hr),
      List.flatten_cons, List.map_append]

theorem mapM_readFrom_body (self : FilesystemElement) (diffFileName : String) {rs : List FilesystemElement}
    (h : ∀ r ∈ rs, r.Persistable ∧ r.mt.val ≠ -1) :
    (rs.map body).mapM (fun l => self.readFrom ⟨l⟩ diffFileName (-1)) = .ok (rs.map (readBack self)) := by
  induction rs with
  | nil => rfl
  | cons r rs ih =>
    obtain ⟨he, hmt⟩ := h r (List.mem_cons_self _ _)
    simp only [List.map_cons, List.mapM_cons, readFrom_body self he hmt,
      ih fun r' h' => h r' (List.mem_cons_of_mem _ h')]
    rfl

/-- The text `listFiles` writes is read back, line by line, into the tree it lists: every record
the tree holds once, an element of the listing for each, in the order of the listing. This holds
when every record of the tree is one `writeTo` prints readably, with a time other than `-1` and
no line break in its path or target. -/
theorem listFiles_readListing (s : FileLister) (top : String) {es : List Entry}
    (hr : ∀ r ∈ Entry.contentsAll "" es, r.Persistable ∧ r.mt.val ≠ -1 ∧ '\n' ∉ r.rp.data ∧
      (r.ty = .symlink → '\n' ∉ r.symlink.data))
    (self : FilesystemElement) (diffFileName : String) :
    ∃ s', listFiles s top (some es) = .ok s' ∧ ∃ out, s'.os = s.os ++ out ∧
      ∃ rs, readListing self diffFileName out = .ok rs ∧
        rs.Perm ((Entry.contentsAll "" es).map (readBack self)) := by
  have hperm := records_perm_contentsAll es
  have hr' (r : FilesystemElement) (h : r ∈ records es) := hr r (hperm.subset h)
  refine ⟨_, listFiles_eq s top es, _, List.append_assoc _ _ _, _, ?_, hperm.map (readBack self)⟩
  rw [readListing, ← emit_false, blocks, dirBlocks_eq_map,
    nonEmptyLines_emit false fun r h => newline_not_mem_body (hr' r h).1 (hr' r h).2.2.1 (hr' r h).2.2.2]
  exact mapM_readFrom_body self diffFileName fun r h => ⟨(hr' r h).1, (hr' r h).2.1⟩

set_option maxRecDepth 4000 in
theorem listFiles_readListing_single :
    let es := [Entry.mk "a" ⟨.directory, 0o755, "root", "wheel", 0, 2, 0⟩ "" "" []]
    ∃ s', listFiles ⟨[], [], false, false⟩ "top" (some es) = .ok s' ∧ ∃ out, s'.os = [] ++ out ∧
      ∃ rs, readListing {} "" out = .ok rs ∧ rs.Perm ((Entry.contentsAll "" es).map (readBack {})) :=
  listFiles_readListing ⟨[], [], false, false⟩ "top" (fun r hr => by
    simp [Entry.contentsAll, Entry.contents, record, ofStatus, isDirectory] at hr
    subst hr
    exact ⟨⟨by decide, by decide, ⟨by decide, by decide⟩, ⟨by decide, by decide⟩,
      ⟨by decide, by decide⟩, fun h => absurd h (by decide)⟩, by decide, by decide,
      fun h => absurd h (by decide)⟩) {} ""

end DiskDiff
