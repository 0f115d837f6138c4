import DiskDiff.Codec
import DiskDiff.Order

/-!
# `FileLister`: writing the listing of a directory tree

`listFiles(top)` writes one block per directory, in depth-first pre-order from `top`: the
lines of the records of the directory's entries, sorted by `operator<`. Before a block it
writes a line break when the flag `printBreak` is set, and after the block it sets the
flag to whether the block had a line. The flag is one field of the lister, threaded through
the whole recursion.

The model reads a directory tree as `Entry` values: an `Entry` is a tree that could be read.
The failures of the file system calls the code makes on the way (`directory_iterator`,
`ext_symlink_status`, `hashFile`, `read_symlink`, which throw) are outside the model, so that
`listFiles` on a directory always succeeds here by that abstraction; the one failure modelled
is a `top` that is not a directory. `recursiveListFiles` is the code's recursion, with a bound
on the depth (`listFiles` passes one more than the height of the tree, which every run needs,
`dirRecords_fuel`). The abstract listing is the records of each directory (`dirRecords`),
their lines (`dirBlocks`), and the way the blocks are written one after the other (`emit`);
`recursiveListFiles_emits` connects the two. `emit_false` then says what the text is: the
non-empty blocks separated by line breaks (`render`), and one more line break when the
last directory of the traversal has no entries but some directory has (`trailing`).

When the names in each directory are distinct and valid (`WellNamed`), the records of every
directory are in the order of `operator<`, directories first and then by name, and each block is
their lines (`listFiles_arranged`). When every
record is one `writeTo` prints readably, every line of the listing is read back by
`readFrom` (`listFiles_readBack`). The flag `unsupported` is set exactly when a warning is
written to `cerr`, which hard links do as well as unknown types
(`listFiles_unsupported_iff_warned`).
-/

namespace DiskDiff

open FilesystemElement

/-! ## Directory trees -/

/-- An entry of a directory as `directory_iterator` yields it: its name, what
`ext_symlink_status` reports on it, what `hashFile` computes for a regular file and
`read_symlink` returns for a symlink, and the entries of a directory. -/
inductive Entry where
  | mk (name : String) (status : ExtFileStatus) (hash target : String) (entries : List Entry)

namespace Entry

/-- The name of the entry. -/
def name : Entry → String
  | mk n .. => n

/-- The entries of a directory. -/
def entries : Entry → List Entry
  | mk _ _ _ _ es => es

mutual

/-- The number of levels of the tree under an entry, itself included. -/
def height : Entry → Nat
  | mk _ _ _ _ es => maxHeight es + 1

/-- The largest height of the entries of a directory. -/
def maxHeight : List Entry → Nat
  | [] => 0
  | e :: es => max (height e) (maxHeight es)

end

theorem height_le_of_mem {e : Entry} {es : List Entry} (h : e ∈ es) : e.height ≤ maxHeight es := by
  induction es with
  | nil => exact absurd h (List.not_mem_nil e)
  | cons a es ih =>
    rcases List.mem_cons.1 h with rfl | h
    · exact le_max_left _ _
    · exact le_trans (ih h) (le_max_right _ _)

theorem maxHeight_entries_lt (e : Entry) : maxHeight e.entries < e.height := by
  cases e; simp [height, entries]

end Entry

/-- `FilesystemElement(it.path(), top)` for an entry of the directory whose path relative to
`top` is `rp`. -/
def record (rp : String) : Entry → FilesystemElement
  | .mk n st h t _ => ofStatus (Path.join rp n) st h t

/-! ## The lister -/

/-- The state of a `FileLister`: the text written to its stream `os` and to `cerr`, and its
flags `printBreak` and `unsupported`. -/
@[ext] structure FileLister where
  os : List Char
  cerr : List Char
  printBreak : Bool
  unsupported : Bool
  deriving DecidableEq, Repr

/-- `cerr<<"Warning: "<<e.relativePath()<<" has unsupported file type\n"`. -/
def unsupportedWarning (e : FilesystemElement) : List Char :=
  "Warning: ".data ++ quoted e.rp ++ " has unsupported file type\n".data

/-- `cerr<<"Warning: "<<e.relativePath()<<" has multiple hardlinks ("<<e.hardLinkCount()<<")\n"`. -/
def hardLinkWarning (e : FilesystemElement) : List Char :=
  "Warning: ".data ++ quoted e.rp ++ " has multiple hardlinks (".data ++
    (toString e.hardLinkCnt).data ++ ")\n".data

/-- The body of the first loop of `recursiveListFiles`: write the record, and warn about a
type the listing cannot carry and about a file with more than one hard link. -/
def listRecord (s : FileLister) (e : FilesystemElement) : FileLister :=
  let s := { s with os := s.os ++ e.writeTo }
  let s := if e.ty = .unknown then
      { s with cerr := s.cerr ++ unsupportedWarning e, unsupported := true }
    else s
  if e.ty ≠ .directory ∧ e.hardLinkCnt ≠ 1 then
    { s with cerr := s.cerr ++ hardLinkWarning e, unsupported := true }
  else s

/-- The entries of the directory `rp` in the order of `fe.sort()` on their records. -/
def sortEntries (rp : String) (es : List Entry) : List Entry :=
  es.mergeSort fun a b => !FilesystemElement.lt (record rp b) (record rp a)

/-- `recursiveListFiles(top / rp)` on the directory with entries `es`, for at most `n` levels. -/
def recursiveListFiles : Nat → String → List Entry → FileLister → FileLister
  | 0, _, _, s => s
  | n + 1, rp, es, s =>
    let s := if s.printBreak then { s with os := s.os ++ ['\n'] } else s
    let fe := sortEntries rp es
    let s := (fe.map (record rp)).foldl listRecord s
    let s := { s with printBreak := !fe.isEmpty }
    fe.foldl (fun s e =>
      if (record rp e).isDirectory then recursiveListFiles n (record rp e).rp e.entries s else s) s

/-- `listFiles(top)`: `topDir` is the list of entries of `top` when `is_directory(top)` holds
(a symlink to a directory included, as `is_directory` follows it), and `none` otherwise. -/
def listFiles (s : FileLister) (top : String) (topDir : Option (List Entry)) :
    Except String FileLister :=
  match topDir with
  | none => throw (top ++ " is not a directory")
  | some es =>
    pure (recursiveListFiles (Entry.maxHeight es + 1) "" es
      { s with printBreak := false, unsupported := false })

/-! ## The listing, directory by directory -/

/-- The records of the directory `rp` and of every directory under it, one list per
directory in depth-first pre-order, each in the order of `fe.sort()`, for at most `n`
levels. -/
def dirRecords : Nat → String → List Entry → List (List FilesystemElement)
  | 0, _, _ => []
  | n + 1, rp, es => (sortEntries rp es).map (record rp) :: (sortEntries rp es).flatMap fun e =>
      if (record rp e).isDirectory then dirRecords n (record rp e).rp e.entries else []

/-- What `recursiveListFiles` does in one directory before it descends into the
subdirectories: the separator, the records `fe` of the directory, and the flag. -/
def listDirectory (s : FileLister) (fe : List FilesystemElement) : FileLister :=
  let s := if s.printBreak then { s with os := s.os ++ ['\n'] } else s
  { fe.foldl listRecord s with printBreak := !fe.isEmpty }

/-- The warnings `recursiveListFiles` writes for a record. -/
def warnings (e : FilesystemElement) : List Char :=
  (if e.ty = .unknown then unsupportedWarning e else []) ++
    if e.ty ≠ .directory ∧ e.hardLinkCnt ≠ 1 then hardLinkWarning e else []

/-- A record `recursiveListFiles` warns about. -/
def unsupportedRecord (e : FilesystemElement) : Bool :=
  e.ty = .unknown || (e.ty ≠ .directory && e.hardLinkCnt ≠ 1)

/-! ## Blocks -/

/-- The block of a directory: the lines of the records of its entries, sorted by
`operator<`. -/
def block (rp : String) (es : List Entry) : List Char :=
  ((sortElements (es.map (record rp))).map writeTo).flatten

/-- The blocks of the directory `rp` and of every directory under it, in depth-first
pre-order, for at most `n` levels. -/
def dirBlocks : Nat → String → List Entry → List (List Char)
  | 0, _, _ => []
  | n + 1, rp, es => block rp es :: (sortEntries rp es).flatMap fun e =>
      if (record rp e).isDirectory then dirBlocks n (record rp e).rp e.entries else []

/-- The blocks of the tree under `top`. -/
def blocks (es : List Entry) : List (List Char) := dirBlocks (Entry.maxHeight es + 1) "" es

/-- The records of the tree under `top`, in the order the listing writes them. -/
def records (es : List Entry) : List FilesystemElement :=
  (dirRecords (Entry.maxHeight es + 1) "" es).flatten

/-- The non-empty blocks, separated by line breaks. -/
def render (bs : List (List Char)) : List Char := ['\n'].intercalate (bs.filter (· ≠ []))

/-- Writing the blocks `bs` one after the other with the flag `printBreak` = `pb`: a line
break before a block when the block before it had a line. -/
def emit : Bool → List (List Char) → List Char × Bool
  | pb, [] => ([], pb)
  | pb, b :: bs =>
    let r := emit (!b.isEmpty) bs
    ((if pb then ['\n'] else []) ++ b ++ r.1, r.2)

/-- Some block has a line, and the last one has none. -/
def trailing (bs : List (List Char)) : Bool := bs.any (· ≠ []) && bs.getLast? == some []

/-! ## The lister is a loop over the directories -/

@[simp] theorem listRecord_os (s : FileLister) (e : FilesystemElement) :
    (listRecord s e).os = s.os ++ e.writeTo := by
  unfold listRecord; split_ifs <;> rfl

@[simp] theorem listRecord_printBreak (s : FileLister) (e : FilesystemElement) :
    (listRecord s e).printBreak = s.printBreak := by
  unfold listRecord; split_ifs <;> rfl

@[simp] theorem listRecord_cerr (s : FileLister) (e : FilesystemElement) :
    (listRecord s e).cerr = s.cerr ++ warnings e := by
  unfold listRecord warnings; split_ifs <;> simp

@[simp] theorem listRecord_unsupported (s : FileLister) (e : FilesystemElement) :
    (listRecord s e).unsupported = (s.unsupported || unsupportedRecord e) := by
  unfold listRecord unsupportedRecord; split_ifs <;> simp_all

theorem foldl_eq_foldl_flatMap {α β γ : Type} (f : γ → α → γ) (g : γ → β → γ) (sub : α → List β)
    (l : List α) (h : ∀ a ∈ l, ∀ s, f s a = (sub a).foldl g s) (s : γ) :
    l.foldl f s = (l.flatMap sub).foldl g s := by
  induction l generalizing s with
  | nil => rfl
  | cons a l ih =>
    rw [List.foldl_cons, List.flatMap_cons, List.foldl_append, h a (List.mem_cons_self a l),
      ih fun a ha => h a (List.mem_cons_of_mem _ ha)]

/-- The recursion of `recursiveListFiles` is a loop of `listDirectory` over `dirRecords`. -/
theorem recursiveListFiles_eq_foldl (n : Nat) (rp : String) (es : List Entry) (s : FileLister) :
    recursiveListFiles n rp es s = (dirRecords n rp es).foldl listDirectory s := by
  induction n generalizing rp es s with
  | zero => rfl
  | succ n ih =>
    have hfirst : listDirectory s ((sortEntries rp es).map (record rp)) =
        { ((sortEntries rp es).map (record rp)).foldl listRecord
            (if s.printBreak then { s with os := s.os ++ ['\n'] } else s) with
          printBreak := !(sortEntries rp es).isEmpty } := by
      unfold listDirectory; cases sortEntries rp es <;> rfl
    rw [recursiveListFiles, dirRecords, List.foldl_cons, hfirst]
    exact foldl_eq_foldl_flatMap _ _ _ _ (fun e _ s => by split <;> simp [ih]) _

theorem foldl_listRecord (l : List FilesystemElement) (s : FileLister) :
    (l.foldl listRecord s).os = s.os ++ (l.map writeTo).flatten ∧
      (l.foldl listRecord s).printBreak = s.printBreak ∧
      (l.foldl listRecord s).cerr = s.cerr ++ (l.map warnings).flatten ∧
      (l.foldl listRecord s).unsupported = (s.unsupported || l.any unsupportedRecord) := by
  induction l generalizing s with
  | nil => simp
  | cons e l ih => simp [ih (listRecord s e), Bool.or_assoc]

/-- The warnings of a listing are those of its records, in the order they are written. -/
theorem foldl_listDirectory_warnings (rss : List (List FilesystemElement)) (s : FileLister) :
    (rss.foldl listDirectory s).cerr = s.cerr ++ (rss.flatten.map warnings).flatten ∧
      (rss.foldl listDirectory s).unsupported = (s.unsupported || rss.flatten.any unsupportedRecord) := by
  induction rss generalizing s with
  | nil => simp
  | cons fe rss ih =>
    obtain ⟨-, -, hc, hu⟩ := foldl_listRecord fe (if s.printBreak then { s with os := s.os ++ ['\n'] } else s)
    rw [List.foldl_cons, (ih _).1, (ih _).2]
    constructor
    · simp only [listDirectory, hc, List.flatten_cons, List.map_append, List.flatten_append,
        List.append_assoc]
      split <;> rfl
    · simp only [listDirectory, hu, List.flatten_cons, List.any_append, Bool.or_assoc]
      split <;> rfl

theorem writeTo_ne_nil (e : FilesystemElement) : e.writeTo ≠ [] := by
  rw [writeTo_eq_body]; simp

theorem map_record_sortEntries (rp : String) (es : List Entry) :
    (sortEntries rp es).map (record rp) = sortElements (es.map (record rp)) :=
  List.map_mergeSort fun _ _ _ _ => rfl

/-- The blocks are the lines of the records of each directory. -/
theorem dirBlocks_eq_map (n : Nat) (rp : String) (es : List Entry) :
    dirBlocks n rp es = (dirRecords n rp es).map fun fe => (fe.map writeTo).flatten := by
  induction n generalizing rp es with
  | zero => rfl
  | succ n ih =>
    simp only [dirBlocks, dirRecords, List.map_cons, block, ← map_record_sortEntries,
      List.map_flatMap]
    congr 1
    refine List.flatMap_congr fun e _ => ?_
    split
    · exact ih _ _
    · rfl

/-- `s'` is `s` after the blocks `bs` are written with `emit`. -/
def Emits (s s' : FileLister) (bs : List (List Char)) : Prop :=
  s'.os = s.os ++ (emit s.printBreak bs).1 ∧ s'.printBreak = (emit s.printBreak bs).2

theorem emit_append (pb : Bool) (xs ys : List (List Char)) :
    emit pb (xs ++ ys) = ((emit pb xs).1 ++ (emit (emit pb xs).2 ys).1, (emit (emit pb xs).2 ys).2) := by
  induction xs generalizing pb with
  | nil => simp [emit]
  | cons b xs ih => simp [emit, ih]

theorem Emits.nil (s : FileLister) : Emits s s [] := by simp [Emits, emit]

theorem Emits.trans {s s₁ s₂ : FileLister} {xs ys : List (List Char)} (h₁ : Emits s s₁ xs)
    (h₂ : Emits s₁ s₂ ys) : Emits s s₂ (xs ++ ys) := by
  obtain ⟨h₁o, h₁p⟩ := h₁
  obtain ⟨h₂o, h₂p⟩ := h₂
  simp only [Emits, emit_append, h₂o, h₁o, h₂p, h₁p, List.append_assoc, and_self]

/-- One directory's turn writes its block after the separator the flag asks for. -/
theorem emits_listDirectory (s : FileLister) (fe : List FilesystemElement) :
    Emits s (listDirectory s fe) [(fe.map writeTo).flatten] := by
  obtain ⟨ho, -⟩ := foldl_listRecord fe (if s.printBreak then { s with os := s.os ++ ['\n'] } else s)
  refine ⟨?_, ?_⟩
  · simp only [listDirectory, ho]
    cases s.printBreak <;> simp [emit]
  · cases fe <;> simp [listDirectory, emit, writeTo_ne_nil]

theorem emits_foldl_listDirectory (rss : List (List FilesystemElement)) (s : FileLister) :
    Emits s (rss.foldl listDirectory s) (rss.map fun fe => (fe.map writeTo).flatten) := by
  induction rss generalizing s with
  | nil => exact Emits.nil s
  | cons fe rss ih => exact (emits_listDirectory s fe).trans (ih _)

/-- One call of `recursiveListFiles` writes the blocks of the directory and of the directories
under it, with the separators of `emit`, from the flag it finds. -/
theorem recursiveListFiles_emits (n : Nat) (rp : String) (es : List Entry) (s : FileLister) :
    Emits s (recursiveListFiles n rp es s) (dirBlocks n rp es) := by
  rw [recursiveListFiles_eq_foldl, dirBlocks_eq_map]
  exact emits_foldl_listDirectory _ s

/-! ## The text of the listing -/

theorem emit_true (bs : List (List Char)) :
    (emit true bs).1 = (if bs = [] then [] else ['\n']) ++ (emit false bs).1 := by
  cases bs <;> simp [emit]

theorem render_nil_cons (bs : List (List Char)) : render ([] :: bs) = render bs := by
  simp [render]

theorem render_cons {b : List Char} (hb : b ≠ []) (bs : List (List Char)) :
    render (b :: bs) = b ++ if bs.filter (· ≠ []) = [] then [] else '\n' :: render bs := by
  simp only [render, List.filter_cons, hb, ne_eq, not_false_eq_true, decide_True, if_true]
  cases bs.filter (· ≠ []) <;> simp [List.intercalate, List.intersperse_cons_cons]

theorem emit_false_cons {b : List Char} (hb : b ≠ []) (bs : List (List Char)) :
    (emit false (b :: bs)).1 = b ++ (emit true bs).1 := by
  cases b
  · exact absurd rfl hb
  · simp [emit]

theorem trailing_nil_cons (bs : List (List Char)) : trailing ([] :: bs) = trailing bs := by
  cases bs <;> simp [trailing]

theorem trailing_cons {b : List Char} (hb : b ≠ []) (bs : List (List Char)) :
    trailing (b :: bs) = (bs.getLast? == some []) := by
  cases bs <;> simp [trailing, hb]

theorem trailing_of_any {bs : List (List Char)} (h : bs.any (· ≠ [])) :
    trailing bs = (bs.getLast? == some []) := by
  simp only [trailing, h, Bool.true_and]

/-- The text `emit` writes from a cleared flag: the non-empty blocks separated by line
breaks, and a line break after them when the last block is empty and some block is not. -/
theorem emit_false (bs : List (List Char)) :
    (emit false bs).1 = render bs ++ (if trailing bs then ['\n'] else []) := by
  induction bs with
  | nil => rfl
  | cons b bs ih =>
    by_cases hb : b = []
    · subst hb
      rw [show (emit false ([] :: bs)).1 = (emit false bs).1 by simp [emit], ih, render_nil_cons,
        trailing_nil_cons]
    rw [emit_false_cons hb, emit_true, ih, render_cons hb, trailing_cons hb]
    by_cases hf : bs.filter (· ≠ []) = []
    · have hall : ∀ x ∈ bs, x = [] := by simpa [List.filter_eq_nil_iff] using hf
      have hr : render bs = [] := by rw [render, hf]; rfl
      have ht : trailing bs = false := by
        simp only [trailing, Bool.and_eq_false_iff]
        exact .inl (List.any_eq_false.2 fun x hx => by simp [hall x hx])
      rw [if_pos hf, hr, ht]
      rcases List.eq_nil_or_concat bs with rfl | ⟨L, c, rfl⟩
      · simp
      · simp [hall c (by simp)]
    · have hany : bs.any (· ≠ []) = true := by
        obtain ⟨x, hx⟩ := List.exists_mem_of_ne_nil _ hf
        exact List.any_eq_true.2 ⟨x, (List.mem_filter.1 hx).1, (List.mem_filter.1 hx).2⟩
      have hne : bs ≠ [] := by rintro rfl; exact hf rfl
      rw [if_neg hf, if_neg hne, trailing_of_any hany]
      simp

/-- A record gets a warning exactly when it is one `recursiveListFiles` flags. -/
theorem warnings_eq_nil (e : FilesystemElement) :
    warnings e = [] ↔ unsupportedRecord e = false := by
  unfold warnings unsupportedRecord
  split_ifs with hu hl hl <;> simp_all [unsupportedWarning, hardLinkWarning]

/-- What `listFiles` does on a directory tree: it writes the non-empty blocks in depth-first
pre-order, separated by line breaks, and one more line break when the last directory of the
traversal is empty and some directory is not; it warns about every unsupported record, in
the order of the listing, and sets `unsupported` exactly when there is one. -/
theorem listFiles_eq (s : FileLister) (top : String) (es : List Entry) :
    listFiles s top (some es) = .ok
      { os := s.os ++ render (blocks es) ++ if trailing (blocks es) then ['\n'] else []
        cerr := s.cerr ++ ((records es).map warnings).flatten
        printBreak := (emit false (blocks es)).2
        unsupported := (records es).any unsupportedRecord } := by
  obtain ⟨ho, hp⟩ := recursiveListFiles_emits (Entry.maxHeight es + 1) "" es
    { s with printBreak := false, unsupported := false }
  have hw := foldl_listDirectory_warnings (dirRecords (Entry.maxHeight es + 1) "" es)
    { s with printBreak := false, unsupported := false }
  rw [← recursiveListFiles_eq_foldl] at hw
  refine congrArg Except.ok (FileLister.ext ?_ hw.1 hp ?_)
  · rw [ho, emit_false, List.append_assoc]; rfl
  · rw [hw.2]; rfl

/-- A top directory whose one entry is an empty directory `a`: the listing is the line of
`a` and then a line break no block follows. -/
theorem listFiles_emptySubdirectory :
    ∃ s, listFiles ⟨[], [], false, false⟩ "top"
        (some [.mk "a" ⟨.directory, 0o755, "root", "root", 0, 2, 0⟩ "" "" []]) = .ok s ∧
      s.os = render (blocks [.mk "a" ⟨.directory, 0o755, "root", "root", 0, 2, 0⟩ "" "" []]) ++
        ['\n'] := by
  refine ⟨_, listFiles_eq _ _ _, ?_⟩
  have hblocks : blocks [.mk "a" ⟨.directory, 0o755, "root", "root", 0, 2, 0⟩ "" "" []] =
      [block "" [.mk "a" ⟨.directory, 0o755, "root", "root", 0, 2, 0⟩ "" "" []], []] := by
    simp [blocks, dirBlocks, Entry.maxHeight, Entry.height, sortEntries, block, sortElements,
      Entry.entries, record, ofStatus, isDirectory]
  have hne : block "" [.mk "a" ⟨.directory, 0o755, "root", "root", 0, 2, 0⟩ "" "" []] ≠ [] := by
    simp [block, sortElements, writeTo_ne_nil]
  rw [hblocks]
  simp [trailing, hne]

/-- `unsupported` is set exactly when `listFiles` writes a warning to `cerr`: when some
record has a type the listing cannot carry, or is not a directory and has more than one
hard link. -/
theorem listFiles_unsupported_iff_warned (s : FileLister) (top : String) (es : List Entry) :
    ∃ s', listFiles s top (some es) = .ok s' ∧
      (s'.unsupported = true ↔ s'.cerr ≠ s.cerr) ∧
      (s'.unsupported = true ↔
        ∃ r ∈ records es, r.ty = .unknown ∨ r.ty ≠ .directory ∧ r.hardLinkCnt ≠ 1) := by
  refine ⟨_, listFiles_eq s top es, ?_, ?_⟩
  · simp [warnings_eq_nil]
  · simp [unsupportedRecord]

/-- The depth bound of `listFiles` reaches every directory: any larger one gives the same
records. -/
theorem dirRecords_fuel {n m : Nat} (rp : String) (es : List Entry) (hn : Entry.maxHeight es < n)
    (hm : Entry.maxHeight es < m) : dirRecords n rp es = dirRecords m rp es := by
  induction n generalizing m rp es with
  | zero => omega
  | succ n ih =>
    obtain ⟨m, rfl⟩ : ∃ m', m = m' + 1 := ⟨m - 1, by omega⟩
    simp only [dirRecords, List.cons.injEq, true_and]
    refine List.flatMap_congr fun e he => ?_
    have hle := Entry.height_le_of_mem ((List.mem_mergeSort).1 he)
    have hlt := Entry.maxHeight_entries_lt e
    split
    · exact ih _ _ (by omega) (by omega)
    · rfl

/-! ## Every block is in the order of `operator<` -/

/-- A directory tree as a file system holds it: in every directory the names are valid and
pairwise distinct. -/
inductive WellNamed : List Entry → Prop
  | mk {es : List Entry} : (es.map Entry.name).Nodup → (∀ e ∈ es, Path.ValidName e.name) →
      (∀ e ∈ es, WellNamed e.entries) → WellNamed es

theorem rp_record (rp : String) (e : Entry) : (record rp e).rp = Path.join rp e.name := by
  obtain ⟨n, st, h, t, es⟩ := e
  simp only [record, ofStatus, Entry.name]
  split <;> rfl

theorem validName_append {dir : List String} (hdir : ∀ n ∈ dir, Path.ValidName n) {n : String}
    (hn : Path.ValidName n) : ∀ m ∈ dir ++ [n], Path.ValidName m := fun m hm => by
  rcases List.mem_append.1 hm with hm | hm
  · exact hdir m hm
  · rw [List.mem_singleton.1 hm]; exact hn

section Names

variable {dir : List String} (hdir : ∀ n ∈ dir, Path.ValidName n)
include hdir

theorem rp_record_ofNames (e : Entry) :
    (record (Path.ofNames dir) e).rp = Path.ofNames (dir ++ [e.name]) := by
  rw [rp_record, Path.join_ofNames hdir]

theorem cmpts_record {e : Entry} (he : Path.ValidName e.name) :
    Path.cmpts (record (Path.ofNames dir) e).rp = dir ++ [e.name] := by
  rw [rp_record_ofNames hdir, Path.cmpts_ofNames (by simp) (validName_append hdir he)]

theorem name_record {e : Entry} (he : Path.ValidName e.name) :
    name (record (Path.ofNames dir) e) = e.name := by
  rw [name, cmpts_record hdir he]; simp

end Names

/-- The records of the entries of a directory of a well-named tree are siblings. -/
theorem siblings_records {dir : List String} (hdir : ∀ n ∈ dir, Path.ValidName n)
    {es : List Entry} (hw : WellNamed es) : Siblings dir (es.map (record (Path.ofNames dir))) := by
  obtain ⟨hnodup, hv, -⟩ := hw
  refine ⟨?_, ?_, ?_⟩
  · simp only [List.mem_map, forall_exists_index, and_imp, forall_apply_eq_imp_iff₂]
    exact fun e he => by
      rw [rp_record_ofNames hdir, Path.hasRootDirectory_ofNames (validName_append hdir (hv e he))]
  · simp only [List.mem_map, forall_exists_index, and_imp, forall_apply_eq_imp_iff₂]
    exact fun e he => by rw [cmpts_record hdir (hv e he), name_record hdir (hv e he)]
  · rw [List.pairwise_map]
    exact (List.pairwise_map.1 hnodup).imp_of_mem fun ha hb h => by
      rwa [name_record hdir (hv _ ha), name_record hdir (hv _ hb)]

/-- In a well-named tree, the records of every directory of the listing are in the
arrangement of `operator<`: directories first, then by ascending name. -/
theorem dirRecords_arranged (n : Nat) {dir : List String} (hdir : ∀ n ∈ dir, Path.ValidName n)
    {es : List Entry} (hw : WellNamed es) : ∀ fe ∈ dirRecords n (Path.ofNames dir) es, Arranged fe := by
  induction n generalizing dir es with
  | zero => simp [dirRecords]
  | succ n ih =>
    intro fe hfe
    simp only [dirRecords, List.mem_cons, List.mem_flatMap] at hfe
    rcases hfe with rfl | ⟨e, he, hfe⟩
    · rw [map_record_sortEntries]
      exact sortElements_arranged (siblings_records hdir hw)
    · obtain ⟨-, hv, hws⟩ := hw
      have hmem := List.mem_mergeSort.1 he
      split at hfe
      · rw [rp_record_ofNames hdir] at hfe
        exact ih (validName_append hdir (hv e hmem)) (hws e hmem) fe hfe
      · exact absurd hfe (List.not_mem_nil fe)

/-- On a well-named tree, `listFiles` writes the blocks of the directories in pre-order,
separated by line breaks. The block of each directory is the lines of its records, and those
records are in the arrangement of `operator<`: directories first, then by ascending name. -/
theorem listFiles_arranged (s : FileLister) (top : String) {es : List Entry} (hw : WellNamed es) :
    ∃ s', listFiles s top (some es) = .ok s' ∧
      s'.os = s.os ++ render (blocks es) ++ (if trailing (blocks es) then ['\n'] else []) ∧
      blocks es = (dirRecords (Entry.maxHeight es + 1) "" es).map (fun fe => (fe.map writeTo).flatten) ∧
      ∀ fe ∈ dirRecords (Entry.maxHeight es + 1) "" es, Arranged fe :=
  ⟨_, listFiles_eq s top es, rfl, dirBlocks_eq_map _ _ _,
    dirRecords_arranged _ (by simp : ∀ n ∈ ([] : List String), Path.ValidName n) hw⟩

theorem listFiles_arranged_pair :
    let es := [.mk "b" ⟨.regular, 0o644, "root", "root", 0, 1, 3⟩ "" "" [],
      .mk "a" ⟨.directory, 0o755, "root", "root", 0, 2, 0⟩ "" "" []]
    ∃ s', listFiles ⟨[], [], false, false⟩ "top" (some es) = .ok s' ∧
      s'.os = [] ++ render (blocks es) ++ (if trailing (blocks es) then ['\n'] else []) ∧
      blocks es = (dirRecords (Entry.maxHeight es + 1) "" es).map (fun fe => (fe.map writeTo).flatten) ∧
      ∀ fe ∈ dirRecords (Entry.maxHeight es + 1) "" es, Arranged fe :=
  listFiles_arranged ⟨[], [], false, false⟩ "top"
    ⟨by decide, by simp [Path.ValidName, Entry.name], by simp [Entry.entries, WellNamed.mk]⟩

/-! ## The listing can be read back -/

/-- The text `listFiles` writes is made of lines that `readFrom` reads back. It is the blocks
of the directories joined by line breaks; each block is one line per record; each line has no
line break of its own, and `readFrom` reads it back into the fields `writeTo` printed. This
holds when every record of the tree is one `writeTo` prints readably, with a time other than
`-1` and no line break in its path or target. -/
theorem listFiles_readBack (s : FileLister) (top : String) {es : List Entry}
    (hr : ∀ r ∈ records es, r.Persistable ∧ r.mt.val ≠ -1 ∧ '\n' ∉ r.rp.data ∧
      (r.ty = .symlink → '\n' ∉ r.symlink.data)) :
    ∃ s', listFiles s top (some es) = .ok s' ∧
      s'.os = s.os ++ render (blocks es) ++ (if trailing (blocks es) then ['\n'] else []) ∧
      ∀ b ∈ blocks es, ∃ fe : List FilesystemElement,
        b = (fe.map fun r => body r ++ ['\n']).flatten ∧ ∀ r ∈ fe, '\n' ∉ body r ∧
          ∀ (self : FilesystemElement) (diffFileName : String) (lineNo : Int),
            self.readFrom ⟨body r⟩ diffFileName lineNo = .ok (readBack self r) := by
  refine ⟨_, listFiles_eq s top es, rfl, fun b hb => ?_⟩
  rw [blocks, dirBlocks_eq_map, List.mem_map] at hb
  obtain ⟨fe, hfe, rfl⟩ := hb
  refine ⟨fe, congrArg List.flatten (List.map_inj_left.2 fun r _ => writeTo_eq_body r),
    fun r hrfe => ?_⟩
  obtain ⟨he, hmt, hrp, hsym⟩ := hr r (List.mem_flatten.2 ⟨fe, hfe, hrfe⟩)
  exact ⟨newline_not_mem_body he hrp hsym, fun self f n => readFrom_body self he hmt f n⟩

set_option maxRecDepth 4000 in
theorem listFiles_readBack_single :
    let es := [Entry.mk "a" ⟨.directory, 0o755, "root", "wheel", 0, 2, 0⟩ "" "" []]
    ∃ s', listFiles ⟨[], [], false, false⟩ "top" (some es) = .ok s' ∧
      s'.os = [] ++ render (blocks es) ++ (if trailing (blocks es) then ['\n'] else []) ∧
      ∀ b ∈ blocks es, ∃ fe : List FilesystemElement,
        b = (fe.map fun r => body r ++ ['\n']).flatten ∧ ∀ r ∈ fe, '\n' ∉ body r ∧
          ∀ (self : FilesystemElement) (diffFileName : String) (lineNo : Int),
            self.readFrom ⟨body r⟩ diffFileName lineNo = .ok (readBack self r) :=
  listFiles_readBack ⟨[], [], false, false⟩ "top" fun r hr => by
    simp [records, dirRecords, Entry.maxHeight, Entry.height, sortEntries, record, ofStatus,
      Entry.entries, isDirectory] at hr
    subst hr
    exact ⟨⟨by decide, by decide, ⟨by decide, by decide⟩, ⟨by decide, by decide⟩,
      ⟨by decide, by decide⟩, fun h => absurd h (by decide)⟩, by decide, by decide,
      fun h => absurd h (by decide)⟩

end DiskDiff
