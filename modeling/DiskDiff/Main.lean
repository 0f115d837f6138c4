/-!
# `main`: the command line

`main.cpp` reads its first argument as a command, `ls`, `compare` or `test`, and runs it over
`DirectoryTree`. The member functions of `DirectoryTree` and `compare2` have no bodies in the
sources, so the model takes them as parameters (`Trees`), together with the file system's
`exists`. What is translated is the control flow of `ls`, `compare`, `test` and `main`, the texts
they write and the exit status. A run is an `EStateM` over what has been written (`Output`): an
exception nobody catches ends it, and what was written stays written.

Two facts hold of every run. The program only appends to standard output and standard error,
and the only files it opens for writing are files that did not exist, so it never overwrites a
file (`main_extends`); each step keeps that (`Keeps`), and the run lemma is assembled from the
step lemmas. And status 1 means that nothing ran: the help text is all `main` wrote
(`main_exitOne`).
-/

namespace DiskDiff

namespace Main

/-- What the program has written: standard output, standard error, and the files it opened for
writing with what it wrote to each, in the order it opened them. -/
structure Output where
  cout : List Char
  cerr : List Char
  files : List (String × List Char)
  deriving DecidableEq, Repr

/-- The parts of `DirectoryTree` and `compare2` that `main.cpp` calls. Their bodies are not in
the sources, so the model takes them as they come. -/
structure Trees (τ δ : Type) where
  /-- `DirectoryTree(inputPath)`: a scan of a directory, or a read of a listing file that throws
  `runtime_error` on a bad line. -/
  ofPath : String → Except String τ
  /-- `DirectoryTree(is, diffFileName)` on the stream of a file. -/
  ofStream : String → Except String τ
  /-- `unsupportedFilesFound()`. -/
  unsupportedFilesFound : τ → Bool
  /-- `os << dt`. -/
  writeTree : τ → List Char
  /-- `compare2(a, b)`. -/
  compare2 : τ → τ → δ
  /-- `os << diff`. -/
  writeDiff : δ → List Char

/-- A run of part of the program: it ends with a value, or with an exception nobody catches,
and what it wrote stays written either way. -/
abbrev Run := EStateM String Output

/-- The state a run ends in. -/
def final {α : Type} : EStateM.Result String Output α → Output
  | .ok _ o => o
  | .error _ o => o

/-- `cout << t`. -/
def writeCout (t : List Char) : Run Unit := modify fun o => { o with cout := o.cout ++ t }

/-- `cerr << t`. -/
def writeCerr (t : List Char) : Run Unit := modify fun o => { o with cerr := o.cerr ++ t }

/-- `getOutputFile() << t`: standard output when no output file was named, otherwise the file,
which `outfile.open` creates (or empties) here. -/
def writeOutput (outFileName : String) (t : List Char) : Run Unit :=
  if outFileName.isEmpty then writeCout t
  else modify fun o => { o with files := o.files ++ [(outFileName, t)] }

/-- `if (unsupported) cerr << "Warning: unsupported files found\n"`, as `ls` and `compare` both
warn. -/
def warnUnsupported (unsupported : Bool) : Run Unit :=
  if unsupported then writeCerr "Warning: unsupported files found\n".data else pure ()

/-- A call that may throw, such as a `DirectoryTree` constructor. -/
def lift {α : Type} : Except String α → Run α
  | .ok a => pure a
  | .error e => throw e

section Commands

variable {τ δ : Type} (T : Trees τ δ) (exists_ : String → Bool) (vm : String → Option String)

/-- The start that `ls` and `compare` share: with `--out` naming a file that exists, report it
and return `true`; otherwise go on with the name of the output file, empty when there is
none. -/
def withOutputFile (body : String → Run Bool) : Run Bool :=
  match vm "out" with
  | some outFileName =>
    if exists_ outFileName then do
      writeCerr ("Output file " ++ outFileName ++ " already exists. Aborting.\n").data
      pure true
    else body outFileName
  | none => body ""

/-- `ls(vm)`. -/
def ls : Run Bool :=
  withOutputFile exists_ vm fun outFileName =>
    match vm "source" with
    | some source => do
      let dt ← lift (T.ofPath source)
      warnUnsupported (T.unsupportedFilesFound dt)
      writeOutput outFileName (T.writeTree dt)
      pure true
    | none => pure false

/-- `compare(vm)`. -/
def compare : Run Bool :=
  withOutputFile exists_ vm fun outFileName =>
    match vm "source", vm "target" with
    | some source, some target => do
      let a ← lift (T.ofPath source)
      let b ← lift (T.ofPath target)
      warnUnsupported (T.unsupportedFilesFound a || T.unsupportedFilesFound b)
      writeOutput outFileName (T.writeDiff (T.compare2 a b))
      pure true
    | _, _ => pure false

/-- `test(vm)`, with its `assert(in)` in force: the file `dump.txt` must open. -/
def test : Run Bool :=
  if exists_ "dump.txt" then do
    let dt ← lift (T.ofStream "dump.txt")
    writeCout (T.writeTree dt)
    pure true
  else throw "Assertion failed: in"

end Commands

/-- The table `operations` of `main`. -/
def operations {τ δ : Type} (T : Trees τ δ) (exists_ : String → Bool) :
    List (String × ((String → Option String) → Run Bool)) :=
  [("ls", ls T exists_), ("compare", compare T exists_), ("test", fun _ => test T exists_)]

/-- `it != operations.end() && it->second(vm)`. -/
def runOperation (ops : List (String × ((String → Option String) → Run Bool))) (op : String)
    (vm : String → Option String) : Run Bool :=
  match ops.lookup op with
  | some operation => operation vm
  | none => pure false

/-- `main(argc, argv)`: `help` is what `cout << desc` prints, and `parse` is
`store(parse_command_line(argc, argv, desc), vm)`, which throws on an option it does not know.
The result is the exit status. -/
def main {τ δ : Type} (T : Trees τ δ) (exists_ : String → Bool) (help : List Char)
    (parse : List String → Except String (String → Option String)) (argv : List String) : Run Nat :=
  if argv.length < 2 then do
    writeCout (help ++ ['\n'])
    pure 1
  else do
    let vm ← lift (parse argv)
    let done ← runOperation (operations T exists_) (argv.getD 1 "") vm
    if done then pure 0
    else do
      writeCout (help ++ ['\n'])
      pure 1

/-- What holds of every command of the table, and of running none, holds of the one `main`
runs. -/
theorem runOperation_of_forall {P : Run Bool → Prop}
    {ops : List (String × ((String → Option String) → Run Bool))} (h0 : P (pure false))
    (h : ∀ p ∈ ops, ∀ vm, P (p.2 vm)) (op : String) (vm : String → Option String) :
    P (runOperation ops op vm) := by
  induction ops with
  | nil => exact h0
  | cons p ops ih =>
    obtain ⟨k, operation⟩ := p
    unfold runOperation at ih ⊢
    cases hk : op == k
    · simp only [List.lookup_cons, hk]
      exact ih fun q hq => h q (List.mem_cons_of_mem _ hq)
    · simp only [List.lookup_cons, hk]
      exact h _ (List.mem_cons_self _ _) vm

theorem forall_operations {τ δ : Type} (T : Trees τ δ) (exists_ : String → Bool)
    {P : ((String → Option String) → Run Bool) → Prop} (hls : P (ls T exists_))
    (hcompare : P (compare T exists_)) (htest : P fun _ => test T exists_) :
    ∀ p ∈ operations T exists_, P p.2 := by
  simp only [operations, List.mem_cons, List.mem_singleton, List.not_mem_nil, or_false]
  rintro p (rfl | rfl | rfl)
  · exact hls
  · exact hcompare
  · exact htest

/-! ## The program only appends, and opens only files that did not exist -/

/-- `o'` is `o` with more text on standard output and standard error, and more files opened
for writing, none of which existed. -/
structure Extends (exists_ : String → Bool) (o o' : Output) : Prop where
  cout : o.cout <+: o'.cout
  cerr : o.cerr <+: o'.cerr
  files : ∃ new, o'.files = o.files ++ new ∧ ∀ p ∈ new, exists_ p.1 = false

theorem Extends.refl {exists_ : String → Bool} (o : Output) : Extends exists_ o o :=
  ⟨List.prefix_refl _, List.prefix_refl _, [], (List.append_nil _).symm, nofun⟩

theorem Extends.trans {exists_ : String → Bool} {o₁ o₂ o₃ : Output} (h₁ : Extends exists_ o₁ o₂)
    (h₂ : Extends exists_ o₂ o₃) : Extends exists_ o₁ o₃ := by
  obtain ⟨n₁, hn₁, hf₁⟩ := h₁.files
  obtain ⟨n₂, hn₂, hf₂⟩ := h₂.files
  refine ⟨h₁.cout.trans h₂.cout, h₁.cerr.trans h₂.cerr, n₁ ++ n₂, ?_, ?_⟩
  · rw [hn₂, hn₁, List.append_assoc]
  · intro p hp
    rcases List.mem_append.1 hp with hp | hp
    · exact hf₁ p hp
    · exact hf₂ p hp

/-- Every run of `m`, from any state, ends in a state that extends it. -/
def Keeps (exists_ : String → Bool) {α : Type} (m : Run α) : Prop :=
  ∀ o, Extends exists_ o (final (m o))

section Keeps

variable {exists_ : String → Bool}

theorem keeps_pure {α : Type} (a : α) : Keeps exists_ (pure a : Run α) := Extends.refl

theorem keeps_throw {α : Type} (e : String) : Keeps exists_ (throw e : Run α) := Extends.refl

theorem keeps_bind {α β : Type} {m : Run α} {f : α → Run β} (hm : Keeps exists_ m)
    (hf : ∀ a, Keeps exists_ (f a)) : Keeps exists_ (m >>= f) := by
  intro o
  show Extends exists_ o (final (EStateM.bind m f o))
  unfold EStateM.bind
  have h := hm o
  split
  · rename_i a s heq
    rw [heq] at h
    exact h.trans (hf a s)
  · rename_i e s heq
    rw [heq] at h
    exact h

theorem keeps_ite {α : Type} {c : Prop} [Decidable c] {m m' : Run α} (hm : c → Keeps exists_ m)
    (hm' : ¬c → Keeps exists_ m') : Keeps exists_ (if c then m else m') := by
  split
  · exact hm ‹_›
  · exact hm' ‹_›

theorem keeps_lift {α : Type} (x : Except String α) : Keeps exists_ (lift x) := by
  cases x
  · exact keeps_throw _
  · exact keeps_pure _

theorem keeps_writeCout (t : List Char) : Keeps exists_ (writeCout t) := fun _ =>
  ⟨List.prefix_append _ _, List.prefix_refl _, [], (List.append_nil _).symm, nofun⟩

theorem keeps_writeCerr (t : List Char) : Keeps exists_ (writeCerr t) := fun _ =>
  ⟨List.prefix_refl _, List.prefix_append _ _, [], (List.append_nil _).symm, nofun⟩

/-- Writing the result opens the output file only when it has a name, which names no file that
exists. -/
theorem keeps_writeOutput {outFileName : String}
    (h : outFileName.isEmpty = false → exists_ outFileName = false) (t : List Char) :
    Keeps exists_ (writeOutput outFileName t) := by
  unfold writeOutput
  split
  · exact keeps_writeCout t
  · rename_i hne
    exact fun o => ⟨List.prefix_refl _, List.prefix_refl _, [(outFileName, t)], rfl,
      fun p hp => by rw [List.mem_singleton.1 hp]; exact h (by simpa using hne)⟩

theorem keeps_warnUnsupported (unsupported : Bool) : Keeps exists_ (warnUnsupported unsupported) :=
  keeps_ite (fun _ => keeps_writeCerr _) fun _ => keeps_pure _

theorem keeps_withOutputFile {vm : String → Option String} {body : String → Run Bool}
    (h : ∀ n, (n.isEmpty = false → exists_ n = false) → Keeps exists_ (body n)) :
    Keeps exists_ (withOutputFile exists_ vm body) := by
  unfold withOutputFile
  split
  · rename_i n _
    refine keeps_ite (fun _ => keeps_bind (keeps_writeCerr _) fun _ => keeps_pure _) fun hn => ?_
    exact h n fun _ => by simpa using hn
  · exact h "" nofun

variable {τ δ : Type} (T : Trees τ δ)

theorem keeps_ls (vm : String → Option String) : Keeps exists_ (ls T exists_ vm) := by
  refine keeps_withOutputFile fun n hn => ?_
  split
  · exact keeps_bind (keeps_lift _) fun _ =>
      keeps_bind (keeps_warnUnsupported _) fun _ =>
        keeps_bind (keeps_writeOutput hn _) fun _ => keeps_pure _
  · exact keeps_pure _

theorem keeps_compare (vm : String → Option String) : Keeps exists_ (compare T exists_ vm) := by
  refine keeps_withOutputFile fun n hn => ?_
  split
  · exact keeps_bind (keeps_lift _) fun _ => keeps_bind (keeps_lift _) fun _ =>
      keeps_bind (keeps_warnUnsupported _) fun _ =>
        keeps_bind (keeps_writeOutput hn _) fun _ => keeps_pure _
  · exact keeps_pure _

theorem keeps_test : Keeps exists_ (test T exists_) :=
  keeps_ite (fun _ => keeps_bind (keeps_lift _) fun _ =>
    keeps_bind (keeps_writeCout _) fun _ => keeps_pure _) fun _ => keeps_throw _

end Keeps

/-- Whatever its arguments, whatever the file system holds and whatever `DirectoryTree` does,
`main` only adds text to standard output and standard error, and the only files it opens for
writing are files that did not exist: it never overwrites a file, even when it ends with an
exception. -/
theorem main_extends {τ δ : Type} (T : Trees τ δ) (exists_ : String → Bool) (help : List Char)
    (parse : List String → Except String (String → Option String)) (argv : List String)
    (o : Output) : Extends exists_ o (final (main T exists_ help parse argv o)) := by
  revert o
  show Keeps exists_ (main T exists_ help parse argv)
  unfold main
  refine keeps_ite (fun _ => keeps_bind (keeps_writeCout _) fun _ => keeps_pure _) fun _ => ?_
  refine keeps_bind (keeps_lift _) fun vm => keeps_bind ?_ fun _ =>
    keeps_ite (fun _ => keeps_pure _) fun _ => keeps_bind (keeps_writeCout _) fun _ => keeps_pure _
  exact runOperation_of_forall (keeps_pure _)
    (@forall_operations _ _ T exists_ (fun op => ∀ vm, Keeps exists_ (op vm)) (keeps_ls T)
      (keeps_compare T) fun _ => keeps_test T) _ vm

/-! ## A command that does not run -/

/-- A run that never returns `false`. -/
def NeverFalse (m : Run Bool) : Prop := ∀ o o', m o ≠ .ok false o'

/-- A run that returns `false` only where it wrote nothing. -/
def FalseUnchanged (m : Run Bool) : Prop := ∀ o o', m o = .ok false o' → o' = o

theorem neverFalse_bind {α : Type} {m : Run α} {f : α → Run Bool} (hf : ∀ a, NeverFalse (f a)) :
    NeverFalse (m >>= f) := by
  intro o o' h
  change EStateM.bind m f o = _ at h
  unfold EStateM.bind at h
  split at h
  · exact hf _ _ _ h
  · cases h

theorem neverFalse_pure_true : NeverFalse (pure true) := fun _ _ h => by cases h

theorem FalseUnchanged.of_neverFalse {m : Run Bool} (h : NeverFalse m) : FalseUnchanged m :=
  fun o o' h' => absurd h' (h o o')

theorem falseUnchanged_pure (b : Bool) : FalseUnchanged (pure b) := fun _ _ h => by cases h; rfl

section Commands

variable {τ δ : Type} (T : Trees τ δ) (exists_ : String → Bool)

theorem falseUnchanged_withOutputFile {vm : String → Option String} {body : String → Run Bool}
    (h : ∀ n, FalseUnchanged (body n)) : FalseUnchanged (withOutputFile exists_ vm body) := by
  unfold withOutputFile
  split
  · split
    · exact .of_neverFalse (neverFalse_bind fun _ => neverFalse_pure_true)
    · exact h _
  · exact h _

theorem falseUnchanged_ls (vm : String → Option String) : FalseUnchanged (ls T exists_ vm) := by
  refine falseUnchanged_withOutputFile exists_ fun n => ?_
  split
  · exact .of_neverFalse (neverFalse_bind fun _ => neverFalse_bind fun _ =>
      neverFalse_bind fun _ => neverFalse_pure_true)
  · exact falseUnchanged_pure false

theorem falseUnchanged_compare (vm : String → Option String) :
    FalseUnchanged (compare T exists_ vm) := by
  refine falseUnchanged_withOutputFile exists_ fun n => ?_
  split
  · exact .of_neverFalse (neverFalse_bind fun _ => neverFalse_bind fun _ => neverFalse_bind fun _ =>
      neverFalse_bind fun _ => neverFalse_pure_true)
  · exact falseUnchanged_pure false

theorem neverFalse_test : NeverFalse (test T exists_) := by
  unfold test
  split
  · exact neverFalse_bind fun _ => neverFalse_bind fun _ => neverFalse_pure_true
  · exact fun _ _ h => by cases h

end Commands

/-- When `main` exits with status 1, the help text on standard output is all it wrote: a
command that does not run (an unknown name, or `ls` or `compare` without the paths they need)
writes nothing and opens no file. -/
theorem main_exitOne {τ δ : Type} (T : Trees τ δ) (exists_ : String → Bool) (help : List Char)
    (parse : List String → Except String (String → Option String)) (argv : List String)
    {o o' : Output} (h : main T exists_ help parse argv o = .ok 1 o') :
    o' = { o with cout := o.cout ++ (help ++ ['\n']) } := by
  have hops := @forall_operations _ _ T exists_ (fun op => ∀ vm, FalseUnchanged (op vm))
    (falseUnchanged_ls T exists_) (falseUnchanged_compare T exists_)
    fun _ => .of_neverFalse (neverFalse_test T exists_)
  unfold main at h
  split at h
  · cases h; rfl
  · change EStateM.bind (lift (parse argv)) _ o = _ at h
    cases hp : parse argv with
    | error e => rw [hp] at h; cases h
    | ok vm =>
      rw [hp] at h
      change EStateM.bind (runOperation (operations T exists_) (argv.getD 1 "") vm) _ o = _ at h
      unfold EStateM.bind at h
      split at h
      · rename_i done o₁ hr
        cases done
        · rw [runOperation_of_forall (falseUnchanged_pure false) hops _ vm o o₁ hr] at h
          cases h
          rfl
        · cases h
      · cases h

theorem main_exitOne_lsNoSource :
    let T : Trees Unit Unit :=
      ⟨fun _ => .ok (), fun _ => .ok (), fun _ => false, fun _ => [], fun _ _ => (), fun _ => []⟩
    main T (fun _ => false) ['?'] (fun _ => .ok fun _ => none) ["diskdiff", "ls"] ⟨[], [], []⟩ =
        .ok 1 ⟨['?', '\n'], [], []⟩ ∧
      (⟨['?', '\n'], [], []⟩ : Output) = { (⟨[], [], []⟩ : Output) with cout := [] ++ (['?'] ++ ['\n']) } :=
  have h : main _ (fun _ => false) ['?'] (fun _ => .ok fun _ => none) ["diskdiff", "ls"]
      ⟨[], [], []⟩ = .ok 1 ⟨['?', '\n'], [], []⟩ := rfl
  ⟨h, main_exitOne _ _ _ _ _ h⟩

end Main

end DiskDiff
