import DiskDiff.Codec

/-!
# What `readFrom` accepts

`readFrom` reads a line of a listing into a record. Every run of it ends in one of two ways
(`readFields_cases`): `fail` of the text of one of its checks (`readErrors`), or a record that
keeps the fields of the element it was called on that the line does not carry, of one of the
four types, with nine permission bits, an owner and a group that are words, a hash of 40
characters for a regular file, a time other than `-1` that `timegm` computed from fields within
the ranges `get_time` reads, and a path and a symlink target made of characters of the line
(`Accepted`). The last two hold because every extraction of
`DiskDiff.Stream` reads its stream from the front (`extractString_suffix` and the like).

With the round trip of `DiskDiff.Codec` this makes the listing format stable: a record read
from a line without a line break, in a year up to 9999, is printed by `writeTo` as a line that
`readFrom` reads back as the same record (`readFrom_writeTo_readFrom`). No accepted record lies
before the year 0, since `get_time` reads no sign (`Accepted.time`). The upper bound cannot be
left out: `writeTo` prints a later year in five digits, which `get_time` does not read
(`readFrom_body_yearOutOfRange`), and the leap second that ends the year 9999 is accepted and
carried by `timegm` into the year 10000 (`readFrom_leapSecond`).
-/

namespace DiskDiff

/-! ## Extractions read their stream from the front -/

namespace IStream

theorem formatted_suffix {α : Type} {d : α} {s : IStream} {f : Char → List Char → α × IStream}
    (hf : ∀ c cs, (f c cs).2.buf <:+ c :: cs) : (formatted d s f).2.buf <:+ s.buf := by
  unfold formatted
  split
  · split
    · exact List.nil_suffix
    · rename_i c cs h
      exact (hf c cs).trans (h ▸ List.dropWhile_suffix _)
  · exact List.suffix_refl _

theorem formatted_ok {α : Type} {d : α} {s : IStream} {f : Char → List Char → α × IStream}
    (h : (formatted d s f).2.fail = false) :
    ∃ c cs, s.buf.dropWhile isSpace = c :: cs ∧ formatted d s f = f c cs := by
  unfold formatted at h ⊢
  cases hg : s.good <;> cases hd : s.buf.dropWhile isSpace <;>
    simp only [hg, hd, if_true, if_false, Bool.false_eq_true] at h ⊢ <;>
    first | cases h | exact ⟨_, _, rfl, rfl⟩

theorem formatted_fail {α : Type} {d : α} {s : IStream} {f : Char → List Char → α × IStream}
    (h : s.fail = true) : (formatted d s f).2.fail = true := by
  simp [formatted, good, h]

theorem formatted_subset {s : IStream} {f : Char → List Char → String × IStream}
    (hf : ∀ c cs, (f c cs).1.data ⊆ c :: cs) : (formatted "" s f).1.data ⊆ s.buf := by
  unfold formatted
  split
  · split
    · exact List.nil_subset _
    · rename_i c cs h
      exact (hf c cs).trans (h ▸ (List.dropWhile_suffix _).subset)
  · exact List.nil_subset _

theorem extractString_suffix (s : IStream) : s.extractString.2.buf <:+ s.buf :=
  formatted_suffix fun _ _ => (List.dropWhile_suffix _).trans (List.suffix_cons _ _)

theorem extractString_subset (s : IStream) : s.extractString.1.data ⊆ s.buf :=
  formatted_subset fun c _ => List.cons_subset_cons c (List.takeWhile_subset _)

/-- A successful `>>` into a string reads a word: at least one character, and no space. -/
theorem word_of_extractString {s : IStream} (h : s.extractString.2.fail = false) :
    s.extractString.1.data ≠ [] ∧ ∀ c ∈ s.extractString.1.data, isSpace c = false := by
  obtain ⟨c, cs, hd, he⟩ := formatted_ok h
  have hc : isSpace c = false := by
    simpa [hd] using List.head_dropWhile_not isSpace s.buf (by simp [hd])
  rw [extractString, he]
  refine ⟨List.cons_ne_nil _ _, ?_⟩
  rintro x (_ | ⟨_, hx⟩)
  · exact hc
  · simpa using List.mem_takeWhile_imp hx

theorem unquote_suffix : ∀ {cs t r : List Char}, unquote cs = some (t, r) → t ⊆ cs ∧ r <:+ cs := by
  intro cs
  induction cs using unquote.induct with
  | case1 => intro t r h; cases h
  | case2 cs => intro t r h; cases h; exact ⟨List.nil_subset _, List.suffix_cons _ _⟩
  | case3 => intro t r h; cases h
  | case4 c cs ih =>
    intro t r h
    simp only [unquote, Option.map_eq_some'] at h
    obtain ⟨⟨t', r'⟩, h', he⟩ := h
    cases he
    obtain ⟨ht, hr⟩ := ih h'
    exact ⟨(List.cons_subset_cons _ ht).trans (List.subset_cons_self _ _),
      hr.trans ((List.suffix_cons _ _).trans (List.suffix_cons _ _))⟩
  | case5 c cs h1 h2 h3 ih =>
    intro t r h
    rw [unquote.eq_5 c cs h1 h2 h3, Option.map_eq_some'] at h
    obtain ⟨⟨t', r'⟩, h', he⟩ := h
    cases he
    obtain ⟨ht, hr⟩ := ih h'
    exact ⟨List.cons_subset_cons _ ht, hr.trans (List.suffix_cons _ _)⟩

theorem extractQuoted_suffix (s : IStream) : s.extractQuoted.2.buf <:+ s.buf := by
  refine formatted_suffix fun c cs => ?_
  split_ifs
  · split
    · rename_i h; exact (unquote_suffix h).2.trans (List.suffix_cons _ _)
    · exact List.nil_suffix
  · exact extractString_suffix _

theorem extractQuoted_subset (s : IStream) : s.extractQuoted.1.data ⊆ s.buf := by
  refine formatted_subset fun c cs => ?_
  split_ifs
  · split
    · rename_i h; exact (unquote_suffix h).1.trans (List.subset_cons_self _ _)
    · exact List.nil_subset _
  · exact extractString_subset _

theorem extractLong_suffix (s : IStream) : s.extractLong.2.buf <:+ s.buf := by
  refine formatted_suffix fun c cs => ?_
  have hsign : ∀ {neg : Bool} {cs' : List Char}, (if c = '-' then (true, cs)
      else if c = '+' then (false, cs) else (false, c :: cs)) = (neg, cs') → cs' <:+ c :: cs := by
    intro neg cs' h
    split_ifs at h <;> cases h
    exacts [List.suffix_cons _ _, List.suffix_cons _ _, List.suffix_refl _]
  split
  rename_i heq
  dsimp only
  split_ifs <;> exact (List.dropWhile_suffix _).trans (hsign heq)

theorem read_suffix (s : IStream) (n : Nat) : (s.read n).2.buf <:+ s.buf := by
  unfold read
  split_ifs
  · exact List.drop_suffix _ _
  · exact List.nil_suffix
  · exact List.suffix_refl _

end IStream

theorem scanDigits_suffix (hi : Nat) :
    ∀ (len v i : Nat) (cs : List Char), (scanDigits hi len v i cs).2.2 <:+ cs
  | 0, _, _, cs => List.suffix_refl cs
  | _ + 1, _, _, [] => List.suffix_refl _
  | len + 1, v, i, c :: cs => by
    simp only [scanDigits]
    split_ifs
    · exact List.suffix_refl _
    · exact (scanDigits_suffix hi len _ _ cs).trans (List.suffix_cons c cs)
    · exact List.suffix_refl _

theorem extractNumConv_suffix (c : NumConv) (t : Tm) (cs : List Char) :
    (extractNumConv c t cs).2.1 <:+ cs := by
  have hskip : (if c = .d then skipOneSpace cs else cs) <:+ cs := by
    split_ifs
    · cases cs with
      | nil => exact List.suffix_refl _
      | cons x xs =>
        simp only [skipOneSpace]
        split_ifs
        exacts [List.suffix_cons x xs, List.suffix_refl _]
    · exact List.suffix_refl _
  have h := (scanDigits_suffix c.hi c.len 0 0 _).trans hskip
  have hr : (extractNum c.len c.lo c.hi (if c = .d then skipOneSpace cs else cs)).2 =
      (scanDigits c.hi c.len 0 0 (if c = .d then skipOneSpace cs else cs)).2.2 := rfl
  unfold extractNumConv
  split <;> (rename_i heq; rw [heq] at hr; dsimp only at hr ⊢; rw [hr]; exact h)

theorem viaFormat_suffix {α : Type} {conv : α → Tm → List Char → Tm × List Char × Bool}
    (hconv : ∀ c t cs, (conv c t cs).2.1 <:+ cs) :
    ∀ (fmt : List (FmtItem α)) (t : Tm) (cs : List Char), (viaFormat conv fmt t cs).2.1 <:+ cs
  | [], _, _ => List.suffix_refl _
  | i :: _, _, [] => by cases i <;> exact List.suffix_refl _
  | .conv c :: fmt, t, x :: xs => by
    have h := hconv c t (x :: xs)
    simp only [viaFormat]
    rcases hp : conv c t (x :: xs) with ⟨t', r, _ | _⟩ <;> rw [hp] at h
    · exact (viaFormat_suffix hconv fmt t' r).trans h
    · exact h
  | .space :: fmt, t, x :: xs =>
    (viaFormat_suffix hconv fmt t _).trans (List.dropWhile_suffix _)
  | .lit f :: fmt, t, x :: xs => by
    simp only [viaFormat]
    split_ifs
    · exact (viaFormat_suffix hconv fmt t xs).trans (List.suffix_cons x xs)
    · exact List.suffix_refl _

theorem extractConv_suffix : ∀ (c : Conv) (t : Tm) (cs : List Char), (extractConv c t cs).2.1 <:+ cs
  | .num c => extractNumConv_suffix c
  | .T => viaFormat_suffix extractNumConv_suffix hmsFormat

theorem timeGet_suffix :
    ∀ (fmt : List (FmtItem Conv)) (t : Tm) (cs : List Char), (timeGet fmt t cs).2.1 <:+ cs
  | [], _, _ => List.suffix_refl _
  | i :: _, _, [] => by cases i <;> exact List.suffix_refl _
  | .conv c :: fmt, t, x :: xs => by
    have h := extractConv_suffix c t (x :: xs)
    simp only [timeGet]
    rcases hp : extractConv c t (x :: xs) with ⟨t', r, e⟩
    rw [hp] at h
    dsimp only
    split
    · exact h
    · exact (timeGet_suffix fmt t' r).trans h
  | .space :: fmt, t, x :: xs => (timeGet_suffix fmt t _).trans (List.dropWhile_suffix _)
  | .lit f :: fmt, t, x :: xs => by
    simp only [timeGet]
    split_ifs
    · exact (timeGet_suffix fmt t xs).trans (List.suffix_cons x xs)
    · exact List.suffix_refl _

theorem IStream.getTime_suffix (s : IStream) (t : Tm) (fmt : List (FmtItem Conv)) :
    (s.getTime t fmt).2.buf <:+ s.buf :=
  IStream.formatted_suffix fun c cs => timeGet_suffix fmt t (c :: cs)

/-- `read` on a stream that is not `good()` fails: a run that reads the offset after the time
had a good stream after it. -/
theorem IStream.good_of_read {s : IStream} {n : Nat} (h : (s.read n).2.fail = false) :
    s.good = true := by
  by_cases hg : s.good
  · exact hg
  · simp [IStream.read, hg] at h

/-- A read of the time that leaves the stream good has read fields within their ranges. -/
theorem IStream.getTime_fits {s : IStream} {t0 : Tm} (h : (s.getTime t0 timeFormat).2.good) :
    (s.getTime t0 timeFormat).1.Fits := by
  unfold IStream.getTime IStream.formatted at h ⊢
  split_ifs at h ⊢ with hs
  · generalize s.buf.dropWhile isSpace = b at h ⊢
    cases b with
    | nil => simp [IStream.good, IStream.atEnd] at h
    | cons c cs =>
      rcases ht : timeGet timeFormat t0 (c :: cs) with ⟨t, r, _ | _, _ | _⟩ <;>
        simp [ht, IStream.good] at h ⊢
      exact (timeGet_good ht).1
  · exact absurd h (by simp [IStream.good])

namespace FilesystemElement

open IStream

/-! ## The checks of `readFrom` -/

theorem permBit_low {letter : Char} {bit q s v : Nat} {c : Char} (hs : s < 8) (hb : bit < 8)
    (h : permBit letter bit c (q * 8 + s) = some v) : ∃ s' < 8, v = q * 8 + s' := by
  unfold permBit at h
  split_ifs at h <;> cases h
  · exact ⟨s ||| bit, @Nat.or_lt_two_pow s bit 3 hs hb, or_low hs hb⟩
  · exact ⟨s, hs, rfl⟩

/-- A turn of the permission loop appends three bits to `pe`. -/
theorem readTriple_low {permStr : List Char} {pe i v : Nat} (h : readTriple permStr pe i = some v) :
    ∃ t < 8, v = pe * 8 + t := by
  simp only [readTriple, Option.bind_eq_bind, Option.bind_eq_some, shiftLeft_three] at h
  obtain ⟨b, ⟨a, ha, hb⟩, hv⟩ := h
  rw [← Nat.add_zero (pe * 8)] at ha
  obtain ⟨t1, h1, rfl⟩ := permBit_low (by decide) (by decide) ha
  obtain ⟨t2, h2, rfl⟩ := permBit_low h1 (by decide) hb
  exact permBit_low h2 (by decide) hv

/-- The permission loop reads nine bits at most. -/
theorem readPerms_lt {permStr : List Char} {pe : Nat} (h : readPerms permStr = some pe) :
    pe < 512 := by
  simp only [readPerms, List.foldlM_cons, List.foldlM_nil, bind, Option.bind_eq_some] at h
  obtain ⟨a, ha, b, hb, c, hc, he⟩ := h
  obtain ⟨t1, h1, rfl⟩ := readTriple_low ha
  obtain ⟨t2, h2, rfl⟩ := readTriple_low hb
  obtain ⟨t3, h3, rfl⟩ := readTriple_low hc
  cases he
  omega

theorem fileTypeOf_some {c : Char} {t : FileType} (h : fileTypeOf? c = some t) :
    t = .regular ∨ t = .directory ∨ t = .symlink ∨ t = .unknown := by
  unfold fileTypeOf? at h
  split at h <;> cases h <;> simp

/-- The texts `readFrom` passes to `fail`, one for each of its checks. -/
def readErrors : List String :=
  ["Error reading permission string", "Unrecognized file type", "Permissions not correct",
    "Error reading user/group", "Error reading mtime", "Error reading size", "Error reading hash",
    "Error reading symlink target", "Error reading path", "Extra characters at end of line"]

section TypeFields

variable {fail : String → String} {self : FilesystemElement} {s : IStream} {ty : FileType}
  {e : FilesystemElement × IStream}

theorem readTypeFields_ok (h : readTypeFields fail self s ty = .ok e) :
    e.2.buf <:+ s.buf ∧
      (ty = .regular → e.1.fileHash.length = 40 ∧ ∀ c ∈ e.1.fileHash.data, isSpace c = false) ∧
      (ty = .symlink → e.1.symlink.data ⊆ s.buf) := by
  cases ty
  case regular =>
    simp only [readTypeFields, pure_eq_ok] at h
    split_ifs at h with h1 h2
    cases h
    rw [not_or, Bool.not_eq_true, not_not] at h2
    exact ⟨(extractString_suffix _).trans (extractLong_suffix s),
      fun _ => ⟨h2.2, (word_of_extractString h2.1).2⟩, nofun⟩
  case symlink =>
    simp only [readTypeFields, pure_eq_ok] at h
    split_ifs at h
    cases h
    exact ⟨extractQuoted_suffix s, nofun, fun _ => extractQuoted_subset s⟩
  all_goals
    simp only [readTypeFields, pure_eq_ok, Except.ok.injEq] at h
    subst h
    exact ⟨List.suffix_refl _, nofun, nofun⟩

/-- The `switch(ty)` sets the fields of its type over `self` and keeps the others. -/
theorem readTypeFields_frame (h : readTypeFields fail self s ty = .ok e) (pe : Nat)
    (us gs : String) (mt : Int64) (rp : String) :
    readBack self { e.1 with
        ty := ty, per := pe, us := us, gs := gs, mt := mt, rp := rp, hardLinkCnt := 1 } =
      { e.1 with ty := ty, per := pe, us := us, gs := gs, mt := mt, rp := rp, hardLinkCnt := 1 } := by
  cases ty <;> simp only [readTypeFields, pure_eq_ok] at h <;> (try split_ifs at h) <;> cases h <;> rfl

/-- A check of `readFrom` on two elements: it throws the same error on both, or both runs go on. -/
theorem ite_throw_map {α β : Type} {c : Prop} [Decidable c] {m : String} {x : Except String β}
    {y : Except String α} {f : α → β} (h : ¬c → x = y.map f) :
    (if c then throw m else x) = (if c then throw m else y).map f := by
  by_cases hc : c
  · rw [if_pos hc, if_pos hc]; rfl
  · rw [if_neg hc, if_neg hc]; exact h hc

/-- `readTypeFields` on an element reads what it reads on a default one, and writes it over the
element. -/
theorem readTypeFields_map (fail : String → String) (self : FilesystemElement) (s : IStream)
    (ty : FileType) :
    readTypeFields fail self s ty =
      (readTypeFields fail {} s ty).map fun e => (setTypeFields self { e.1 with ty := ty }, e.2) := by
  cases ty
  case regular => exact ite_throw_map fun _ => ite_throw_map fun _ => rfl
  case symlink => exact ite_throw_map fun _ => rfl
  all_goals rfl

theorem readTypeFields_error {m : String} (h : readTypeFields fail self s ty = .error m) :
    ∃ t ∈ readErrors, m = fail t := by
  cases ty <;> simp only [readTypeFields, pure_eq_ok] at h <;> (try split_ifs at h) <;> cases h <;>
    simp [readErrors]

end TypeFields

/-! ## The two ends of a run -/

/-- What `readFrom`, called on `base`, makes of a line `line` it accepts: a record that keeps
every field of `base` the line does not carry, of one of the four types, with nine permission
bits, an owner and a group that are words, for a regular file a hash of 40 characters that is
a word, a time other than `-1` that `timegm` computed from fields within the ranges of
`get_time`, and a path and symlink target made of characters of the line. -/
structure Accepted (base : FilesystemElement) (line : List Char) (r : FilesystemElement) : Prop where
  frame : readBack base r = r
  ty : r.ty = .regular ∨ r.ty = .directory ∨ r.ty = .symlink ∨ r.ty = .unknown
  per : r.per < 512
  us : r.us.data ≠ [] ∧ ∀ c ∈ r.us.data, isSpace c = false
  gs : r.gs.data ≠ [] ∧ ∀ c ∈ r.gs.data, isSpace c = false
  hash : r.ty = .regular → r.fileHash.length = 40 ∧ ∀ c ∈ r.fileHash.data, isSpace c = false
  mt : r.mt.val ≠ -1
  time : ∃ tm : Tm, tm.Fits ∧ timegm tm = r.mt
  rp : r.rp.data ⊆ line
  symlink : r.ty = .symlink → r.symlink.data ⊆ line

/-- A check of `readFrom`: it throws `fail t`, or it passes and the run goes on with `y`. -/
theorem ite_throw {β : Type} {c : Prop} [Decidable c] {fail : String → String} {t : String}
    {y x : Except String β} (ht : t ∈ readErrors) (h : (if c then throw (fail t) else y) = x) :
    (∃ t ∈ readErrors, x = .error (fail t)) ∨ ¬c ∧ y = x := by
  by_cases hc : c
  · rw [if_pos hc] at h; exact .inl ⟨t, ht, h.symm⟩
  · rw [if_neg hc] at h; exact .inr ⟨hc, h⟩

/-- Every run of `readFrom` from the stream `s` throws `fail` of the text of one of its checks,
or returns a record it accepts from what `s` holds. -/
theorem readFields_cases {fail : String → String} {self : FilesystemElement} {s : IStream}
    {x : Except String FilesystemElement} (h : readFields fail self s = x) :
    (∃ t ∈ readErrors, x = .error (fail t)) ∨ ∃ r, x = .ok r ∧ Accepted self s.buf r := by
  simp only [readFields] at h
  generalize hp : s.extractString = p at h
  generalize hu : p.2.extractString = u at h
  generalize hg : u.2.extractString = g at h
  generalize ht : g.2.getTime ⟨0, 0, 0, 0, 0, 0⟩ timeFormat = t at h
  generalize hz : t.2.read 6 = z at h
  generalize hty : fileTypeOf? (p.1.data.getD 0 ' ') = oty at h
  generalize hpe : readPerms p.1.data = ope at h
  refine (ite_throw (by simp [readErrors]) h).elim .inl fun ⟨_, h⟩ => ?_
  cases oty with
  | none => exact .inl ⟨_, by simp [readErrors], h.symm⟩
  | some ty =>
  cases ope with
  | none => exact .inl ⟨_, by simp [readErrors], h.symm⟩
  | some pe =>
  dsimp only at h
  refine (ite_throw (by simp [readErrors]) h).elim .inl fun ⟨hgs, h⟩ => ?_
  refine (ite_throw (by simp [readErrors]) h).elim .inl fun ⟨hmt, h⟩ => ?_
  refine (ite_throw (by simp [readErrors]) h).elim .inl fun ⟨hzf, h⟩ => ?_
  cases hrt : readTypeFields fail self z.2 ty with
  | error m =>
    rw [hrt] at h
    obtain ⟨t, ht, rfl⟩ := readTypeFields_error hrt
    exact .inl ⟨t, ht, h.symm⟩
  | ok e =>
  rw [hrt, ok_bind] at h
  refine (ite_throw (by simp [readErrors]) h).elim .inl fun ⟨_, h⟩ => ?_
  refine (ite_throw (by simp [readErrors]) h).elim .inl fun ⟨_, h⟩ => ?_
  refine .inr ⟨_, h.symm, ?_⟩
  have hfits : t.1.Fits := by
    have hgood := @good_of_read t.2 6 (by rw [hz]; simpa using (not_or.1 hzf).1)
    rw [← ht] at hgood ⊢
    exact getTime_fits hgood
  have hz : z.2.buf <:+ s.buf :=
    (hz ▸ read_suffix _ _).trans <| (ht ▸ getTime_suffix _ _ _).trans <|
      (hg ▸ extractString_suffix _).trans <| (hu ▸ extractString_suffix _).trans
      (hp ▸ extractString_suffix _)
  have hu2 : u.2.fail = false := by
    cases h2 : u.2.fail
    · rfl
    · exact absurd (hg ▸ formatted_fail h2) hgs
  have hus : u.1.data ≠ [] ∧ ∀ c ∈ u.1.data, isSpace c = false := by
    rw [← hu]; exact word_of_extractString (by rw [hu]; exact hu2)
  have hgs : g.1.data ≠ [] ∧ ∀ c ∈ g.1.data, isSpace c = false := by
    rw [← hg]; exact word_of_extractString (by rw [hg]; simpa using hgs)
  exact ⟨readTypeFields_frame hrt _ _ _ _ _, fileTypeOf_some hty, readPerms_lt hpe, hus, hgs,
    (readTypeFields_ok hrt).2.1, (not_or.1 hmt).2, ⟨t.1, hfits, rfl⟩,
    (extractQuoted_subset _).trans ((readTypeFields_ok hrt).1.trans hz).subset,
    fun hs => ((readTypeFields_ok hrt).2.2 hs).trans hz.subset⟩

theorem readFields_accepted {fail : String → String} {self r : FilesystemElement} {s : IStream}
    (h : readFields fail self s = .ok r) : Accepted self s.buf r := by
  rcases readFields_cases h with ⟨_, _, he⟩ | ⟨_, he, ha⟩
  · cases he
  · cases he; exact ha

/-- Every error of `readFrom` is its message for the text of one of its checks: the file
name, the text, the line number, and the line. -/
theorem readFrom_error {self : FilesystemElement} {line diffFileName : String} {lineNo : Int}
    {m : String} (h : self.readFrom line diffFileName lineNo = .error m) :
    ∃ t ∈ readErrors, m = failMessage line diffFileName lineNo t := by
  rcases readFields_cases h with ⟨t, ht, he⟩ | ⟨_, he, _⟩
  · cases he; exact ⟨t, ht, rfl⟩
  · cases he

/-! ## Reading back a record that was read -/

theorem Accepted.persistable {base r : FilesystemElement} {line : List Char}
    (ha : Accepted base line r) (hy : (gmtime r.mt).tm_year + 1900 ≤ 9999) : r.Persistable := by
  obtain ⟨tm, hfits, htm⟩ := ha.time
  exact ⟨ha.ty, ha.per, ha.us, ha.gs, ⟨htm ▸ gmtime_timegm_year hfits, hy⟩, ha.hash⟩

/-- A record `readFrom` accepts from a line without a line break, and whose year is at most
9999, is printed by `writeTo` as one line that `readFrom` reads back as the same record. -/
theorem readFrom_writeTo_readFrom (self r : FilesystemElement) (line diffFileName : String)
    (lineNo : Int) (h : self.readFrom line diffFileName lineNo = .ok r) (hnl : '\n' ∉ line.data)
    (hy : (gmtime r.mt).tm_year + 1900 ≤ 9999) (diffFileName' : String) (lineNo' : Int) :
    ∃ out, r.writeTo = out ++ ['\n'] ∧ '\n' ∉ out ∧
      self.readFrom ⟨out⟩ diffFileName' lineNo' = .ok r := by
  have ha : Accepted self line.data r := readFields_accepted h
  refine ⟨body r, writeTo_eq_body r, newline_not_mem_body (ha.persistable hy)
    (fun hn => hnl (ha.rp hn)) (fun hs hn => hnl (ha.symlink hs hn)), ?_⟩
  rw [readFrom_body self (ha.persistable hy) ha.mt, ha.frame]

set_option maxRecDepth 4000 in
theorem readFrom_writeTo_readFrom_directory :
    ∃ r, ({} : FilesystemElement).readFrom "drwxr-xr-x root wheel 2024-01-01 00:00:00 +0000 x" ""
        (-1) = .ok r ∧
      ∃ out, r.writeTo = out ++ ['\n'] ∧ '\n' ∉ out ∧
        ({} : FilesystemElement).readFrom ⟨out⟩ "" (-1) = .ok r :=
  ⟨_, rfl, readFrom_writeTo_readFrom {} _ "drwxr-xr-x root wheel 2024-01-01 00:00:00 +0000 x" ""
    (-1) rfl (by decide) (by decide) "" (-1)⟩

/-- The year bound of `readFrom_writeTo_readFrom` is needed: `writeTo` prints a year outside
`0..9999` with a sign or in five digits or more, which `get_time` does not read, and `readFrom`
rejects the line at its time. -/
theorem readFrom_body_yearOutOfRange (self : FilesystemElement) {e : FilesystemElement}
    (hty : e.ty = .regular ∨ e.ty = .directory ∨ e.ty = .symlink ∨ e.ty = .unknown)
    (hus : e.us.data ≠ [] ∧ ∀ c ∈ e.us.data, isSpace c = false)
    (hgs : e.gs.data ≠ [] ∧ ∀ c ∈ e.gs.data, isSpace c = false)
    (hy : (gmtime e.mt).tm_year + 1900 < 0 ∨ 9999 < (gmtime e.mt).tm_year + 1900)
    (diffFileName : String) (lineNo : Int) :
    self.readFrom ⟨body e⟩ diffFileName lineNo =
      .error (failMessage ⟨body e⟩ diffFileName lineNo "Error reading mtime") := by
  have hfail := getTime_yearOutOfRange hy ⟨0, 0, 0, 0, 0, 0⟩ (' ' :: (typeFields e ++ quoted e.rp))
  rw [← getTime_space] at hfail
  simp only [readFrom, readFields, body, List.cons_append, List.append_assoc, stage_permStr,
    stage_word hus, stage_word hgs, hfail, fileTypeOf_typeChar hty, readPerms_permString_mod,
    List.getD_cons_zero, String.length_mk, List.length_cons, length_permString, fail_ofList,
    Bool.false_eq_true, false_or, or_false, true_or, if_true, if_false, ne_eq, not_true_eq_false]
  rfl

set_option maxRecDepth 4000 in
/-- The leap second that ends the year 9999: `readFrom` accepts its line, `timegm` carries it
into the year 10000, and the line `writeTo` prints for the record is rejected. -/
theorem readFrom_leapSecond :
    ∃ r, ({} : FilesystemElement).readFrom "d--------- a b 9999-12-31 23:59:60 +0000 x" "" (-1) =
        .ok r ∧ (gmtime r.mt).tm_year + 1900 = 10000 ∧
      ({} : FilesystemElement).readFrom ⟨body r⟩ "" (-1) =
        .error (failMessage ⟨body r⟩ "" (-1) "Error reading mtime") :=
  ⟨_, rfl, by decide, readFrom_body_yearOutOfRange {} (by decide) (by decide) (by decide)
    (.inr (by decide)) "" (-1)⟩

/-! ## The element `readFrom` is called on -/

theorem readFields_readBack (fail : String → String) (self : FilesystemElement) (s : IStream) :
    readFields fail self s = (readFields fail {} s).map (readBack self) := by
  unfold readFields
  dsimp only
  generalize s.extractString = p
  generalize p.2.extractString = u
  generalize u.2.extractString = g
  generalize g.2.getTime ⟨0, 0, 0, 0, 0, 0⟩ timeFormat = t
  generalize t.2.read 6 = z
  generalize fileTypeOf? (p.1.data.getD 0 ' ') = oty
  generalize readPerms p.1.data = ope
  refine ite_throw_map fun _ => ?_
  cases oty with
  | none => rfl
  | some ty =>
  cases ope with
  | none => rfl
  | some pe =>
  refine ite_throw_map fun _ => ite_throw_map fun _ => ite_throw_map fun _ => ?_
  rw [readTypeFields_map]
  cases readTypeFields fail {} z.2 ty with
  | error m => rfl
  | ok e => exact ite_throw_map fun _ => ite_throw_map fun _ => rfl

/-- `readFrom` on any element is the constructor `FilesystemElement(diffLine, ...)` written over
that element: it throws exactly when the constructor does, with the same message, and otherwise
sets the fields the line carries (type, permissions, owner, group, time, path, hard-link count,
and size and hash of a regular file or target of a symlink) and keeps every other field of the
element, stale size, hash or target included. -/
theorem readFrom_eq_map_ofLine (self : FilesystemElement) (diffLine diffFileName : String)
    (lineNo : Int) :
    self.readFrom diffLine diffFileName lineNo = (ofLine diffLine diffFileName lineNo).map (readBack self) :=
  readFields_readBack _ self _

/- A directory line read into the record of a regular file of size 5 leaves the size at 5. -/
set_option maxRecDepth 4000 in
example : (({ ty := .regular, sz := 5 } : FilesystemElement).readFrom
    "drwxr-xr-x root wheel 2024-01-01 00:00:00 +0000 x" "" (-1)).map (·.sz) = .ok 5 := rfl


end FilesystemElement

end DiskDiff
