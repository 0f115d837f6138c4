import DiskDiff.Element
import Mathlib.Data.Nat.Bitwise

/-!
# The line codec: what `readFrom` recovers from `writeTo`

`writeTo` prints one record as

  `<type><rwxrwxrwx> <owner> <group> <YYYY-MM-DD HH:MM:SS> +0000 [<size> <hash> | <target>] <path>`

and `readFrom` parses such a line, the final `\n` left out. The round trip goes field by
field: each stage of `readFrom` reads from a stream that holds exactly what `writeTo`
printed from that field on (`stage_*`), and the stages chain into `readFields_body_eq`, from
which `writeTo_readFrom_roundTrip` follows. The permission string carries the nine `rwx`
bits only, so other bits of the permissions are not read back (`readPerms_permString_mod`).

Two inputs fall outside the round trip. A path or symlink target with a line break is
printed as it is (`std::quoted` escapes only `"` and `\`), so the record no longer fits on
one line. And the modification time `-1`, one second before the epoch, is printed like
any other time but read back as an error (`readFrom_minusOne`): `readFrom` takes the `-1`
that `timegm` returns for it for the error value of `timegm`. Nothing may follow the path: a
printed line with a trailing space or carriage return is rejected (`readFrom_body_append`).
-/

namespace DiskDiff

namespace FilesystemElement

open IStream

/-! ## The permission string -/

theorem isSpace_typeChar (t : FileType) : isSpace (typeChar t) = false := by
  cases t <;> rfl

theorem isSpace_permChar (pe mask : Nat) {c : Char} (hc : isSpace c = false) :
    isSpace (permChar pe mask c) = false := by
  unfold permChar; split_ifs
  · rfl
  · exact hc

theorem isSpace_permString (pe : Nat) : ∀ c ∈ permString pe, isSpace c = false := by
  simp only [permString, List.mem_cons, List.mem_singleton, List.not_mem_nil, or_false]
  rintro c (rfl | rfl | rfl | rfl | rfl | rfl | rfl | rfl | rfl) <;>
    exact isSpace_permChar _ _ (by decide)

theorem permChar_eq {pe mask : Nat} (i : Nat) (c : Char) (h : mask = 2 ^ i) :
    permChar pe mask c = if pe / mask % 2 = 1 then c else '-' := by
  subst h
  have := @Nat.testBit_to_div_mod i pe
  rw [permChar, Nat.and_two_pow]
  cases hb : pe.testBit i <;> simp_all

theorem permBit_ite {letter : Char} (bit : Nat) (b : Bool) (h : letter ≠ '-') :
    permBit letter bit (if b then letter else '-') = fun pe => some (if b then pe ||| bit else pe) := by
  funext pe; cases b <;> simp [permBit, h.symm]

theorem or_low {q s b : Nat} (hs : s < 8) (hb : b < 8) : (q * 8 + s) ||| b = q * 8 + (s ||| b) := by
  have h1 : q * 8 + s = 2 ^ 3 * q ||| s := by rw [← Nat.mul_add_lt_is_or hs]; ring
  rw [h1, Nat.or_assoc, ← Nat.mul_add_lt_is_or (Nat.or_lt_two_pow hs hb)]; ring

theorem or_of_lt {q b : Nat} (hb : b < 8) : q * 8 ||| b = q * 8 + b := by
  simpa using @or_low q 0 b (by decide) hb

theorem shiftLeft_three (pe : Nat) : pe <<< 3 = pe * 8 := by simp [Nat.shiftLeft_eq]

/-- A turn of the loop over an `rwx` triple shifts `pe` and adds the triple's bits. -/
theorem readTriple_bits {permStr : List Char} (pe i : Nat) (r w x : Bool)
    (h : (permStr.drop (3 * i + 1)).take 3 =
      [if r then 'r' else '-', if w then 'w' else '-', if x then 'x' else '-']) :
    readTriple permStr pe i = some (pe * 8 + (4 * r.toNat + 2 * w.toNat + x.toNat)) := by
  simp only [readTriple, h, List.getD_cons_zero, List.getD_cons_succ,
    permBit_ite _ _ (by decide : 'r' ≠ '-'), permBit_ite _ _ (by decide : 'w' ≠ '-'),
    permBit_ite _ _ (by decide : 'x' ≠ '-'), Option.bind_eq_bind, Option.some_bind]
  cases r <;> cases w <;> cases x <;>
    simp (disch := decide) only [shiftLeft_three, or_of_lt, or_low, if_true, if_false,
      Bool.false_eq_true] <;> rfl

theorem toNat_decide_mod_two (n : Nat) : (decide (n % 2 = 1)).toNat = n % 2 := by
  rcases Nat.mod_two_eq_zero_or_one n with h | h <;> simp [h]

theorem triple_lt_eight : ∀ y < 8, 4 * (y / 4 % 2) + 2 * (y / 2 % 2) + y % 2 = y := by decide

/-- The three bits of an `rwx` triple make up the triple: they are the low bits of `x`. -/
theorem triple_mod (x : Nat) : 4 * (x / 4 % 2) + 2 * (x / 2 % 2) + x % 2 = x % 8 := by
  have h4 : x / 4 % 2 = x % 8 / 4 % 2 := by
    rw [show (8 : Nat) = 4 * 2 from rfl, Nat.mod_mul_right_div_self, Nat.mod_mod]
  have h2 : x / 2 % 2 = x % 8 / 2 % 2 := by
    rw [show (8 : Nat) = 2 * 4 from rfl, Nat.mod_mul_right_div_self, Nat.mod_mod_of_dvd _ (by decide)]
  rw [h4, h2, ← Nat.mod_mod_of_dvd x (by decide : 2 ∣ 8)]
  exact triple_lt_eight _ (Nat.mod_lt _ (by decide))

/-- Nine permission bits, read back three at a time. -/
theorem nine_bits {per : Nat} (h : per < 512) :
    ((0 * 8 + (4 * (per / 256 % 2) + 2 * (per / 128 % 2) + per / 64 % 2)) * 8 +
      (4 * (per / 32 % 2) + 2 * (per / 16 % 2) + per / 8 % 2)) * 8 +
      (4 * (per / 4 % 2) + 2 * (per / 2 % 2) + per % 2) = per := by
  have h64 : ∀ k, per / (64 * k) = per / 64 / k := fun k => (Nat.div_div_eq_div_mul per 64 k).symm
  have h8 : ∀ k, per / (8 * k) = per / 8 / k := fun k => (Nat.div_div_eq_div_mul per 8 k).symm
  rw [show (256 : Nat) = 64 * 4 from rfl, show (128 : Nat) = 64 * 2 from rfl, h64, h64,
    show (32 : Nat) = 8 * 4 from rfl, show (16 : Nat) = 8 * 2 from rfl, h8, h8,
    triple_mod, triple_mod, triple_mod, Nat.mod_eq_of_lt (by omega : per / 64 < 8),
    show (64 : Nat) = 8 * 8 from rfl, h8, zero_mul, zero_add, Nat.div_add_mod', Nat.div_add_mod']

/-- The permission loop of `readFrom` reads back the nine bits `writeTo` printed. -/
theorem readPerms_permString (c : Char) {per : Nat} (h : per < 512) :
    readPerms (c :: permString per) = some per := by
  simp only [readPerms, List.foldlM_cons, List.foldlM_nil]
  rw [readTriple_bits 0 0 (decide (per / 256 % 2 = 1)) (decide (per / 128 % 2 = 1))
    (decide (per / 64 % 2 = 1)) (by simp [permString, permChar_eq 8, permChar_eq 7,
      permChar_eq 6])]
  simp only [Option.bind_eq_bind, Option.some_bind]
  rw [readTriple_bits _ 1 (decide (per / 32 % 2 = 1)) (decide (per / 16 % 2 = 1))
    (decide (per / 8 % 2 = 1)) (by simp [permString, permChar_eq 5, permChar_eq 4,
      permChar_eq 3])]
  simp only [Option.some_bind]
  rw [readTriple_bits _ 2 (decide (per / 4 % 2 = 1)) (decide (per / 2 % 2 = 1))
    (decide (per / 1 % 2 = 1)) (by simp [permString, permChar_eq 2, permChar_eq 1,
      permChar_eq 0])]
  simp only [Option.some_bind, Option.pure_def, toNat_decide_mod_two, Nat.div_one,
    nine_bits h]

@[simp] theorem length_permString (pe : Nat) : (permString pe).length = 9 := rfl

theorem permChar_mod {mask : Nat} (i : Nat) (hi : i < 9) (h : mask = 2 ^ i) (pe : Nat) (c : Char) :
    permChar (pe % 512) mask c = permChar pe mask c := by
  subst h
  rw [show (512 : Nat) = 2 ^ 9 from rfl]
  simp only [permChar, Nat.and_two_pow, Nat.testBit_mod_two_pow, hi, decide_True, Bool.true_and]

/-- The permission string shows the nine `rwx` bits only: set-user-ID, set-group-ID and
sticky bits leave no trace in the listing. -/
theorem permString_mod (pe : Nat) : permString (pe % 512) = permString pe := by
  simp [permString, permChar_mod 8 (by decide), permChar_mod 7 (by decide),
    permChar_mod 6 (by decide), permChar_mod 5 (by decide), permChar_mod 4 (by decide),
    permChar_mod 3 (by decide), permChar_mod 2 (by decide), permChar_mod 1 (by decide),
    permChar_mod 0 (by decide)]

/-- Whatever the permissions, `readFrom` reads back their nine `rwx` bits. -/
theorem readPerms_permString_mod (c : Char) (pe : Nat) :
    readPerms (c :: permString pe) = some (pe % 512) := by
  rw [← permString_mod]
  exact readPerms_permString c (Nat.mod_lt _ (by decide))

theorem fileTypeOf_typeChar {t : FileType}
    (h : t = .regular ∨ t = .directory ∨ t = .symlink ∨ t = .unknown) :
    fileTypeOf? (typeChar t) = some t := by
  rcases h with rfl | rfl | rfl | rfl <;> rfl

/-! ## The records the line carries -/

/-- A record whose fields `writeTo` prints in a form `readFrom` reads back: one of the four
types with a type character, nine permission bits, an owner and a group that are words, a
modification time in a year of `0..9999`, and for a regular file a hash of 40 characters that
is a word. Size, path and symlink target are free. -/
structure Persistable (e : FilesystemElement) : Prop where
  ty : e.ty = .regular ∨ e.ty = .directory ∨ e.ty = .symlink ∨ e.ty = .unknown
  per : e.per < 512
  us : e.us.data ≠ [] ∧ ∀ c ∈ e.us.data, isSpace c = false
  gs : e.gs.data ≠ [] ∧ ∀ c ∈ e.gs.data, isSpace c = false
  year : 0 ≤ (gmtime e.mt).tm_year + 1900 ∧ (gmtime e.mt).tm_year + 1900 ≤ 9999
  hash : e.ty = .regular → e.fileHash.length = 40 ∧ ∀ c ∈ e.fileHash.data, isSpace c = false

/-- The fields of the `switch(ty)` of `e`, set over `self`. -/
def setTypeFields (self e : FilesystemElement) : FilesystemElement :=
  match e.ty with
  | .regular => { self with sz := e.sz, fileHash := e.fileHash }
  | .symlink => { self with symlink := e.symlink }
  | _ => self

/-- What `readFrom`, called on `self`, makes of the line of `e`: every field `writeTo`
prints, over `self`, and a hard-link count of 1. -/
def readBack (self e : FilesystemElement) : FilesystemElement :=
  { setTypeFields self e with
    ty := e.ty, per := e.per, us := e.us, gs := e.gs, mt := e.mt, rp := e.rp, hardLinkCnt := 1 }

/-- The line of `e` as `readFrom` gets it: `writeTo` without the final `\n`. -/
def body (e : FilesystemElement) : List Char :=
  typeChar e.ty :: permString e.per ++ ' ' :: e.us.data ++ ' ' :: e.gs.data ++ ' ' ::
    putTime (gmtime e.mt) ++ ' ' :: typeFields e ++ quoted e.rp

theorem writeTo_eq_body (e : FilesystemElement) : e.writeTo = body e ++ ['\n'] := by
  simp [writeTo, body]

/-! ## The stages of `readFrom` -/

@[simp] theorem pure_eq_ok {α : Type} (a : α) : (pure a : Except String α) = .ok a := rfl

@[simp] theorem ok_bind {α β : Type} (a : α) (f : α → Except String β) : (Except.ok a >>= f) = f a :=
  rfl

@[simp] theorem throw_bind {α β : Type} (m : String) (f : α → Except String β) :
    (throw m >>= f) = throw m :=
  rfl

theorem extractString_space (cs : List Char) :
    extractString (ofList (' ' :: cs)) = extractString (ofList cs) :=
  @formatted_space _ _ _ ' ' rfl cs

theorem extractQuoted_space (cs : List Char) :
    extractQuoted (ofList (' ' :: cs)) = extractQuoted (ofList cs) :=
  @formatted_space _ _ _ ' ' rfl cs

theorem extractLong_space (cs : List Char) :
    extractLong (ofList (' ' :: cs)) = extractLong (ofList cs) :=
  @formatted_space _ _ _ ' ' rfl cs

theorem getTime_space (cs : List Char) (t : Tm) (fmt : List (FmtItem Conv)) :
    getTime (ofList (' ' :: cs)) t fmt = getTime (ofList cs) t fmt :=
  @formatted_space _ _ _ ' ' rfl cs

/-- A word and the space after it. -/
theorem extractString_field {w : List Char} (hw : w ≠ []) (hws : ∀ c ∈ w, isSpace c = false)
    (rest : List Char) : extractString (ofList (w ++ ' ' :: rest)) = (⟨w⟩, ofList (' ' :: rest)) :=
  extractString_word hw hws (by simp [isSpace])

theorem stage_typeFields (fail : String → String) (self : FilesystemElement)
    {e : FilesystemElement} (he : e.Persistable) (rest : List Char) :
    readTypeFields fail self (ofList (' ' :: (typeFields e ++ rest))) e.ty =
      .ok (setTypeFields self e, ofList (' ' :: rest)) := by
  rcases he.ty with h | h | h | h
  · obtain ⟨hlen, hws⟩ := he.hash h
    have hne : e.fileHash.data ≠ [] := by
      intro h0; simp [String.length, h0] at hlen
    have hsz : extractLong (ofList (' ' :: (writeInt e.sz.val ++ ' ' :: (e.fileHash.data ++
        ' ' :: rest)))) = (e.sz, ofList (' ' :: (e.fileHash.data ++ ' ' :: rest))) := by
      rw [extractLong_space, extractLong_writeInt _ (by simp)]; rfl
    have hhash : extractString (ofList (' ' :: (e.fileHash.data ++ ' ' :: rest))) =
        (e.fileHash, ofList (' ' :: rest)) := by
      rw [extractString_space, extractString_field hne hws]
    simp only [readTypeFields, typeFields, setTypeFields, h, List.cons_append, List.append_assoc,
      List.nil_append, hsz, hhash]
    simp [hlen]
  all_goals simp [readTypeFields, typeFields, setTypeFields, h, extractQuoted_space,
    extractQuoted_quoted]

/-- The permission string, and the space after it. -/
theorem stage_permStr (e : FilesystemElement) (rest : List Char) :
    extractString (ofList (typeChar e.ty :: (permString e.per ++ ' ' :: rest))) =
      (⟨typeChar e.ty :: permString e.per⟩, ofList (' ' :: rest)) := by
  rw [← List.cons_append]
  refine extractString_field (List.cons_ne_nil _ _) ?_ rest
  simpa [isSpace_typeChar] using isSpace_permString e.per

/-- Owner or group, after a space. -/
theorem stage_word {w : String} (hw : w.data ≠ [] ∧ ∀ c ∈ w.data, isSpace c = false)
    (rest : List Char) :
    extractString (ofList (' ' :: (w.data ++ ' ' :: rest))) = (w, ofList (' ' :: rest)) := by
  rw [extractString_space, extractString_field hw.1 hw.2]

/-- The date and time, after a space: the offset text is left. -/
theorem stage_time {e : FilesystemElement} (he : e.Persistable) (rest : List Char) (t0 : Tm) :
    getTime (ofList (' ' :: (putTime (gmtime e.mt) ++ rest))) t0 timeFormat =
      (gmtime e.mt, ofList (" +0000".data ++ rest)) := by
  rw [getTime_space, getTime_putTime (gmtime_fits e.mt he.year.1 he.year.2)]

/-- The offset text, as the six characters `simp` unfolds it to. -/
theorem stage_zone (rest : List Char) :
    (ofList (' ' :: '+' :: '0' :: '0' :: '0' :: '0' :: rest)).read 6 = (" +0000".data, ofList rest) :=
  @read_append " +0000".data rest

/-- The path, after a space. -/
theorem stage_path (p : String) (rest : List Char) :
    extractQuoted (ofList (' ' :: (quoted p ++ rest))) = (p, ofList rest) := by
  rw [extractQuoted_space, extractQuoted_quoted]

/-- `readFrom` on the line `writeTo` printed, followed by `t`, passes every check up to the path;
then the time `-1` fails, and so does anything in `t`. -/
theorem readFields_body_append_eq (fail : String → String) (self : FilesystemElement)
    {e : FilesystemElement} (he : e.Persistable) (t : List Char) :
    readFields fail self (ofList (body e ++ t)) =
      if e.mt.val = -1 then throw (fail "Error reading mtime")
      else if t = [] then .ok (readBack self e) else throw (fail "Extra characters at end of line") := by
  simp only [readFields, body, List.cons_append, List.append_assoc, stage_permStr, stage_word he.us,
    stage_word he.gs, stage_time he, timegm_gmtime, stage_zone, stage_typeFields _ self he,
    List.nil_append, stage_path, String.length_mk, List.length_cons, fail_ofList,
    fileTypeOf_typeChar he.ty, readPerms_permString _ he.per, List.getD_cons_zero,
    length_permString, Bool.false_eq_true, false_or, or_false, ne_eq, not_true_eq_false,
    if_false, ok_bind, pure_eq_ok]
  cases t with
  | nil => simp only [get_ofList_nil, Option.isSome_none]; rfl
  | cons c t => rfl

/-- `readFrom` on the line `writeTo` printed passes every check but the one of the time, which
fails on the time `-1` alone. -/
theorem readFields_body_eq (fail : String → String) (self : FilesystemElement)
    {e : FilesystemElement} (he : e.Persistable) :
    readFields fail self (ofList (body e)) =
      if e.mt.val = -1 then throw (fail "Error reading mtime") else .ok (readBack self e) := by
  simpa using readFields_body_append_eq fail self he []

/-- The fields of `readFrom` read back the line `writeTo` printed. -/
theorem readFields_body (fail : String → String) (self : FilesystemElement)
    {e : FilesystemElement} (he : e.Persistable) (hmt : e.mt.val ≠ -1) :
    readFields fail self (ofList (body e)) = .ok (readBack self e) := by
  rw [readFields_body_eq fail self he, if_neg hmt]

/-- `readFrom` reads back the line `writeTo` printed. -/
theorem readFrom_body (self : FilesystemElement) {e : FilesystemElement} (he : e.Persistable)
    (hmt : e.mt.val ≠ -1) (diffFileName : String) (lineNo : Int) :
    self.readFrom ⟨body e⟩ diffFileName lineNo = .ok (readBack self e) :=
  readFields_body _ self he hmt

theorem readFields_minusOne (fail : String → String) (self : FilesystemElement)
    {e : FilesystemElement} (he : e.Persistable) (hmt : e.mt.val = -1) :
    readFields fail self (ofList (body e)) = .error (fail "Error reading mtime") := by
  rw [readFields_body_eq fail self he, if_pos hmt]
  rfl

/-- The time `-1` is printed like any other, and read back as the error value of
`timegm`. -/
theorem readFrom_minusOne (self : FilesystemElement) {e : FilesystemElement} (he : e.Persistable)
    (hmt : e.mt.val = -1) (diffFileName : String) (lineNo : Int) :
    self.readFrom ⟨body e⟩ diffFileName lineNo =
      .error (failMessage ⟨body e⟩ diffFileName lineNo "Error reading mtime") :=
  readFields_minusOne _ self he hmt

set_option maxRecDepth 4000 in
theorem readFrom_minusOne_directory :
    let e : FilesystemElement :=
      { ty := .directory, per := 0o755, us := "root", gs := "wheel", mt := .minusOne, rp := "a" }
    FilesystemElement.readFrom {} ⟨body e⟩ "" (-1) =
      .error (failMessage ⟨body e⟩ "" (-1) "Error reading mtime") :=
  readFrom_minusOne {}
    ⟨by decide, by decide, ⟨by decide, by decide⟩, ⟨by decide, by decide⟩, ⟨by decide, by decide⟩,
      fun h => absurd h (by decide)⟩
    rfl "" (-1)

/-- Anything after the path of a line `writeTo` printed, a space or the carriage return of a
CRLF line ending included, makes `readFrom` reject the line. -/
theorem readFrom_body_append (self : FilesystemElement) {e : FilesystemElement}
    (he : e.Persistable) (hmt : e.mt.val ≠ -1) {t : List Char} (ht : t ≠ []) (diffFileName : String)
    (lineNo : Int) :
    self.readFrom ⟨body e ++ t⟩ diffFileName lineNo =
      .error (failMessage ⟨body e ++ t⟩ diffFileName lineNo "Extra characters at end of line") := by
  rw [readFrom, readFields_body_append_eq _ self he, if_neg hmt, if_neg ht]
  rfl

set_option maxRecDepth 4000 in
theorem readFrom_body_crlf :
    let e : FilesystemElement :=
      { ty := .directory, per := 0o755, us := "root", gs := "wheel", mt := 0, rp := "a" }
    FilesystemElement.readFrom {} ⟨body e ++ ['\r']⟩ "" (-1) =
      .error (failMessage ⟨body e ++ ['\r']⟩ "" (-1) "Extra characters at end of line") :=
  readFrom_body_append {}
    ⟨by decide, by decide, ⟨by decide, by decide⟩, ⟨by decide, by decide⟩, ⟨by decide, by decide⟩,
      fun h => absurd h (by decide)⟩
    (by decide) (List.cons_ne_nil _ _) "" (-1)

/-! ## One line -/

theorem newline_not_mem_writeInt (v : Int) : '\n' ∉ writeInt v := fun h => by
  rcases mem_writeInt h with h | h <;> exact absurd h (by decide)

theorem newline_not_mem_putTime (t : Tm) : '\n' ∉ putTime t := by
  have hpad : ∀ v, '\n' ∉ pad2 v := fun v => by
    unfold pad2; split <;> simp [newline_not_mem_writeInt]
  simp [putTime, hpad, newline_not_mem_writeInt]

theorem mem_escape {c : Char} {cs : List Char} (h : c ∈ escape cs) : c ∈ cs ∨ c = '\\' := by
  induction cs with
  | nil => exact absurd h (List.not_mem_nil c)
  | cons a cs ih =>
    simp only [escape, List.mem_append] at h
    rcases h with h | h
    · split at h <;> simp_all; tauto
    · exact (ih h).imp (List.mem_cons_of_mem a) id

theorem newline_not_mem_quoted {p : String} (h : '\n' ∉ p.data) : '\n' ∉ quoted p := by
  intro hm
  simp only [quoted, List.cons_append, List.mem_cons, List.mem_append, List.mem_singleton] at hm
  rcases hm with hm | hm | hm
  · exact absurd hm (by decide)
  · exact (mem_escape hm).elim h (by decide)
  · exact absurd hm (by decide)

theorem newline_not_mem_word {w : List Char} (h : ∀ c ∈ w, isSpace c = false) : '\n' ∉ w :=
  fun hm => absurd (h _ hm) (by decide)

/-- The line of a record holds no line break when its path and target hold none. -/
theorem newline_not_mem_body {e : FilesystemElement} (he : e.Persistable) (hrp : '\n' ∉ e.rp.data)
    (hsym : e.ty = .symlink → '\n' ∉ e.symlink.data) : '\n' ∉ body e := by
  have hty : '\n' ∉ typeFields e := by
    unfold typeFields
    split
    · simp [newline_not_mem_writeInt, newline_not_mem_word (he.hash ‹_›).2]
    · simpa using newline_not_mem_quoted (hsym ‹_›)
    · simp
  simp only [body, List.cons_append, List.append_assoc, List.mem_cons, List.mem_append, not_or]
  exact ⟨fun h => absurd (isSpace_typeChar e.ty) (by rw [← h]; decide),
    newline_not_mem_word (isSpace_permString e.per), by decide, newline_not_mem_word he.us.2,
    by decide, newline_not_mem_word he.gs.2, by decide, newline_not_mem_putTime _, by decide, hty,
    newline_not_mem_quoted hrp⟩

/-- `writeTo` prints one line, and `readFrom` reads it back: every field it prints, and a
hard-link count of 1. A path or symlink target with a line break breaks the line; the
time `-1` is left out (`readFrom_minusOne`). -/
theorem writeTo_readFrom_roundTrip (self e : FilesystemElement) (diffFileName : String)
    (lineNo : Int) (he : e.Persistable) (hmt : e.mt.val ≠ -1) (hrp : '\n' ∉ e.rp.data)
    (hsym : e.ty = .symlink → '\n' ∉ e.symlink.data) :
    ∃ line, e.writeTo = line ++ ['\n'] ∧ '\n' ∉ line ∧
      ∃ r, self.readFrom ⟨line⟩ diffFileName lineNo = .ok r ∧
        r.ty = e.ty ∧ r.per = e.per ∧ r.us = e.us ∧ r.gs = e.gs ∧ r.mt = e.mt ∧ r.rp = e.rp ∧
        (e.ty = .regular → r.sz = e.sz ∧ r.fileHash = e.fileHash) ∧
        (e.ty = .symlink → r.symlink = e.symlink) ∧ r.hardLinkCnt = 1 := by
  refine ⟨body e, writeTo_eq_body e, newline_not_mem_body he hrp hsym, readBack self e,
    readFrom_body self he hmt diffFileName lineNo, rfl, rfl, rfl, rfl, rfl, rfl, ?_, ?_, rfl⟩ <;>
    intro h <;> simp [readBack, setTypeFields, h]

set_option maxRecDepth 4000 in
/-- A regular file, whose size and hash are read back, and a symlink, whose target is. -/
theorem writeTo_readFrom_fileSymlink :
    let f : FilesystemElement :=
      { ty := .regular, per := 0o644, us := "root", gs := "wheel", mt := 1700000000, sz := 12,
        fileHash := "0123456789abcdef0123456789abcdef01234567", rp := "a \"b\"" }
    let l : FilesystemElement :=
      { ty := .symlink, per := 0o777, us := "root", gs := "wheel", symlink := "../t", rp := "l" }
    (∃ line, f.writeTo = line ++ ['\n'] ∧ '\n' ∉ line ∧
      ∃ r, FilesystemElement.readFrom {} ⟨line⟩ "" (-1) = .ok r ∧
        r.ty = f.ty ∧ r.per = f.per ∧ r.us = f.us ∧ r.gs = f.gs ∧ r.mt = f.mt ∧ r.rp = f.rp ∧
        (f.ty = .regular → r.sz = f.sz ∧ r.fileHash = f.fileHash) ∧
        (f.ty = .symlink → r.symlink = f.symlink) ∧ r.hardLinkCnt = 1) ∧
    (∃ line, l.writeTo = line ++ ['\n'] ∧ '\n' ∉ line ∧
      ∃ r, FilesystemElement.readFrom {} ⟨line⟩ "" (-1) = .ok r ∧
        r.ty = l.ty ∧ r.per = l.per ∧ r.us = l.us ∧ r.gs = l.gs ∧ r.mt = l.mt ∧ r.rp = l.rp ∧
        (l.ty = .regular → r.sz = l.sz ∧ r.fileHash = l.fileHash) ∧
        (l.ty = .symlink → r.symlink = l.symlink) ∧ r.hardLinkCnt = 1) :=
  ⟨writeTo_readFrom_roundTrip {} _ "" (-1)
    ⟨by decide, by decide, ⟨by decide, by decide⟩, ⟨by decide, by decide⟩, ⟨by decide, by decide⟩,
      fun _ => ⟨by decide, by decide⟩⟩
    (by decide) (by decide) (fun h => absurd h (by decide)),
  writeTo_readFrom_roundTrip {} _ "" (-1)
    ⟨by decide, by decide, ⟨by decide, by decide⟩, ⟨by decide, by decide⟩, ⟨by decide, by decide⟩,
      fun h => absurd h (by decide)⟩
    (by decide) (by decide) (fun _ => by decide)⟩

set_option maxRecDepth 4000 in
/-- A path with a line break: the record is printed on two lines. -/
theorem writeTo_newline_path :
    FilesystemElement.Persistable
        { ty := .directory, per := 0o755, us := "root", gs := "wheel", rp := "a\nb" } ∧
      '\n' ∈ (FilesystemElement.writeTo
        { ty := .directory, per := 0o755, us := "root", gs := "wheel", rp := "a\nb" }).dropLast :=
  ⟨⟨by decide, by decide, ⟨by decide, by decide⟩, ⟨by decide, by decide⟩, ⟨by decide, by decide⟩,
    fun h => absurd h (by decide)⟩, by
    rw [writeTo_eq_body, List.dropLast_concat]
    exact List.mem_append_right _ (by decide)⟩

end FilesystemElement

end DiskDiff
