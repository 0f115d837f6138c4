import Mathlib.Data.Nat.Digits

/-!
# The standard streams, as the record codec uses them

`FilesystemElement::writeTo` prints to an `ostream`, and `readFrom` parses one line
through an `istringstream`. This file models the stream operations the two use, as
libstdc++ implements them for `char` in the "C" locale. A `std::string` is a `String` whose
characters are its bytes: one `Char` for each `char`, so that `String.length` is `size()`.

The input side (`IStream`) is the unread part of the line with the stream's `failbit`
and `eofbit`; `badbit` is never set by a string buffer. Every formatted extraction runs
a `sentry` first (`formatted`): on a stream that is not `good()` it sets `failbit`,
otherwise it skips whitespace, and finding only whitespace sets `eofbit | failbit`.
An extraction that stops at the end of the buffer sets `eofbit` (`stopAt`).

The output side is the list of characters written. A `std::filesystem::path` goes
through `std::quoted`, which escapes `"` and `\` and nothing else: a line break in a
path is printed as it is.

Each extraction has its round-trip lemma: extracting from what the matching output
operation printed, followed by a suitable rest, gives the value back and leaves exactly
that rest.
-/

namespace DiskDiff

/-! ## Characters and numbers -/

/-- `isspace` in the "C" locale: what formatted input skips, and where a word ends. -/
def isSpace (c : Char) : Bool :=
  c == ' ' || c == '\t' || c == '\n' || c == '\x0B' || c == '\x0C' || c == '\r'

/-- The value of a run of decimal digits, accumulated from the left as `num_get` and
`time_get` do. -/
def decValue (ds : List Char) : Nat :=
  ds.foldl (fun v c => 10 * v + (c.toNat - 48)) 0

/-- `os << n` for an integer: a `-` for a negative value, then the decimal digits. -/
def writeInt (v : Int) : List Char :=
  if v < 0 then '-' :: Nat.toDigits 10 v.natAbs else Nat.toDigits 10 v.toNat

/-- A value of a signed 64-bit type: `time_t` and `off_t` on the LP64 targets the
program is built for. -/
@[ext] structure Int64 where
  val : Int
  ge_min : -2 ^ 63 ≤ val
  lt_max : val < 2 ^ 63
  deriving DecidableEq, Repr

instance : OfNat Int64 n := ⟨⟨n % 2 ^ 63, by omega, by omega⟩⟩

/-- `time_t(-1)`, the error value of `timegm`. -/
def Int64.minusOne : Int64 := ⟨-1, by decide, by decide⟩

/-! ## Input -/

/-- An `istringstream`: the characters not read yet, `failbit` and `eofbit`. -/
structure IStream where
  buf : List Char
  fail : Bool := false
  eof : Bool := false
  deriving DecidableEq, Repr

namespace IStream

/-- A fresh stream on `cs`. -/
def ofList (cs : List Char) : IStream := ⟨cs, false, false⟩

@[simp] theorem buf_ofList (cs : List Char) : (ofList cs).buf = cs := rfl
@[simp] theorem fail_ofList (cs : List Char) : (ofList cs).fail = false := rfl
@[simp] theorem eof_ofList (cs : List Char) : (ofList cs).eof = false := rfl

/-- `good()`. -/
def good (s : IStream) : Bool := !s.fail && !s.eof

/-- After an extraction that stopped before `r`: `eofbit` is set when it ran into the
end of the buffer. -/
def stopAt (r : List Char) : IStream := ⟨r, false, r.isEmpty⟩

/-- After an extraction that ran into the end of the buffer and failed. -/
def atEnd : IStream := ⟨[], true, true⟩

/-- A formatted extraction: the `sentry`, then `f` from the first non-space character. -/
def formatted {α : Type} (d : α) (s : IStream) (f : Char → List Char → α × IStream) :
    α × IStream :=
  if s.good then
    match s.buf.dropWhile isSpace with
    | [] => (d, atEnd)
    | c :: cs => f c cs
  else (d, { s with fail := true })

/-- `is >> str` for a `std::string`: a maximal run of non-space characters. -/
def extractString (s : IStream) : String × IStream :=
  formatted "" s fun c cs =>
    (⟨c :: cs.takeWhile (!isSpace ·)⟩, stopAt (cs.dropWhile (!isSpace ·)))

/-- The inside of a quoted string after its opening `"`: the text with the escapes
removed and what follows the closing `"`, or `none` when the line ends first. -/
def unquote : List Char → Option (List Char × List Char)
  | [] => none
  | '"' :: cs => some ([], cs)
  | ['\\'] => none
  | '\\' :: c :: cs => (unquote cs).map fun (t, r) => (c :: t, r)
  | c :: cs => (unquote cs).map fun (t, r) => (c :: t, r)

/-- `is >> std::quoted(str)`, which is also `is >> p` for a `std::filesystem::path`:
a first character other than `"` is put back and a plain word is read instead. -/
def extractQuoted (s : IStream) : String × IStream :=
  formatted "" s fun c cs =>
    if c = '"' then
      match unquote cs with
      | some (t, r) => (⟨t⟩, ofList r)
      | none => ("", atEnd)
    else extractString (ofList (c :: cs))

/-- `is >> n` for a `long` (`off_t`): an optional sign, then decimal digits; no digit,
or a value outside the type, sets `failbit`. -/
def extractLong (s : IStream) : Int64 × IStream :=
  formatted 0 s fun c cs =>
    let (neg, cs) := if c = '-' then (true, cs) else if c = '+' then (false, cs) else (false, c :: cs)
    let ds := cs.takeWhile Char.isDigit
    let r := cs.dropWhile Char.isDigit
    let v : Int := if neg then -(decValue ds : Int) else decValue ds
    if h : ds ≠ [] ∧ -2 ^ 63 ≤ v ∧ v < 2 ^ 63 then (⟨v, h.2.1, h.2.2⟩, stopAt r)
    else (0, { stopAt r with fail := true })

/-- `is.read(buf, n)`: `n` characters, unformatted; fewer left sets `eofbit | failbit`. -/
def read (s : IStream) (n : Nat) : List Char × IStream :=
  if s.good then
    if n ≤ s.buf.length then (s.buf.take n, ofList (s.buf.drop n)) else (s.buf, atEnd)
  else ([], { s with fail := true })

/-- `is.get()`: the next character, with `none` for `EOF`. -/
def get (s : IStream) : Option Char × IStream :=
  if s.good then
    match s.buf with
    | [] => (none, atEnd)
    | c :: cs => (some c, ofList cs)
  else (none, { s with fail := true })

@[simp] theorem get_ofList_nil : (ofList []).get = (none, atEnd) := rfl

end IStream

/-! ## Output -/

/-- The escaping of `std::quoted`: a `\` before each `"` and `\`. -/
def escape : List Char → List Char
  | [] => []
  | c :: cs => (if c = '"' ∨ c = '\\' then ['\\', c] else [c]) ++ escape cs

/-- `os << std::quoted(s)`, which is also `os << p` for a `std::filesystem::path`. -/
def quoted (s : String) : List Char := '"' :: escape s.data ++ ['"']

/-! ## Decimal digits -/

theorem foldl_decValue (a : Nat) (l : List Char) :
    l.foldl (fun v c => 10 * v + (c.toNat - 48)) a = a * 10 ^ l.length + decValue l := by
  induction l generalizing a with
  | nil => simp [decValue]
  | cons c l ih =>
    simp only [decValue, List.foldl_cons, ih (10 * a + _), ih (10 * 0 + _), List.length_cons]
    ring

theorem decValue_cons (c : Char) (l : List Char) :
    decValue (c :: l) = (c.toNat - 48) * 10 ^ l.length + decValue l := by
  rw [decValue, List.foldl_cons, foldl_decValue]; simp

theorem digitChar_toNat : ∀ d : Fin 10, (Nat.digitChar d).toNat = 48 + d := by decide

theorem isDigit_digitChar : ∀ d : Fin 10, (Nat.digitChar d).isDigit := by decide

/-- What `Nat.toDigits` prints reads back: digits only, of the right value. -/
theorem toDigitsCore_spec (fuel n : Nat) (ds : List Char) (hn : n < fuel)
    (hds : ∀ c ∈ ds, c.isDigit) :
    (∀ c ∈ Nat.toDigitsCore 10 fuel n ds, c.isDigit) ∧
      decValue (Nat.toDigitsCore 10 fuel n ds) = n * 10 ^ ds.length + decValue ds := by
  induction fuel generalizing n ds with
  | zero => omega
  | succ fuel ih =>
    have hd : (Nat.digitChar (n % 10)).toNat - 48 = n % 10 := by
      rw [digitChar_toNat ⟨n % 10, Nat.mod_lt _ (by decide)⟩, Nat.add_sub_cancel_left]
    have hdig : ∀ c ∈ Nat.digitChar (n % 10) :: ds, c.isDigit := by
      intro c hc
      rcases List.mem_cons.1 hc with rfl | hc
      · exact isDigit_digitChar ⟨n % 10, Nat.mod_lt _ (by decide)⟩
      · exact hds c hc
    simp only [Nat.toDigitsCore]
    split_ifs with h0
    · refine ⟨hdig, ?_⟩
      rw [decValue_cons, hd, Nat.mod_eq_of_lt (by omega : n < 10)]
    · obtain ⟨h1, h2⟩ := ih (n / 10) _ (by omega) hdig
      refine ⟨h1, ?_⟩
      rw [h2, decValue_cons, hd, List.length_cons]
      calc n / 10 * 10 ^ (ds.length + 1) + (n % 10 * 10 ^ ds.length + decValue ds)
          = (10 * (n / 10) + n % 10) * 10 ^ ds.length + decValue ds := by ring
        _ = n * 10 ^ ds.length + decValue ds := by rw [Nat.div_add_mod]

theorem isSpace_of_isDigit {c : Char} (h : c.isDigit) : isSpace c = false := by
  simp only [isSpace, Bool.or_eq_false_iff, beq_eq_false_iff_ne, ne_eq]
  refine ⟨⟨⟨⟨⟨?_, ?_⟩, ?_⟩, ?_⟩, ?_⟩, ?_⟩ <;> (rintro rfl; exact absurd h (by decide))

theorem isDigit_of_mem_toDigits {n : Nat} {c : Char} (h : c ∈ Nat.toDigits 10 n) :
    c.isDigit :=
  (toDigitsCore_spec (n + 1) n [] (by omega) (by simp)).1 c h

@[simp] theorem decValue_toDigits (n : Nat) : decValue (Nat.toDigits 10 n) = n := by
  simpa [decValue] using (toDigitsCore_spec (n + 1) n [] (by omega) (by simp)).2

theorem toDigits_ne_nil (n : Nat) : Nat.toDigits 10 n ≠ [] := by
  intro h
  have h0 : n = 0 := by simpa [h, decValue] using (decValue_toDigits n).symm
  subst h0; exact absurd h (by decide)

theorem mem_writeInt {c : Char} {v : Int} (h : c ∈ writeInt v) : c = '-' ∨ c.isDigit := by
  unfold writeInt at h
  split at h
  · rcases List.mem_cons.1 h with rfl | h
    · exact .inl rfl
    · exact .inr (isDigit_of_mem_toDigits h)
  · exact .inr (isDigit_of_mem_toDigits h)

theorem writeInt_ne_nil (v : Int) : writeInt v ≠ [] := by
  unfold writeInt
  split
  · exact List.cons_ne_nil _ _
  · exact toDigits_ne_nil _

theorem toDigitsCore_eq_append (fuel n : Nat) (ds : List Char) (hn : n < fuel) :
    Nat.toDigitsCore 10 fuel n ds = Nat.toDigitsCore 10 fuel n [] ++ ds := by
  induction fuel generalizing n ds with
  | zero => omega
  | succ fuel ih =>
    simp only [Nat.toDigitsCore]
    split_ifs
    · rfl
    · rw [ih _ _ (by omega), ih _ [_] (by omega), List.append_assoc, List.singleton_append]

theorem toDigitsCore_fuel (fuel fuel' n : Nat) (hn : n < fuel) (hn' : n < fuel') :
    Nat.toDigitsCore 10 fuel n [] = Nat.toDigitsCore 10 fuel' n [] := by
  induction fuel generalizing fuel' n with
  | zero => omega
  | succ fuel ih =>
    obtain ⟨f, rfl⟩ : ∃ f, fuel' = f + 1 := ⟨fuel' - 1, by omega⟩
    simp only [Nat.toDigitsCore]
    split_ifs
    · rfl
    · rw [toDigitsCore_eq_append _ _ _ (by omega), toDigitsCore_eq_append f _ _ (by omega),
        ih f _ (by omega) (by omega)]

theorem toDigits_of_lt_ten {n : Nat} (h : n < 10) : Nat.toDigits 10 n = [Nat.digitChar n] := by
  simp [Nat.toDigits, Nat.toDigitsCore, Nat.div_eq_of_lt h, Nat.mod_eq_of_lt h]

/-- `os << n` prints the digits of `n / 10`, then the last digit. -/
theorem toDigits_step {n : Nat} (h : 10 ≤ n) :
    Nat.toDigits 10 n = Nat.toDigits 10 (n / 10) ++ [Nat.digitChar (n % 10)] := by
  have hd : n / 10 ≠ 0 := by omega
  rw [Nat.toDigits, Nat.toDigitsCore, if_neg hd, toDigitsCore_eq_append _ _ _ (by omega),
    toDigitsCore_fuel n (n / 10 + 1) _ (by omega) (by omega)]
  rfl

/-- A number of `k + 1` digits is printed in `k + 1` characters. -/
theorem length_toDigits {n : Nat} (k : Nat) (h1 : 10 ^ k ≤ n) (h2 : n < 10 ^ (k + 1)) :
    (Nat.toDigits 10 n).length = k + 1 := by
  induction k generalizing n with
  | zero => rw [toDigits_of_lt_ten (by simpa using h2)]; rfl
  | succ k ih =>
    rw [pow_succ] at h1 h2
    rw [toDigits_step (by have := Nat.one_le_pow k 10 (by decide); omega), List.length_append,
      ih ((Nat.le_div_iff_mul_le (by decide)).2 h1) ((Nat.div_lt_iff_lt_mul (by decide)).2 h2)]
    rfl

/-! ## Reading back what was written -/

namespace IStream

/-- The `sentry` skips a separator... -/
theorem formatted_space {α : Type} (d : α) (f : Char → List Char → α × IStream) {c : Char}
    (hc : isSpace c) (cs : List Char) :
    formatted d (ofList (c :: cs)) f = formatted d (ofList cs) f := by
  simp [formatted, ofList, good, hc]

/-- ... and starts the extraction at the first other character. -/
theorem formatted_start {α : Type} (d : α) (f : Char → List Char → α × IStream) {c : Char}
    (hc : isSpace c = false) (cs : List Char) : formatted d (ofList (c :: cs)) f = f c cs := by
  simp [formatted, ofList, good, hc]

/-- A word followed by a separator, or by the end of the line, reads back. -/
theorem extractString_word {w rest : List Char} (hw : w ≠ [])
    (hws : ∀ c ∈ w, isSpace c = false) (hr : ∀ c ∈ rest.head?, isSpace c) :
    extractString (ofList (w ++ rest)) = (⟨w⟩, stopAt rest) := by
  obtain ⟨c, w, rfl⟩ := List.exists_cons_of_ne_nil hw
  have hw' : ∀ a ∈ w, (!isSpace a) = true := fun a ha => by simp [hws a (by simp [ha])]
  have hrest : rest.takeWhile (!isSpace ·) = [] ∧ rest.dropWhile (!isSpace ·) = rest := by
    cases rest with
    | nil => simp
    | cons r rs => simp [hr r rfl]
  simp [extractString, formatted_start _ _ (hws c (by simp)), List.takeWhile_append_of_pos hw',
    List.dropWhile_append_of_pos hw', hrest]

theorem unquote_escape (t rest : List Char) :
    unquote (escape t ++ '"' :: rest) = some (t, rest) := by
  induction t with
  | nil => rfl
  | cons c t ih =>
    by_cases h : c = '"' ∨ c = '\\'
    · simp [escape, h, unquote, ih]
    · simp only [not_or] at h
      simp [escape, h, unquote, ih]

/-- A quoted path reads back whatever follows it, line breaks included. -/
theorem extractQuoted_quoted (p : String) (rest : List Char) :
    extractQuoted (ofList (quoted p ++ rest)) = (p, ofList rest) := by
  simp [extractQuoted, quoted, formatted_start _ _ (by decide : isSpace '"' = false),
    unquote_escape]

/-- Reading the digits of a number that ends before a non-digit. -/
theorem span_toDigits (n : Nat) {rest : List Char} (hr : ∀ c ∈ rest.head?, c.isDigit = false) :
    (Nat.toDigits 10 n ++ rest).takeWhile Char.isDigit = Nat.toDigits 10 n ∧
      (Nat.toDigits 10 n ++ rest).dropWhile Char.isDigit = rest := by
  have hd : ∀ a ∈ Nat.toDigits 10 n, a.isDigit = true := fun a ha => isDigit_of_mem_toDigits ha
  rw [List.takeWhile_append_of_pos hd, List.dropWhile_append_of_pos hd]
  cases rest with
  | nil => simp
  | cons r rs => simp [hr r rfl]

/-- A number `os << n` printed reads back through `is >> n`, of either sign. -/
theorem extractLong_writeInt (v : Int64) {rest : List Char}
    (hr : ∀ c ∈ rest.head?, c.isDigit = false) :
    extractLong (ofList (writeInt v.val ++ rest)) = (v, stopAt rest) := by
  obtain ⟨hv0, hv1⟩ := And.intro v.ge_min v.lt_max
  by_cases hneg : v.val < 0
  · obtain ⟨ht, hd⟩ := span_toDigits v.val.natAbs hr
    simp only [extractLong, writeInt, hneg, if_true, List.cons_append,
      formatted_start _ _ (by decide : isSpace '-' = false), ht, hd, decValue_toDigits]
    rw [dif_pos ⟨toDigits_ne_nil _, by omega, by omega⟩]
    exact Prod.ext (Int64.ext (by simp only; omega)) rfl
  · obtain ⟨ht, hd⟩ := span_toDigits v.val.toNat hr
    have hv := decValue_toDigits v.val.toNat
    obtain ⟨c, cs, hc⟩ := List.exists_cons_of_ne_nil (toDigits_ne_nil v.val.toNat)
    have hcd : c.isDigit := isDigit_of_mem_toDigits (hc ▸ List.mem_cons_self c cs)
    have hm : c ≠ '-' ∧ c ≠ '+' := by
      constructor <;> (rintro rfl; exact absurd hcd (by decide))
    rw [hc] at ht hd hv
    simp only [List.cons_append] at ht hd
    simp only [extractLong, writeInt, hneg, if_false, hc, List.cons_append,
      formatted_start _ _ (isSpace_of_isDigit hcd), hm.1, hm.2, ht, hd, hv,
      Bool.false_eq_true]
    rw [dif_pos ⟨List.cons_ne_nil c cs, by omega, by omega⟩]
    exact Prod.ext (Int64.ext (by simp only; omega)) rfl

theorem read_append {cs : List Char} (rest : List Char) :
    (ofList (cs ++ rest)).read cs.length = (cs, ofList rest) := by
  simp [read, ofList, good]

end IStream

end DiskDiff
