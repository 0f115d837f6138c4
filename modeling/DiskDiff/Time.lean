import DiskDiff.Stream

/-!
# Calendar time: `gmtime_r`, `timegm`, `put_time` and `get_time`

`writeTo` prints a modification time as `gmtime_r` followed by
`put_time(&t, "%F %T +0000")`, and `readFrom` reads it back with
`get_time(&t, "%Y-%m-%d %T")` followed by `timegm`. The C library functions are
modelled by what they compute on POSIX time (no leap seconds), in the proleptic
Gregorian calendar:

- `daysFromCivil` is the day count of `timegm`, and `civilFromDays` the date of
  `gmtime_r`. The date is found by splitting a 400-year era into centuries, 4-year
  cycles and years, so that each step is a bounded division (`yearOfEra`).
- `put_time` is glibc's `strftime`: `%Y` prints the year as it is, with no padding, and each
  other field in two digits.
- `get_time` is `time_get::get` of libstdc++ as GCC 12 implements it
  (`bits/locale_facets_nonio.tcc`). Each conversion runs `_M_extract_via_format` on its own;
  `_M_extract_num` reads from one digit up to the conversion's width (four for `%Y`, two for
  the others) and stops before a digit that would take the value past the conversion's range;
  `%d` first passes over one white-space character, and a white-space character of the format
  passes over any run of white space, an empty one included. Earlier versions of libstdc++
  read these conversions differently.

The main facts are `timegm_gmtime` (the two functions are inverse), `timeGet_putTime` (what
`put_time` prints, `get_time` reads back, for a year of `0..9999`), `timeGet_good` (a read
that leaves the stream good has stored every field, each within its range, whatever the
`struct tm` held before) and `timeGet_yearOutOfRange` (a year outside `0..9999` is printed in a
form `get_time` rejects).
-/

namespace DiskDiff

/-! ## The calendar -/

/-- Days from the start of a 400-year era (March 1st of its year 0) to its year `yoe`. -/
def daysBeforeYear (yoe : Int) : Int := 365 * yoe + yoe / 4 - yoe / 100

/-- Day of the year, counted from March 1st, of day `d` of month `m`. -/
def dayOfYear (m d : Int) : Int := (153 * (if m > 2 then m - 3 else m + 9) + 2) / 5 + d - 1

/-- Days since 1970-01-01 of day `d` of month `m` (`1..12`) of year `y`; a day past the
end of the month counts on into the next. -/
def daysFromCivil (y m d : Int) : Int :=
  let y := if m ≤ 2 then y - 1 else y
  y / 400 * 146097 + daysBeforeYear (y % 400) + dayOfYear m d - 719468

/-- The year of its era and the day of that year (from March 1st) of day `doe` of a
400-year era: centuries of 36524 days (the last one a day longer), 4-year cycles of 1461
days, years of 365 days (the last of a cycle a day longer). -/
def yearOfEra (doe : Int) : Int × Int :=
  let c := min (doe / 36524) 3
  let r := doe - 36524 * c
  let a := min (r % 1461 / 365) 3
  (100 * c + 4 * (r / 1461) + a, r % 1461 - 365 * a)

/-- The month (`1..12`) and day of the month of day `doy` (from March 1st) of a year. -/
def monthOfDay (doy : Int) : Int × Int :=
  let mp := (5 * doy + 2) / 153
  (if mp < 10 then mp + 3 else mp - 9, doy - (153 * mp + 2) / 5 + 1)

/-- The date `(y, m, d)` of day `z` since 1970-01-01; January and February belong to the
year after the one their era-year started in. -/
def civilFromDays (z : Int) : Int × Int × Int :=
  let z := z + 719468
  let (yoe, doy) := yearOfEra (z % 146097)
  let (m, d) := monthOfDay doy
  (if m ≤ 2 then yoe + z / 146097 * 400 + 1 else yoe + z / 146097 * 400, m, d)

theorem daysBeforeYear_cycles {c q a : Int} (hq : 0 ≤ q) (hq' : q ≤ 24) (ha : 0 ≤ a)
    (ha' : a ≤ 3) : daysBeforeYear (100 * c + 4 * q + a) = 36524 * c + 1461 * q + 365 * a := by
  have h4 : (100 * c + 4 * q + a) / 4 = 25 * c + q := by omega
  have h100 : (100 * c + 4 * q + a) / 100 = c := by omega
  simp only [daysBeforeYear, h4, h100]; ring

theorem yearOfEra_spec {doe : Int} (h0 : 0 ≤ doe) (h1 : doe < 146097) :
    0 ≤ (yearOfEra doe).1 ∧ (yearOfEra doe).1 < 400 ∧ 0 ≤ (yearOfEra doe).2 ∧
      (yearOfEra doe).2 < 366 ∧
      daysBeforeYear (yearOfEra doe).1 + (yearOfEra doe).2 = doe := by
  obtain ⟨c, hc, hc0, hc3, hr0, hr1⟩ : ∃ c, min (doe / 36524) 3 = c ∧ 0 ≤ c ∧ c ≤ 3 ∧
      0 ≤ doe - 36524 * c ∧ doe - 36524 * c ≤ 36524 := ⟨_, rfl, by omega⟩
  have hs := Int.emod_add_ediv (doe - 36524 * c) 1461
  obtain ⟨a, ha, ha0, ha3, hd0, hd1⟩ : ∃ a, min ((doe - 36524 * c) % 1461 / 365) 3 = a ∧
      0 ≤ a ∧ a ≤ 3 ∧ 0 ≤ (doe - 36524 * c) % 1461 - 365 * a ∧
      (doe - 36524 * c) % 1461 - 365 * a < 366 := ⟨_, rfl, by omega⟩
  have hq : 0 ≤ (doe - 36524 * c) / 1461 ∧ (doe - 36524 * c) / 1461 ≤ 24 := by omega
  simp only [yearOfEra, hc, ha, daysBeforeYear_cycles hq.1 hq.2 ha0 ha3]
  omega

theorem monthOfDay_spec {doy : Int} (h0 : 0 ≤ doy) (h1 : doy < 366) :
    1 ≤ (monthOfDay doy).1 ∧ (monthOfDay doy).1 ≤ 12 ∧ 1 ≤ (monthOfDay doy).2 ∧
      (monthOfDay doy).2 ≤ 31 ∧ dayOfYear (monthOfDay doy).1 (monthOfDay doy).2 = doy := by
  simp only [monthOfDay, dayOfYear]
  split_ifs <;> omega

/-- The date `gmtime_r` finds is a real date, and `timegm` counts back to the same day. -/
theorem civilFromDays_spec (z : Int) :
    1 ≤ (civilFromDays z).2.1 ∧ (civilFromDays z).2.1 ≤ 12 ∧ 1 ≤ (civilFromDays z).2.2 ∧
      (civilFromDays z).2.2 ≤ 31 ∧
      daysFromCivil (civilFromDays z).1 (civilFromDays z).2.1 (civilFromDays z).2.2 = z := by
  have hz := Int.emod_add_ediv (z + 719468) 146097
  obtain ⟨hy0, hy1, hd0, hd1, hsum⟩ := yearOfEra_spec (Int.emod_nonneg (z + 719468)
    (by decide : (146097 : Int) ≠ 0)) (Int.emod_lt_of_pos (z + 719468) (by decide))
  obtain ⟨hm1, hm12, hdd1, hdd31, hdoy⟩ := monthOfDay_spec hd0 hd1
  refine ⟨hm1, hm12, hdd1, hdd31, ?_⟩
  simp only [civilFromDays, daysFromCivil]
  generalize (yearOfEra ((z + 719468) % 146097)).1 = yoe at *
  generalize monthOfDay (yearOfEra ((z + 719468) % 146097)).2 = md at *
  have hera : ∀ e : Int, (yoe + e * 400) / 400 = e ∧ (yoe + e * 400) % 400 = yoe :=
    fun e => ⟨by omega, by omega⟩
  split_ifs <;> simp only [add_sub_cancel_right, (hera _).1, (hera _).2] <;> omega

/-- Days from 0000-01-01 to 1970-01-01 run back: a date of a year `0` or later is no earlier
than day `-719528`. -/
theorem daysFromCivil_ge {y m d : Int} (hy : 0 ≤ y) (hm : 1 ≤ m) (hm' : m ≤ 12) (hd : 1 ≤ d) :
    -719528 ≤ daysFromCivil y m d := by
  simp only [daysFromCivil, daysBeforeYear, dayOfYear]
  split_ifs <;> omega

/-- A date of a year before `0` is no later than day `-719529`, 31 December of the year `-1`. -/
theorem daysFromCivil_le {y m d : Int} (hy : y < 0) (hm : 1 ≤ m) (hm' : m ≤ 12) (hd : d ≤ 31) :
    daysFromCivil y m d ≤ -719529 := by
  simp only [daysFromCivil, daysBeforeYear, dayOfYear]
  split_ifs <;> omega

/-! ## Broken-down time -/

/-- The fields of a `struct tm` that `%F %T` prints and reads: years since 1900, months
since January, the day of the month, hours, minutes and seconds. -/
structure Tm where
  tm_year : Int
  tm_mon : Int
  tm_mday : Int
  tm_hour : Int
  tm_min : Int
  tm_sec : Int
  deriving DecidableEq, Repr

attribute [ext] Tm

/-- `gmtime_r`: the UTC date and time of `t`. -/
def gmtime (t : Int64) : Tm :=
  let date := civilFromDays (t.val / 86400)
  let s := t.val % 86400
  ⟨date.1 - 1900, date.2.1 - 1, date.2.2, s / 3600, s % 3600 / 60, s % 60⟩

/-- `timegm`: the time of a broken-down UTC date, fields out of their range counting on
into the next unit; `-1` when the result does not fit `time_t`. -/
def timegm (tm : Tm) : Int64 :=
  let t := 86400 * daysFromCivil (tm.tm_year + 1900 + tm.tm_mon / 12) (tm.tm_mon % 12 + 1)
    tm.tm_mday + 3600 * tm.tm_hour + 60 * tm.tm_min + tm.tm_sec
  if h : -2 ^ 63 ≤ t ∧ t < 2 ^ 63 then ⟨t, h.1, h.2⟩ else .minusOne

/-- A broken-down time within the ranges of `get_time`: a year of `0..9999` and every other
field within its range. `put_time` prints it in widths that `get_time` reads back. -/
structure Tm.Fits (t : Tm) : Prop where
  year : 0 ≤ t.tm_year + 1900 ∧ t.tm_year + 1900 ≤ 9999
  mon : 0 ≤ t.tm_mon ∧ t.tm_mon ≤ 11
  mday : 1 ≤ t.tm_mday ∧ t.tm_mday ≤ 31
  hour : 0 ≤ t.tm_hour ∧ t.tm_hour ≤ 23
  min : 0 ≤ t.tm_min ∧ t.tm_min ≤ 59
  sec : 0 ≤ t.tm_sec ∧ t.tm_sec ≤ 60

theorem gmtime_fits (t : Int64) (hy : 0 ≤ (gmtime t).tm_year + 1900)
    (hy' : (gmtime t).tm_year + 1900 ≤ 9999) : (gmtime t).Fits := by
  obtain ⟨h1, h2, h3, h4, -⟩ := civilFromDays_spec (t.val / 86400)
  have h0 : 0 ≤ t.val % 86400 := Int.emod_nonneg _ (by decide)
  have h5 : t.val % 86400 < 86400 := Int.emod_lt_of_pos _ (by decide)
  exact ⟨⟨hy, hy'⟩, by simp only [gmtime]; omega, by simp only [gmtime]; omega,
    by simp only [gmtime]; omega, by simp only [gmtime]; omega, by simp only [gmtime]; omega⟩

/-- `timegm` undoes `gmtime_r`. -/
theorem timegm_gmtime (t : Int64) : timegm (gmtime t) = t := by
  obtain ⟨h1, h2, -, -, hday⟩ := civilFromDays_spec (t.val / 86400)
  have h0 : 0 ≤ t.val % 86400 := Int.emod_nonneg _ (by decide)
  have h5 : t.val % 86400 < 86400 := Int.emod_lt_of_pos _ (by decide)
  have hdm := Int.emod_add_ediv t.val 86400
  have hmon : ((civilFromDays (t.val / 86400)).2.1 - 1) / 12 = 0 ∧
      ((civilFromDays (t.val / 86400)).2.1 - 1) % 12 + 1 = (civilFromDays (t.val / 86400)).2.1 :=
    ⟨by omega, by omega⟩
  have ht : 86400 * daysFromCivil ((civilFromDays (t.val / 86400)).1 - 1900 + 1900 + 0)
      (civilFromDays (t.val / 86400)).2.1 (civilFromDays (t.val / 86400)).2.2 +
      3600 * (t.val % 86400 / 3600) + 60 * (t.val % 86400 % 3600 / 60) + t.val % 86400 % 60
      = t.val := by
    rw [sub_add_cancel, add_zero, hday]; omega
  simp only [timegm, gmtime, hmon, ht]
  rw [dif_pos ⟨t.ge_min, t.lt_max⟩]

/-- A time `timegm` computes from fields within the ranges of `get_time` is no earlier than
0000-01-01 00:00:00, so `gmtime_r` puts it in a year `0` or later. -/
theorem gmtime_timegm_year {tm : Tm} (h : tm.Fits) : 0 ≤ (gmtime (timegm tm)).tm_year + 1900 := by
  obtain ⟨⟨y0, -⟩, ⟨m0, m1⟩, ⟨d0, -⟩, ⟨h0, -⟩, ⟨i0, -⟩, ⟨s0, -⟩⟩ := h
  have hge : -62167219200 ≤ (timegm tm).val := by
    have hd := @daysFromCivil_ge (tm.tm_year + 1900 + tm.tm_mon / 12) (tm.tm_mon % 12 + 1)
      tm.tm_mday (by omega) (by omega) (by omega) d0
    simp only [timegm]
    split
    · dsimp only; omega
    · decide
  obtain ⟨hm1, hm12, -, hd31, hday⟩ := civilFromDays_spec ((timegm tm).val / 86400)
  by_contra hneg
  have := @daysFromCivil_le (civilFromDays ((timegm tm).val / 86400)).1 _ _
    (by simp only [gmtime] at hneg; omega) hm1 hm12 hd31
  omega

/-! ## `put_time` -/

/-- `%m`, `%d`, `%H`, `%M` and `%S`: two digits, zero-padded. -/
def pad2 (v : Int) : List Char := if 0 ≤ v ∧ v < 10 then '0' :: writeInt v else writeInt v

/-- `put_time(&t, "%F %T +0000")`, where `%F` is `%Y-%m-%d` and `%T` is `%H:%M:%S`; the
offset is text of the format. -/
def putTime (t : Tm) : List Char :=
  writeInt (t.tm_year + 1900) ++ '-' :: pad2 (t.tm_mon + 1) ++ '-' :: pad2 t.tm_mday ++
    ' ' :: pad2 t.tm_hour ++ ':' :: pad2 t.tm_min ++ ':' :: pad2 t.tm_sec ++ " +0000".data

/-! ## `time_get` of libstdc++ 12 -/

/-- The loop of `_M_extract_num`: at most `len` digits, accumulated into `v` and counted in
`i`. A digit that takes the value past `hi` ends the loop unread, with the value it gave. -/
def scanDigits (hi : Nat) : Nat → Nat → Nat → List Char → Nat × Nat × List Char
  | 0, v, i, cs => (v, i, cs)
  | _ + 1, v, i, [] => (v, i, [])
  | len + 1, v, i, c :: cs =>
    if c.isDigit then
      if hi < 10 * v + (c.toNat - 48) then (10 * v + (c.toNat - 48), i, c :: cs)
      else scanDigits hi len (10 * v + (c.toNat - 48)) (i + 1) cs
    else (v, i, c :: cs)

/-- `_M_extract_num(beg, end, member, lo, hi, len)`: the value when at least one digit was
read and the value lies in `lo..hi` (`none` sets `failbit`), and the input left. -/
def extractNum (len lo hi : Nat) (cs : List Char) : Option Nat × List Char :=
  let (v, i, r) := scanDigits hi len 0 0 cs
  (if i ≠ 0 ∧ lo ≤ v ∧ v ≤ hi then some v else none, r)

/-- The numeric conversions of `readFrom`'s format: `%Y`, `%m`, `%d`, and the `%H`, `%M` and
`%S` of `%T`. -/
inductive NumConv where
  | Y | m | d | H | M | S
  deriving DecidableEq, Repr

namespace NumConv

/-- The most digits `_M_extract_via_format` reads for a conversion. -/
def len : NumConv → Nat
  | .Y => 4
  | _ => 2

/-- The least value a conversion accepts. -/
def lo : NumConv → Nat
  | .m | .d => 1
  | _ => 0

/-- The greatest value a conversion accepts; `%S` allows a leap second. -/
def hi : NumConv → Nat
  | .Y => 9999
  | .m => 12
  | .d => 31
  | .H => 23
  | .M => 59
  | .S => 60

/-- What a conversion stores in the `struct tm`: `%Y` the year less 1900, `%m` the month
less one, the others the value. -/
def store : NumConv → Nat → Tm → Tm
  | .Y, v, t => { t with tm_year := v - 1900 }
  | .m, v, t => { t with tm_mon := v - 1 }
  | .d, v, t => { t with tm_mday := v }
  | .H, v, t => { t with tm_hour := v }
  | .M, v, t => { t with tm_min := v }
  | .S, v, t => { t with tm_sec := v }

end NumConv

/-- `if (isspace(*beg)) ++beg`, which `%d` does before its number. -/
def skipOneSpace : List Char → List Char
  | c :: cs => if isSpace c then cs else c :: cs
  | [] => []

/-- A numeric conversion of `_M_extract_via_format`: the `struct tm`, the input left and
`failbit`. The field is stored only when the number is read. -/
def extractNumConv (c : NumConv) (t : Tm) (cs : List Char) : Tm × List Char × Bool :=
  match extractNum c.len c.lo c.hi (if c = .d then skipOneSpace cs else cs) with
  | (some v, r) => (c.store v t, r, false)
  | (none, r) => (t, r, true)

/-- An item of a format: a conversion, a white-space character, or any other character, which
the input must match. -/
inductive FmtItem (α : Type) where
  | conv (c : α)
  | space
  | lit (f : Char)
  deriving DecidableEq, Repr

/-- A character of the format against one of the input: equal after `tolower`, or after
`toupper`. -/
def matchChar (f c : Char) : Bool := f.toLower == c.toLower || f.toUpper == c.toUpper

/-- `_M_extract_via_format` over `fmt`, with `conv` for its conversions: the loop runs while
input is left and nothing failed, a white-space item passes over any white space, and a
format not read to its end sets `failbit`. -/
def viaFormat {α : Type} (conv : α → Tm → List Char → Tm × List Char × Bool) :
    List (FmtItem α) → Tm → List Char → Tm × List Char × Bool
  | [], t, cs => (t, cs, false)
  | _ :: _, t, [] => (t, [], true)
  | .conv c :: fmt, t, x :: xs =>
    let (t, r, e) := conv c t (x :: xs)
    if e then (t, r, true) else viaFormat conv fmt t r
  | .space :: fmt, t, x :: xs => viaFormat conv fmt t ((x :: xs).dropWhile isSpace)
  | .lit f :: fmt, t, x :: xs =>
    if matchChar f x then viaFormat conv fmt t xs else (t, x :: xs, true)

/-- `"%H:%M:%S"`, what `%T` reads. -/
def hmsFormat : List (FmtItem NumConv) := [.conv .H, .lit ':', .conv .M, .lit ':', .conv .S]

/-- The conversions `time_get::get` hands to `_M_extract_via_format`: a number, or `%T`. -/
inductive Conv where
  | num (c : NumConv)
  | T
  deriving DecidableEq, Repr

/-- `_M_extract_via_format` on the format `%c` alone; for `%T` it runs itself on
`"%H:%M:%S"`. -/
def extractConv : Conv → Tm → List Char → Tm × List Char × Bool
  | .num c => extractNumConv c
  | .T => viaFormat extractNumConv hmsFormat

/-- `time_get::get(s, end, io, err, tm, fmt, fmtend)`: the `struct tm`, the input left, and
the `failbit` and `eofbit` it sets. Input that ends before an item of the format sets both;
a conversion that stops at the end of the input sets `eofbit` and ends the loop. -/
def timeGet : List (FmtItem Conv) → Tm → List Char → Tm × List Char × Bool × Bool
  | [], t, cs => (t, cs, false, false)
  | _ :: _, t, [] => (t, [], true, true)
  | .conv c :: fmt, t, x :: xs =>
    let (t, r, e) := extractConv c t (x :: xs)
    if e || r.isEmpty then (t, r, e, r.isEmpty) else timeGet fmt t r
  | .space :: fmt, t, x :: xs => timeGet fmt t ((x :: xs).dropWhile isSpace)
  | .lit f :: fmt, t, x :: xs =>
    if matchChar f x then timeGet fmt t xs else (t, x :: xs, true, false)

/-- `"%Y-%m-%d %T"`, the format of `readFrom`. -/
def timeFormat : List (FmtItem Conv) :=
  [.conv (.num .Y), .lit '-', .conv (.num .m), .lit '-', .conv (.num .d), .space, .conv .T]

/-- `is >> get_time(&t, fmt)`: the `sentry`, then `time_get::get` from the first character
that is not a space, and `setstate` of the bits it returns. Fields the input does not reach
keep their value in `t`. -/
def IStream.getTime (s : IStream) (t : Tm) (fmt : List (FmtItem Conv)) : Tm × IStream :=
  IStream.formatted t s fun c cs =>
    let (t, r, fail, eof) := timeGet fmt t (c :: cs)
    (t, ⟨r, fail, eof⟩)

/-! ## Digits -/

theorem toNat_of_isDigit {c : Char} (h : c.isDigit) : 48 ≤ c.toNat ∧ c.toNat ≤ 57 := by
  simp only [Char.isDigit, Bool.and_eq_true, decide_eq_true_eq, Char.le_def] at h
  exact ⟨h.1, h.2⟩

/-- Digits of length `n` have a value below `10 ^ n`. -/
theorem decValue_lt : ∀ {ds : List Char}, (∀ c ∈ ds, c.isDigit) → decValue ds < 10 ^ ds.length
  | [], _ => by decide
  | c :: ds, hd => by
    have hc := toNat_of_isDigit (hd c (List.mem_cons_self c ds))
    have ih := decValue_lt fun x hx => hd x (List.mem_cons_of_mem c hx)
    have h9 : (c.toNat - 48) * 10 ^ ds.length ≤ 9 * 10 ^ ds.length := Nat.mul_le_mul_right _ (by omega)
    rw [decValue_cons, List.length_cons, pow_succ]
    omega

theorem length_toDigits_le {n : Nat} (k : Nat) (h : n < 10 ^ (k + 1)) :
    (Nat.toDigits 10 n).length ≤ k + 1 := by
  induction k generalizing n with
  | zero => rw [toDigits_of_lt_ten (by simpa using h)]; rfl
  | succ k ih =>
    by_cases h10 : n < 10
    · rw [toDigits_of_lt_ten h10]; simp
    · rw [toDigits_step (by omega), List.length_append, List.length_singleton]
      have := @ih (n / 10) ((Nat.div_lt_iff_lt_mul (by decide : 0 < 10)).2 (by rw [← pow_succ]; exact h))
      omega

theorem le_length_toDigits {n : Nat} (k : Nat) (h : 10 ^ k ≤ n) :
    k + 1 ≤ (Nat.toDigits 10 n).length := by
  induction k generalizing n with
  | zero => exact List.length_pos.2 (toDigits_ne_nil n)
  | succ k ih =>
    have h10 : 10 ≤ n := le_trans (@Nat.le_self_pow (k + 1) (by omega) 10) h
    have hk : 10 ^ k ≤ n / 10 := (Nat.le_div_iff_mul_le (by decide)).2 (by rw [← pow_succ]; exact h)
    rw [toDigits_step h10, List.length_append, List.length_singleton]
    have := ih hk
    omega

/-- `%m`, `%d`, `%H`, `%M` and `%S` print two digits of the value. -/
theorem pad2_digits {v : Int} (h0 : 0 ≤ v) (h1 : v < 100) :
    (pad2 v).length = 2 ∧ (∀ c ∈ pad2 v, c.isDigit) ∧ decValue (pad2 v) = v.toNat := by
  have hw : writeInt v = Nat.toDigits 10 v.toNat := by simp [writeInt, not_lt.2 h0]
  by_cases h10 : v < 10
  · have hv := digitChar_toNat ⟨v.toNat, by omega⟩
    rw [show pad2 v = ['0', Nat.digitChar v.toNat] by
      simp [pad2, h0, h10, hw, toDigits_of_lt_ten (by omega : v.toNat < 10)]]
    refine ⟨rfl, by simpa using isDigit_digitChar ⟨v.toNat, by omega⟩, ?_⟩
    simp only [decValue_cons, hv]; simp [decValue]
  · simp only [pad2, h10, and_false, if_false, hw]
    exact ⟨length_toDigits 1 (by simp; omega) (by simp; omega),
      fun c hc => isDigit_of_mem_toDigits hc, decValue_toDigits _⟩

/-- `%Y` prints a year of `0..9999` in one to four digits. -/
theorem writeInt_year {y : Int} (h0 : 0 ≤ y) (h1 : y ≤ 9999) :
    writeInt y ≠ [] ∧ (writeInt y).length ≤ 4 ∧ (∀ c ∈ writeInt y, c.isDigit) ∧
      decValue (writeInt y) = y.toNat := by
  rw [show writeInt y = Nat.toDigits 10 y.toNat by simp [writeInt, not_lt.2 h0]]
  exact ⟨toDigits_ne_nil _, length_toDigits_le 3 (by simp; omega),
    fun c hc => isDigit_of_mem_toDigits hc, decValue_toDigits _⟩

/-! ## Reading back what `put_time` printed -/

/-- The digit loop reads a run of digits whole when its value stays within `hi` and the run
ends where the loop stops: at its width, or before a character that is not a digit. -/
theorem scanDigits_append (hi : Nat) {ds rest : List Char} (hd : ∀ c ∈ ds, c.isDigit)
    (len v i : Nat) (hlen : ds.length ≤ len) (hv : v * 10 ^ ds.length + decValue ds ≤ hi)
    (hr : ds.length = len ∨ ∀ c ∈ rest.head?, c.isDigit = false) :
    scanDigits hi len v i (ds ++ rest) = (v * 10 ^ ds.length + decValue ds, i + ds.length, rest) := by
  induction ds generalizing len v i with
  | nil =>
    cases len with
    | zero => simp [scanDigits, decValue]
    | succ len =>
      cases rest with
      | nil => simp [scanDigits, decValue]
      | cons c rest => simp [scanDigits, decValue, hr.resolve_left (by simp)]
  | cons c ds ih =>
    obtain ⟨len, rfl⟩ : ∃ l, len = l + 1 := ⟨len - 1, by simp at hlen; omega⟩
    have hstep : (10 * v + (c.toNat - 48)) * 10 ^ ds.length + decValue ds =
        v * 10 ^ (c :: ds).length + decValue (c :: ds) := by
      rw [decValue_cons, List.length_cons, pow_succ]; ring
    have hmul : 10 * v + (c.toNat - 48) ≤ (10 * v + (c.toNat - 48)) * 10 ^ ds.length :=
      Nat.le_mul_of_pos_right _ (Nat.pos_pow_of_pos _ (by decide : 0 < 10))
    have hle : 10 * v + (c.toNat - 48) ≤ hi := by omega
    rw [List.cons_append, scanDigits, if_pos (hd c (List.mem_cons_self c ds)),
      if_neg (not_lt.2 hle), ih (fun x hx => hd x (List.mem_cons_of_mem c hx)) len _ _
        (by simpa using hlen) (by omega) (by simpa using hr), hstep, List.length_cons]
    simp only [Prod.mk.injEq, true_and, and_true]
    omega

theorem extractNum_append {len lo hi : Nat} {ds rest : List Char} (hne : ds ≠ [])
    (hd : ∀ c ∈ ds, c.isDigit) (hlen : ds.length ≤ len) (hlo : lo ≤ decValue ds)
    (hhi : decValue ds ≤ hi) (hr : ds.length = len ∨ ∀ c ∈ rest.head?, c.isDigit = false) :
    extractNum len lo hi (ds ++ rest) = (some (decValue ds), rest) := by
  have hs := scanDigits_append hi hd len 0 0 hlen (by simpa using hhi) hr
  simp only [zero_mul, zero_add] at hs
  simp [extractNum, hs, hne, hlo, hhi]

/-- A conversion reads a number that starts the input. -/
theorem extractNumConv_append (c : NumConv) (t : Tm) {ds rest : List Char} (hne : ds ≠ [])
    (hd : ∀ x ∈ ds, x.isDigit) (hlen : ds.length ≤ c.len) (hlo : c.lo ≤ decValue ds)
    (hhi : decValue ds ≤ c.hi) (hr : ds.length = c.len ∨ ∀ x ∈ rest.head?, x.isDigit = false) :
    extractNumConv c t (ds ++ rest) = (c.store (decValue ds) t, rest, false) := by
  obtain ⟨x, xs, rfl⟩ := List.exists_cons_of_ne_nil hne
  have hskip : skipOneSpace (x :: xs ++ rest) = x :: xs ++ rest := by
    simp [skipOneSpace, isSpace_of_isDigit (hd x (List.mem_cons_self x xs))]
  simp only [extractNumConv, hskip, ite_self, extractNum_append hne hd hlen hlo hhi hr]

theorem pad2_ne_nil {v : Int} (h0 : 0 ≤ v) (h1 : v < 100) (rest : List Char) :
    pad2 v ++ rest ≠ [] := by
  have := (pad2_digits h0 h1).1
  rintro h; simp_all

/-- A two-digit conversion reads what `put_time` printed for its field. -/
theorem extractNumConv_pad2 (c : NumConv) (hc : c.len = 2) (h100 : c.hi < 100) (t : Tm)
    {v : Int} (h0 : 0 ≤ v) (hlo : c.lo ≤ v) (hhi : v ≤ c.hi) (rest : List Char) :
    extractNumConv c t (pad2 v ++ rest) = (c.store v.toNat t, rest, false) := by
  obtain ⟨hl, hd, hv⟩ := pad2_digits h0 (by omega)
  rw [extractNumConv_append c t (by rintro h; simp [h] at hl) hd (by omega) (by omega)
    (by omega) (.inl (by omega)), hv]

theorem viaFormat_conv {α : Type} {conv : α → Tm → List Char → Tm × List Char × Bool} {c : α}
    {fmt : List (FmtItem α)} {t t' : Tm} {cs r : List Char} (hcs : cs ≠ [])
    (h : conv c t cs = (t', r, false)) :
    viaFormat conv (.conv c :: fmt) t cs = viaFormat conv fmt t' r := by
  obtain ⟨x, xs, rfl⟩ := List.exists_cons_of_ne_nil hcs
  simp [viaFormat, h]

theorem viaFormat_lit {α : Type} (conv : α → Tm → List Char → Tm × List Char × Bool)
    {f x : Char} (hx : matchChar f x) (fmt : List (FmtItem α)) (t : Tm) (xs : List Char) :
    viaFormat conv (.lit f :: fmt) t (x :: xs) = viaFormat conv fmt t xs := by
  simp [viaFormat, hx]

theorem viaFormat_pad2 (c : NumConv) (hc : c.len = 2) (h100 : c.hi < 100)
    (fmt : List (FmtItem NumConv)) (t : Tm) (v : Int) (h0 : 0 ≤ v) (hlo : c.lo ≤ v)
    (hhi : v ≤ c.hi) (rest : List Char) :
    viaFormat extractNumConv (.conv c :: fmt) t (pad2 v ++ rest) =
      viaFormat extractNumConv fmt (c.store v.toNat t) rest :=
  viaFormat_conv (pad2_ne_nil h0 (by omega) rest) (extractNumConv_pad2 c hc h100 t h0 hlo hhi rest)

theorem timeGet_conv {c : Conv} {fmt : List (FmtItem Conv)} {t t' : Tm} {cs r : List Char}
    (hcs : cs ≠ []) (hr : r ≠ []) (h : extractConv c t cs = (t', r, false)) :
    timeGet (.conv c :: fmt) t cs = timeGet fmt t' r := by
  obtain ⟨x, xs, rfl⟩ := List.exists_cons_of_ne_nil hcs
  simp [timeGet, h, List.isEmpty_iff, hr]

theorem timeGet_num {c : NumConv} {fmt : List (FmtItem Conv)} {t t' : Tm} {cs r : List Char}
    (hcs : cs ≠ []) (hr : r ≠ []) (h : extractNumConv c t cs = (t', r, false)) :
    timeGet (.conv (.num c) :: fmt) t cs = timeGet fmt t' r :=
  timeGet_conv hcs hr h

theorem timeGet_pad2 (c : NumConv) (hc : c.len = 2) (h100 : c.hi < 100)
    (fmt : List (FmtItem Conv)) (t : Tm) (v : Int) (h0 : 0 ≤ v) (hlo : c.lo ≤ v)
    (hhi : v ≤ c.hi) {rest : List Char} (hr : rest ≠ []) :
    timeGet (.conv (.num c) :: fmt) t (pad2 v ++ rest) = timeGet fmt (c.store v.toNat t) rest :=
  timeGet_num (pad2_ne_nil h0 (by omega) rest) hr (extractNumConv_pad2 c hc h100 t h0 hlo hhi rest)

/-- `%Y` reads a year of `0..9999` that `put_time` printed, up to the `-` after it. -/
theorem timeGet_year (fmt : List (FmtItem Conv)) (t : Tm) (y : Int) (h0 : 0 ≤ y) (h1 : y ≤ 9999)
    (rest : List Char) :
    timeGet (.conv (.num .Y) :: fmt) t (writeInt y ++ '-' :: rest) =
      timeGet fmt (NumConv.Y.store y.toNat t) ('-' :: rest) := by
  obtain ⟨hyn, hyl, hyd, hyv⟩ := writeInt_year h0 h1
  have h := extractNumConv_append .Y t hyn hyd hyl (Nat.zero_le _) (by rw [hyv]; simp [NumConv.hi]; omega)
    (.inr (by simp) : _ ∨ ∀ x ∈ ('-' :: rest).head?, x.isDigit = false)
  rw [hyv] at h
  exact timeGet_num (List.append_ne_nil_of_left_ne_nil hyn _) (List.cons_ne_nil _ _) h

theorem timeGet_lit {f x : Char} (hx : matchChar f x) (fmt : List (FmtItem Conv)) (t : Tm)
    (xs : List Char) : timeGet (.lit f :: fmt) t (x :: xs) = timeGet fmt t xs := by
  simp [timeGet, hx]

theorem timeGet_space (fmt : List (FmtItem Conv)) (t : Tm) {x : Char} (hx : isSpace x)
    {xs : List Char} (hxs : ∀ c ∈ xs.head?, isSpace c = false) :
    timeGet (.space :: fmt) t (x :: xs) = timeGet fmt t xs := by
  cases xs with
  | nil => simp [timeGet, hx]
  | cons c cs => simp [timeGet, hx, hxs c rfl]

@[simp] theorem matchChar_self (f : Char) : matchChar f f = true := by simp [matchChar]

theorem head_pad2 {v : Int} (h0 : 0 ≤ v) (h1 : v < 100) (rest : List Char) :
    ∀ c ∈ (pad2 v ++ rest).head?, isSpace c = false := by
  obtain ⟨hl, hd, -⟩ := pad2_digits h0 h1
  intro c hc
  rw [List.head?_append_of_ne_nil _ (by rintro h; simp [h] at hl)] at hc
  exact isSpace_of_isDigit (hd c (List.mem_of_mem_head? hc))

/-- `%T` reads back what `put_time` printed for `%T`. -/
theorem extractConv_T {t : Tm} (h : t.Fits) (t0 : Tm) (rest : List Char) :
    extractConv .T t0 (pad2 t.tm_hour ++ ':' :: (pad2 t.tm_min ++ ':' :: (pad2 t.tm_sec ++ rest))) =
      (NumConv.S.store t.tm_sec.toNat (NumConv.M.store t.tm_min.toNat
        (NumConv.H.store t.tm_hour.toNat t0)), rest, false) := by
  obtain ⟨-, -, -, ⟨h0, h1⟩, ⟨i0, i1⟩, ⟨s0, s1⟩⟩ := h
  rw [extractConv, hmsFormat,
    viaFormat_pad2 .H rfl (by decide) _ t0 _ h0 (by simp [NumConv.lo]; omega)
      (by simp [NumConv.hi]; omega),
    viaFormat_lit _ (matchChar_self ':'),
    viaFormat_pad2 .M rfl (by decide) _ _ _ i0 (by simp [NumConv.lo]; omega)
      (by simp [NumConv.hi]; omega),
    viaFormat_lit _ (matchChar_self ':'),
    viaFormat_pad2 .S rfl (by decide) _ _ _ s0 (by simp [NumConv.lo]; omega)
      (by simp [NumConv.hi]; omega)]
  rfl

/-- What `put_time` prints, `time_get` reads back, whatever the `struct tm` held before, and
stops before the offset. -/
theorem timeGet_putTime {t : Tm} (h : t.Fits) (t0 : Tm) (rest : List Char) :
    timeGet timeFormat t0 (putTime t ++ rest) = (t, " +0000".data ++ rest, false, false) := by
  have hT := extractConv_T h
  obtain ⟨⟨y0, y1⟩, ⟨m0, m1⟩, ⟨d0, d1⟩, ⟨h0, h1⟩, ⟨i0, -⟩, ⟨s0, -⟩⟩ := h
  simp only [putTime, timeFormat, List.append_assoc, List.cons_append]
  rw [timeGet_year _ t0 _ y0 y1, timeGet_lit (matchChar_self '-'),
    timeGet_pad2 .m rfl (by decide) _ _ (t.tm_mon + 1) (by omega) (by simp [NumConv.lo]; omega)
      (by simp [NumConv.hi]; omega) (List.cons_ne_nil _ _),
    timeGet_lit (matchChar_self '-'),
    timeGet_pad2 .d rfl (by decide) _ _ t.tm_mday (by omega) (by simp [NumConv.lo]; omega)
      (by simp [NumConv.hi]; omega) (List.cons_ne_nil _ _),
    timeGet_space _ _ (by decide : isSpace ' ' = true) (head_pad2 h0 (by omega) _),
    timeGet_conv (pad2_ne_nil h0 (by omega) _) (by simp) (hT _ _)]
  simp only [timeGet, NumConv.store, Prod.mk.injEq, and_true]
  ext <;> simp only <;> omega

/-- `is >> get_time(...)` reads what `put_time` printed, and stops before the offset. -/
theorem getTime_putTime {t : Tm} (h : t.Fits) (t0 : Tm) (rest : List Char) :
    (IStream.ofList (putTime t ++ rest)).getTime t0 timeFormat =
      (t, IStream.ofList (" +0000".data ++ rest)) := by
  have hy : 0 ≤ t.tm_year + 1900 := h.year.1
  obtain ⟨c, cs, hc⟩ := List.exists_cons_of_ne_nil (toDigits_ne_nil (t.tm_year + 1900).toNat)
  have hcd : c.isDigit := isDigit_of_mem_toDigits (hc ▸ List.mem_cons_self c cs)
  have hput : putTime t ++ rest = c :: (cs ++ (putTime t ++ rest).drop (c :: cs).length) := by
    simp only [putTime, writeInt, not_lt.2 hy, if_false, hc, List.append_assoc, List.cons_append,
      List.length_cons, List.drop_succ_cons, List.drop_left]
  rw [IStream.getTime, hput, IStream.formatted_start _ _ (isSpace_of_isDigit hcd), ← hput]
  dsimp only
  rw [timeGet_putTime h]
  rfl

/-! ## What a good read stores -/

theorem extractNum_some {len lo hi : Nat} {cs r : List Char} {v : Nat}
    (h : extractNum len lo hi cs = (some v, r)) : lo ≤ v ∧ v ≤ hi := by
  unfold extractNum at h
  generalize scanDigits hi len 0 0 cs = x at h
  obtain ⟨v', i, r'⟩ := x
  dsimp only at h
  split_ifs at h with hc
  · obtain rfl : v' = v := Option.some.inj (Prod.mk.inj h).1
    exact hc.2
  · exact absurd (Prod.mk.inj h).1 (by simp)

/-- A numeric conversion that succeeds has stored a value within its range, and reads and
stores the same from any other `struct tm`. -/
theorem extractNumConv_ok {c : NumConv} {t t' : Tm} {cs r : List Char}
    (h : extractNumConv c t cs = (t', r, false)) :
    ∃ v, c.lo ≤ v ∧ v ≤ c.hi ∧ t' = c.store v t ∧
      ∀ u, extractNumConv c u cs = (c.store v u, r, false) := by
  unfold extractNumConv at h ⊢
  split at h
  · rename_i v r' hv
    obtain ⟨rfl, rfl, -⟩ : c.store v t = t' ∧ r' = r ∧ True := by simpa using h
    exact ⟨v, (extractNum_some hv).1, (extractNum_some hv).2, rfl, fun _ => rfl⟩
  · simp at h

theorem viaFormat_conv_ok {α : Type} {conv : α → Tm → List Char → Tm × List Char × Bool} {c : α}
    {fmt : List (FmtItem α)} {t t' : Tm} {cs r : List Char}
    (h : viaFormat conv (.conv c :: fmt) t cs = (t', r, false)) :
    ∃ t₁ r₁, cs ≠ [] ∧ conv c t cs = (t₁, r₁, false) ∧ viaFormat conv fmt t₁ r₁ = (t', r, false) := by
  cases cs with
  | nil => simp [viaFormat] at h
  | cons x xs =>
    simp only [viaFormat] at h
    rcases hc : conv c t (x :: xs) with ⟨t₁, r₁, _ | _⟩ <;> rw [hc] at h
    · exact ⟨t₁, r₁, List.cons_ne_nil _ _, rfl, h⟩
    · simp at h

theorem viaFormat_lit_ok {α : Type} {conv : α → Tm → List Char → Tm × List Char × Bool}
    {f : Char} {fmt : List (FmtItem α)} {t t' : Tm} {cs r : List Char}
    (h : viaFormat conv (.lit f :: fmt) t cs = (t', r, false)) :
    ∃ x xs, cs = x :: xs ∧ matchChar f x ∧ viaFormat conv fmt t xs = (t', r, false) := by
  cases cs with
  | nil => simp [viaFormat] at h
  | cons x xs =>
    simp only [viaFormat] at h
    split_ifs at h with hx
    · exact ⟨x, xs, rfl, hx, h⟩
    · simp at h

theorem timeGet_conv_ok {c : Conv} {fmt : List (FmtItem Conv)} {t t' : Tm} {cs r : List Char}
    (h : timeGet (.conv c :: fmt) t cs = (t', r, false, false)) :
    ∃ t₁ r₁, cs ≠ [] ∧ r₁ ≠ [] ∧ extractConv c t cs = (t₁, r₁, false) ∧
      timeGet fmt t₁ r₁ = (t', r, false, false) := by
  cases cs with
  | nil => simp [timeGet] at h
  | cons x xs =>
    simp only [timeGet] at h
    rcases hc : extractConv c t (x :: xs) with ⟨t₁, _ | ⟨y, ys⟩, _ | _⟩ <;> rw [hc] at h <;>
      simp at h
    exact ⟨t₁, y :: ys, List.cons_ne_nil _ _, List.cons_ne_nil _ _, rfl, h⟩

theorem timeGet_lit_ok {f : Char} {fmt : List (FmtItem Conv)} {t t' : Tm} {cs r : List Char}
    (h : timeGet (.lit f :: fmt) t cs = (t', r, false, false)) :
    ∃ x xs, cs = x :: xs ∧ matchChar f x ∧ timeGet fmt t xs = (t', r, false, false) := by
  cases cs with
  | nil => simp [timeGet] at h
  | cons x xs =>
    simp only [timeGet] at h
    split_ifs at h with hx
    · exact ⟨x, xs, rfl, hx, h⟩
    · simp at h

theorem timeGet_space_ok {fmt : List (FmtItem Conv)} {t t' : Tm} {cs r : List Char}
    (h : timeGet (.space :: fmt) t cs = (t', r, false, false)) :
    cs ≠ [] ∧ timeGet fmt t (cs.dropWhile isSpace) = (t', r, false, false) := by
  cases cs with
  | nil => simp [timeGet] at h
  | cons x xs => exact ⟨List.cons_ne_nil _ _, h⟩

theorem timeGet_space_eq {fmt : List (FmtItem Conv)} (t : Tm) {cs : List Char} (hcs : cs ≠ []) :
    timeGet (.space :: fmt) t cs = timeGet fmt t (cs.dropWhile isSpace) := by
  obtain ⟨x, xs, rfl⟩ := List.exists_cons_of_ne_nil hcs
  rfl

/-- A `%T` that succeeds has stored an hour, a minute and a second within their ranges, and
reads and stores the same from any other `struct tm`. -/
theorem extractConv_T_ok {t t' : Tm} {cs r : List Char} (h : extractConv .T t cs = (t', r, false)) :
    ∃ hh mi s : Nat, hh ≤ 23 ∧ mi ≤ 59 ∧ s ≤ 60 ∧
      ∀ u, extractConv .T u cs =
        (NumConv.S.store s (NumConv.M.store mi (NumConv.H.store hh u)), r, false) := by
  rw [extractConv, hmsFormat] at h
  obtain ⟨t₁, r₁, hcs₁, hH, h⟩ := viaFormat_conv_ok h
  obtain ⟨hh, -, h₁, rfl, hH'⟩ := extractNumConv_ok hH
  obtain ⟨x₁, xs₁, rfl, hx₁, h⟩ := viaFormat_lit_ok h
  obtain ⟨t₂, r₂, hcs₂, hM, h⟩ := viaFormat_conv_ok h
  obtain ⟨mi, -, h₂, rfl, hM'⟩ := extractNumConv_ok hM
  obtain ⟨x₂, xs₂, rfl, hx₂, h⟩ := viaFormat_lit_ok h
  obtain ⟨t₃, r₃, hcs₃, hS, h⟩ := viaFormat_conv_ok h
  obtain ⟨s, -, h₃, rfl, hS'⟩ := extractNumConv_ok hS
  obtain ⟨-, rfl⟩ : _ ∧ r₃ = r := by simpa [viaFormat] using h
  refine ⟨hh, mi, s, h₁, h₂, h₃, fun u => ?_⟩
  rw [extractConv, hmsFormat, viaFormat_conv hcs₁ (hH' u), viaFormat_lit _ hx₁,
    viaFormat_conv hcs₂ (hM' _), viaFormat_lit _ hx₂, viaFormat_conv hcs₃ (hS' _)]
  rfl

/-- A read of `"%Y-%m-%d %T"` that leaves the stream good has stored every field, each within
its range, and reads the same from any other `struct tm`: what the `struct tm` held before
plays no part. -/
theorem timeGet_good {t0 t : Tm} {cs r : List Char}
    (h : timeGet timeFormat t0 cs = (t, r, false, false)) :
    t.Fits ∧ ∀ t1, timeGet timeFormat t1 cs = (t, r, false, false) := by
  unfold timeFormat at h ⊢
  obtain ⟨t₁, r₁, hcs₁, hr₁, hY, h⟩ := timeGet_conv_ok h
  obtain ⟨y, -, y₁, rfl, hY'⟩ := extractNumConv_ok hY
  obtain ⟨x₁, xs₁, rfl, hx₁, h⟩ := timeGet_lit_ok h
  obtain ⟨t₂, r₂, hcs₂, hr₂, hm, h⟩ := timeGet_conv_ok h
  obtain ⟨mo, m₀, m₁, rfl, hm'⟩ := extractNumConv_ok hm
  obtain ⟨x₂, xs₂, rfl, hx₂, h⟩ := timeGet_lit_ok h
  obtain ⟨t₃, r₃, hcs₃, hr₃, hd, h⟩ := timeGet_conv_ok h
  obtain ⟨d, d₀, d₁, rfl, hd'⟩ := extractNumConv_ok hd
  obtain ⟨hcs₄, h⟩ := timeGet_space_ok h
  obtain ⟨t₄, r₄, hcs₅, hr₄, hT, h⟩ := timeGet_conv_ok h
  obtain ⟨hh, mi, s, h₁, h₂, h₃, hT'⟩ := extractConv_T_ok hT
  rw [hT'] at hT
  obtain ⟨rfl, -⟩ := Prod.mk.inj hT
  obtain ⟨rfl, rfl, -⟩ : _ = t ∧ r₄ = r ∧ True := by simpa [timeGet] using h
  refine ⟨?_, fun u => ?_⟩
  · simp only [NumConv.lo, NumConv.hi] at y₁ m₀ m₁ d₀ d₁
    refine ⟨?_, ?_, ?_, ?_, ?_, ?_⟩ <;> dsimp only [NumConv.store] <;> omega
  rw [timeGet_num hcs₁ hr₁ (hY' u), timeGet_lit hx₁, timeGet_num hcs₂ hr₂ (hm' _),
    timeGet_lit hx₂, timeGet_num hcs₃ hr₃ (hd' _), timeGet_space_eq _ hcs₄,
    timeGet_conv hcs₅ hr₄ (hT' _)]
  simp [timeGet, NumConv.store]

/-! ## What `get_time` rejects -/

theorem toLower_of_isDigit {c : Char} (h : c.isDigit) : c.toLower = c ∧ c.toUpper = c := by
  have := toNat_of_isDigit h
  simp only [Char.toLower, Char.toUpper]
  constructor <;> (rw [if_neg]; omega)

theorem matchChar_dash {c : Char} (h : c.isDigit) : matchChar '-' c = false := by
  obtain ⟨h1, h2⟩ := toLower_of_isDigit h
  have : c ≠ '-' := by rintro rfl; exact absurd h (by decide)
  simp [matchChar, h1, h2, show Char.toLower '-' = '-' from rfl,
    show Char.toUpper '-' = '-' from rfl, Ne.symm this]

/-- `%Y` does not read a year outside `0..9999` as `put_time` printed it: a negative year
starts with `-`, and after the first four digits of a longer one comes a fifth digit where
the format has `-`. -/
theorem timeGet_yearOutOfRange {y : Int} (hy : y < 0 ∨ 9999 < y) (t0 : Tm) (rest : List Char) :
    (timeGet timeFormat t0 (writeInt y ++ '-' :: rest)).2.2.1 = true := by
  rcases hy with hy | hy
  · simp only [writeInt, if_pos hy, List.cons_append]
    rfl
  · have hw : writeInt y = Nat.toDigits 10 y.toNat := by
      simp [writeInt, not_lt.2 (by omega : (0 : Int) ≤ y)]
    have hlen : 5 ≤ (Nat.toDigits 10 y.toNat).length := le_length_toDigits 4 (by simp; omega)
    have hd : ∀ c ∈ Nat.toDigits 10 y.toNat, c.isDigit := fun c hc => isDigit_of_mem_toDigits hc
    obtain ⟨d5, more, hdrop⟩ := List.exists_cons_of_ne_nil
      (show (Nat.toDigits 10 y.toNat).drop 4 ≠ [] by simp; omega)
    have hd5 : d5.isDigit := hd d5 (List.mem_of_mem_drop (hdrop ▸ List.mem_cons_self d5 more))
    have htake : ∀ c ∈ (Nat.toDigits 10 y.toNat).take 4, c.isDigit :=
      fun c hc => hd c (List.mem_of_mem_take hc)
    have hl4 : ((Nat.toDigits 10 y.toNat).take 4).length = 4 := by simp; omega
    have hne : (Nat.toDigits 10 y.toNat).take 4 ≠ [] := by intro h; simp [h] at hl4
    have hv := decValue_lt htake
    rw [hl4] at hv
    have hY : extractConv (.num .Y) t0 ((Nat.toDigits 10 y.toNat).take 4 ++ d5 :: (more ++ '-' :: rest)) =
        (_, d5 :: (more ++ '-' :: rest), false) :=
      extractNumConv_append .Y t0 hne htake hl4.le (Nat.zero_le _)
        (by simp only [NumConv.hi]; omega) (.inl hl4)
    rw [hw, ← List.take_append_drop 4 (Nat.toDigits 10 y.toNat), List.append_assoc, hdrop,
      List.cons_append, timeFormat, timeGet_conv (List.append_ne_nil_of_left_ne_nil hne _)
        (List.cons_ne_nil _ _) hY]
    simp [timeGet, matchChar_dash hd5]

/-- `is >> get_time(...)` fails on a year outside `0..9999` that `put_time` printed. -/
theorem getTime_yearOutOfRange {t : Tm} (hy : t.tm_year + 1900 < 0 ∨ 9999 < t.tm_year + 1900)
    (t0 : Tm) (rest : List Char) :
    ((IStream.ofList (putTime t ++ rest)).getTime t0 timeFormat).2.fail = true := by
  obtain ⟨c, cs, hc⟩ := List.exists_cons_of_ne_nil (writeInt_ne_nil (t.tm_year + 1900))
  have hcs : isSpace c = false :=
    (mem_writeInt (hc ▸ List.mem_cons_self c cs)).elim (fun h => by subst h; rfl) isSpace_of_isDigit
  obtain ⟨R, hR⟩ : ∃ R, putTime t ++ rest = writeInt (t.tm_year + 1900) ++ '-' :: R :=
    ⟨_, by simp only [putTime, List.append_assoc, List.cons_append]; exact rfl⟩
  rw [hR, hc, List.cons_append, IStream.getTime, IStream.formatted_start _ _ hcs,
    ← List.cons_append, ← hc]
  exact timeGet_yearOutOfRange hy t0 R

end DiskDiff
