import Mtbolt.Lib.CString

/-!
# The dates of the HTTP server

`gen_http_date` of `net-http-server.c` writes a time as the text of a date, with years counted in
cycles of four, and `gen_http_time` reads such a text.  Both set February in the table `dd` that they share.
Up to the year 2039 every fourth year is a leap year, so these are the dates of the Gregorian calendar.
-/

namespace Mtbolt.Net

open CString List

/-! ### Writing -/

/-- The bytes of a text. -/
def ascii (s : String) : List UInt8 := s.toList.map fun c => UInt8.ofNat c.toNat

def months : List UInt8 := ascii "JanFebMarAprMayJunJulAugSepOctNovDecGlk"

def dows : List UInt8 := ascii "SunMonTueWedThuFriSatEar"

/-- `%.3s` from the `i`-th name of a table. -/
def name (table : List UInt8) (i : ℕ) : List UInt8 := (table.drop (i * 3)).take 3

/-- `%.2d`, and `%d` for the width 1. -/
def decimalText (width n : ℕ) : List UInt8 :=
  let ds := (Nat.toDigits 10 n).map fun c => UInt8.ofNat c.toNat
  replicate (width - ds.length) 0x30 ++ ds

/-- The table `dd`. -/
def dd (feb : ℕ) : List ℕ := [31, feb, 31, 30, 31, 30, 31, 31, 30, 31, 30, 31]

/-- The year of a day, and the day of that year. -/
def yearOf (time : ℕ) : ℕ × ℕ :=
  let xd := time % (365 * 3 + 366)
  let year := time / (365 * 3 + 366) * 4 + 1970
  if xd ≥ 365 then
    if xd - 365 ≥ 365 then
      if xd - 365 - 365 ≥ 366 then (year + 3, xd - 365 - 365 - 366) else (year + 2, xd - 365 - 365)
    else (year + 1, xd - 365)
  else (year, xd)

/-- The loop over the months: the first one that the day is in, and the day of that month. -/
def monthOf : List ℕ → ℕ → ℕ × ℕ
  | [], xd => (0, xd)
  | d :: dd, xd => if xd < d then (0, xd) else ((monthOf dd (xd - d)).1 + 1, (monthOf dd (xd - d)).2)

/-- The text that `snprintf` writes into a buffer for 29 characters. -/
def dateText (dow day mon year hour min sec : ℕ) : List UInt8 :=
  (name dows dow ++ (ascii ", " ++ (decimalText 2 day ++ (ascii " " ++ (name months mon ++
    (ascii " " ++ (decimalText 1 year ++ (ascii " " ++ (decimalText 2 hour ++ (ascii ":" ++
    (decimalText 2 min ++ (ascii ":" ++ (decimalText 2 sec ++ ascii " GMT"))))))))))))).take 29

/-- `gen_http_date`, with the table before and after; `none` when the assertion fails. -/
def genHttpDate (dd : List ℕ) (time : ℤ) : Option (List UInt8 × List ℕ) :=
  let time := time.toNat
  let sec := time % 60
  let min := time / 60 % 60
  let hour := time / 60 / 60 % 24
  let time := time / 60 / 60 / 24
  let year := (yearOf time).1
  let dd := dd.set 1 (if year % 4 ≠ 0 then 28 else 29)
  let mon := (monthOf dd (yearOf time).2).1
  let day := (monthOf dd (yearOf time).2).2 + 1
  if 1 ≤ day ∧ day ≤ 31 ∧ mon ≤ 11 ∧ 1970 ≤ year ∧ year ≤ 2039 then
    some (dateText ((time + 4) % 7) day mon year hour min sec, dd)
  else none

/-! ### Reading -/

/-- The parts of a format for `sscanf`. -/
inductive Directive
  | str (width : ℕ)
  | int
  | lit (b : UInt8)
  | blank

/-- `sscanf`: what is stored until a part does not match. -/
def sscanf : List Directive → List UInt8 → List (List UInt8 ⊕ ℤ)
  | [], _ => []
  | .str width :: ds, s =>
    let s := s.dropWhile isSpace
    let word := (s.takeWhile fun b => !isSpace b).take width
    if word = [] then [] else .inl word :: sscanf ds (s.drop word.length)
  | .int :: ds, s =>
    if (strtol s).2 = s then [] else .inr (toInt (strtol s).1) :: sscanf ds (strtol s).2
  | .lit b :: ds, s => if s.head? = some b then sscanf ds s.tail else []
  | .blank :: ds, s => sscanf ds (s.dropWhile isSpace)

/-- `"%3s, %d %3s %d %d:%d:%d %15s"`. -/
def dateFormat : List Directive :=
  [.str 3, .lit 0x2c, .blank, .int, .blank, .str 3, .blank, .int, .blank, .int, .lit 0x3a, .int,
    .lit 0x3a, .int, .blank, .str 15]

/-- `gen_http_time`: the return value if it is not zero, or `*time` and the table.  An `int` wraps. -/
def genHttpTime (dd : List ℕ) (dateBuffer : List UInt8) : Except ℤ (ℤ × List ℕ) :=
  match sscanf dateFormat dateBuffer with
  | [.inl _, .inr day, .inl month, .inr year, .inr hour, .inr min, .inr sec, .inl tz] =>
    match (range 12).find? fun mon => name months mon = month with
    | none => .error (-11)
    | some mon =>
      if year < 1970 ∨ year > 2039 then .error (-12)
      else if hour < 0 ∨ hour ≥ 24 then .error (-13)
      else if min < 0 ∨ min ≥ 60 then .error (-14)
      else if sec < 0 ∨ sec ≥ 60 then .error (-15)
      else if tz ≠ ascii "GMT" then .error (-16)
      else
        let d := (year - 1970) * 365 + (year - 1969) / 4 + (day - 1)
        let d := if year % 4 = 0 ∧ mon ≥ 2 then d + 1 else d
        let dd := dd.set 1 28
        let d := d + ((dd.take mon).sum : ℕ)
        .ok (toInt (((d * 24 + hour) * 60 + min) * 60 + sec), dd)
  | fields => .error (if fields.length > 0 then -fields.length else -8)

/-! ### The calendar -/

/-- A day of the Gregorian calendar; months count from zero. -/
structure Date where
  year : ℕ
  month : ℕ
  day : ℕ
  deriving DecidableEq, Repr

def isLeapYear (year : ℕ) : Bool := year % 4 = 0 ∧ (year % 100 ≠ 0 ∨ year % 400 = 0)

def monthLength (leap : Bool) (month : ℕ) : ℕ :=
  if month = 1 then if leap then 29 else 28
  else if month = 3 ∨ month = 5 ∨ month = 8 ∨ month = 10 then 30 else 31

/-- The day after. -/
def Date.next (d : Date) : Date :=
  if d.day < monthLength (isLeapYear d.year) d.month then { d with day := d.day + 1 }
  else if d.month < 11 then ⟨d.year, d.month + 1, 1⟩
  else ⟨d.year + 1, 0, 1⟩

/-- The day `n` days after 1 January 1970. -/
def Date.ofDays (n : ℕ) : Date := Date.next^[n] ⟨1970, 0, 1⟩

/-- The days of a week that begins as the year 1970 did. -/
def weekdayNames : List String := ["Thu", "Fri", "Sat", "Sun", "Mon", "Tue", "Wed"]

def monthNames : List String :=
  ["Jan", "Feb", "Mar", "Apr", "May", "Jun", "Jul", "Aug", "Sep", "Oct", "Nov", "Dec"]

def digit (n : ℕ) : UInt8 := UInt8.ofNat (48 + n % 10)

def twoDigits (n : ℕ) : List UInt8 := [digit (n / 10), digit n]

/-- The date and the time of day, in the format of the HTTP headers. -/
def dateParts (days : ℕ) (date : Date) (hour min sec : ℕ) : List (List UInt8) :=
  [ascii (weekdayNames.getD (days % 7) ""), ascii ", ", twoDigits date.day, ascii " ",
    ascii (monthNames.getD date.month ""), ascii " ", twoDigits (date.year / 100),
    twoDigits date.year, ascii " ", twoDigits hour, ascii ":", twoDigits min, ascii ":",
    twoDigits sec, ascii " GMT"]

/-- The text for `t` seconds after 1 January 1970. -/
def httpDate (t : ℕ) : List UInt8 :=
  (dateParts (t / 86400) (Date.ofDays (t / 86400)) (t % 86400 / 3600) (t % 3600 / 60)
    (t % 60)).flatten

/-! ### Years and months -/

/-- The table for a year. -/
def monthTable (leap : Bool) : List ℕ := dd (if leap then 29 else 28)

def yearLength (leap : Bool) : ℕ := if leap then 366 else 365

/-- **The months of a year**, day by day: the month and the day of the month are in range, the months
before have the right number of days, and the next day follows. -/
theorem monthOf_spec : ∀ leap, ∀ xd < yearLength leap,
    let r := monthOf (monthTable leap) xd
    r.1 ≤ 11 ∧ r.2 < 31 ∧
      ((dd 28).take r.1).sum + (if leap ∧ 2 ≤ r.1 then 1 else 0) + r.2 = xd ∧
      if r.2 + 1 < monthLength leap r.1 then
        xd + 1 < yearLength leap ∧ monthOf (monthTable leap) (xd + 1) = (r.1, r.2 + 1)
      else if r.1 < 11 then
        xd + 1 < yearLength leap ∧ monthOf (monthTable leap) (xd + 1) = (r.1 + 1, 0)
      else xd + 1 = yearLength leap := by
  decide +kernel

theorem yearOf_spec (n : ℕ) :
    let r := yearOf n
    1970 ≤ r.1 ∧ r.2 < yearLength (r.1 % 4 = 0) ∧
      (r.1 - 1970) * 365 + (r.1 - 1969) / 4 + r.2 = n ∧
      yearOf (n + 1) =
        if r.2 + 1 < yearLength (r.1 % 4 = 0) then (r.1, r.2 + 1) else (r.1 + 1, 0) := by
  simp only [yearLength, decide_eq_true_eq, yearOf, Nat.reduceMul, Nat.reduceAdd]
  split_ifs <;> dsimp only at * <;> simp only [Prod.mk.injEq] <;> omega

/-- The date that `gen_http_date` finds for a day. -/
def dateOf (n : ℕ) : Date :=
  let r := monthOf (monthTable ((yearOf n).1 % 4 = 0)) (yearOf n).2
  ⟨(yearOf n).1, r.1, r.2 + 1⟩

theorem dateOf_succ {n : ℕ} (h : (yearOf n).1 ≤ 2039) : dateOf (n + 1) = (dateOf n).next := by
  obtain ⟨hyear, hday, -, hnext⟩ := yearOf_spec n
  obtain ⟨-, -, -, hmonth⟩ := monthOf_spec _ _ hday
  have hleap : isLeapYear (yearOf n).1 = decide ((yearOf n).1 % 4 = 0) := by
    rw [isLeapYear, decide_eq_decide]
    omega
  unfold dateOf Date.next
  rw [hleap, hnext]
  split_ifs at hmonth with hinside hbefore
  · rw [if_pos hmonth.1, if_pos (by omega)]
    simp only [hmonth.2]
  · rw [if_pos hmonth.1, if_neg (by omega), if_pos hbefore]
    simp only [hmonth.2]
  · rw [if_neg (by omega), if_neg (by omega), if_neg hbefore]
    cases decide (((yearOf n).1 + 1) % 4 = 0) <;> rfl

theorem yearOf_le {n : ℕ} (h : n < 24856) : (yearOf n).1 ≤ 2039 := by
  have hcount := (yearOf_spec n).2.2.1
  omega

/-- **The calendar**, up to the last day of a 32-bit time. -/
theorem dateOf_eq {n : ℕ} (h : n < 24856) : dateOf n = Date.ofDays n := by
  induction n with
  | zero => rfl
  | succ n ih =>
    rw [dateOf_succ (yearOf_le (by omega)), ih (by omega), Date.ofDays, Date.ofDays,
      Function.iterate_succ_apply']

/-! ### The text -/

/-- A word of a text: some bytes, no blank. -/
def IsWord (w : List UInt8) (len : ℕ) : Prop := w.length = len + 1 ∧ ∀ b ∈ w, isSpace b = false

instance (w : List UInt8) (len : ℕ) : Decidable (IsWord w len) :=
  @instDecidableAnd _ _ _ (decidableBAll _ w)

theorem name_dow (days : ℕ) : IsWord (name dows ((days + 4) % 7)) 2 ∧
    name dows ((days + 4) % 7) = ascii (weekdayNames.getD (days % 7) "") := by
  have hweek : ∀ i < 7, IsWord (name dows ((i + 4) % 7)) 2 ∧
      name dows ((i + 4) % 7) = ascii (weekdayNames.getD i "") := by
    decide +kernel
  rw [← Nat.mod_add_mod]
  exact hweek _ (Nat.mod_lt days (by decide))

theorem name_month : ∀ i < 12, IsWord (name months i) 2 ∧
    name months i = ascii (monthNames.getD i "") ∧
    ((range 12).find? fun mon => name months mon = name months i) = some i := by
  decide +kernel

theorem decimalText_two : ∀ n < 60, decimalText 2 n = twoDigits n ∧ IsWord (decimalText 2 n) 1 ∧
    IsNumber (decimalText 2 n) ∧ value (decimalText 2 n) = n := by
  decide +kernel

theorem decimalText_year : ∀ k < 70,
    decimalText 1 (1970 + k) = twoDigits ((1970 + k) / 100) ++ twoDigits (1970 + k) ∧
    IsWord (decimalText 1 (1970 + k)) 3 ∧ IsNumber (decimalText 1 (1970 + k)) ∧
    value (decimalText 1 (1970 + k)) = 1970 + k := by
  decide +kernel

variable {w rest : List UInt8} {len n : ℕ} {ds : List Directive}

theorem dropWhile_word (h : IsWord w len) : (w ++ rest).dropWhile isSpace = w ++ rest := by
  obtain ⟨b, w, rfl⟩ := exists_cons_of_ne_nil (ne_nil_of_length_eq_add_one h.1)
  exact dropWhile_cons_of_neg (by simp [h.2 b mem_cons_self])

theorem sscanf_str (h : IsWord w len) :
    sscanf (.str (len + 1) :: ds) (w ++ rest) = .inl w :: sscanf ds rest := by
  have hword : ((w ++ rest).takeWhile fun b => !isSpace b).take (len + 1) = w := by
    rw [takeWhile_append_of_pos fun b hb => by simp [h.2 b hb], take_left' h.1]
  simp only [sscanf, dropWhile_word h, hword, drop_left, if_neg (ne_nil_of_length_eq_add_one h.1)]

theorem sscanf_blank (h : IsWord w len) :
    sscanf (.blank :: ds) (ascii " " ++ (w ++ rest)) = sscanf ds (w ++ rest) :=
  congrArg (sscanf ds) (dropWhile_word h)

theorem sscanf_int (h : IsNumber w ∧ value w = n) (hn : n < 2040) (hrest : StopsAt isDigit rest) :
    sscanf (.int :: ds) (w ++ rest) = .inr n :: sscanf ds rest := by
  have hint : toInt (clamp n) = n := by
    simp only [clamp, toInt, Int.bmod]
    omega
  rw [sscanf, strtol_digits h.1.1 h.1.2 hrest, h.2, hint, if_neg]
  exact fun hself => h.1.1 (self_eq_append_left.1 hself)

theorem stopsAt_cons {b : UInt8} (hb : isDigit b = false) : StopsAt isDigit (b :: rest) := by
  intro b' t h
  cases h
  exact hb

variable {days day mon year hour min sec : ℕ}

section

variable (days) (hday : day < 60) (hmon : mon < 12) (hyear : 1970 ≤ year)
  (hyear' : year < 2040) (hhour : hour < 24) (hmin : min < 60) (hsec : sec < 60)
include hday hmon hyear hyear' hhour hmin hsec

/-- The text of `gen_http_date` is that of the headers, and nothing is cut off. -/
theorem dateText_eq : dateText ((days + 4) % 7) day mon year hour min sec =
    (dateParts days ⟨year, mon, day⟩ hour min sec).flatten := by
  obtain ⟨hdow', hdow⟩ := name_dow days
  obtain ⟨hmon', hmon, -⟩ := name_month mon hmon
  obtain ⟨k, rfl⟩ := Nat.exists_eq_add_of_le hyear
  have hparts : dateText ((days + 4) % 7) day mon (1970 + k) hour min sec =
      (dateParts days ⟨1970 + k, mon, day⟩ hour min sec).flatten.take 29 := by
    rw [dateText, hdow, hmon, (decimalText_two day hday).1, (decimalText_two hour (by omega)).1,
      (decimalText_two min hmin).1, (decimalText_two sec hsec).1,
      (decimalText_year k (by omega)).1]
    simp [dateParts]
  rw [hparts, take_of_length_le]
  simp only [dateParts, twoDigits, ← hdow, ← hmon, length_flatten, length_cons, length_nil,
    map_cons, map_nil, hdow'.1, hmon'.1]
  decide

theorem sscanf_dateText : sscanf dateFormat (dateText ((days + 4) % 7) day mon year hour min sec) =
    [.inl (name dows ((days + 4) % 7)), .inr day, .inl (name months mon), .inr year, .inr hour,
      .inr min, .inr sec, .inl (ascii "GMT")] := by
  obtain ⟨hdow, -⟩ := name_dow days
  obtain ⟨hmon, -⟩ := name_month mon hmon
  obtain ⟨-, hday', hday⟩ := decimalText_two day hday
  obtain ⟨-, hhour', hhour⟩ := decimalText_two hour (by omega)
  obtain ⟨-, hmin', hmin⟩ := decimalText_two min hmin
  obtain ⟨-, hsec', hsec⟩ := decimalText_two sec hsec
  obtain ⟨k, rfl⟩ := Nat.exists_eq_add_of_le hyear
  obtain ⟨-, hword, hyear⟩ := decimalText_year k (by omega)
  have hcomma (ds : List Directive) (rest : List UInt8) :
      sscanf (.lit 0x2c :: ds) (ascii ", " ++ rest) = sscanf ds (ascii " " ++ rest) := rfl
  have hcolon (ds : List Directive) (rest : List UInt8) :
      sscanf (.lit 0x3a :: ds) (ascii ":" ++ rest) = sscanf ds rest := rfl
  have hblank (rest : List UInt8) : StopsAt isDigit (ascii " " ++ rest) := stopsAt_cons rfl
  have hcolon' (rest : List UInt8) : StopsAt isDigit (ascii ":" ++ rest) := stopsAt_cons rfl
  have hend : StopsAt isDigit (ascii " GMT") := stopsAt_cons rfl
  rw [dateText, take_of_length_le, dateFormat, sscanf_str hdow, hcomma, sscanf_blank hday',
    sscanf_int hday (by omega) (hblank _), sscanf_blank hmon, sscanf_str hmon, sscanf_blank hword,
    sscanf_int hyear hyear' (hblank _), sscanf_blank hhour', sscanf_int hhour (by omega) (hcolon' _),
    hcolon, sscanf_int hmin (by omega) (hcolon' _), hcolon, sscanf_int hsec (by omega) hend]
  · rfl
  · simp only [length_append, hdow.1, hmon.1, hday'.1, hhour'.1, hmin'.1, hsec'.1, hword.1]
    decide

theorem genHttpTime_dateText (feb : ℕ) :
    genHttpTime (dd feb) (dateText ((days + 4) % 7) day mon year hour min sec) =
      .ok (toInt ((((((year : ℤ) - 1970) * 365 + ((year : ℤ) - 1969) / 4 + (day - 1) +
        (if year % 4 = 0 ∧ 2 ≤ mon then 1 else 0) + ((dd 28).take mon).sum) * 24 + hour) * 60 +
        min) * 60 + sec), dd 28) := by
  rw [genHttpTime, sscanf_dateText days hday hmon hyear hyear' hhour hmin hsec]
  dsimp only
  rw [(name_month mon hmon).2.2]
  dsimp only
  rw [if_neg (by omega), if_neg (by omega), if_neg (by omega), if_neg (by omega),
    if_neg (not_not.2 rfl)]
  have hleap : (year : ℤ) % 4 = 0 ↔ year % 4 = 0 := by omega
  simp only [hleap, dd, set_cons_succ, set_cons_zero]
  split_ifs <;> simp

end

/-- **The dates of the HTTP server**: for every time that an `int` holds, from zero on, the assertion of
`gen_http_date` holds, the text is that of the Gregorian date, and `gen_http_time` reads the time
from it, whatever the table holds for February. -/
theorem http_date_round_trip (feb : ℕ) (t : ℤ) (h0 : 0 ≤ t) (ht : t < 2 ^ 31) :
    (∃ feb', genHttpDate (dd feb) t = some (httpDate t.toNat, dd feb')) ∧
      genHttpTime (dd feb) (httpDate t.toNat) = .ok (t, dd 28) := by
  lift t to ℕ using h0
  obtain ⟨hyear, hday, hcount, -⟩ := yearOf_spec (t / 86400)
  obtain ⟨hmon, hle, hsum, -⟩ := monthOf_spec _ _ hday
  have hlast := yearOf_le (n := t / 86400) (by omega)
  rw [Int.toNat_natCast, httpDate, ← dateOf_eq (by omega), dateOf, ← dateText_eq _ (by omega)
    (by omega) hyear (by omega) (by omega) (by omega) (by omega)]
  constructor
  · have htable : (dd feb).set 1 (if (yearOf (t / 86400)).1 % 4 ≠ 0 then 28 else 29) =
        monthTable ((yearOf (t / 86400)).1 % 4 = 0) := by
      by_cases hleap : (yearOf (t / 86400)).1 % 4 = 0 <;> simp [monthTable, dd, hleap]
    have hdays : t / 60 / 60 / 24 = t / 86400 := by omega
    have hhour : t / 60 / 60 % 24 = t % 86400 / 3600 := by omega
    have hmin : t / 60 % 60 = t % 3600 / 60 := by omega
    refine ⟨if decide ((yearOf (t / 86400)).1 % 4 = 0) then 29 else 28, ?_⟩
    simp only [genHttpDate, Int.toNat_natCast, hdays, hhour, hmin, htable]
    rw [if_pos ⟨by omega, by omega, hmon, hyear, hlast⟩]
    rfl
  · rw [genHttpTime_dateText _ (by omega) (by omega) hyear (by omega) (by omega) (by omega)
      (by omega)]
    simp only [decide_eq_true_eq] at hsum
    refine congrArg (fun d => Except.ok (d, dd 28)) ?_
    refine Eq.trans (congrArg toInt ?_) (Int.bmod_eq_of_le (n := t) (by omega) (by omega))
    split_ifs at hsum ⊢ <;> omega

/-- The last second of an `int`. -/
theorem http_date_round_trip_last : (2 ^ 31 - 1 : ℤ) < 2 ^ 31 ∧
    genHttpTime (dd 29) (httpDate (2 ^ 31 - 1 : ℤ).toNat) = .ok (2 ^ 31 - 1, dd 28) :=
  ⟨by decide, (http_date_round_trip 29 (2 ^ 31 - 1) (by decide) (by decide)).2⟩

end Mtbolt.Net
