import LxApi32.Lib.Calendar
import Mathlib.Data.BitVec
import Mathlib.Order.Bounds.Basic

/-!
# Time stamps of the host's files

The host keeps a time stamp as an `FDATE` and an `FTIME`, in local time and in steps of two
seconds.  `lxafs_date_unix2lx` makes such a record from a Unix time, `lxafs_date_lx2unix` reads it.

The two do not agree on what the fields mean: the writer counts the days of a month from 0, where
the reader takes 1 off; the writer counts the months from 1, where the reader looks its table up
as if they began with 0; and the reader takes `twosecs` for seconds.

* `lxafsDateLx2unix_unix2lx` : what the round trip returns, for all times from 1980 on.
* `not_isSlot_roundTrip` : it never is the beginning of the two-second slot.
* `lxafsDateLx2unix_ne_recordSecs` : the reader never returns the time of a record.
* `lxDate_date` : the date that the writer finds is the one of the calendar.
* `unix2lx_mono` : the records have the order of the times, as long as the local time is an `int`.
-/

namespace LxApi32

/-- `FDATE` of the host. -/
structure FDate where
  /-- `day` -/
  day : BitVec 5
  /-- `month` -/
  month : BitVec 4
  /-- `year`, since 1980 -/
  year : BitVec 7
  deriving DecidableEq, Repr

/-- `FTIME` of the host. -/
structure FTime where
  /-- `twosecs` -/
  twosecs : BitVec 5
  /-- `minutes` -/
  minutes : BitVec 6
  /-- `hours` -/
  hours : BitVec 5
  deriving DecidableEq, Repr

/-- The value that an `int` of 32 bits keeps of a sum. -/
def asCInt (n : ℤ) : ℤ := n.bmod (2 ^ 32)

/-- `lxafs_day_n` -/
def lxafsDayN : List ℕ := [0, 31, 59, 90, 120, 151, 181, 212, 243, 273, 304, 334, 0, 0, 0, 0]

/-- `lxafs_day_n[month]` -/
def dayN (month : ℕ) : ℕ := lxafsDayN.getD month 0

/-- `lxafs_date_lx2unix` for the time zone `sys_tz.tz_minuteswest`. -/
def lxafsDateLx2unix (tz : ℤ) (d : FDate) (t : FTime) : ℤ :=
  let year := d.year.toNat
  let month := d.month.toNat
  asCInt (tz * 60 + (t.twosecs.toNat + t.minutes.toNat * 60 + t.hours.toNat * 3600 : ℕ) +
    86400 * ((d.day.toNat : ℤ) - 1 + (dayN month + year / 4 + year * 365 : ℕ) -
      (if year % 4 = 0 ∧ month < 2 then 1 else 0) + 3653))

/-- 1 January 1980, 00:00:00 -/
def begin1980 : ℕ := 315532800

/-- The local time that `lxafs_date_unix2lx` writes. -/
def localSecs (tz secs : ℤ) : ℕ :=
  let secs := asCInt (secs - tz * 60)
  if secs < begin1980 then begin1980 else secs.toNat

/-- `year` of `lxafs_date_unix2lx`: the years since 1980 of a day since 1980. -/
def lxYear (day : ℕ) : ℕ :=
  let year := day / 365
  if (year + 3) / 4 + 365 * year > day then year - 1 else year

/-- `day` of `lxafs_date_unix2lx`, the day in the year. -/
def lxYearDay (day : ℕ) : ℕ := day - ((lxYear day + 3) / 4 + 365 * lxYear day)

/-- `nl_day` and `month` of `lxafs_date_unix2lx` for a day in the year. -/
def lxMonth (year day : ℕ) : ℕ × ℕ :=
  if day = 59 ∧ year % 4 = 0 then (day, 2)
  else
    let nlDay := if year % 4 ≠ 0 ∨ day ≤ 59 then day else day - 1
    (nlDay, (lxafsDayN.take 12).findIdx fun n => n > nlDay)

/-- The date that `lxafs_date_unix2lx` writes for a local time. -/
def lxDate (secs : ℕ) : FDate :=
  let day := secs / 86400 - 3652
  let year := lxYear day
  let (nlDay, month) := lxMonth year (lxYearDay day)
  ⟨BitVec.ofNat 5 (nlDay - dayN (month - 1)), BitVec.ofNat 4 month, BitVec.ofNat 7 year⟩

/-- The time that `lxafs_date_unix2lx` writes for a local time. -/
def lxTime (secs : ℕ) : FTime :=
  ⟨BitVec.ofNat 5 (secs % 60 / 2), BitVec.ofNat 6 (secs / 60 % 60),
    BitVec.ofNat 5 (secs / 3600 % 24)⟩

/-- `lxafs_date_unix2lx` for the time zone `sys_tz.tz_minuteswest`. -/
def lxafsDateUnix2lx (tz secs : ℤ) : FDate × FTime :=
  (lxDate (localSecs tz secs), lxTime (localSecs tz secs))

/-- `t` is the beginning of the two-second slot of `secs`: the largest value that is not above it
and an even number of seconds in local time. -/
def IsSlot (tz secs t : ℤ) : Prop := IsGreatest {t | t ≤ secs ∧ Even (t - 60 * tz)} t

/-- The days by which a date comes back late: the reader adds the days of the month and not those
before it, and takes a day off. -/
def lateDays (year month : ℕ) : ℤ :=
  dayN month - dayN (month - 1) - (if year % 4 = 0 ∧ month = 2 then 0 else 1)

/-- The date of a record. -/
def FDate.date (d : FDate) : Calendar.Date := ⟨1980 + d.year.toNat, d.month.toNat, d.day.toNat⟩

/-- The record is a date up to 2099 and a time. -/
structure ValidRecord (d : FDate) (t : FTime) : Prop where
  year_le : d.year.toNat ≤ 119
  date : d.date.Valid
  hours_le : t.hours.toNat ≤ 23
  minutes_le : t.minutes.toNat ≤ 59
  twosecs_le : t.twosecs.toNat ≤ 29

/-- The seconds of the calendar from 1 January 1970 to the date and time of a record. -/
def recordSecs (d : FDate) (t : FTime) : ℕ :=
  86400 * d.date.number 1970 + 3600 * t.hours.toNat + 60 * t.minutes.toNat + 2 * t.twosecs.toNat

/-- An `int` differs from the sum by a multiple of 4 G. -/
theorem asCInt_spec (n : ℤ) :
    asCInt n % 2 ^ 32 = n % 2 ^ 32 ∧ -2 ^ 31 ≤ asCInt n ∧ asCInt n < 2 ^ 31 :=
  ⟨Int.bmod_emod, Int.le_bmod (by decide), Int.bmod_lt (by decide)⟩

/-- A sum that is a bit off is not the right `int`, with or without overflow. -/
theorem asCInt_ne {n m : ℤ} (hne : n ≠ m) (hlt : n < m + 2 ^ 32) (hgt : m < n + 2 ^ 32) :
    asCInt n ≠ m := by
  intro heq
  have hmod := (asCInt_spec n).1
  rw [heq, Int.emod_eq_emod_iff_emod_sub_eq_zero] at hmod
  omega

/-! ### The calendar -/

theorem isSlot_iff {tz secs t : ℤ} : IsSlot tz secs t ↔ t = secs - (secs - 60 * tz) % 2 := by
  have hmem : secs - (secs - 60 * tz) % 2 ∈ {t | t ≤ secs ∧ Even (t - 60 * tz)} := by
    refine ⟨by omega, Int.even_iff.2 (by omega)⟩
  constructor
  · intro h
    have hle := h.2 hmem
    obtain ⟨hts, heven⟩ := h.1
    rw [Int.even_iff] at heven
    omega
  · rintro rfl
    refine ⟨hmem, ?_⟩
    rintro t ⟨hts, heven⟩
    rw [Int.even_iff] at heven
    omega

theorem lxYear_cases {day : ℕ} (h : day < 365000) : ∃ r y, day = 365 * y + r ∧ r < 365 ∧
    (lxYear day = y ∧ (y + 3) / 4 ≤ r ∨ lxYear day + 1 = y ∧ r < (y + 3) / 4 ∧ y < 1000) := by
  refine ⟨day % 365, day / 365, (Nat.div_add_mod day 365).symm, Nat.mod_lt _ (by decide), ?_⟩
  unfold lxYear
  dsimp only
  split_ifs with hc
  · right
    omega
  · left
    omega

/-- The days since 1980 are those of the years before and that in the year. -/
theorem lxYearDay_add {day : ℕ} (h : day < 365000) :
    (lxYear day + 3) / 4 + 365 * lxYear day + lxYearDay day = day := by
  obtain ⟨r, y, hday, hr, hy⟩ := lxYear_cases h
  unfold lxYearDay
  omega

/-- A year has 365 days, every fourth one 366. -/
theorem lxYearDay_lt {day : ℕ} (h : day < 365000) :
    lxYearDay day < if lxYear day % 4 = 0 then 366 else 365 := by
  obtain ⟨r, y, hday, hr, hy⟩ := lxYear_cases h
  unfold lxYearDay
  split_ifs with hleap
  · omega
  · -- no leap day between the two years
    have hsame : (lxYear day + 1 + 3) / 4 = (lxYear day + 3) / 4 := by omega
    rcases hy with ⟨rfl, hr'⟩ | ⟨rfl, hr', hlt⟩
    · omega
    · rw [hsame] at hr'
      omega

/-- The table's first entry above a day of a year without 29 February, such as the year 1. -/
theorem findIdx_dayN : ∀ n < 365, 1 ≤ ((lxafsDayN.take 12).findIdx fun m => m > n) ∧
    ((lxafsDayN.take 12).findIdx fun m => m > n) ≤ 12 ∧
    dayN (((lxafsDayN.take 12).findIdx fun m => m > n) - 1) ≤ n ∧
    n - dayN (((lxafsDayN.take 12).findIdx fun m => m > n) - 1) <
      Calendar.monthDays 1 ((lxafsDayN.take 12).findIdx fun m => m > n) ∧
    (2 < ((lxafsDayN.take 12).findIdx fun m => m > n) ↔ 59 ≤ n) := by
  decide +kernel

/-- The day in the month is the one in the year without the days of the months before, where
29 February is counted in a leap year. -/
theorem lxMonth_spec {y year day : ℕ} (hy : Calendar.IsLeap y ↔ year % 4 = 0)
    (h : day < if year % 4 = 0 then 366 else 365) :
    1 ≤ (lxMonth year day).2 ∧ (lxMonth year day).2 ≤ 12 ∧
      dayN ((lxMonth year day).2 - 1) ≤ (lxMonth year day).1 ∧
      (lxMonth year day).1 - dayN ((lxMonth year day).2 - 1) <
        Calendar.monthDays y (lxMonth year day).2 ∧
      (lxMonth year day).1 + (if year % 4 = 0 ∧ 2 < (lxMonth year day).2 then 1 else 0) = day := by
  unfold lxMonth
  by_cases hfeb : day = 59 ∧ year % 4 = 0
  · rw [if_pos hfeb]
    obtain ⟨rfl, hleap⟩ := hfeb
    simp [dayN, lxafsDayN, Calendar.monthDays, hy.2 hleap]
  · rw [if_neg hfeb]
    by_cases hleap : year % 4 = 0
    · by_cases hday : day ≤ 59
      · obtain ⟨h₁, h₂, h₃, h₄, h₅⟩ := findIdx_dayN day (by omega)
        have hnot : ¬ 2 < ((lxafsDayN.take 12).findIdx fun m => m > day) := by
          rw [h₅]
          omega
        simp only [hleap, hday, hnot, ne_eq, not_true_eq_false, false_or, if_true, and_false,
          if_false]
        exact ⟨h₁, h₂, h₃, h₄.trans_le (Calendar.monthDays_one_le ..), rfl⟩
      · rw [if_pos hleap] at h
        obtain ⟨h₁, h₂, h₃, h₄, h₅⟩ := findIdx_dayN (day - 1) (by omega)
        have hlate : 2 < ((lxafsDayN.take 12).findIdx fun m => m > day - 1) := h₅.2 (by omega)
        simp only [hleap, hday, hlate, ne_eq, not_true_eq_false, false_or, if_false, and_self,
          if_true]
        exact ⟨h₁, h₂, h₃, h₄.trans_le (Calendar.monthDays_one_le ..), by omega⟩
    · rw [if_neg hleap] at h
      obtain ⟨h₁, h₂, h₃, h₄, -⟩ := findIdx_dayN day h
      simp only [hleap, ne_eq, not_false_eq_true, true_or, if_true, false_and, if_false]
      exact ⟨h₁, h₂, h₃, h₄.trans_le (Calendar.monthDays_one_le ..), rfl⟩

theorem daysBefore_eq_dayN (year : ℕ) {month : ℕ} (h₁ : 1 ≤ month) (h₂ : month ≤ 12) :
    Calendar.daysBefore year month =
      dayN (month - 1) + if Calendar.IsLeap year ∧ 2 < month then 1 else 0 := by
  rw [Calendar.daysBefore_eq year h₁ (by omega)]
  interval_cases month <;> rfl

theorem lateDays_cases (year : ℕ) {month : ℕ} (h₁ : 1 ≤ month) (h₂ : month ≤ 12) :
    27 ≤ lateDays year month ∧ lateDays year month ≤ 30 ∨ lateDays year month = -335 := by
  unfold lateDays
  interval_cases month <;> simp [dayN, lxafsDayN]
  split_ifs <;> simp

/-! ### The round trip -/

theorem begin1980_le_localSecs (tz secs : ℤ) : begin1980 ≤ localSecs tz secs := by
  unfold localSecs
  dsimp only
  split_ifs <;> omega

theorem localSecs_lt (tz secs : ℤ) : localSecs tz secs < 2 ^ 31 := by
  obtain ⟨-, -, hlt⟩ := asCInt_spec (secs - tz * 60)
  unfold localSecs begin1980
  dsimp only
  split_ifs <;> omega

/-- The time of the record, read back, has lost the half of its seconds. -/
theorem lxTime_toNat (secs : ℕ) :
    (lxTime secs).twosecs.toNat + (lxTime secs).minutes.toNat * 60 +
      (lxTime secs).hours.toNat * 3600 + secs % 2 + secs % 60 / 2 = secs % 86400 := by
  simp only [lxTime, BitVec.toNat_ofNat]
  omega

/-- The date that is written is the one of the calendar, with the days of a month counted from 0. -/
def writtenDate (d : FDate) : Calendar.Date :=
  ⟨1980 + d.year.toNat, d.month.toNat, d.day.toNat + 1⟩

theorem writtenDate_number {d : FDate} (hyear : d.year.toNat < 120) (h₁ : 1 ≤ d.month.toNat)
    (h₂ : d.month.toNat ≤ 12) : (writtenDate d).number 1970 =
      3652 + 365 * d.year.toNat + (d.year.toNat + 3) / 4 + (dayN (d.month.toNat - 1) +
        (if d.year.toNat % 4 = 0 ∧ 2 < d.month.toNat then 1 else 0) + d.day.toNat) := by
  rw [Calendar.Date.number, writtenDate, Calendar.sum_yearDays_1980 (by omega),
    daysBefore_eq_dayN _ h₁ h₂, if_congr (and_congr_left' (Calendar.isLeap_1980 hyear)) rfl rfl]
  rfl

/-- **The date of the record** is the one of the local time. -/
theorem lxDate_date {secs : ℕ} (h : begin1980 ≤ secs) (h' : secs < 2 ^ 31) :
    (writtenDate (lxDate secs)).Valid ∧ (writtenDate (lxDate secs)).number 1970 = secs / 86400 ∧
      (lxDate secs).year.toNat < 120 := by
  unfold begin1980 at h
  have hday : secs / 86400 - 3652 < 365000 := by omega
  have hadd := lxYearDay_add hday
  have hlt := lxYearDay_lt hday
  have hyear : lxYear (secs / 86400 - 3652) < 120 := by omega
  obtain ⟨h₁, h₂, h₃, h₄, h₅⟩ := lxMonth_spec (Calendar.isLeap_1980 hyear) hlt
  -- all the fields hold their values
  obtain ⟨year, hyear'⟩ : ∃ year, lxYear (secs / 86400 - 3652) = year := ⟨_, rfl⟩
  obtain ⟨m, hm⟩ : ∃ m, lxMonth year (lxYearDay (secs / 86400 - 3652)) = m := ⟨_, rfl⟩
  have hdate : lxDate secs = ⟨BitVec.ofNat 5 (m.1 - dayN (m.2 - 1)), BitVec.ofNat 4 m.2,
      BitVec.ofNat 7 year⟩ := by
    subst hyear' hm
    rfl
  rw [hyear'] at hadd hyear h₁ h₂ h₃ h₄ h₅
  rw [hm] at h₁ h₂ h₃ h₄ h₅
  have h31 := h₄.trans_le (Calendar.monthDays_le ..)
  have hy : (lxDate secs).year.toNat = year := by
    rw [hdate]
    exact Nat.mod_eq_of_lt (show year < 2 ^ 7 by omega)
  have hmonth : (lxDate secs).month.toNat = m.2 := by
    rw [hdate]
    exact Nat.mod_eq_of_lt (show m.2 < 2 ^ 4 by omega)
  have hd : (lxDate secs).day.toNat = m.1 - dayN (m.2 - 1) := by
    rw [hdate]
    exact Nat.mod_eq_of_lt (show m.1 - dayN (m.2 - 1) < 2 ^ 5 by omega)
  rw [← hd, ← hy, ← hmonth] at h₄
  rw [← hy] at hyear
  rw [← hmonth] at h₁ h₂
  refine ⟨⟨h₁, h₂, Nat.succ_pos _, h₄⟩, ?_, hyear⟩
  rw [writtenDate_number hyear h₁ h₂, hd, hy, hmonth]
  omega

/-- The date of the record, read back. -/
theorem lxDate_toNat {secs : ℕ} (h : begin1980 ≤ secs) (h' : secs < 2 ^ 31) :
    ((lxDate secs).day.toNat : ℤ) - 1 + (dayN (lxDate secs).month.toNat +
        (lxDate secs).year.toNat / 4 + (lxDate secs).year.toNat * 365 : ℕ) -
        (if (lxDate secs).year.toNat % 4 = 0 ∧ (lxDate secs).month.toNat < 2 then 1 else 0) + 3653 =
      (secs / 86400 : ℕ) + lateDays (lxDate secs).year.toNat (lxDate secs).month.toNat ∧
    1 ≤ (lxDate secs).month.toNat ∧ (lxDate secs).month.toNat ≤ 12 := by
  obtain ⟨hvalid, hnumber, hyear⟩ := lxDate_date h h'
  have h₁ : 1 ≤ (lxDate secs).month.toNat := hvalid.month_pos
  have h₂ : (lxDate secs).month.toNat ≤ 12 := hvalid.month_le
  refine ⟨?_, h₁, h₂⟩
  rw [← hnumber, writtenDate_number hyear h₁ h₂, lateDays]
  push_cast
  split_ifs <;> omega

/-- **The round trip**: the local time loses the half of its seconds and comes back `lateDays`
late. -/
theorem lxafsDateLx2unix_unix2lx (tz secs : ℤ) :
    lxafsDateLx2unix tz (lxafsDateUnix2lx tz secs).1 (lxafsDateUnix2lx tz secs).2 =
      asCInt (tz * 60 + (localSecs tz secs - localSecs tz secs % 2 -
        localSecs tz secs % 60 / 2 : ℕ) + 86400 * lateDays (lxDate (localSecs tz secs)).year.toNat
          (lxDate (localSecs tz secs)).month.toNat) := by
  have hdate := (lxDate_toNat (begin1980_le_localSecs tz secs) (localSecs_lt tz secs)).1
  have htime := lxTime_toNat (localSecs tz secs)
  have hrec : lxafsDateUnix2lx tz secs = (lxDate (localSecs tz secs), lxTime (localSecs tz secs)) :=
    rfl
  rw [hrec, lxafsDateLx2unix]
  dsimp only
  rw [hdate]
  congr 1
  omega

/-- **A time stamp never survives the round trip**, whatever the time zone is. -/
theorem not_isSlot_roundTrip {tz secs : ℤ} (h : 315532800 ≤ secs - 60 * tz)
    (h' : secs - 60 * tz < 4102444800) :
    ¬ IsSlot tz secs
      (lxafsDateLx2unix tz (lxafsDateUnix2lx tz secs).1 (lxafsDateUnix2lx tz secs).2) := by
  rw [isSlot_iff, lxafsDateLx2unix_unix2lx]
  have hge := begin1980_le_localSecs tz secs
  have hlt := localSecs_lt tz secs
  obtain ⟨-, h₁, h₂⟩ := lxDate_toNat hge hlt
  have hlate := lateDays_cases (lxDate (localSecs tz secs)).year.toNat h₁ h₂
  have hlocal : (localSecs tz secs : ℤ) = secs - 60 * tz ∨
      localSecs tz secs = 315532800 ∧ 2 ^ 31 ≤ secs - 60 * tz := by
    obtain ⟨hmod, hge, hlt⟩ := asCInt_spec (secs - tz * 60)
    unfold localSecs begin1980
    dsimp only
    split_ifs <;> omega
  -- what the round trip returns is less than 4 G away from the beginning of the slot
  exact asCInt_ne (by omega) (by omega) (by omega)

/-- 1 January 1980 comes back as 31 January. -/
theorem roundTrip_newYear1980 :
    ¬ ∀ tz secs : ℤ, -2 ^ 31 ≤ secs ∧ secs < 2 ^ 31 → 315532800 ≤ secs - 60 * tz →
      secs - 60 * tz < 4102444800 → IsSlot tz secs
        (lxafsDateLx2unix tz (lxafsDateUnix2lx tz secs).1 (lxafsDateUnix2lx tz secs).2) := by
  intro h
  have hslot := isSlot_iff.1 (h 0 315532800 (by decide) (by decide) (by decide))
  revert hslot
  decide

/-- 29 February 2004, 12:34:56 in a zone one hour east. -/
theorem not_isSlot_leapDay : ¬ IsSlot (-60) 1078054496
    (lxafsDateLx2unix (-60) (lxafsDateUnix2lx (-60) 1078054496).1
      (lxafsDateUnix2lx (-60) 1078054496).2) :=
  not_isSlot_roundTrip (by decide) (by decide)

/-! ### The reader -/

section Reader

variable {d : FDate} {t : FTime}

/-- What `lxafs_date_lx2unix` returns: the date comes back a day later than `lateDays`, and the
half of `twosecs` is lost. -/
theorem lxafsDateLx2unix_eq (tz : ℤ) (h : ValidRecord d t) :
    lxafsDateLx2unix tz d t = asCInt (tz * 60 + recordSecs d t +
      (86400 * (lateDays d.year.toNat d.month.toNat + 1) - t.twosecs.toNat)) := by
  have hyear := h.year_le
  have hpos : 1 ≤ d.day.toNat := h.date.day_pos
  have hm₁ : 1 ≤ d.month.toNat := h.date.month_pos
  have hm₂ : d.month.toNat ≤ 12 := h.date.month_le
  have hnumber : d.date.number 1970 = 3652 + 365 * d.year.toNat + (d.year.toNat + 3) / 4 +
      (dayN (d.month.toNat - 1) + (if d.year.toNat % 4 = 0 ∧ 2 < d.month.toNat then 1 else 0) +
        (d.day.toNat - 1)) := by
    rw [Calendar.Date.number, FDate.date, Calendar.sum_yearDays_1980 (by omega),
      daysBefore_eq_dayN _ hm₁ hm₂,
      if_congr (and_congr_left' (Calendar.isLeap_1980 (by omega))) rfl rfl]
  rw [lxafsDateLx2unix, recordSecs, hnumber, lateDays]
  congr 1
  push_cast
  split_ifs <;> omega

/-- **A record is never read right**: the months are looked up one too late, and `twosecs` is taken
for seconds. -/
theorem lxafsDateLx2unix_ne_recordSecs (tz : ℤ) (h : ValidRecord d t) :
    lxafsDateLx2unix tz d t ≠ tz * 60 + recordSecs d t := by
  have hlate := lateDays_cases d.year.toNat h.date.month_pos h.date.month_le
  have htwo := h.twosecs_le
  rw [lxafsDateLx2unix_eq tz h]
  simp only [FDate.date] at hlate
  exact asCInt_ne (by omega) (by omega) (by omega)

/-- 1 January 1980, 00:00:00. -/
def newYear1980 : FDate × FTime := (⟨1, 1, 0⟩, ⟨0, 0, 0⟩)

theorem validRecord_newYear1980 : ValidRecord newYear1980.1 newYear1980.2 :=
  ⟨by decide, ⟨by decide, by decide, by decide, by decide⟩, by decide, by decide, by decide⟩

/-- `lxafsDateLx2unix_ne_recordSecs` for this record. -/
theorem lxafsDateLx2unix_ne_newYear1980 : lxafsDateLx2unix 0 newYear1980.1 newYear1980.2 ≠
    0 * 60 + recordSecs newYear1980.1 newYear1980.2 :=
  lxafsDateLx2unix_ne_recordSecs 0 validRecord_newYear1980

/-- It is read as 1 February. -/
theorem lxafsDateLx2unix_newYear1980 :
    ¬ ∀ (tz : ℤ) (d : FDate) (t : FTime), ValidRecord d t →
      -2 ^ 31 ≤ tz * 60 + recordSecs d t → tz * 60 + recordSecs d t < 2 ^ 31 →
      lxafsDateLx2unix tz d t = tz * 60 + recordSecs d t := by
  intro h
  have hsecs : recordSecs newYear1980.1 newYear1980.2 = 315532800 := by decide +kernel
  have hread := h 0 _ _ validRecord_newYear1980 (by rw [hsecs]; decide) (by rw [hsecs]; decide)
  rw [hsecs] at hread
  revert hread
  decide

end Reader

/-! ### The order of the records -/

/-- The fields of a record, the most significant first. -/
def recordFields (r : FDate × FTime) : List ℕ :=
  [r.1.year.toNat, r.1.month.toNat, r.1.day.toNat,
    r.2.hours.toNat, r.2.minutes.toNat, r.2.twosecs.toNat]

/-- The indices with which `lxafs_date_unix2lx` reads `lxafs_day_n` for a local time: those of the
loop, and the one before the month. -/
def dayNReads (secs : ℕ) : List ℤ :=
  let day := secs / 86400 - 3652
  let year := lxYear day
  let month := (lxMonth year (lxYearDay day)).2
  (if lxYearDay day = 59 ∧ year % 4 = 0 then []
    else (List.range (min (month + 1) 12)).map (↑)) ++ [(month : ℤ) - 1]

section Order

variable {tz secs secs' : ℤ} {s s' : ℕ}

theorem lxTime_fields (secs : ℕ) : (lxTime secs).hours.toNat = secs / 3600 % 24 ∧
    (lxTime secs).minutes.toNat = secs / 60 % 60 ∧ (lxTime secs).twosecs.toNat = secs % 60 / 2 := by
  simp only [lxTime, BitVec.toNat_ofNat]
  omega

theorem date_lt_iff (h : begin1980 ≤ s) (h' : s < 2 ^ 31) (k : begin1980 ≤ s') (k' : s' < 2 ^ 31) :
    s / 86400 < s' / 86400 ↔ (lxDate s).year.toNat < (lxDate s').year.toNat ∨
      (lxDate s).year.toNat = (lxDate s').year.toNat ∧
        ((lxDate s).month.toNat < (lxDate s').month.toNat ∨
          (lxDate s).month.toNat = (lxDate s').month.toNat ∧
            (lxDate s).day.toNat < (lxDate s').day.toNat) := by
  obtain ⟨hvalid, hnumber, -⟩ := lxDate_date h h'
  obtain ⟨kvalid, knumber, -⟩ := lxDate_date k k'
  have hepoch : 1970 ≤ (writtenDate (lxDate s)).year := by simp only [writtenDate]; omega
  have kepoch : 1970 ≤ (writtenDate (lxDate s')).year := by simp only [writtenDate]; omega
  have hlt := Calendar.Date.number_lt_iff hvalid kvalid hepoch kepoch
  rw [hnumber, knumber] at hlt
  simpa [writtenDate] using hlt

/-- The records have the order of the two-second slots. -/
theorem recordFields_lt_iff (h : begin1980 ≤ s) (h' : s < 2 ^ 31) (k : begin1980 ≤ s')
    (k' : s' < 2 ^ 31) :
    recordFields (lxDate s, lxTime s) < recordFields (lxDate s', lxTime s') ↔ s / 2 < s' / 2 := by
  have hlt := date_lt_iff h h' k k'
  have hgt := date_lt_iff k k' h h'
  obtain ⟨hh, hm, ht⟩ := lxTime_fields s
  obtain ⟨kh, km, kt⟩ := lxTime_fields s'
  simp only [recordFields, List.cons_lt_cons_iff, hh, hm, ht, kh, km, kt,
    List.lt_irrefl, and_false, or_false]
  rcases lt_trichotomy (s / 86400) (s' / 86400) with hday | hday | hday
  · have := hlt.1 hday
    exact iff_of_true (by omega) (by omega)
  · have hnot := mt hlt.2 (by omega)
    have hnot' := mt hgt.2 (by omega)
    omega
  · have := hgt.1 hday
    exact iff_of_false (by omega) (by omega)

/-- The local time, if it is an `int`. -/
theorem localSecs_eq (hlo : -2 ^ 31 ≤ secs - 60 * tz) (hhi : secs - 60 * tz < 2 ^ 31) :
    (localSecs tz secs : ℤ) = max 315532800 (secs - 60 * tz) := by
  obtain ⟨hmod, hge, hlt⟩ := asCInt_spec (secs - tz * 60)
  unfold localSecs begin1980
  dsimp only
  split_ifs <;> omega

/-- Every month that is written is one, and the table is not left. -/
theorem unix2lx_month (tz secs : ℤ) :
    1 ≤ (lxafsDateUnix2lx tz secs).1.month.toNat ∧
      (lxafsDateUnix2lx tz secs).1.month.toNat ≤ 12 ∧
      ∀ i ∈ dayNReads (localSecs tz secs), 0 ≤ i ∧ i < lxafsDayN.length := by
  have hge := begin1980_le_localSecs tz secs
  have hlt := localSecs_lt tz secs
  obtain ⟨-, h₁, h₂⟩ := lxDate_toNat hge hlt
  refine ⟨h₁, h₂, ?_⟩
  unfold begin1980 at hge
  have hday : localSecs tz secs / 86400 - 3652 < 365000 := by omega
  have hadd := lxYearDay_add hday
  obtain ⟨m₁, m₂, -⟩ := lxMonth_spec (Calendar.isLeap_1980 (by omega)) (lxYearDay_lt hday)
  intro i hi
  have hlen : lxafsDayN.length = 16 := rfl
  simp only [dayNReads, List.mem_append, List.mem_singleton] at hi
  rcases hi with hi | rfl
  · split_ifs at hi
    · cases hi
    · obtain ⟨n, hn, rfl⟩ := List.mem_map.1 hi
      rw [List.mem_range] at hn
      omega
  · omega

/-- **The records have the order of the times** for which the local time is an `int`, and are the
same just for those in one slot, where all times before 1980 count as its beginning. -/
theorem unix2lx_mono (h : secs ≤ secs') (hlo : -2 ^ 31 ≤ secs - 60 * tz)
    (hhi : secs' - 60 * tz < 2 ^ 31) :
    recordFields (lxafsDateUnix2lx tz secs) ≤ recordFields (lxafsDateUnix2lx tz secs') ∧
      (recordFields (lxafsDateUnix2lx tz secs) = recordFields (lxafsDateUnix2lx tz secs') ↔
        max 315532800 (secs - 60 * tz) / 2 = max 315532800 (secs' - 60 * tz) / 2) ∧
      ∀ t : ℤ, 1 ≤ (lxafsDateUnix2lx tz t).1.month.toNat ∧
        (lxafsDateUnix2lx tz t).1.month.toNat ≤ 12 ∧
        ∀ i ∈ dayNReads (localSecs tz t), 0 ≤ i ∧ i < lxafsDayN.length := by
  have heq := localSecs_eq hlo (by omega)
  have heq' := localSecs_eq (show -2 ^ 31 ≤ secs' - 60 * tz by omega) hhi
  have hlt := recordFields_lt_iff (begin1980_le_localSecs tz secs) (localSecs_lt tz secs)
    (begin1980_le_localSecs tz secs') (localSecs_lt tz secs')
  have hgt := recordFields_lt_iff (begin1980_le_localSecs tz secs') (localSecs_lt tz secs')
    (begin1980_le_localSecs tz secs) (localSecs_lt tz secs)
  have hle : recordFields (lxafsDateUnix2lx tz secs) ≤ recordFields (lxafsDateUnix2lx tz secs') :=
    not_lt.1 fun hfields => by
      have := hgt.1 hfields
      omega
  refine ⟨hle, ?_, unix2lx_month tz⟩
  rw [← heq, ← heq']
  constructor
  · intro hfields
    have hnot : ¬ localSecs tz secs / 2 < localSecs tz secs' / 2 := fun hslot =>
      (hlt.2 hslot).ne hfields
    omega
  · intro hslot
    have hnot : ¬ recordFields (lxafsDateUnix2lx tz secs) <
        recordFields (lxafsDateUnix2lx tz secs') := fun hfields => by
      have := hlt.1 hfields
      omega
    exact le_antisymm hle (not_lt.1 hnot)

/-- `unix2lx_mono` for the two sides of a leap day. -/
theorem unix2lx_mono_leapDay :
    recordFields (lxafsDateUnix2lx 0 1078099199) ≤ recordFields (lxafsDateUnix2lx 0 1078099200) :=
  (unix2lx_mono (by decide) (by decide) (by decide)).1

/-- A time that is set to the beginning of 1980 and one in its first slot have the same record, and
a time whose local time is past the end of `int` has that record too. -/
theorem unix2lx_not_mono :
    ¬ (∀ tz secs secs' : ℤ, 315532800 ≤ secs → secs ≤ secs' → secs' < 2 ^ 31 →
      recordFields (lxafsDateUnix2lx tz secs) = recordFields (lxafsDateUnix2lx tz secs') →
      (secs - 60 * tz) / 2 = (secs' - 60 * tz) / 2 ∨
        secs - 60 * tz < 315532800 ∧ secs' - 60 * tz < 315532800) ∧
    ¬ ∀ tz secs secs' : ℤ, 315532800 ≤ secs → secs ≤ secs' → secs' < 2 ^ 31 →
      recordFields (lxafsDateUnix2lx tz secs) ≤ recordFields (lxafsDateUnix2lx tz secs') := by
  constructor
  · intro h
    have := h 1 315532800 315532861 (by decide) (by decide) (by decide) (by decide +kernel)
    revert this
    decide
  · intro h
    have := h (-1) 2147483000 2147483647 (by decide) (by decide) (by decide)
    revert this
    decide +kernel

end Order

end LxApi32
