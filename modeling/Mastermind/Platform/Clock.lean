import Mathlib

/-!
# Dates of JavaScript

An instant is a number of milliseconds since the start of 1970 in UTC, without the bounds of a
`Date`. A time zone says by how much local time is ahead at an instant, and which instant a local
time denotes. The getters read the calendar fields of the local time, by the Gregorian calendar
without an end in both directions; the setters replace fields of the local time and read the result
back as an instant.
-/

namespace Mastermind

namespace Calendar

/-- The milliseconds of a minute. -/
abbrev msPerMinute : ℤ := 60000

/-- The milliseconds of a day. -/
abbrev msPerDay : ℤ := 86400000

/-- The number of the day of a time, counted from the start of 1970. -/
def day (t : ℤ) : ℤ := t / msPerDay

/-- The day on which a year starts: every fourth year has a day more, of the hundredth years only
the four-hundredth ones. -/
def dayFromYear (year : ℤ) : ℤ :=
  365 * (year - 1970) + (year - 1969) / 4 - (year - 1901) / 100 + (year - 1601) / 400

/-- The year of a day: the mean length of a year misses it by one at most. -/
def yearFromDay (day : ℤ) : ℤ :=
  let year := 1970 + day * 400 / 146097
  if dayFromYear (year + 1) ≤ day then year + 1
  else if day < dayFromYear year then year - 1
  else year

/-- One in a leap year, zero in another. -/
def inLeapYear (year : ℤ) : ℤ := dayFromYear (year + 1) - dayFromYear year - 365

/-- The days of a year on which its months start, counted from zero. -/
def monthStarts (leap : ℤ) : List ℤ :=
  [0, 31, 59 + leap, 90 + leap, 120 + leap, 151 + leap, 181 + leap, 212 + leap, 243 + leap,
    273 + leap, 304 + leap, 334 + leap]

/-- The starts of the months up to that of a day. -/
def monthsBegun (day : ℤ) : List ℤ :=
  let year := yearFromDay day
  (monthStarts (inLeapYear year)).filter fun start => start ≤ day - dayFromYear year

/-- The month of a time, from zero. -/
def monthFromTime (t : ℤ) : ℤ := (monthsBegun (day t)).length - 1

/-- The day of the month of a time, from one. -/
def dateFromTime (t : ℤ) : ℤ :=
  day t - dayFromYear (yearFromDay (day t)) - (monthsBegun (day t)).getLastD 0 + 1

/-- The day of the week of a time, from Sunday. -/
def weekDay (t : ℤ) : ℤ := (day t + 4) % 7

/-- The hour of a time. -/
def hourFromTime (t : ℤ) : ℤ := t / 3600000 % 24

/-- The minute of a time. -/
def minFromTime (t : ℤ) : ℤ := t / msPerMinute % 60

/-- The second of a time. -/
def secFromTime (t : ℤ) : ℤ := t / 1000 % 60

/-- The millisecond of a time. -/
def msFromTime (t : ℤ) : ℤ := t % 1000

/-- The time of a day that four fields make. -/
def makeTime (hour min sec ms : ℤ) : ℤ := hour * 3600000 + min * msPerMinute + sec * 1000 + ms

/-- The time that a day and a time of the day make. -/
def makeDate (day time : ℤ) : ℤ := day * msPerDay + time

/-- The day of a month of a year, months from zero and days from one: a month out of range moves the
year. -/
def makeDay (year month date : ℤ) : ℤ :=
  let year := year + month / 12
  dayFromYear year + (monthStarts (inLeapYear year)).getD (month % 12).toNat 0 + date - 1

/-- A day lies in its year. -/
theorem yearFromDay_spec (day : ℤ) :
    dayFromYear (yearFromDay day) ≤ day ∧ day < dayFromYear (yearFromDay day + 1) := by
  simp only [yearFromDay]
  split_ifs with hnext hlast
  · exact ⟨hnext, by unfold dayFromYear; omega⟩
  · exact ⟨by unfold dayFromYear; omega, by rw [sub_add_cancel]; exact hlast⟩
  · exact ⟨not_lt.mp hlast, not_le.mp hnext⟩

/-- A year has a day more than 365, or not. -/
theorem inLeapYear_cases (year : ℤ) : inLeapYear year = 0 ∨ inLeapYear year = 1 := by
  unfold inLeapYear dayFromYear
  omega

/-- A time with its second and millisecond cleared. -/
theorem makeDate_minute (t : ℤ) :
    makeDate (day t) (makeTime (hourFromTime t) (minFromTime t) 0 0) = t - t % msPerMinute := by
  simp only [makeDate, makeTime, day, hourFromTime, minFromTime, msPerDay, msPerMinute]
  omega

/-- A time with its minute moved on. -/
theorem makeDate_add_minute (t n : ℤ) :
    makeDate (day t) (makeTime (hourFromTime t) (minFromTime t + n) (secFromTime t)
      (msFromTime t)) = t + n * msPerMinute := by
  simp only [makeDate, makeTime, day, hourFromTime, minFromTime, secFromTime, msFromTime,
    msPerDay, msPerMinute]
  omega

/-- Of a list in order, what is up to a number is a first part. -/
theorem filter_le_eq_take {l : List ℤ} (h : l.Pairwise (· < ·)) (d : ℤ) :
    ∃ n ≤ l.length, (l.filter fun x => x ≤ d) = l.take n := by
  induction l with
  | nil => exact ⟨0, le_rfl, rfl⟩
  | cons a l ih =>
    obtain ⟨hfirst, hrest⟩ := List.pairwise_cons.mp h
    by_cases ha : a ≤ d
    · obtain ⟨n, hn, htake⟩ := ih hrest
      refine ⟨n + 1, Nat.succ_le_succ hn, ?_⟩
      rw [List.filter_cons_of_pos (by simpa using ha), htake, List.take_succ_cons]
    · refine ⟨0, Nat.zero_le _, ?_⟩
      rw [List.take_zero, List.filter_eq_nil_iff]
      intro x hx
      rcases List.mem_cons.mp hx with rfl | hx
      · simpa using ha
      · have := hfirst x hx
        simp only [decide_eq_true_eq]
        omega

/-- The months of a year start one after the other. -/
theorem monthStarts_pairwise (year : ℤ) : (monthStarts (inLeapYear year)).Pairwise (· < ·) := by
  rcases inLeapYear_cases year with hleap | hleap
  · rw [hleap]
    decide
  · rw [hleap]
    decide

/-- The months up to that of a day are the first ones of its year, and there is one. -/
theorem monthsBegun_spec (day : ℤ) :
    ∃ n < 12, (monthsBegun day).length = n + 1 ∧
      (monthsBegun day).getLastD 0 =
        (monthStarts (inLeapYear (yearFromDay day))).getD n 0 := by
  have hday := (yearFromDay_spec day).1
  obtain ⟨n, hn, htake⟩ := filter_le_eq_take (monthStarts_pairwise (yearFromDay day))
    (day - dayFromYear (yearFromDay day))
  have hbegun : monthsBegun day = (monthStarts (inLeapYear (yearFromDay day))).take n := htake
  have hlength : (monthStarts (inLeapYear (yearFromDay day))).length = 12 := rfl
  -- the first month has begun
  have hfirst : (0 : ℤ) ∈ monthsBegun day := by
    unfold monthsBegun
    refine List.mem_filter.mpr ⟨List.mem_cons_self, ?_⟩
    simpa using hday
  cases n with
  | zero =>
    rw [hbegun, List.take_zero] at hfirst
    exact absurd hfirst List.not_mem_nil
  | succ n =>
    refine ⟨n, by omega, ?_, ?_⟩
    · rw [hbegun, List.length_take]
      omega
    · rw [hbegun, List.getLastD_eq_getLast?, List.getLast?_take, if_neg (Nat.succ_ne_zero n),
        Nat.add_sub_cancel, List.getD_eq_getElem?_getD, List.getElem?_eq_getElem (by omega)]
      rfl

/-- Later years start later. -/
theorem dayFromYear_strictMono : StrictMono dayFromYear := by
  refine strictMono_int_of_lt_succ fun year => ?_
  unfold dayFromYear
  omega

/-- The year of a day is the one in which it lies. -/
theorem yearFromDay_eq {year d : ℤ} (hfirst : dayFromYear year ≤ d)
    (hlast : d < dayFromYear (year + 1)) : yearFromDay d = year := by
  obtain ⟨hspec, hspec'⟩ := yearFromDay_spec d
  have hle := dayFromYear_strictMono.lt_iff_lt.mp (hspec.trans_lt hlast)
  have hge := dayFromYear_strictMono.lt_iff_lt.mp (hfirst.trans_lt hspec')
  omega

/-- A month starts with its first day. -/
theorem dateFromTime_monthStart {year start t : ℤ} (hstart : start ∈ monthStarts (inLeapYear year))
    (ht : day t = dayFromYear year + start) : dateFromTime t = 1 := by
  have hbounds : ∀ leap : ℤ, leap = 0 ∨ leap = 1 → ∀ s ∈ monthStarts leap,
      0 ≤ s ∧ s < 365 ∧ ((monthStarts leap).filter fun x => x ≤ s).getLastD 0 = s := by
    rintro leap (rfl | rfl) <;> decide
  obtain ⟨hnonneg, hlt, hlast⟩ := hbounds _ (inLeapYear_cases year) start hstart
  have hleap : dayFromYear (year + 1) = dayFromYear year + 365 + inLeapYear year := by
    unfold inLeapYear
    omega
  have hyear : yearFromDay (day t) = year := by
    rcases inLeapYear_cases year with h | h <;> exact yearFromDay_eq (by omega) (by omega)
  unfold dateFromTime monthsBegun
  dsimp only
  rw [hyear, ht, add_sub_cancel_left, hlast]
  omega

/-- A time with its day moved on. -/
theorem makeDate_add_day (t n : ℤ) :
    makeDate (makeDay (yearFromDay (day t)) (monthFromTime t) (dateFromTime t + n)) (t % msPerDay) =
      t + n * msPerDay := by
  obtain ⟨k, hk, hlength, hlast⟩ := monthsBegun_spec (day t)
  have hmonth : monthFromTime t = k := by
    unfold monthFromTime
    rw [hlength]
    push_cast
    ring
  have hyear : (k : ℤ) / 12 = 0 := by omega
  have hindex : ((k : ℤ) % 12).toNat = k := by omega
  unfold makeDay dateFromTime
  rw [hmonth, hyear]
  dsimp only
  rw [hindex, add_zero, hlast]
  unfold makeDate day
  generalize dayFromYear (yearFromDay (t / msPerDay)) = year
  generalize (monthStarts (inLeapYear (yearFromDay (t / msPerDay)))).getD k 0 = month
  simp only [msPerDay]
  omega

end Calendar

open Calendar

/-- A time zone: the local time at every instant, and the instant of every local time. -/
structure TimeZone where
  /-- By how many milliseconds local time is ahead of UTC. -/
  offset : ℤ → ℤ
  /-- The instant that a local time denotes. -/
  utc : ℤ → ℤ
  /-- A local time that occurs denotes its first occurrence. -/
  utc_first : ∀ t, IsLeast {u | u + offset u = t + offset t} (utc (t + offset t))
  /-- A local time that is skipped is read with the offset before the transition. -/
  utc_skipped : ∀ time, (∀ t, t + offset t ≠ time) →
    ∃ last, IsGreatest {t | t + offset t < time} last ∧ utc time = time - offset last

namespace TimeZone

/-- The local time at an instant. -/
def localTime (zone : TimeZone) (t : ℤ) : ℤ := t + zone.offset t

/-- `d.getMonth()`. -/
def getMonth (zone : TimeZone) (t : ℤ) : ℤ := monthFromTime (zone.localTime t)

/-- `d.getDate()`. -/
def getDate (zone : TimeZone) (t : ℤ) : ℤ := dateFromTime (zone.localTime t)

/-- `d.getDay()`. -/
def getDay (zone : TimeZone) (t : ℤ) : ℤ := weekDay (zone.localTime t)

/-- `d.getHours()`. -/
def getHours (zone : TimeZone) (t : ℤ) : ℤ := hourFromTime (zone.localTime t)

/-- `d.getMinutes()`. -/
def getMinutes (zone : TimeZone) (t : ℤ) : ℤ := minFromTime (zone.localTime t)

/-- `d.setSeconds(sec, ms)`. -/
def setSeconds (zone : TimeZone) (t sec ms : ℤ) : ℤ :=
  let time := zone.localTime t
  zone.utc (makeDate (day time) (makeTime (hourFromTime time) (minFromTime time) sec ms))

/-- `d.setMinutes(min)`. -/
def setMinutes (zone : TimeZone) (t min : ℤ) : ℤ :=
  let time := zone.localTime t
  zone.utc (makeDate (day time) (makeTime (hourFromTime time) min (secFromTime time)
    (msFromTime time)))

/-- `d.setHours(hour, min, sec, ms)`. -/
def setHours (zone : TimeZone) (t hour min sec ms : ℤ) : ℤ :=
  zone.utc (makeDate (day (zone.localTime t)) (makeTime hour min sec ms))

/-- `d.setDate(date)`. -/
def setDate (zone : TimeZone) (t date : ℤ) : ℤ :=
  let time := zone.localTime t
  zone.utc (makeDate (makeDay (yearFromDay (day time)) (monthFromTime time) date)
    (time % msPerDay))

/-- The local minute that runs at an instant. -/
def localMinute (zone : TimeZone) (t : ℤ) : ℤ := zone.localTime t - zone.localTime t % msPerMinute

/-- The first occurrence of the local minute after the one that runs at an instant, counted from the
first occurrence of the latter. -/
def nextMinute (zone : TimeZone) (t : ℤ) : ℤ :=
  zone.utc (zone.localTime (zone.utc (zone.localMinute t)) + msPerMinute)

/-- The zone whose local time is always ahead by the same. -/
def fixed (ahead : ℤ) : TimeZone where
  offset _ := ahead
  utc time := time - ahead
  utc_first t := by
    constructor
    · show t + ahead - ahead + ahead = t + ahead
      omega
    · intro u (hu : u + ahead = t + ahead)
      omega
  utc_skipped time hskipped := absurd (Int.sub_add_cancel time ahead) (hskipped (time - ahead))

/-- The zone whose clock is put back by an hour at the start of 1970. -/
def fallBack : TimeZone where
  offset t := if t < 0 then 3600000 else 0
  utc time := if time < 3600000 then time - 3600000 else time
  utc_first t := by
    constructor
    · show _ + _ = _
      split_ifs <;> omega
    · intro u (hu : u + _ = _)
      split_ifs at hu ⊢ <;> omega
  utc_skipped time hskipped := by
    have hearly := hskipped (time - 3600000)
    have hlate := hskipped time
    split_ifs at hearly hlate <;> omega

variable (zone : TimeZone) (t : ℤ)

/-- Clearing the seconds goes to the first occurrence of the minute. -/
theorem setSeconds_zero :
    zone.setSeconds t 0 0 = zone.utc (zone.localMinute t) :=
  congrArg zone.utc (makeDate_minute _)

/-- Setting the minute after goes to the first occurrence of the local time a minute later. -/
theorem setMinutes_getMinutes_add (n : ℤ) :
    zone.setMinutes t (zone.getMinutes t + n) = zone.utc (zone.localTime t + n * msPerMinute) :=
  congrArg zone.utc (makeDate_add_minute _ n)

/-- Setting the day after the one that runs goes on by the length of a day. -/
theorem setDate_getDate_add (n : ℤ) :
    zone.setDate t (zone.getDate t + n) = zone.utc (zone.localTime t + n * msPerDay) :=
  congrArg zone.utc (makeDate_add_day _ n)

/-- In a zone with a fixed offset a local time occurs once. -/
theorem utc_of_fixed {zone : TimeZone} {ahead : ℤ} (hfixed : ∀ t, zone.offset t = ahead)
    (time : ℤ) : zone.utc time = time - ahead := by
  have hocc := (zone.utc_first (time - ahead)).1
  have hsame : zone.utc (time - ahead + zone.offset (time - ahead)) +
      zone.offset (zone.utc (time - ahead + zone.offset (time - ahead))) =
      time - ahead + zone.offset (time - ahead) := hocc
  rw [hfixed, hfixed, sub_add_cancel] at hsame
  omega

/-- In a zone with a fixed offset of whole minutes the next minute is the next whole one of UTC. -/
theorem nextMinute_of_fixed {zone : TimeZone} {ahead : ℤ} (hfixed : ∀ t, zone.offset t = ahead)
    (hwhole : msPerMinute ∣ ahead) (t : ℤ) : zone.nextMinute t = t - t % msPerMinute + msPerMinute := by
  obtain ⟨minutes, rfl⟩ := hwhole
  have hmod : (t + msPerMinute * minutes) % msPerMinute = t % msPerMinute :=
    Int.add_mul_emod_self_left t msPerMinute minutes
  unfold nextMinute localMinute
  rw [utc_of_fixed hfixed, utc_of_fixed hfixed]
  unfold localTime
  rw [hfixed, hfixed, hmod]
  omega

end TimeZone

end Mastermind
