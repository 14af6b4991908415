import Mastermind.Schedule.CronNext

/-!
# The execution window of a schedule

`clampToExecutionWindow` of `cron-next.ts` moves a run into the hours in which it may happen. For a
window within a day it does so exactly: `clamps_at_iff` says that it finds the earliest instant not
before the run whose time of day lies in the window. For a window past midnight, which ends before
it starts, it goes on to the start on the next day from everywhere, even from inside the window.
-/

namespace Mastermind

namespace Text

/-- `Number(s)` of a text of digits, and `NaN` otherwise. Other spellings of numbers, which no time
of day has, are left out. -/
def toNumber (s : Text) : Option ℤ := if s.all isDigit then some (number s) else none

/-- `s.split(':').map(Number)`, of which the first two are used. -/
def hoursAndMinutes (s : Text) : Option (ℤ × ℤ) :=
  match s.splitOn 58 with
  | hours :: minutes :: _ => do
    let h ← toNumber hours
    let m ← toNumber minutes
    pure (h, m)
  | _ => none

end Text

namespace Cron

/-- `clampToExecutionWindow`, where `none` is an invalid date. No comparison holds of `NaN`. -/
def clampToExecutionWindow (zone : TimeZone) (date : ℤ) (windowStart windowEnd : Option Text) :
    Option ℤ :=
  match windowStart, windowEnd with
  | none, _ => some date
  | _, none => some date
  | some windowStart, some windowEnd =>
    if windowStart = [] ∨ windowEnd = [] then some date
    else
      let startMins := windowStart.hoursAndMinutes.map fun s => s.1 * 60 + s.2
      let endMins := windowEnd.hoursAndMinutes.map fun e => e.1 * 60 + e.2
      let nowMins := zone.getHours date * 60 + zone.getMinutes date
      let nextDay := windowStart.hoursAndMinutes.map fun s =>
        zone.setHours (zone.setDate date (zone.getDate date + 1)) s.1 s.2 0 0
      match startMins, endMins with
      | some startMins, some endMins =>
        if startMins ≤ endMins ∧ nowMins ≥ startMins ∧ nowMins ≤ endMins then some date
        else if startMins ≤ endMins ∧ nowMins < startMins then
          windowStart.hoursAndMinutes.map fun s => zone.setHours date s.1 s.2 0 0
        else nextDay
      | _, _ => nextDay

/-- A time of the day. -/
structure TimeOfDay where
  hour : Fin 24
  minute : Fin 60

namespace TimeOfDay

/-- A number below a hundred in two digits. -/
def twoDigits (n : ℕ) : Text := [UInt16.ofNat (48 + n / 10), UInt16.ofNat (48 + n % 10)]

/-- The time in the form `HH:mm`. -/
def text (x : TimeOfDay) : Text := twoDigits x.hour ++ 58 :: twoDigits x.minute

/-- The whole minutes since midnight. -/
def minutes (x : TimeOfDay) : ℤ := x.hour * 60 + x.minute

/-- The text of a time of day reads back. -/
theorem hoursAndMinutes_text (x : TimeOfDay) :
    x.text.hoursAndMinutes = some ((x.hour : ℤ), (x.minute : ℤ)) := by
  have hhour : ∀ h : Fin 24, (58 : UInt16) ∉ twoDigits h ∧
      Text.toNumber (twoDigits h) = some (h : ℤ) := by decide
  have hminute : ∀ m : Fin 60, (58 : UInt16) ∉ twoDigits m ∧
      Text.toNumber (twoDigits m) = some (m : ℤ) := by decide
  obtain ⟨hplain, hnumber⟩ := hhour x.hour
  obtain ⟨hplain', hnumber'⟩ := hminute x.minute
  unfold Text.hoursAndMinutes text
  rw [List.splitOn_append_cons_self_of_not_mem hplain, List.splitOn_eq_singleton hplain']
  dsimp only
  rw [hnumber, hnumber']
  rfl

end TimeOfDay

/-- The time of the day at an instant, in whole minutes. -/
def minuteOfDay (zone : TimeZone) (t : ℤ) : ℤ := zone.getHours t * 60 + zone.getMinutes t

/-- The minute of the day lies in the window, which goes past midnight if it starts later than it
ends. -/
def InWindow (first last : TimeOfDay) (minute : ℤ) : Prop :=
  if first.minutes ≤ last.minutes then first.minutes ≤ minute ∧ minute ≤ last.minutes
  else first.minutes ≤ minute ∨ minute ≤ last.minutes

/-- The date that a window makes of an instant. -/
def clamped (zone : TimeZone) (first last : TimeOfDay) (t : ℤ) : Option ℤ :=
  clampToExecutionWindow zone t (some first.text) (some last.text)

/-- The instant becomes the earliest one in the window from it on, which stays where it is, and no
later instant becomes an earlier one. -/
def ClampsAt (zone : TimeZone) (first last : TimeOfDay) (t : ℤ) : Prop :=
  ∃ r, clamped zone first last t = some r ∧
    IsLeast {u | t ≤ u ∧ InWindow first last (minuteOfDay zone u)} r ∧
      clamped zone first last r = some r ∧
        ∀ t' r', t ≤ t' → clamped zone first last t' = some r' → r ≤ r'

section Fixed

variable (ahead : ℤ) (first last : TimeOfDay) (t : ℤ)

/-- The minute of the day in a zone with a fixed offset. -/
theorem minuteOfDay_fixed :
    minuteOfDay (.fixed ahead) t = (t + ahead) % Calendar.msPerDay / Calendar.msPerMinute := by
  show (t + ahead) / 3600000 % 24 * 60 + (t + ahead) / 60000 % 60 = (t + ahead) % 86400000 / 60000
  omega

/-- The start of a window on the day of an instant, in a zone with a fixed offset. -/
theorem setHours_fixed :
    (TimeZone.fixed ahead).setHours t first.hour first.minute 0 0 =
      t - (t + ahead) % Calendar.msPerDay + first.minutes * Calendar.msPerMinute := by
  show (t + ahead) / 86400000 * 86400000 + (first.hour * 3600000 + first.minute * 60000 + 0 * 1000 + 0) -
    ahead = t - (t + ahead) % 86400000 + (first.hour * 60 + first.minute) * 60000
  omega

/-- The start of a window on the next day, in a zone with a fixed offset. -/
theorem nextDay_fixed :
    (TimeZone.fixed ahead).setHours ((TimeZone.fixed ahead).setDate t
      ((TimeZone.fixed ahead).getDate t + 1)) first.hour first.minute 0 0 =
      t - (t + ahead) % Calendar.msPerDay + Calendar.msPerDay +
        first.minutes * Calendar.msPerMinute := by
  have hdate : (TimeZone.fixed ahead).setDate t ((TimeZone.fixed ahead).getDate t + 1) =
      t + Calendar.msPerDay := by
    rw [TimeZone.setDate_getDate_add]
    show t + ahead + 1 * 86400000 - ahead = t + 86400000
    omega
  rw [hdate, setHours_fixed]
  simp only [Calendar.msPerDay]
  omega

/-- What a window makes of an instant, in a zone with a fixed offset. -/
theorem clamped_fixed :
    clamped (.fixed ahead) first last t = some
      (if first.minutes ≤ last.minutes ∧ first.minutes ≤ minuteOfDay (.fixed ahead) t ∧
        minuteOfDay (.fixed ahead) t ≤ last.minutes then t
      else if first.minutes ≤ last.minutes ∧ minuteOfDay (.fixed ahead) t < first.minutes then
        t - (t + ahead) % Calendar.msPerDay + first.minutes * Calendar.msPerMinute
      else
        t - (t + ahead) % Calendar.msPerDay + Calendar.msPerDay +
          first.minutes * Calendar.msPerMinute) := by
  have hgiven : ¬(first.text = [] ∨ last.text = []) := by
    simp [TimeOfDay.text]
  unfold clamped clampToExecutionWindow
  dsimp only
  rw [if_neg hgiven, TimeOfDay.hoursAndMinutes_text, TimeOfDay.hoursAndMinutes_text]
  simp only [Option.map_some]
  rw [nextDay_fixed, setHours_fixed]
  unfold TimeOfDay.minutes minuteOfDay
  split_ifs <;> rfl

/-- A time of the day is one of the minutes of a day. -/
theorem TimeOfDay.minutes_bounds (x : TimeOfDay) : 0 ≤ x.minutes ∧ x.minutes < 1440 := by
  have hhour := x.hour.isLt
  have hminute := x.minute.isLt
  unfold TimeOfDay.minutes
  omega

/-- The minute of the day at which a window starts. -/
theorem minuteOfDay_start (k : ℤ) :
    minuteOfDay (.fixed ahead)
      (t - (t + ahead) % Calendar.msPerDay + k * Calendar.msPerDay +
        first.minutes * Calendar.msPerMinute) = first.minutes := by
  obtain ⟨hnonneg, hlt⟩ := first.minutes_bounds
  rw [minuteOfDay_fixed]
  simp only [Calendar.msPerDay, Calendar.msPerMinute]
  omega

end Fixed

/-- A window within a day gives the earliest instant in it, in a zone with a fixed offset. -/
theorem clamped_least (ahead : ℤ) {first last : TimeOfDay} (h : first.minutes ≤ last.minutes)
    (t : ℤ) :
    ∃ r, clamped (.fixed ahead) first last t = some r ∧
      IsLeast {u | t ≤ u ∧ InWindow first last (minuteOfDay (.fixed ahead) u)} r := by
  obtain ⟨hfirst, hfirst'⟩ := first.minutes_bounds
  have hwindow (m : ℤ) : InWindow first last m ↔ first.minutes ≤ m ∧ m ≤ last.minutes := by
    unfold InWindow
    rw [if_pos h]
  have hday := minuteOfDay_fixed ahead t
  simp only [Calendar.msPerDay, Calendar.msPerMinute] at hday
  refine ⟨_, clamped_fixed ahead first last t, ?_⟩
  split_ifs with hinside hbefore
  · exact ⟨⟨le_rfl, (hwindow _).mpr hinside.2⟩, fun u hu => hu.1⟩
  · -- the window starts later on the day
    have hstart := minuteOfDay_start ahead first t 0
    rw [zero_mul, add_zero] at hstart
    refine ⟨⟨?_, (hwindow _).mpr (hstart.symm ▸ ⟨le_rfl, h⟩)⟩, fun u hu => ?_⟩
    · simp only [Calendar.msPerDay, Calendar.msPerMinute]
      omega
    · have hu' := (hwindow _).mp hu.2
      have hle := hu.1
      rw [minuteOfDay_fixed] at hu'
      simp only [Calendar.msPerDay, Calendar.msPerMinute] at hu' ⊢
      omega
  · -- the window is over for the day
    have hafter : last.minutes < minuteOfDay (.fixed ahead) t := by omega
    have hstart := minuteOfDay_start ahead first t 1
    rw [one_mul] at hstart
    refine ⟨⟨?_, (hwindow _).mpr (hstart.symm ▸ ⟨le_rfl, h⟩)⟩, fun u hu => ?_⟩
    · simp only [Calendar.msPerDay, Calendar.msPerMinute]
      omega
    · have hu' := (hwindow _).mp hu.2
      have hle := hu.1
      rw [minuteOfDay_fixed] at hu'
      simp only [Calendar.msPerDay, Calendar.msPerMinute] at hu' ⊢
      omega

/-- In a zone with a fixed offset, a window is treated right at an instant if and only if it does not
end before it starts. -/
theorem clamps_at_iff (ahead : ℤ) (first last : TimeOfDay) (t : ℤ) :
    ClampsAt (.fixed ahead) first last t ↔ first.minutes ≤ last.minutes := by
  constructor
  · rintro ⟨r, hr, -, hstays, -⟩
    by_contra hwrap
    have hfirst := first.minutes_bounds.1
    -- the next day comes once more
    rw [clamped_fixed, if_neg fun h => hwrap h.1, if_neg fun h => hwrap h.1] at hr hstays
    have hnext := Option.some.inj hr
    have hsame := Option.some.inj hstays
    simp only [Calendar.msPerDay, Calendar.msPerMinute] at hnext hsame
    omega
  · intro hwithin
    obtain ⟨r, hr, hleast⟩ := clamped_least ahead hwithin t
    refine ⟨r, hr, hleast, ?_, fun t' r' hle hr' => ?_⟩
    · -- what is in the window stays
      have hinside := hleast.1.2
      unfold InWindow at hinside
      rw [if_pos hwithin] at hinside
      rw [clamped_fixed, if_pos ⟨hwithin, hinside⟩]
    · obtain ⟨later, hlater, hleast'⟩ := clamped_least ahead hwithin t'
      obtain rfl := Option.some.inj (hr'.symm.trans hlater)
      exact hleast.2 ⟨hle.trans hleast'.1.1, hleast'.1.2⟩

/-- Three in the morning lies in the window from ten in the evening to four in the morning, and is
moved to the evening of the next day. -/
theorem night_window_skipped :
    ¬∀ (ahead : ℤ) (first last : TimeOfDay) (t : ℤ), ClampsAt (.fixed ahead) first last t := by
  intro hall
  obtain ⟨r, hr, hleast, -, -⟩ := hall 0 ⟨22, 0⟩ ⟨4, 0⟩ 10800000
  have hmoved : clamped (.fixed 0) ⟨22, 0⟩ ⟨4, 0⟩ 10800000 = some 165600000 := by decide +kernel
  obtain rfl := Option.some.inj (hr.symm.trans hmoved)
  have hinside : InWindow ⟨22, 0⟩ ⟨4, 0⟩ (minuteOfDay (.fixed 0) 10800000) := by
    unfold InWindow
    decide
  exact absurd (hleast.2 ⟨le_rfl, hinside⟩) (by decide)

end Cron

end Mastermind
