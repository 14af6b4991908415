import Mastermind.Schedule.EveryDays
import Mastermind.Schedule.Fields

/-!
# The interval of automatic backups

The page of the saves writes its interval as a cron expression (`minutesToCron`), whose steps start
afresh in each hour and on each day. The backups are as far apart as the page says if and only if
the interval divides the hour, or is of whole hours that divide the day (`backups_apart_iff`). All
the intervals that the page offers are such (`offered_divides`).
-/

namespace Mastermind.Cron.Backups

open Calendar Text

/-- `minutesToCron`. -/
def minutesToCron (minutes : ℕ) : Text :=
  if minutes < 60 then Text.of "*/" ++ digitsOf minutes ++ Text.of " * * * *"
  else if minutes = 60 then Text.of "0 * * * *"
  else if minutes < 1440 ∧ minutes % 60 = 0 then
    Text.of "0 */" ++ digitsOf (minutes / 60) ++ Text.of " * * *"
  else Text.of "0 0 * * *"

/-- The intervals that the page offers, but for none. -/
def offered : List ℕ := [15, 30, 60, 120, 360, 720, 1440]

/-- The interval divides the hour, or is of whole hours and divides the day. -/
def Divides (minutes : ℕ) : Prop := minutes < 60 ∧ minutes ∣ 60 ∨ 60 ∣ minutes ∧ minutes ∣ 1440

theorem offered_divides : ∀ minutes ∈ offered, Divides minutes := by
  simp only [offered, Divides]
  decide

/-- In a zone, each backup is so many minutes before the next one. -/
def Apart (zone : TimeZone) (minutes : ℕ) : Prop :=
  ∀ start k, ∃ run next, runs zone (minutesToCron minutes) start k = .ok run ∧
    runs zone (minutesToCron minutes) start (k + 1) = .ok next ∧
      next - run = minutes * msPerMinute

/-! ## Runs of a period -/

section Period

variable {cronExpression : Text} {fields : Fields} {ahead period : ℤ}

/-- Where the minutes that match are the multiples of a period, the next run is the next one of
them. -/
theorem getNextCronRun_multiple (hfields : parseFields cronExpression = .ok fields)
    (hpos : 0 < period) (hminute : msPerMinute ∣ period) (hday : period ≤ msPerDay)
    (hadmits : ∀ t, msPerMinute ∣ t + ahead →
      (fields.admits (.fixed ahead) t = true ↔ period ∣ t + ahead)) (start : ℤ) :
    getNextCronRun (.fixed ahead) cronExpression start =
      .ok (start + period - (start + ahead) % period) := by
  have hmod := Int.emod_nonneg (start + ahead) hpos.ne'
  have hlt := Int.emod_lt_of_pos (start + ahead) hpos
  set t := start + period - (start + ahead) % period with ht
  have hmultiple : period ∣ t + ahead := by
    have hsum : t + ahead = start + ahead - (start + ahead) % period + period := by
      rw [ht]
      ring
    rw [hsum]
    exact Int.dvd_add Int.dvd_self_sub_emod dvd_rfl
  have haligned := hminute.trans hmultiple
  have hmatch := (hadmits t haligned).mpr hmultiple
  have hlater : start < t := by omega
  obtain ⟨r, hr⟩ := exists_getNextCronRun hfields haligned hlater
    (by simp only [msPerDay] at hday ⊢; omega) hmatch
  rw [hr]
  have hleast := getNextCronRun_isLeast hfields hr
  have hle : r ≤ t := hleast.2 ⟨haligned, hlater, hmatch⟩
  -- no other multiple of the period is after the start and up to there
  obtain ⟨hraligned, hafter, hrmatch⟩ := hleast.1
  have hdvd : period ∣ t - r := by
    have hdiff := Int.dvd_sub hmultiple ((hadmits r hraligned).mp hrmatch)
    rwa [add_sub_add_right_eq_sub] at hdiff
  have hzero : t - r = 0 := Int.eq_zero_of_abs_lt_dvd hdvd (by rw [abs_of_nonneg] <;> omega)
  rw [show r = t by omega]

/-- All its runs. -/
theorem runs_multiple (hfields : parseFields cronExpression = .ok fields)
    (hpos : 0 < period) (hminute : msPerMinute ∣ period) (hday : period ≤ msPerDay)
    (hadmits : ∀ t, msPerMinute ∣ t + ahead →
      (fields.admits (.fixed ahead) t = true ↔ period ∣ t + ahead)) (start : ℤ) (k : ℕ) :
    runs (.fixed ahead) cronExpression start k =
      .ok (start + period - (start + ahead) % period + k * period) := by
  have hnext := getNextCronRun_multiple hfields hpos hminute hday hadmits
  induction k with
  | zero => rw [Nat.cast_zero, zero_mul, add_zero, runs, hnext]
  | succ k ih =>
    rw [runs_succ ih, hnext]
    -- a run is itself a multiple, so that the next one is a whole period later
    have hmultiple : (start + period - (start + ahead) % period + k * period + ahead) % period =
        0 := by
      have hsum : start + period - (start + ahead) % period + k * period + ahead =
          start + ahead - (start + ahead) % period + (k + 1) * period := by ring
      rw [hsum]
      exact Int.emod_eq_zero_of_dvd (Int.dvd_add Int.dvd_self_sub_emod (Dvd.intro_left _ rfl))
    rw [hmultiple]
    congr 1
    push_cast
    ring

/-- Two minutes that match bound how far the runs are apart. -/
theorem exists_runs_within (hfields : parseFields cronExpression = .ok fields) (t t' : ℤ)
    (hminute : msPerMinute ∣ t + ahead) (hminute' : msPerMinute ∣ t' + ahead)
    (hmatch : fields.admits (.fixed ahead) t = true)
    (hmatch' : fields.admits (.fixed ahead) t' = true) (hlater : t < t')
    (hnear : t' ≤ t + 366 * msPerDay) :
    ∃ next, runs (.fixed ahead) cronExpression (t - 1) 0 = .ok t ∧
      runs (.fixed ahead) cronExpression (t - 1) 1 = .ok next ∧ next ≤ t' := by
  obtain ⟨r, hr⟩ := exists_getNextCronRun hfields hminute (by omega : t - 1 < t)
    (by simp only [msPerDay]; omega) hmatch
  have hleast := getNextCronRun_isLeast hfields hr
  obtain rfl : r = t := le_antisymm (hleast.2 ⟨hminute, by omega, hmatch⟩) (by
    have hafter := hleast.1.2.1
    omega)
  obtain ⟨next, hnext⟩ := exists_getNextCronRun hfields hminute' hlater hnear hmatch'
  exact ⟨next, hr, (runs_succ (k := 0) hr).trans hnext,
    (getNextCronRun_isLeast hfields hnext).2 ⟨hminute', hlater, hmatch'⟩⟩

end Period

/-! ## The expressions -/

/-- The fields of steps of minutes. -/
def minuteSteps (minutes : ℕ) : Fields := ⟨some (steps 0 59 minutes), none, none, none, none⟩

/-- The fields of steps of hours. -/
def hourSteps (hours : ℕ) : Fields := ⟨some [0], some (steps 0 23 hours), none, none, none⟩

theorem parseFields_minuteSteps {minutes : ℕ} (hpos : 0 < minutes) (hlt : minutes < 60) :
    parseFields (minutesToCron minutes) = .ok (minuteSteps minutes) := by
  have hall : ∀ n : Fin 60, 0 < n.val →
      parseFields (minutesToCron n) = .ok (minuteSteps n) := by
    decide +kernel
  exact hall ⟨minutes, hlt⟩ hpos

theorem parseFields_hourSteps {hours : ℕ} (hpos : 1 < hours) (hlt : hours < 24) :
    parseFields (minutesToCron (60 * hours)) = .ok (hourSteps hours) := by
  have hall : ∀ n : Fin 24, 1 < n.val →
      parseFields (minutesToCron (60 * n)) = .ok (hourSteps n) := by
    decide +kernel
  exact hall ⟨hours, hlt⟩ hpos

theorem parseFields_hourly : parseFields (minutesToCron 60) =
    .ok ⟨some [0], none, none, none, none⟩ := by
  decide

/-- The expression of any other interval is that of a day. -/
theorem parseFields_daily {minutes : ℕ} (hlarge : 60 < minutes)
    (hother : ¬(minutes < 1440 ∧ minutes % 60 = 0)) :
    parseFields (minutesToCron minutes) = .ok ⟨some [0], some [0], none, none, none⟩ := by
  unfold minutesToCron
  rw [if_neg (by omega), if_neg (by omega), if_neg hother]
  decide

section Admits

variable {ahead t : ℤ}

theorem admits_minuteSteps {minutes : ℕ} (hpos : 0 < minutes) :
    (minuteSteps minutes).admits (.fixed ahead) t = true ↔
      (minutes : ℤ) ∣ (t + ahead) / msPerMinute % 60 := by
  have hmem : minFromTime (t + ahead) ∈ steps 0 59 minutes ↔
      (minutes : ℤ) ∣ (t + ahead) / msPerMinute % 60 := by
    rw [mem_steps (by omega), sub_zero]
    unfold minFromTime
    constructor
    · exact fun h => h.2.2
    · exact fun h => ⟨by omega, by omega, h⟩
  rw [← hmem]
  simp only [Fields.admits, minuteSteps, Field.admits, Bool.true_and, List.contains_eq_mem,
    decide_eq_true_eq]
  rfl

theorem admits_hourSteps {hours : ℕ} (hpos : 0 < hours) :
    (hourSteps hours).admits (.fixed ahead) t = true ↔
      (t + ahead) / msPerMinute % 60 = 0 ∧ (hours : ℤ) ∣ (t + ahead) / 3600000 % 24 := by
  have hmem : hourFromTime (t + ahead) ∈ steps 0 23 hours ↔
      (hours : ℤ) ∣ (t + ahead) / 3600000 % 24 := by
    rw [mem_steps (by omega), sub_zero]
    unfold hourFromTime
    constructor
    · exact fun h => h.2.2
    · exact fun h => ⟨by omega, by omega, h⟩
  rw [← hmem, and_comm]
  simp only [Fields.admits, hourSteps, Field.admits, Bool.true_and, List.contains_eq_mem,
    Bool.and_eq_true, decide_eq_true_eq, List.mem_singleton]
  rfl

theorem admits_hourly :
    Fields.admits ⟨some [0], none, none, none, none⟩ (.fixed ahead) t = true ↔
      (t + ahead) / msPerMinute % 60 = 0 := by
  simp only [Fields.admits, Field.admits, Bool.true_and, List.contains_eq_mem,
    decide_eq_true_eq, List.mem_singleton]
  rfl

theorem admits_daily :
    Fields.admits ⟨some [0], some [0], none, none, none⟩ (.fixed ahead) t = true ↔
      (t + ahead) / msPerMinute % 60 = 0 ∧ (t + ahead) / 3600000 % 24 = 0 := by
  rw [and_comm]
  simp only [Fields.admits, Field.admits, Bool.true_and, List.contains_eq_mem,
    Bool.and_eq_true, decide_eq_true_eq, List.mem_singleton]
  rfl

end Admits

/-! ## The policy -/

section Policy

variable {ahead : ℤ} {minutes : ℕ} {fields : Fields}

theorem dvd_emod_iff {a b n : ℤ} (h : a ∣ b) : a ∣ n % b ↔ a ∣ n := by
  rw [Int.dvd_iff_emod_eq_zero, Int.emod_emod_of_dvd n h, ← Int.dvd_iff_emod_eq_zero]

/-- The multiples of an interval, as minutes that match. -/
theorem apart_of_multiple (hpos : 0 < minutes) (hle : minutes ≤ 1440)
    (hfields : parseFields (minutesToCron minutes) = .ok fields)
    (hadmits : ∀ q : ℤ, fields.admits (.fixed ahead) (msPerMinute * q - ahead) = true ↔
      (minutes : ℤ) ∣ q) : Apart (.fixed ahead) minutes := by
  have hmultiple : ∀ t, msPerMinute ∣ t + ahead →
      (fields.admits (.fixed ahead) t = true ↔ minutes * msPerMinute ∣ t + ahead) := by
    rintro t ⟨q, hq⟩
    obtain rfl : t = msPerMinute * q - ahead := by omega
    rw [hadmits, sub_add_cancel, mul_comm (minutes : ℤ),
      mul_dvd_mul_iff_left (by decide : msPerMinute ≠ 0)]
  intro start k
  have hruns := runs_multiple hfields (by simp only [msPerMinute]; omega)
    (Dvd.intro_left _ rfl) (by simp only [msPerMinute, msPerDay]; omega) hmultiple start
  refine ⟨_, _, hruns k, hruns (k + 1), ?_⟩
  push_cast
  ring

theorem apart_of_divides (hpos : 0 < minutes) (h : Divides minutes) :
    Apart (.fixed ahead) minutes := by
  rcases h with ⟨hlt, hdvd⟩ | ⟨⟨hours, rfl⟩, hdvd⟩
  · refine apart_of_multiple hpos (by omega) (parseFields_minuteSteps hpos hlt) fun q => ?_
    have hdvd' : (minutes : ℤ) ∣ 60 := by exact_mod_cast hdvd
    rw [admits_minuteSteps hpos, sub_add_cancel, Int.mul_ediv_cancel_left _ (by decide),
      dvd_emod_iff hdvd']
  · have hday : hours ∣ 24 := Nat.dvd_of_mul_dvd_mul_left (by decide : 0 < 60) hdvd
    have hle := Nat.le_of_dvd (by decide) hday
    have hquotient : ∀ q : ℤ, msPerMinute * q / 3600000 = q / 60 := by
      intro q
      simp only [msPerMinute]
      omega
    have hparts : ∀ q : ℤ, q % 60 = 0 ∧ (hours : ℤ) ∣ q / 60 % 24 ↔
        ((60 * hours : ℕ) : ℤ) ∣ q := by
      intro q
      have hday' : (hours : ℤ) ∣ 24 := by exact_mod_cast hday
      rw [dvd_emod_iff hday']
      push_cast
      constructor
      · rintro ⟨hzero, n, hn⟩
        exact ⟨n, by rw [mul_assoc, ← hn]; omega⟩
      · rintro ⟨n, rfl⟩
        rw [mul_assoc, Int.mul_ediv_cancel_left _ (by decide)]
        exact ⟨by omega, n, rfl⟩
    -- an hour and a day have expressions of their own
    rcases Nat.lt_or_ge 1 hours with hmany | hone
    · rcases Nat.lt_or_ge hours 24 with hless | hall
      · refine apart_of_multiple hpos (by omega) (parseFields_hourSteps hmany hless) fun q => ?_
        rw [admits_hourSteps (by omega), sub_add_cancel,
          Int.mul_ediv_cancel_left _ (by decide), hquotient, hparts]
      · obtain rfl : hours = 24 := by omega
        refine apart_of_multiple hpos (by omega) (parseFields_daily (by omega) (by omega))
          fun q => ?_
        rw [admits_daily, sub_add_cancel, Int.mul_ediv_cancel_left _ (by decide), hquotient]
        omega
    · obtain rfl : hours = 1 := by omega
      refine apart_of_multiple hpos (by omega) parseFields_hourly fun q => ?_
      rw [admits_hourly, sub_add_cancel, Int.mul_ediv_cancel_left _ (by decide)]
      omega

/-- Two matches that are less than the interval apart are too many. -/
theorem not_apart (hfields : parseFields (minutesToCron minutes) = .ok fields) (q q' : ℤ)
    (hmatch : fields.admits (.fixed ahead) (msPerMinute * q - ahead) = true)
    (hmatch' : fields.admits (.fixed ahead) (msPerMinute * q' - ahead) = true)
    (hlater : q < q') (hnear : q' < q + minutes) (hday : q' ≤ q + 1440) :
    ¬Apart (.fixed ahead) minutes := by
  intro hapart
  obtain ⟨next, hrun, hnext, hle⟩ := exists_runs_within hfields
    (msPerMinute * q - ahead) (msPerMinute * q' - ahead)
    (by rw [sub_add_cancel]; exact Dvd.intro _ rfl) (by rw [sub_add_cancel]; exact Dvd.intro _ rfl)
    hmatch hmatch' (by simp only [msPerMinute]; omega)
    (by simp only [msPerMinute, msPerDay]; omega)
  obtain ⟨run, next', hrun', hnext', hgap⟩ := hapart (msPerMinute * q - ahead - 1) 0
  obtain rfl := Except.ok.inj (hrun.symm.trans hrun')
  obtain rfl := Except.ok.inj (hnext.symm.trans hnext')
  simp only [msPerMinute] at hle hgap
  omega

/-- **The backups keep their interval.** In a zone with a fixed offset the backups are always as
far apart as the page says if and only if the interval divides the hour, or is of whole hours that
divide the day. -/
theorem backups_apart_iff (ahead : ℤ) (hpos : 0 < minutes) :
    Apart (.fixed ahead) minutes ↔ Divides minutes := by
  refine ⟨fun hapart => ?_, apart_of_divides hpos⟩
  by_contra hdivides
  -- the three shapes of an expression: steps of minutes, steps of hours, and a day
  rcases Nat.lt_or_ge minutes 60 with hlt | hge
  · -- the last step of an hour is too near to the next hour
    have hdvd : ¬minutes ∣ 60 := fun h => hdivides (.inl ⟨hlt, h⟩)
    have hrest : 0 < 60 % minutes := Nat.pos_of_ne_zero fun h => hdvd (Nat.dvd_of_mod_eq_zero h)
    have hshort := Nat.mod_lt 60 hpos
    have hsum := Nat.div_add_mod 60 minutes
    refine not_apart (parseFields_minuteSteps hpos hlt) ((minutes * (60 / minutes) : ℕ) : ℤ) 60
      ((admits_minuteSteps hpos).mpr ?_) ((admits_minuteSteps hpos).mpr ?_) (by omega) (by omega)
      (by omega) hapart
    · rw [sub_add_cancel, Int.mul_ediv_cancel_left _ (by decide),
        Int.emod_eq_of_lt (by omega) (by omega)]
      push_cast
      exact Dvd.intro _ rfl
    · rw [sub_add_cancel, show msPerMinute * 60 / msPerMinute % 60 = 0 by decide]
      exact dvd_zero _
  · have hother : minutes ≠ 60 := fun h => hdivides (.inr (by rw [h]; decide))
    by_cases hhours : minutes < 1440 ∧ minutes % 60 = 0
    · -- the last step of a day is too near to the next day
      obtain ⟨hlt, hmod⟩ := hhours
      obtain ⟨hours, rfl⟩ := Nat.dvd_of_mod_eq_zero hmod
      have hpos : 0 < hours := by omega
      have hdvd : ¬hours ∣ 24 := fun h =>
        hdivides (.inr ⟨Dvd.intro _ rfl, Nat.mul_dvd_mul_left 60 h⟩)
      have hrest : 0 < 24 % hours := Nat.pos_of_ne_zero fun h => hdvd (Nat.dvd_of_mod_eq_zero h)
      have hshort := Nat.mod_lt 24 hpos
      have hsum := Nat.div_add_mod 24 hours
      refine not_apart (parseFields_hourSteps (by omega) (by omega))
        (60 * ((hours * (24 / hours) : ℕ) : ℤ)) 1440 ((admits_hourSteps hpos).mpr ⟨?_, ?_⟩)
        ((admits_hourSteps hpos).mpr ⟨?_, ?_⟩) (by omega) (by omega) (by omega) hapart
      · rw [sub_add_cancel, Int.mul_ediv_cancel_left _ (by decide)]
        omega
      · rw [sub_add_cancel, show msPerMinute * (60 * ((hours * (24 / hours) : ℕ) : ℤ)) =
          3600000 * ((hours * (24 / hours) : ℕ) : ℤ) by simp only [msPerMinute]; ring,
          Int.mul_ediv_cancel_left _ (by decide), Int.emod_eq_of_lt (by omega) (by omega)]
        push_cast
        exact Dvd.intro _ rfl
      · rw [sub_add_cancel]
        decide
      · rw [sub_add_cancel, show msPerMinute * 1440 / 3600000 % 24 = 0 by decide]
        exact dvd_zero _
    · -- any other interval is written as a day
      have hday : minutes ≠ 1440 := fun h => hdivides (.inr (by rw [h]; decide))
      have hadmits : ∀ t, msPerMinute ∣ t + ahead →
          (Fields.admits ⟨some [0], some [0], none, none, none⟩ (.fixed ahead) t = true ↔
            msPerDay ∣ t + ahead) := by
        intro t ht
        rw [admits_daily]
        simp only [msPerMinute, msPerDay] at ht ⊢
        omega
      have hruns := runs_multiple (parseFields_daily (by omega) hhours) (by decide) (by decide)
        le_rfl hadmits 0
      obtain ⟨run, next, hrun, hnext, hgap⟩ := hapart 0 0
      obtain rfl := Except.ok.inj (hrun.symm.trans (hruns 0))
      obtain rfl := Except.ok.inj (hnext.symm.trans (hruns 1))
      simp only [msPerMinute, msPerDay] at hgap
      omega

/-- Backups of every quarter of an hour. -/
theorem backups_apart_iff_quarters : Apart (.fixed 0) 15 :=
  (backups_apart_iff 0 (by decide)).mpr (.inl (by decide))

end Policy

end Mastermind.Cron.Backups
