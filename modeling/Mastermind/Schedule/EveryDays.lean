import Mastermind.Schedule.CronNext

/-!
# A schedule of every so many days

The schedule form writes "every N days" as a step of the field of the day of the month
(`simpleCron`), and the evaluator starts the steps afresh in each month. So the runs of every day are
a day apart, and no other number of days from two to thirty-one is kept: the matches include the
first days of January, February and March, and no such number divides the lengths of both January
and February (`spaced_iff`).
-/

namespace Mastermind

namespace Text

/-- A word, a blank and more. -/
theorem words_append_space {word rest : Text} (hword : ∀ u ∈ word, isSpace u = false)
    (hne : word ≠ []) (hrest : rest.head?.any isSpace = false) :
    words (word ++ 32 :: rest) = word :: words rest := by
  have hblank : words (32 :: rest) = [] :: words rest := by
    rw [words, if_pos (by decide), hrest, if_neg Bool.false_ne_true]
  induction word with
  | nil => exact absurd rfl hne
  | cons u word ih =>
    have hu : isSpace u = false := hword u List.mem_cons_self
    rw [List.cons_append, words, hu, if_neg Bool.false_ne_true]
    cases word with
    | nil => rw [List.nil_append, hblank]
    | cons v word =>
      rw [ih (fun w hw => hword w (List.mem_cons_of_mem u hw)) (List.cons_ne_nil v word)]

end Text

namespace Cron

open Calendar

/-- `SimpleSchedule`, with the values that the form offers. -/
structure SimpleSchedule where
  days : ℕ
  hour : ℕ
  minute : ℕ
  one_le_days : 1 ≤ days
  days_le : days ≤ 31
  hour_lt : hour < 24
  minute_lt : minute < 60

/-- A number in a template. -/
def digitsOf (n : ℕ) : Text := Text.of (toString n)

/-- `simpleCron`. -/
def simpleCron (schedule : SimpleSchedule) : Text :=
  digitsOf schedule.minute ++ Text.of " " ++ digitsOf schedule.hour ++ Text.of " " ++
    (if schedule.days = 1 then Text.of "*" else Text.of "*/" ++ digitsOf schedule.days) ++
      Text.of " * *"

/-- Repeated `getNextCronRun`: each run is the next one after the last. -/
def runs (zone : TimeZone) (cronExpression : Text) (start : ℤ) : ℕ → Except Text ℤ
  | 0 => getNextCronRun zone cronExpression start
  | k + 1 => do getNextCronRun zone cronExpression (← runs zone cronExpression start k)

/-- The run after one. -/
theorem runs_succ {zone : TimeZone} {cronExpression : Text} {start run : ℤ} {k : ℕ}
    (h : runs zone cronExpression start k = .ok run) :
    runs zone cronExpression start (k + 1) = getNextCronRun zone cronExpression run := by
  rw [runs, h]
  rfl

/-- From a run on, each is followed by one that is as many days later as the schedule says. -/
def SpacedFrom (zone : TimeZone) (schedule : SimpleSchedule) (start : ℤ) (first : ℕ) : Prop :=
  ∀ k ≥ first, ∃ run next, runs zone (simpleCron schedule) start k = .ok run ∧
    runs zone (simpleCron schedule) start (k + 1) = .ok next ∧
      next - run = schedule.days * msPerDay

/-! ## The expression reads back -/

/-- A number of the form is a word. -/
theorem digitsOf_word {n : ℕ} (hn : n < 60) :
    (∀ u ∈ digitsOf n, Text.isSpace u = false) ∧ digitsOf n ≠ [] := by
  have hall : ∀ n : Fin 60, (digitsOf n).all (!Text.isSpace ·) = true ∧ digitsOf n ≠ [] := by
    decide +kernel
  simpa using hall ⟨n, hn⟩

/-- The field of the days of the month. -/
def dayField (days : ℕ) : Field := if days = 1 then none else some (steps 1 31 days)

/-- A text begins with the first letter of its first word. -/
theorem head_of_word {word : Text} (hword : ∀ u ∈ word, Text.isSpace u = false) (hne : word ≠ [])
    (rest : Text) : (word ++ rest).head?.any Text.isSpace = false := by
  obtain ⟨u, us, rfl⟩ := List.exists_cons_of_ne_nil hne
  simpa using hword u List.mem_cons_self

/-- The word of the days of the month. -/
def dayText (days : ℕ) : Text := if days = 1 then Text.of "*" else Text.of "*/" ++ digitsOf days

theorem dayText_word {days : ℕ} (hdays : days ≤ 31) :
    (∀ u ∈ dayText days, Text.isSpace u = false) ∧ dayText days ≠ [] := by
  unfold dayText
  split_ifs
  · exact ⟨by simpa using (by decide : (Text.of "*").all (!Text.isSpace ·) = true), by decide⟩
  · refine ⟨fun u hu => ?_, by simp [Text.of]⟩
    rcases List.mem_append.mp hu with hu | hu
    · have hstep : (Text.of "*/").all (!Text.isSpace ·) = true := by decide
      simpa using List.all_eq_true.mp hstep u hu
    · exact (digitsOf_word (by omega)).1 u hu

section Words

variable (schedule : SimpleSchedule)

/-- The expression, word by word. -/
theorem simpleCron_eq : simpleCron schedule = digitsOf schedule.minute ++
    32 :: (digitsOf schedule.hour ++ 32 :: (dayText schedule.days ++ 32 :: Text.of "* *")) := by
  simp only [simpleCron, dayText, List.append_assoc]
  rfl

/-- The words of the expression. -/
theorem words_simpleCron : (simpleCron schedule).words =
    [digitsOf schedule.minute, digitsOf schedule.hour, dayText schedule.days, Text.of "*",
      Text.of "*"] := by
  obtain ⟨hminute, hminuteNe⟩ := digitsOf_word schedule.minute_lt
  obtain ⟨hhour, hhourNe⟩ := digitsOf_word (schedule.hour_lt.trans (by omega))
  obtain ⟨hday, hdayNe⟩ := dayText_word schedule.days_le
  have hrest : (Text.of "* *").words = [Text.of "*", Text.of "*"] := by decide
  rw [simpleCron_eq, Text.words_append_space hminute hminuteNe (head_of_word hhour hhourNe _),
    Text.words_append_space hhour hhourNe (head_of_word hday hdayNe _),
    Text.words_append_space hday hdayNe (by decide), hrest]

/-- The expression has no white space at its ends. -/
theorem trim_simpleCron : (simpleCron schedule).trim = simpleCron schedule := by
  obtain ⟨hminute, hminuteNe⟩ := digitsOf_word schedule.minute_lt
  rw [simpleCron_eq]
  refine Text.trim_of_ends fun u hu => ?_
  rcases hu with hu | hu
  · have hhead := head_of_word hminute hminuteNe
      (32 :: (digitsOf schedule.hour ++ 32 :: (dayText schedule.days ++ 32 :: Text.of "* *")))
    rw [hu] at hhead
    simpa using hhead
  · have hlast : (Text.of "* *").getLast? = some 42 := by decide
    simp only [List.getLast?_append, List.getLast?_cons, hlast] at hu
    obtain rfl : (42 : UInt16) = u := by simpa using hu
    decide

/-- The fields of the expression that the form writes. -/
theorem parseFields_simpleCron :
    parseFields (simpleCron schedule) = .ok ⟨some [(schedule.minute : ℤ)],
      some [(schedule.hour : ℤ)], dayField schedule.days, none, none⟩ := by
  have hminutes : ∀ n : Fin 60, parseSet (digitsOf n) 0 59 = .ok (some [(n : ℤ)]) := by
    decide +kernel
  have hhours : ∀ n : Fin 24, parseSet (digitsOf n) 0 23 = .ok (some [(n : ℤ)]) := by
    decide +kernel
  have hdays : ∀ n : Fin 32, 1 ≤ n.val → parseSet (dayText n) 1 31 = .ok (dayField n) := by
    decide +kernel
  have hmonths : parseSet (Text.of "*") 1 12 = .ok none := by decide
  have hweekdays : parseSet (Text.of "*") 0 6 = .ok none := by decide
  have hminute := hminutes ⟨schedule.minute, schedule.minute_lt⟩
  have hhour := hhours ⟨schedule.hour, schedule.hour_lt⟩
  have hday := hdays ⟨schedule.days, Nat.lt_succ_of_le schedule.days_le⟩ schedule.one_le_days
  dsimp only at hminute hhour hday
  unfold parseFields
  rw [trim_simpleCron, words_simpleCron]
  dsimp only
  rw [hminute, hhour, hday, hmonths, hweekdays]
  rfl

end Words

/-! ## Runs in a zone with a fixed offset -/

section Fixed

variable {ahead start : ℤ} {cronExpression : Text} {fields : Fields}

/-- The search starts at the next local minute. -/
theorem nextMinute_fixed (ahead t : ℤ) : (TimeZone.fixed ahead).nextMinute t =
    t - (t + ahead) % msPerMinute + msPerMinute := by
  show t + ahead - (t + ahead) % 60000 - ahead + ahead + 60000 - ahead =
    t - (t + ahead) % 60000 + 60000
  omega

/-- A later local minute is one that the search visits, if the search goes far enough. -/
theorem exists_visited {t : ℤ} (hminute : msPerMinute ∣ t + ahead) (hlater : start < t) :
    ∃ k : ℕ, t = (TimeZone.fixed ahead).nextMinute start + k * 60000 := by
  obtain ⟨m, hm⟩ := hminute
  refine ⟨(m - (start + ahead) / msPerMinute - 1).toNat, ?_⟩
  rw [nextMinute_fixed]
  simp only [msPerMinute] at hm ⊢
  omega

/-- What a call returns is the least later minute that matches. -/
theorem getNextCronRun_isLeast {r : ℤ} (hfields : parseFields cronExpression = .ok fields)
    (hr : getNextCronRun (.fixed ahead) cronExpression start = .ok r) :
    IsLeast {t | msPerMinute ∣ t + ahead ∧ start < t ∧ fields.admits (.fixed ahead) t = true}
      r := by
  obtain ⟨fields', hfields', hsearch⟩ := getNextCronRun_eq_ok.mp hr
  obtain rfl := Except.ok.inj (hfields.symm.trans hfields')
  obtain ⟨k, -, hk, hadmits, hbefore⟩ := search_eq_some.mp hsearch
  constructor
  · show msPerMinute ∣ r + ahead ∧ start < r ∧ fields.admits (.fixed ahead) r = true
    rw [nextMinute_fixed] at hk
    simp only [msPerMinute] at hk ⊢
    exact ⟨by omega, by omega, hadmits⟩
  · intro t ⟨hminute, hlater, hmatch⟩
    obtain ⟨j, hj⟩ := exists_visited hminute hlater
    by_contra hless
    have hnot := hbefore j (by omega)
    rw [← hj, hmatch] at hnot
    exact absurd hnot.symm Bool.false_ne_true

/-- A call returns if a minute of the next 366 days matches. -/
theorem exists_getNextCronRun {t : ℤ} (hfields : parseFields cronExpression = .ok fields)
    (hminute : msPerMinute ∣ t + ahead) (hlater : start < t) (hnear : t ≤ start + 366 * msPerDay)
    (hmatch : fields.admits (.fixed ahead) t = true) :
    ∃ r, getNextCronRun (.fixed ahead) cronExpression start = .ok r := by
  obtain ⟨k, hk⟩ := exists_visited hminute hlater
  have hfound : search fields (.fixed ahead) maxIter ((TimeZone.fixed ahead).nextMinute start) ≠
      none := by
    intro hnone
    have hnot := search_eq_none.mp hnone k (by
      rw [nextMinute_fixed] at hk
      simp only [msPerMinute, msPerDay] at hk hnear
      unfold maxIter
      omega)
    rw [← hk, hmatch] at hnot
    exact absurd hnot.symm Bool.false_ne_true
  obtain ⟨r, hr⟩ := Option.ne_none_iff_exists'.mp hfound
  exact ⟨r, getNextCronRun_eq_ok.mpr ⟨fields, hfields, hr⟩⟩

end Fixed

/-- The fields that the form asks for. -/
def SimpleSchedule.fields (schedule : SimpleSchedule) : Fields :=
  ⟨some [(schedule.minute : ℤ)], some [(schedule.hour : ℤ)], dayField schedule.days, none, none⟩

/-- The local time of the day at which a schedule runs. -/
def SimpleSchedule.time (schedule : SimpleSchedule) : ℤ :=
  (schedule.hour * 60 + schedule.minute) * msPerMinute

section Schedule

variable (schedule : SimpleSchedule) (ahead start : ℤ)

/-- A local minute matches if it is the time of the day on one of the days of the month. -/
theorem admits_iff {t : ℤ} (hminute : msPerMinute ∣ t + ahead) :
    schedule.fields.admits (.fixed ahead) t = true ↔
      (dayField schedule.days).admits (dateFromTime (t + ahead)) = true ∧
        (t + ahead) % msPerDay = schedule.time := by
  have hhour : hourFromTime (t + ahead) = schedule.hour ∧
      minFromTime (t + ahead) = schedule.minute ↔ (t + ahead) % msPerDay = schedule.time := by
    have := schedule.hour_lt
    have := schedule.minute_lt
    simp only [hourFromTime, minFromTime, SimpleSchedule.time, msPerMinute, msPerDay] at hminute ⊢
    omega
  rw [← hhour]
  simp only [Fields.admits, SimpleSchedule.fields, Field.admits, Bool.true_and, Bool.and_true,
    Bool.and_eq_true, List.contains_eq_mem, List.mem_singleton, decide_eq_true_eq, and_assoc]
  rfl

/-- A local time of the day is the time of a schedule at a whole minute. -/
theorem dvd_of_time {t : ℤ} (h : (t + ahead) % msPerDay = schedule.time) :
    msPerMinute ∣ t + ahead := by
  simp only [SimpleSchedule.time, msPerMinute, msPerDay] at h ⊢
  omega

/-- The next time of the day at which a schedule runs is such a time. -/
theorem time_of_next : (start + 1 + (schedule.time - (start + 1 + ahead)) % msPerDay + ahead) %
    msPerDay = schedule.time := by
  have := schedule.hour_lt
  have := schedule.minute_lt
  simp only [SimpleSchedule.time, msPerMinute, msPerDay]
  omega

/-- The next run of a schedule of every day. -/
theorem getNextCronRun_daily (hdays : schedule.days = 1) :
    getNextCronRun (.fixed ahead) (simpleCron schedule) start =
      .ok (start + 1 + (schedule.time - (start + 1 + ahead)) % msPerDay) := by
  have hfields := parseFields_simpleCron schedule
  have hfree : dayField schedule.days = none := if_pos hdays
  set t := start + 1 + (schedule.time - (start + 1 + ahead)) % msPerDay with ht
  have htime : (t + ahead) % msPerDay = schedule.time := time_of_next schedule ahead start
  have hmatch : schedule.fields.admits (.fixed ahead) t = true :=
    (admits_iff schedule ahead (dvd_of_time schedule ahead htime)).mpr ⟨by rw [hfree]; rfl, htime⟩
  have hlater : start < t ∧ t ≤ start + msPerDay := by
    simp only [msPerDay] at ht ⊢
    omega
  obtain ⟨r, hr⟩ := exists_getNextCronRun hfields (dvd_of_time schedule ahead htime) hlater.1
    (by simp only [msPerDay] at hlater ⊢; omega) hmatch
  rw [hr]
  have hleast := getNextCronRun_isLeast hfields hr
  have hle : r ≤ t := hleast.2 ⟨dvd_of_time schedule ahead htime, hlater.1, hmatch⟩
  -- no other instant has the same local time of the day within a day
  obtain ⟨hminute, hafter, hadmits⟩ := hleast.1
  have hsame := ((admits_iff schedule ahead hminute).mp hadmits).2
  have : r = t := by
    simp only [msPerDay] at ht htime hsame hlater
    omega
  rw [this]

/-- The first days of the months match. -/
theorem admits_monthStart {year first : ℤ} (hfirst : first ∈ monthStarts (inLeapYear year)) :
    schedule.fields.admits (.fixed ahead)
      ((dayFromYear year + first) * msPerDay + schedule.time - ahead) = true := by
  have hbounds : 0 ≤ schedule.time ∧ schedule.time < msPerDay := by
    have := schedule.hour_lt
    have := schedule.minute_lt
    simp only [SimpleSchedule.time, msPerMinute, msPerDay]
    omega
  have htime : ((dayFromYear year + first) * msPerDay + schedule.time - ahead + ahead) % msPerDay =
      schedule.time := by
    simp only [msPerDay] at hbounds ⊢
    omega
  refine (admits_iff schedule ahead (dvd_of_time schedule ahead htime)).mpr ⟨?_, htime⟩
  have hday : day ((dayFromYear year + first) * msPerDay + schedule.time - ahead + ahead) =
      dayFromYear year + first := by
    simp only [day, msPerDay] at hbounds ⊢
    omega
  rw [dateFromTime_monthStart hfirst hday]
  obtain ⟨days, _, _, hone, hle, _, _⟩ := schedule
  have hall : ∀ n : Fin 32, 1 ≤ n.val → (dayField n).admits 1 = true := by decide +kernel
  exact hall ⟨days, by omega⟩ hone

variable {schedule ahead start}

/-- If the runs are spaced from one on, then a later match is a whole number of spaces after it. -/
theorem SpacedFrom.exists_run {first : ℕ} (h : SpacedFrom (.fixed ahead) schedule start first) :
    ∃ run, ∀ t, msPerMinute ∣ t + ahead → run < t → schedule.fields.admits (.fixed ahead) t = true →
      ∃ j : ℤ, t = run + j * (schedule.days * msPerDay) := by
  obtain ⟨run, -, hrun, -, -⟩ := h first le_rfl
  have hruns : ∀ j : ℕ, runs (.fixed ahead) (simpleCron schedule) start (first + j) =
      .ok (run + j * (schedule.days * msPerDay)) := by
    intro j
    induction j with
    | zero => simpa using hrun
    | succ j ih =>
      obtain ⟨last, next, hlast, hnext, hspace⟩ := h (first + j) (Nat.le_add_right first j)
      obtain rfl := Except.ok.inj (ih.symm.trans hlast)
      rw [← Nat.add_assoc, hnext, show next = run + (j + 1 : ℕ) * (schedule.days * msPerDay) by
        push_cast
        linarith]
  refine ⟨run, fun t hminute hlater hmatch => ?_⟩
  set space := (schedule.days : ℤ) * msPerDay with hspace
  have hpos : 0 < space := by
    have := schedule.one_le_days
    positivity
  -- the last run before the match
  obtain ⟨j, hj⟩ : ∃ j : ℕ, (j : ℤ) = (t - run - 1) / space :=
    ⟨_, Int.toNat_of_nonneg (Int.ediv_nonneg (by omega) hpos.le)⟩
  have hbefore : run + j * space < t := by
    have := Int.ediv_mul_le (t - run - 1) hpos.ne'
    rw [← hj] at this
    omega
  have hnext : getNextCronRun (.fixed ahead) (simpleCron schedule) (run + j * space) =
      .ok (run + (j + 1 : ℕ) * space) := by
    rw [← runs_succ (hruns j), Nat.add_assoc]
    exact hruns (j + 1)
  have hle := (getNextCronRun_isLeast (parseFields_simpleCron schedule) hnext).2
    ⟨hminute, hbefore, hmatch⟩
  refine ⟨(j + 1 : ℕ), le_antisymm ?_ hle⟩
  have hafter := Int.lt_ediv_add_one_mul_self (t - run - 1) hpos
  rw [← hj] at hafter
  rw [Nat.cast_succ]
  linarith

/-- The lengths of the first months of a year are whole numbers of spaces. -/
theorem SpacedFrom.dvd {first : ℕ} (h : SpacedFrom (.fixed ahead) schedule start first) :
    (schedule.days : ℤ) ∣ 31 ∧ ((schedule.days : ℤ) ∣ 28 ∨ (schedule.days : ℤ) ∣ 29) := by
  obtain ⟨run, hrun⟩ := h.exists_run
  -- the year after that of the run
  set year := yearFromDay (day (run + ahead)) + 1
  have hafter : day (run + ahead) < dayFromYear year := (yearFromDay_spec _).2
  have hmonth : ∀ s ∈ monthStarts (inLeapYear year), 0 ≤ s → ∃ j : ℤ,
      (dayFromYear year + s) * msPerDay + schedule.time - ahead =
        run + j * (schedule.days * msPerDay) := by
    intro s hs hnonneg
    refine hrun _ ?_ ?_ (admits_monthStart schedule ahead hs)
    · simp only [SimpleSchedule.time, msPerMinute, msPerDay]
      omega
    · simp only [day, msPerDay, SimpleSchedule.time, msPerMinute] at hafter ⊢
      omega
  obtain ⟨j₀, hj₀⟩ := hmonth 0 (by simp [monthStarts]) le_rfl
  obtain ⟨j₁, hj₁⟩ := hmonth 31 (by simp [monthStarts]) (by norm_num)
  obtain ⟨j₂, hj₂⟩ := hmonth (59 + inLeapYear year) (by simp [monthStarts])
    (by rcases inLeapYear_cases year with hleap | hleap <;> omega)
  have hspaces : ∀ (d a b : ℤ), d * msPerDay = (b - a) * (schedule.days * msPerDay) →
      (schedule.days : ℤ) ∣ d := by
    intro d a b hd
    refine ⟨b - a, ?_⟩
    refine mul_right_cancel₀ (show (msPerDay : ℤ) ≠ 0 by norm_num) ?_
    rw [hd]
    ring
  refine ⟨hspaces 31 j₀ j₁ (by linarith), ?_⟩
  rcases inLeapYear_cases year with hleap | hleap
  · rw [hleap] at hj₂
    exact .inl (hspaces 28 j₁ j₂ (by linarith))
  · rw [hleap] at hj₂
    exact .inr (hspaces 29 j₁ j₂ (by linarith))

end Schedule

/-- In a zone with a fixed offset the runs of a schedule are as many days apart as it says, from
whichever run on, if and only if it is one of every day. -/
theorem spaced_iff (ahead start : ℤ) (schedule : SimpleSchedule) (first : ℕ) :
    SpacedFrom (.fixed ahead) schedule start first ↔ schedule.days = 1 := by
  constructor
  · intro h
    obtain ⟨hjanuary, hfebruary⟩ := h.dvd
    have hone := schedule.one_le_days
    have hle := schedule.days_le
    interval_cases schedule.days <;> omega
  · intro hdays k _
    have hrun : ∀ k, ∃ run, runs (.fixed ahead) (simpleCron schedule) start k = .ok run ∧
        (run + ahead) % msPerDay = schedule.time := by
      intro k
      induction k with
      | zero => exact ⟨_, getNextCronRun_daily schedule ahead start hdays, time_of_next schedule ahead start⟩
      | succ k ih =>
        obtain ⟨run, hrun, -⟩ := ih
        refine ⟨_, ?_, time_of_next schedule ahead run⟩
        rw [runs_succ hrun]
        exact getNextCronRun_daily schedule ahead run hdays
    obtain ⟨run, hrun, hlocal⟩ := hrun k
    refine ⟨run, _, hrun, (runs_succ hrun).trans (getNextCronRun_daily schedule ahead run hdays), ?_⟩
    rw [hdays]
    simp only [msPerDay] at hlocal ⊢
    omega

/-- A schedule of every other day runs on the last of January and on the first of February. -/
theorem every_other_day_restarts :
    ¬∀ (ahead start : ℤ) (schedule : SimpleSchedule),
      SpacedFrom (.fixed ahead) schedule start 1 := by
  intro hall
  have hdvd := (hall 0 0 ⟨2, 4, 0, by omega, by omega, by omega, by omega⟩).dvd.1
  exact absurd hdvd (by decide)

end Cron

end Mastermind
