import Mastermind.Schedule.Planner
import Mastermind.Schedule.Window

/-!
# No schedule is forgotten

A schedule that is enabled fires again only if a job for it is in the scheduler's queue. `Armed`
says that there is one, at the very moment that its row names, or that a worker is on a fire that
will add one. A start of the control plane arms every schedule, whatever was lost before, and from
then on every action keeps it so but two: a fire that is lost, and an edit of a schedule during a
fire that found it disabled, whose job is still in the queue's way. This rests on a next run that is
later than the moment it was asked for: the id of a job that a worker has taken is never asked for
again. In a time zone with a fixed offset the scheduler's own arithmetic is so (`Env.forward_inZone`).
-/

namespace Mastermind

open SchedulerService DelayedJobs

/-- The next run is later than the moment for which it is computed, also after the execution window,
and an empty expression is invalid. -/
structure Env.Forward (env : Env) : Prop where
  later : ∀ cron now t, env.getNextCronRun cron now = some t → now < t
  window : ∀ t first last, t ≤ env.clampToExecutionWindow t first last
  empty : ∀ now, env.getNextCronRun "" now = none

/-- The schedule's expression has a next run at every moment. -/
def Schedule.Lasting (env : Env) (s : Schedule) : Prop :=
  ∀ now, (env.getNextCronRun s.cronExpression now).isSome = true

/-- The environment with the scheduler's own arithmetic in a time zone. An invalid date, which no
window of two times gives, is left out. -/
def Env.inZone (env : Env) (zone : TimeZone) : Env :=
  { env with
    getNextCronRun := fun cron now =>
      match Cron.getNextCronRun zone (Text.of cron) now with
      | .ok t => some t.toNat
      | .error _ => none
    clampToExecutionWindow := fun t first last =>
      match Cron.clampToExecutionWindow zone t (first.map Text.of) (last.map Text.of) with
      | some clamped => clamped.toNat
      | none => t }

/-- Hours and minutes are not negative. -/
theorem Text.nonneg_of_hoursAndMinutes {text : Text} {s : ℤ × ℤ}
    (h : text.hoursAndMinutes = some s) : 0 ≤ s.1 ∧ 0 ≤ s.2 := by
  have hnumber : ∀ {word : Text} {n : ℤ}, word.toNumber = some n → 0 ≤ n := by
    intro word n hn
    unfold Text.toNumber at hn
    split_ifs at hn
    exact Option.some.inj hn ▸ Int.natCast_nonneg _
  unfold Text.hoursAndMinutes at h
  split at h
  next hours minutes _ _ =>
    obtain ⟨hour, hhour, h⟩ := Option.bind_eq_some_iff.mp h
    obtain ⟨minute, hminute, h⟩ := Option.bind_eq_some_iff.mp h
    obtain rfl := Option.some.inj h
    exact ⟨hnumber hhour, hnumber hminute⟩
  next => cases h

/-- A clamped instant is not before the given one, in a zone with a fixed offset. -/
theorem Cron.le_clampToExecutionWindow (ahead : ℤ) {t r : ℤ} {first last : Option Text}
    (h : clampToExecutionWindow (.fixed ahead) t first last = some r) : t ≤ r := by
  have hsetHours : ∀ u hour min : ℤ, (TimeZone.fixed ahead).setHours u hour min 0 0 =
      u - (u + ahead) % 86400000 + (hour * 60 + min) * 60000 := by
    intro u hour min
    show (u + ahead) / 86400000 * 86400000 + (hour * 3600000 + min * 60000 + 0 * 1000 + 0) -
      ahead = _
    omega
  have hsetDate : (TimeZone.fixed ahead).setDate t ((TimeZone.fixed ahead).getDate t + 1) =
      t + 86400000 := by
    rw [TimeZone.setDate_getDate_add]
    show t + ahead + 1 * 86400000 - ahead = t + 86400000
    omega
  have hminute : (TimeZone.fixed ahead).getHours t * 60 + (TimeZone.fixed ahead).getMinutes t =
      (t + ahead) % 86400000 / 60000 := by
    show (t + ahead) / 3600000 % 24 * 60 + (t + ahead) / 60000 % 60 = _
    omega
  unfold clampToExecutionWindow at h
  split at h
  next => exact (Option.some.inj h).le
  next => exact (Option.some.inj h).le
  next windowStart windowEnd =>
    dsimp only at h
    rw [hminute, hsetDate] at h
    simp only [hsetHours] at h
    split_ifs at h
    · exact (Option.some.inj h).le
    · have hbounds : ∀ s, windowStart.hoursAndMinutes = some s → 0 ≤ s.1 * 60 + s.2 := by
        intro s hs
        obtain ⟨hhour, hmin⟩ := Text.nonneg_of_hoursAndMinutes hs
        omega
      cases hstart : windowStart.hoursAndMinutes with
      | none =>
        rw [hstart] at h
        cases h
      | some s =>
        have hnonneg := hbounds s hstart
        have hday := Int.emod_lt_of_pos (t + ahead) (by decide : (0 : ℤ) < 86400000)
        have hday' := Int.emod_nonneg (t + ahead) (by decide : (86400000 : ℤ) ≠ 0)
        rw [hstart] at h
        cases hend : windowEnd.hoursAndMinutes with
        | none =>
          rw [hend] at h
          have hr : t + 86400000 - (t + 86400000 + ahead) % 86400000 + (s.1 * 60 + s.2) * 60000 =
              r := Option.some.inj h
          omega
        | some e =>
          rw [hend] at h
          simp only [Option.map_some] at h
          split_ifs at h with hinside hbefore
          · exact (Option.some.inj h).le
          · obtain rfl := Option.some.inj h
            have hearlier := hbefore.2
            omega
          · obtain rfl := Option.some.inj h
            omega

/-- In a zone with a fixed offset of whole minutes that arithmetic goes forward. -/
theorem Env.forward_inZone (env : Env) {ahead : ℤ} (hwhole : Calendar.msPerMinute ∣ ahead) :
    (env.inZone (.fixed ahead)).Forward where
  later cron now t h := by
    unfold Env.inZone at h
    dsimp only at h
    split at h
    next r hr =>
      obtain rfl := Option.some.inj h
      obtain ⟨fields, -, hsearch⟩ := Cron.getNextCronRun_eq_ok.mp hr
      obtain ⟨k, -, hk, -⟩ := Cron.search_eq_some.mp hsearch
      rw [TimeZone.nextMinute_of_fixed (fun _ => rfl) hwhole] at hk
      simp only [Calendar.msPerMinute] at hk
      omega
    next => cases h
  window t first last := by
    unfold Env.inZone
    dsimp only
    split
    next clamped hclamped =>
      exact (Int.le_toNat (by have := Cron.le_clampToExecutionWindow ahead hclamped; omega)).mpr
        (Cron.le_clampToExecutionWindow ahead hclamped)
    next => exact le_rfl
  empty now := by
    unfold Env.inZone
    dsimp only
    split
    next r hr =>
      obtain ⟨fields, hfields, -⟩ := Cron.getNextCronRun_eq_ok.mp hr
      obtain ⟨e, he⟩ : ∃ e, Cron.parseFields (Text.of "") = .error e := ⟨_, rfl⟩
      rw [he] at hfields
      cases hfields
    next => rfl

namespace Planner

variable {env : Env} {p q : Planner} {s : Schedule} {id : Id} {t : ℕ}

theorem computeNextRun_later (henv : env.Forward) {now : ℕ}
    (h : computeNextRun env s now = some t) : now < t := by
  obtain ⟨next, hnext, rfl⟩ := Option.map_eq_some_iff.mp h
  exact (henv.later _ _ _ hnext).trans_le (henv.window _ _ _)

theorem computeNextRun_of_lasting (h : s.Lasting env) (now : ℕ) :
    ∃ t, computeNextRun env s now = some t := by
  obtain ⟨next, hnext⟩ := Option.isSome_iff_exists.mp (h now)
  exact ⟨_, by rw [computeNextRun, hnext]; rfl⟩

/-! ## What holds of every planner -/

/-- Every row has a next run, a job does not wait for less than its moment, and a worker has taken
none before its moment. A fire has read the row of its schedule; if its job is of the row's next
run, it has read an expression that lasts if that of the row does. -/
structure Sound (env : Env) (p : Planner) : Prop where
  planned : ∀ s ∈ p.schedules.rows, s.nextRunAt.isSome = true
  waits : ∀ k job, p.jobs k = some job → k.2 ≤ job.due
  begun : ∀ k, Begun p.jobs k → k.2 ≤ p.now
  read : ∀ s ∈ p.schedules.rows, ∀ t r, s.nextRunAt = some t → Active p.jobs (s.id, t) (some r) →
    s.Lasting env → r.Lasting env
  noted : ∀ k r, Active p.jobs k (some r) → r.id = k.1

/-- A moment in the future has no job that a worker has taken. -/
theorem Sound.not_begun (h : p.Sound env) (ht : p.now < t) : ¬Begun p.jobs (id, t) :=
  fun hbegun => absurd (h.begun _ hbegun) (not_le.mpr ht)

theorem Sound.enqueue (h : p.Sound env) (id : Id) (nextRun : Option ℕ) :
    (p.enqueue id nextRun).Sound env := by
  cases nextRun with
  | none => exact h
  | some t =>
    refine ⟨h.planned, fun k job hjob => ?_, fun k hbegun => h.begun k (begun_of_add hbegun),
      fun s hs t' r ht hactive => h.read s hs t' r ht (active_of_add hactive),
      fun k r hactive => h.noted k r (active_of_add hactive)⟩
    rcases of_add hjob with hjob | ⟨rfl, rfl⟩
    · exact h.waits k job hjob
    · show t ≤ p.now + (t - p.now)
      omega

theorem Sound.dequeue (h : p.Sound env) (id : Id) (nextRun : Option ℕ) :
    (p.dequeue id nextRun).Sound env := by
  cases nextRun with
  | none => exact h
  | some t =>
    exact ⟨h.planned, fun k job hjob => h.waits k job (of_remove hjob),
      fun k hbegun => h.begun k (begun_of_remove hbegun),
      fun s hs t' r ht hactive => h.read s hs t' r ht (active_of_remove hactive),
      fun k r hactive => h.noted k r (active_of_remove hactive)⟩

/-- The row has a next run in the future, or it is one of the planner but for what does not
count. -/
def Follows (env : Env) (p : Planner) (s' : Schedule) : Prop :=
  (∃ t, s'.nextRunAt = some t ∧ p.now < t) ∨
    ∃ s ∈ p.schedules.rows, s'.id = s.id ∧ s'.nextRunAt = s.nextRunAt ∧
      (s'.Lasting env → s.Lasting env)

/-- Every row follows itself. -/
theorem follows_self (h : s ∈ p.schedules.rows) : p.Follows env s :=
  .inr ⟨s, h, rfl, rfl, fun hl => hl⟩

/-- Rows that follow those of the planner. -/
theorem Sound.rows (h : p.Sound env) {schedules : Effect.Table Schedule}
    (hrows : ∀ s ∈ schedules.rows, p.Follows env s) :
    ({ p with schedules := schedules } : Planner).Sound env := by
  refine ⟨fun s hs => ?_, h.waits, h.begun, fun s hs t r ht hactive hlasting => ?_, h.noted⟩
  · rcases hrows s hs with ⟨t, ht, -⟩ | ⟨s₀, hs₀, -, hnext, -⟩
    · rw [ht]
      rfl
    · rw [hnext]
      exact h.planned s₀ hs₀
  · rcases hrows s hs with ⟨t', ht', hlater⟩ | ⟨s₀, hs₀, hid, hnext, hlasts⟩
    · obtain rfl := Option.some.inj (ht.symm.trans ht')
      exact absurd hactive.begun (h.not_begun hlater)
    · rw [hid] at hactive
      exact h.read s₀ hs₀ t r (hnext ▸ ht) hactive (hlasts hlasting)

/-- An update of a row that follows it. -/
theorem Sound.update (h : p.Sound env) {f : Schedule → Schedule}
    (hf : ∀ s, Effect.Keyed.key (f s) = Effect.Keyed.key s)
    (hfollows : ∀ s ∈ p.schedules.rows, s.id = id → p.Follows env (f s)) :
    ({ p with schedules := p.schedules.update id f hf } : Planner).Sound env := by
  refine h.rows fun s hs => ?_
  obtain ⟨s', hs', rfl⟩ := (Effect.Table.mem_update hf).mp hs
  split_ifs with hid
  · exact hfollows s' hs' hid
  · exact follows_self hs'

theorem Sound.patch_workerFailed (h : p.Sound env) (id : Id) :
    (p.patch id .workerFailed).Sound env :=
  h.update _ fun s hs _ => .inr ⟨s, hs, rfl, rfl, fun hl => hl⟩

/-- The update with which a fire ends leaves the next run, or gives a later one. -/
theorem Sound.patch_ending (h : p.Sound env) (scheduleId : Id) (ending : Ending)
    {nextRun : Option ℕ} (hlater : ∀ t, nextRun = some t → p.now < t) :
    (p.patch scheduleId (ending.patch nextRun)).Sound env := by
  refine h.update _ fun s hs _ => ?_
  cases nextRun with
  | none =>
    refine .inr ⟨s, hs, ?_, ?_, ?_⟩
    · cases ending <;> rfl
    · cases ending <;> rfl
    · cases ending <;> exact fun hl => hl
  | some t =>
    cases ending with
    | lost booked => exact .inr ⟨s, hs, rfl, rfl, fun hl => hl⟩
    | skippedBusy => exact .inl ⟨t, rfl, hlater t rfl⟩
    | success jobId => exact .inl ⟨t, rfl, hlater t rfl⟩
    | failed createdJobId => exact .inl ⟨t, rfl, hlater t rfl⟩

/-- The next run of an update is its own, or the one that a new expression gives. -/
theorem updatedNextRun_cases {cron : Option String} {nextRunAt : Option ℕ}
    (h : p.updatedNextRun env s cron = some nextRunAt) :
    (cron = none ∨ cron = some "") ∧ nextRunAt = s.nextRunAt ∨
      ∃ expression t, cron = some expression ∧ env.getNextCronRun expression p.now = some t ∧
        nextRunAt = some t := by
  unfold updatedNextRun at h
  split at h
  · exact .inl ⟨.inl rfl, (Option.some.inj h).symm⟩
  · exact .inl ⟨.inr rfl, (Option.some.inj h).symm⟩
  · obtain ⟨t, ht, rfl⟩ := Option.map_eq_some_iff.mp h
    exact .inr ⟨_, t, rfl, ht, rfl⟩

/-- An update changes nothing, or it edits the row. -/
theorem updateSchedule_cases (env : Env) (p : Planner) (orgId scheduleId : Id)
    (body : UpdateScheduleBody) :
    p.updateSchedule env orgId scheduleId body = p ∨
      ∃ existing nextRunAt, p.schedules.get scheduleId = some existing ∧
        p.updatedNextRun env existing body.cronExpression = some nextRunAt ∧
        p.updateSchedule env orgId scheduleId body =
          p.editSchedule existing (body.patch nextRunAt) := by
  unfold updateSchedule
  cases hget : p.schedules.get scheduleId with
  | none => exact .inl rfl
  | some existing =>
    rw [Option.filter_some]
    split_ifs with horg
    · dsimp only
      cases hnext : p.updatedNextRun env existing body.cronExpression with
      | none => exact .inl rfl
      | some nextRunAt => exact .inr ⟨existing, nextRunAt, rfl, hnext, rfl⟩
    · exact .inl rfl

/-- An edit leaves the next run of a row, or gives a later one, or its expression is empty. -/
theorem follows_edit (henv : env.Forward) {body : UpdateScheduleBody} {nextRunAt : Option ℕ}
    (hs : s ∈ p.schedules.rows)
    (h : p.updatedNextRun env s body.cronExpression = some nextRunAt) :
    p.Follows env ((body.patch nextRunAt).apply p.now s) := by
  rcases updatedNextRun_cases h with ⟨hcron | hcron, rfl⟩ | ⟨cron, t, hcron, ht, rfl⟩
  · refine .inr ⟨s, hs, rfl, ?_, fun hlasting now => ?_⟩
    · simp [UpdateScheduleBody.patch, SchedulePatch.apply, hcron]
    · have hsome := hlasting now
      simpa [UpdateScheduleBody.patch, SchedulePatch.apply, hcron] using hsome
  · refine .inr ⟨s, hs, rfl, ?_, fun hlasting => ?_⟩
    · simp [UpdateScheduleBody.patch, SchedulePatch.apply, hcron]
    · have hsome := hlasting 0
      simp [UpdateScheduleBody.patch, SchedulePatch.apply, hcron, henv.empty] at hsome
  · refine .inl ⟨t, ?_, henv.later _ _ _ ht⟩
    simp [UpdateScheduleBody.patch, SchedulePatch.apply, hcron]

theorem Sound.editSchedule (h : p.Sound env) {patch : SchedulePatch} (hs : s ∈ p.schedules.rows)
    (hfollows : p.Follows env (patch.apply p.now s)) : (p.editSchedule s patch).Sound env := by
  have hpatched : (p.patch s.id patch).Sound env := by
    refine h.update _ fun s' hs' hid => ?_
    rwa [p.schedules.eq_of_key_eq hs' hs hid]
  unfold Planner.editSchedule
  dsimp only
  split_ifs
  · exact (hpatched.dequeue _ _).enqueue _ _
  · exact hpatched.dequeue _ _

theorem Sound.hydrateSchedule (henv : env.Forward) (h : p.Sound env) (s : Schedule) :
    (Planner.hydrateSchedule env p.now p s).Sound env := by
  unfold Planner.hydrateSchedule
  split
  · exact h
  next t ht =>
    have hlater : p.now < t := computeNextRun_later henv ht
    exact (h.enqueue s.id (some t)).update _ fun s' _ _ => .inl ⟨t, rfl, hlater⟩

@[simp] theorem now_hydrateSchedule (now : ℕ) (s : Schedule) :
    (hydrateSchedule env now p s).now = p.now := by
  unfold hydrateSchedule
  split <;> rfl

theorem Sound.hydrateAll (henv : env.Forward) (rows : List Schedule) (h : p.Sound env) :
    (rows.foldl (Planner.hydrateSchedule env p.now) p).Sound env := by
  induction rows generalizing p with
  | nil => exact h
  | cons s rows ih =>
    have hrest := ih (h.hydrateSchedule henv s)
    rwa [now_hydrateSchedule] at hrest

theorem Sound.endFire (henv : env.Forward) (h : p.Sound env) (s : Schedule) (ending : Ending) :
    (p.endFire env s ending).Sound env := by
  have hlater : ∀ t, computeNextRun env s p.now = some t → p.now < t :=
    fun t ht => computeNextRun_later henv ht
  unfold Planner.endFire
  dsimp only
  split
  · exact h
  · cases ending with
    | lost booked =>
      dsimp only
      split_ifs
      · exact h.patch_workerFailed _
      · exact h
    | failed createdJobId =>
      exact ((h.patch_ending _ (.failed createdJobId) hlater).enqueue _ _).patch_workerFailed _
    | skippedBusy => exact (h.patch_ending _ .skippedBusy hlater).enqueue _ _
    | success jobId => exact (h.patch_ending _ (.success jobId) hlater).enqueue _ _

theorem Sound.start (h : p.Sound env) (scheduleId : Id) (runAt : ℕ) :
    (p.act env (.start scheduleId runAt)).Sound env := by
  refine ⟨h.planned, fun k job hjob => ?_, fun k hbegun => ?_,
    fun s hs t r ht hactive hlasting => ?_, fun k r hactive => ?_⟩
  · rcases of_take hjob with hjob | ⟨-, due, hwaits, -, rfl⟩
    · exact h.waits k job hjob
    · have hdue : k.2 ≤ due := h.waits k _ hwaits
      exact hdue
  · obtain ⟨job, hjob, hphase⟩ := hbegun
    rcases of_take hjob with hjob | ⟨-, due, hwaits, hdue, rfl⟩
    · exact h.begun k ⟨job, hjob, hphase⟩
    · exact (h.waits k _ hwaits).trans hdue
  · obtain ⟨due, hjob⟩ := hactive
    rcases of_take hjob with hjob | ⟨hk, due', -, -, hnote⟩
    · exact h.read s hs t r ht ⟨due, hjob⟩ hlasting
    · -- the worker has read the row itself
      obtain ⟨rfl, -⟩ := Prod.mk.inj hk
      have hread : (p.schedules.get s.id).filter (fun s => s.enabled) = some r :=
        (DelayedJobs.Phase.active.inj (DelayedJobs.Job.mk.inj hnote).2).symm
      have hget : p.schedules.get s.id = some s := Effect.Table.get_key hs
      rw [hget] at hread
      obtain rfl := Option.some.inj (Option.filter_eq_some_iff.mp hread).1
      exact hlasting
  · obtain ⟨due, hjob⟩ := hactive
    rcases of_take hjob with hjob | ⟨rfl, due', -, -, hnote⟩
    · exact h.noted k r ⟨due, hjob⟩
    · have hread : (p.schedules.get scheduleId).filter (fun s => s.enabled) = some r :=
        (DelayedJobs.Phase.active.inj (DelayedJobs.Job.mk.inj hnote).2).symm
      exact (Effect.Table.get_eq_some.mp (Option.filter_eq_some_iff.mp hread).1).2

theorem Sound.finish (henv : env.Forward) (h : p.Sound env) (k : Id × ℕ) (ending : Ending) :
    (p.finish env k ending).Sound env := by
  have hended : ∀ e : Planner, e.Sound env →
      ({ e with jobs := e.jobs.finish k } : Planner).Sound env := by
    intro e he
    refine ⟨he.planned, fun k job hjob => ?_, fun k hbegun => he.begun k (begun_of_finish hbegun),
      fun s hs t r ht hactive => he.read s hs t r ht (active_of_finish hactive),
      fun k r hactive => he.noted k r (active_of_finish hactive)⟩
    obtain ⟨job', hjob', hdue⟩ := due_of_finish hjob
    exact hdue ▸ he.waits k job' hjob'
  unfold Planner.finish
  apply hended
  split
  · exact h.endFire henv _ _
  · exact h

/-- Every action keeps a planner sound. -/
theorem Sound.act (henv : env.Forward) (h : p.Sound env) (a : Action) :
    (p.act env a).Sound env := by
  cases a with
  | tick ms =>
    have hbegun : ∀ k, Begun p.jobs k → k.2 ≤ p.now + ms :=
      fun k hk => (h.begun k hk).trans (Nat.le_add_right _ _)
    exact ⟨h.planned, h.waits, hbegun, h.read, h.noted⟩
  | createSchedule orgId userId body =>
    unfold Planner.act Planner.createSchedule
    dsimp only
    split
    · exact h
    next t ht =>
      have hcreated : (p.insert (body.data orgId userId t)).Sound env := by
        refine h.rows fun s hs => ?_
        rcases (Effect.Table.mem_insert _).mp hs with hs | rfl
        · exact follows_self hs
        · exact .inl ⟨t, rfl, henv.later _ _ _ ht⟩
      split_ifs
      · exact hcreated.enqueue _ _
      · exact hcreated
  | updateSchedule orgId scheduleId body =>
    show (p.updateSchedule env orgId scheduleId body).Sound env
    rcases updateSchedule_cases env p orgId scheduleId body with
      heq | ⟨existing, nextRunAt, hget, hnext, heq⟩
    · rwa [heq]
    · have hmem : existing ∈ p.schedules.rows := (Effect.Table.get_eq_some.mp hget).1
      rw [heq]
      exact h.editSchedule hmem (follows_edit henv hmem hnext)
  | deleteSchedule orgId scheduleId =>
    unfold Planner.act Planner.deleteSchedule
    dsimp only
    split
    · exact h
    · exact h.rows fun s hs => follows_self (Effect.Table.mem_erase.mp hs).1
  | hydrateSchedules => exact h.hydrateAll henv _
  | start scheduleId runAt => exact h.start scheduleId runAt
  | finish scheduleId runAt ending => exact h.finish henv (scheduleId, runAt) ending

/-! ## Schedules with a next fire -/

/-- The schedule has a job that waits for the moment in its row, or a worker is on a fire of it that
will add one. -/
def HasNextFire (env : Env) (p : Planner) (s : Schedule) : Prop :=
  (∃ t, s.nextRunAt = some t ∧ Waiting p.jobs (s.id, t)) ∨
    ∃ t r, Active p.jobs (s.id, t) (some r) ∧ r.Lasting env

/-- The schedule `id` has a next fire, if it is enabled and there is a next run at every moment. -/
def ArmedAt (env : Env) (p : Planner) (id : Id) : Prop :=
  ∀ s, p.schedules.get id = some s → s.enabled = true → s.Lasting env → p.HasNextFire env s

/-- Every schedule is. -/
def Armed (env : Env) (p : Planner) : Prop := ∀ id, p.ArmedAt env id

/-- Only the row of the schedule and its jobs count. -/
theorem ArmedAt.congr (h : p.ArmedAt env id) (hget : q.schedules.get id = p.schedules.get id)
    (hjobs : ∀ t, q.jobs (id, t) = p.jobs (id, t)) : q.ArmedAt env id := by
  intro s hs henabled hlasting
  rw [hget] at hs
  obtain rfl : s.id = id := (Effect.Table.get_eq_some.mp hs).2
  rcases h s hs henabled hlasting with ⟨t, ht, due, hdue⟩ | ⟨t, r, ⟨due, hdue⟩, hlasts⟩
  · exact .inl ⟨t, ht, due, by rwa [hjobs]⟩
  · exact .inr ⟨t, r, ⟨due, by rwa [hjobs]⟩, hlasts⟩

/-- Jobs of other schedules are left alone. -/
theorem jobs_enqueue {id' : Id} (h : id ≠ id') (nextRun : Option ℕ) :
    (p.enqueue id' nextRun).jobs (id, t) = p.jobs (id, t) := by
  cases nextRun with
  | none => rfl
  | some t' => exact add_of_ne fun heq => h (Prod.mk.inj heq).1

theorem jobs_dequeue {id' : Id} (h : id ≠ id') (nextRun : Option ℕ) :
    (p.dequeue id' nextRun).jobs (id, t) = p.jobs (id, t) := by
  cases nextRun with
  | none => rfl
  | some t' => exact remove_of_ne fun heq => h (Prod.mk.inj heq).1

@[simp] theorem schedules_enqueue (id : Id) (nextRun : Option ℕ) :
    (p.enqueue id nextRun).schedules = p.schedules := by
  cases nextRun <;> rfl

@[simp] theorem schedules_dequeue (id : Id) (nextRun : Option ℕ) :
    (p.dequeue id nextRun).schedules = p.schedules := by
  cases nextRun <;> rfl

@[simp] theorem now_enqueue (id : Id) (nextRun : Option ℕ) :
    (p.enqueue id nextRun).now = p.now := by
  cases nextRun <;> rfl

/-! ## Each action -/

section Actions

variable (henv : env.Forward)

include henv in
theorem Armed.createSchedule (hsound : p.Sound env) (h : p.Armed env) (orgId userId : Id)
    (body : CreateScheduleBody) : (p.createSchedule env orgId userId body).Armed env := by
  unfold Planner.createSchedule
  cases hnext : env.getNextCronRun body.cronExpression p.now with
  | none => exact h
  | some t =>
    intro id
    have hfresh : ¬Begun p.jobs (id, t) := hsound.not_begun (henv.later _ _ _ hnext)
    by_cases hid : id = p.schedules.next
    · subst hid
      intro s hs henabled hlasting
      have hrow : s = (body.data orgId userId t).row p.schedules.next := by
        dsimp only at hs
        split_ifs at hs <;>
          simp only [schedules_enqueue, insert, Effect.Table.get_insert_next] at hs <;>
          exact (Option.some.inj hs).symm
      subst hrow
      left
      refine ⟨t, rfl, ?_⟩
      dsimp only
      rw [if_pos (show (body.data orgId userId t).enabled = true from henabled)]
      exact waiting_add_self hfresh
    · refine (h id).congr ?_ fun t' => ?_
      · dsimp only
        split_ifs <;> simp only [schedules_enqueue, insert, Effect.Table.get_insert_of_ne _ hid]
      · dsimp only
        split_ifs
        · exact jobs_enqueue hid _
        · rfl

/-- The worker is on a fire of the schedule that found it disabled. -/
def Idle (p : Planner) (id : Id) : Prop := ∃ t, Active p.jobs (id, t) none

include henv in
theorem Armed.updateSchedule (hsound : p.Sound env) (h : p.Armed env) {scheduleId : Id}
    (hidle : ¬p.Idle scheduleId) (orgId : Id) (body : UpdateScheduleBody) :
    (p.updateSchedule env orgId scheduleId body).Armed env := by
  rcases updateSchedule_cases env p orgId scheduleId body with
    heq | ⟨existing, nextRunAt, hget, hnext, heq⟩
  · rwa [heq]
  rw [heq]
  intro id
  obtain ⟨hmem, rfl⟩ : existing ∈ p.schedules.rows ∧ existing.id = scheduleId :=
    Effect.Table.get_eq_some.mp hget
  obtain ⟨patch, hpatch⟩ : ∃ patch, patch = body.patch nextRunAt := ⟨_, rfl⟩
  rw [← hpatch]
  have hplanned : existing.nextRunAt.isSome = true := hsound.planned existing hmem
  have hedited : (patch.apply p.now existing).nextRunAt.isSome = true := by
    rcases hpatch ▸ follows_edit henv hmem hnext with ⟨t, ht, -⟩ | ⟨s, hs, -, hsame, -⟩
    · rw [ht]
      rfl
    · rw [hsame]
      exact hsound.planned s hs
  obtain ⟨t₀, ht₀⟩ := Option.isSome_iff_exists.mp hplanned
  obtain ⟨t', ht'⟩ := Option.isSome_iff_exists.mp hedited
  have hschedules :
      (p.editSchedule existing patch).schedules = (p.patch existing.id patch).schedules := by
    unfold editSchedule
    dsimp only
    split_ifs <;> simp only [schedules_enqueue, schedules_dequeue]
  by_cases hid : id = existing.id
  swap
  · refine (h id).congr ?_ fun t => ?_
    · rw [hschedules]
      exact Effect.Table.get_update_of_ne (patch.key_apply p.now) hid
    · unfold editSchedule
      dsimp only
      split_ifs
      · rw [jobs_enqueue hid, jobs_dequeue hid]
        rfl
      · rw [jobs_dequeue hid]
        rfl
  subst hid
  -- the jobs after the edit, and the row
  have hjobs : (p.editSchedule existing patch).jobs =
      if (patch.apply p.now existing).enabled = true then
        (p.jobs.remove (existing.id, t₀)).add (existing.id, t') (p.now + (t' - p.now))
      else p.jobs.remove (existing.id, t₀) := by
    unfold editSchedule
    dsimp only
    rw [ht₀, ht']
    split_ifs <;> rfl
  have hrow : ∀ s, (p.editSchedule existing patch).schedules.get existing.id = some s →
      s = patch.apply p.now existing := by
    intro s hs
    rw [hschedules] at hs
    have hself : (p.patch existing.id patch).schedules.get existing.id =
        some (patch.apply p.now existing) :=
      Effect.Table.get_update_self (patch.key_apply p.now) hget
    exact (Option.some.inj (hself.symm.trans hs)).symm
  intro s hs henabled hlasting
  obtain rfl := hrow s hs
  have hid : (patch.apply p.now existing).id = existing.id := by
    rw [hpatch]
    rfl
  unfold HasNextFire
  rw [hid, hjobs, if_pos henabled]
  rcases updatedNextRun_cases hnext with ⟨hcron, rfl⟩ | ⟨cron, t, hcron, hlater, rfl⟩
  · have hexpression : body.cronExpression = none := by
      rcases hcron with hnone | hempty
      · exact hnone
      · have hsome := hlasting 0
        rw [hpatch] at hsome
        simp [UpdateScheduleBody.patch, SchedulePatch.apply, hempty, henv.empty] at hsome
    have hsame : t' = t₀ := by
      rw [hpatch] at ht'
      simpa [UpdateScheduleBody.patch, SchedulePatch.apply, hexpression, ht₀] using ht'.symm
    subst hsame
    have hlasts : existing.Lasting env := by
      intro now
      have hsome := hlasting now
      rw [hpatch] at hsome
      simpa [UpdateScheduleBody.patch, SchedulePatch.apply, hexpression] using hsome
    -- the job of the moment is not removed if a worker is on it
    by_cases hbusy : ∃ note, Active p.jobs (existing.id, t') note
    · obtain ⟨_ | r, hactive⟩ := hbusy
      · exact absurd ⟨t', hactive⟩ hidle
      · exact .inr ⟨t', r, hactive.remove.add, hsound.read existing hmem t' r ht₀ hactive hlasts⟩
    · exact .inl ⟨t', ht', waiting_add_remove fun note hactive => hbusy ⟨note, hactive⟩⟩
  · -- a new expression has a next run that no worker has taken
    have ht : t = t' := by
      rw [hpatch] at ht'
      simpa [UpdateScheduleBody.patch, SchedulePatch.apply, hcron] using ht'
    subst ht
    have hfresh : ¬Begun p.jobs (existing.id, t) := hsound.not_begun (henv.later _ _ _ hlater)
    exact .inl ⟨t, ht', waiting_add_self fun hbegun => hfresh (begun_of_remove hbegun)⟩

theorem Armed.deleteSchedule (h : p.Armed env) (orgId scheduleId : Id) :
    (p.deleteSchedule orgId scheduleId).Armed env := by
  unfold Planner.deleteSchedule
  split
  · exact h
  · intro id s hs
    have hget : p.schedules.get id = some s := by
      rw [Effect.Table.get_erase] at hs
      exact (Option.filter_eq_some_iff.mp hs).1
    exact h id s hget

/-- The jobs of the schedules in `done` wait for their next runs. -/
def Hydrated (env : Env) (done : Id → Prop) (p : Planner) : Prop :=
  ∀ id s, done id → p.schedules.get id = some s → s.Lasting env →
    ∃ t, s.nextRunAt = some t ∧ Waiting p.jobs (id, t)

include henv in
/-- One more schedule is hydrated. -/
theorem Hydrated.hydrateSchedule {done : Id → Prop} (hsound : p.Sound env)
    (h : p.Hydrated env done)
    (hlasts : ∀ s', p.schedules.get s.id = some s' → s'.Lasting env → s.Lasting env) :
    (Planner.hydrateSchedule env p.now p s).Hydrated env fun id => done id ∨ id = s.id := by
  unfold Planner.hydrateSchedule
  cases hnext : computeNextRun env s p.now with
  | none =>
    rintro id s' (hdone | rfl) hget hlasting
    · exact h id s' hdone hget hlasting
    · obtain ⟨t, ht⟩ := computeNextRun_of_lasting (hlasts s' hget hlasting) p.now
      rw [ht] at hnext
      cases hnext
  | some t =>
    have hfresh : ¬Begun p.jobs (s.id, t) := hsound.not_begun (computeNextRun_later henv hnext)
    intro id s' hdone hget hlasting
    dsimp only at hget
    by_cases hid : id = s.id
    · subst hid
      rw [Effect.Table.get_update, if_pos rfl] at hget
      obtain ⟨s₀, -, rfl⟩ := Option.map_eq_some_iff.mp hget
      exact ⟨t, rfl, waiting_add_self hfresh⟩
    · rw [Effect.Table.get_update_of_ne _ hid] at hget
      obtain ⟨t', ht', hwaiting⟩ := h id s' (hdone.resolve_right hid) hget hlasting
      exact ⟨t', ht', hwaiting.add⟩

/-- Hydrating changes nothing in a row but its next run. -/
theorem get_hydrateSchedule {now : ℕ} {s' : Schedule}
    (h : (hydrateSchedule env now p s).schedules.get id = some s') :
    ∃ s₀, p.schedules.get id = some s₀ ∧ s'.cronExpression = s₀.cronExpression ∧
      s'.enabled = s₀.enabled := by
  unfold hydrateSchedule at h
  split at h
  · exact ⟨s', h, rfl, rfl⟩
  · dsimp only at h
    rw [Effect.Table.get_update] at h
    split_ifs at h
    · obtain ⟨s₀, hs₀, rfl⟩ := Option.map_eq_some_iff.mp h
      exact ⟨s₀, hs₀, rfl, rfl⟩
    · exact ⟨s', h, rfl, rfl⟩

include henv in
/-- All of them are. -/
theorem Hydrated.all (rows : List Schedule) {done : Id → Prop} (hsound : p.Sound env)
    (h : p.Hydrated env done)
    (hlasts : ∀ s ∈ rows, ∀ s', p.schedules.get s.id = some s' → s'.Lasting env → s.Lasting env) :
    (rows.foldl (Planner.hydrateSchedule env p.now) p).Hydrated env fun id =>
      done id ∨ ∃ s ∈ rows, id = s.id := by
  induction rows generalizing p done with
  | nil => simpa using h
  | cons s rows ih =>
    have hstep := h.hydrateSchedule henv hsound (hlasts s List.mem_cons_self)
    have hrest := ih (hsound.hydrateSchedule henv s) hstep fun s₁ hs₁ s' hget hlasting => by
      obtain ⟨s₀, hs₀, hcron, -⟩ := get_hydrateSchedule hget
      refine hlasts s₁ (List.mem_cons_of_mem _ hs₁) s₀ hs₀ fun now => ?_
      rw [← hcron]
      exact hlasting now
    rw [now_hydrateSchedule] at hrest
    simpa only [List.foldl_cons, List.exists_mem_cons_iff, or_assoc] using hrest

/-- The rows after a start are those before it, but for their next runs. -/
theorem get_hydrateAll (rows : List Schedule) {now : ℕ} {s' : Schedule}
    (h : (rows.foldl (hydrateSchedule env now) p).schedules.get id = some s') :
    ∃ s₀, p.schedules.get id = some s₀ ∧ s'.cronExpression = s₀.cronExpression ∧
      s'.enabled = s₀.enabled := by
  induction rows generalizing p with
  | nil => exact ⟨s', h, rfl, rfl⟩
  | cons s rows ih =>
    obtain ⟨s₁, hs₁, hcron₁, henabled₁⟩ := ih h
    obtain ⟨s₀, hs₀, hcron₀, henabled₀⟩ := get_hydrateSchedule hs₁
    exact ⟨s₀, hs₀, hcron₁.trans hcron₀, henabled₁.trans henabled₀⟩

include henv in
/-- A start arms every schedule, whatever it finds. -/
theorem Sound.armed_hydrateSchedules (hsound : p.Sound env) :
    (p.hydrateSchedules env).Armed env := by
  have hnone : p.Hydrated env fun _ => False := fun _ _ hdone => hdone.elim
  have hhydrated := hnone.all henv (p.schedules.rows.filter fun s => s.enabled) hsound ?_
  · intro id s' hget henabled hlasting
    obtain ⟨s₀, hs₀, -, henabled₀⟩ := get_hydrateAll _ hget
    obtain ⟨hmem, rfl⟩ : s₀ ∈ p.schedules.rows ∧ s₀.id = id := Effect.Table.get_eq_some.mp hs₀
    have hid : s'.id = s₀.id := (Effect.Table.get_eq_some.mp hget).2
    have hrow : s₀ ∈ p.schedules.rows.filter fun s => s.enabled :=
      List.mem_filter.mpr ⟨hmem, henabled₀ ▸ henabled⟩
    obtain ⟨t, ht, hwaiting⟩ := hhydrated _ s' (.inr ⟨s₀, hrow, rfl⟩) hget hlasting
    exact .inl ⟨t, ht, hid ▸ hwaiting⟩
  · intro s hs s' hget hlasting
    have hself : p.schedules.get s.id = some s := Effect.Table.get_key (List.mem_of_mem_filter hs)
    rwa [Option.some.inj (hget.symm.trans hself)] at hlasting

theorem Armed.start (h : p.Armed env) (scheduleId : Id) (runAt : ℕ) :
    (p.act env (.start scheduleId runAt)).Armed env := by
  intro id s hs henabled hlasting
  obtain rfl : s.id = id := (Effect.Table.get_eq_some.mp hs).2
  have hget : p.schedules.get s.id = some s := hs
  rcases h s.id s hs henabled hlasting with ⟨t, ht, hwaiting⟩ | ⟨t, r, hactive, hlasts⟩
  · rcases hwaiting.take with hwaiting | ⟨hk, hactive⟩
    · exact .inl ⟨t, ht, hwaiting⟩
    · -- the worker that takes the job reads the row as it is
      obtain ⟨rfl, rfl⟩ := Prod.mk.inj hk
      refine .inr ⟨t, s, ?_, hlasting⟩
      have hread : (p.schedules.get s.id).filter (fun s => s.enabled) = some s := by
        rw [hget, Option.filter_some, if_pos henabled]
      exact hread ▸ hactive
  · exact .inr ⟨t, r, hactive.take, hlasts⟩

/-- The end of a fire that is not lost leaves a planner without the row as it is. Otherwise it books
the outcome in the row and adds the next fire. -/
theorem endFire_cases (s : Schedule) {ending : Ending} (hcalm : ∀ booked, ending ≠ .lost booked) :
    p.endFire env s ending = p ∧ p.schedules.get s.id = none ∨
      ∃ f : Schedule → Schedule,
        (∀ s₀, (f s₀).nextRunAt = (computeNextRun env s p.now).or s₀.nextRunAt ∧
          (f s₀).cronExpression = s₀.cronExpression ∧ (f s₀).enabled = s₀.enabled) ∧
        (∀ id, (p.endFire env s ending).schedules.get id =
          if id = s.id then (p.schedules.get id).map f else p.schedules.get id) ∧
        (p.endFire env s ending).jobs = (p.enqueue s.id (computeNextRun env s p.now)).jobs := by
  unfold endFire
  cases hget : p.schedules.get s.id with
  | none => exact .inl ⟨rfl, rfl⟩
  | some s₀ =>
    right
    dsimp only
    generalize computeNextRun env s p.now = nextRun
    have hget_patch : ∀ (q : Planner) (patch : SchedulePatch) (id : Id),
        (q.patch s.id patch).schedules.get id =
          if id = s.id then (q.schedules.get id).map (patch.apply q.now) else q.schedules.get id :=
      fun q patch id => Effect.Table.get_update (patch.key_apply q.now)
    have hjobs_patch : ∀ patch, ((p.patch s.id patch).enqueue s.id nextRun).jobs =
        (p.enqueue s.id nextRun).jobs := by
      intro patch
      cases nextRun <;> rfl
    cases ending with
    | lost booked => exact absurd rfl (hcalm booked)
    | failed createdJobId =>
      refine ⟨fun s₀ => SchedulePatch.workerFailed.apply p.now
        (((Ending.failed createdJobId).patch nextRun).apply p.now s₀), fun _ => ⟨rfl, rfl, rfl⟩,
        fun id => ?_, hjobs_patch _⟩
      rw [hget_patch, schedules_enqueue, hget_patch, now_enqueue]
      split_ifs
      · rw [Option.map_map]
        rfl
      · rfl
    | skippedBusy =>
      refine ⟨(Ending.skippedBusy.patch nextRun).apply p.now, fun _ => ⟨rfl, rfl, rfl⟩,
        fun id => ?_, hjobs_patch _⟩
      rw [schedules_enqueue, hget_patch]
    | success jobId =>
      refine ⟨((Ending.success jobId).patch nextRun).apply p.now, fun _ => ⟨rfl, rfl, rfl⟩,
        fun id => ?_, hjobs_patch _⟩
      rw [schedules_enqueue, hget_patch]

/-- A worker is done with a job on which it noted a row, or with nothing to do. -/
theorem finish_cases (env : Env) (p : Planner) (k : Id × ℕ) (ending : Ending) :
    (∃ r, Active p.jobs k (some r) ∧ p.finish env k ending =
      { p.endFire env r ending with jobs := (p.endFire env r ending).jobs.finish k }) ∨
    (∀ r, ¬Active p.jobs k (some r)) ∧
      p.finish env k ending = { p with jobs := p.jobs.finish k } := by
  unfold finish
  by_cases hnote : ∃ r, Active p.jobs k (some r)
  · obtain ⟨r, due, hdue⟩ := hnote
    exact .inl ⟨r, ⟨due, hdue⟩, by rw [hdue]⟩
  · refine .inr ⟨fun r hactive => hnote ⟨r, hactive⟩, ?_⟩
    split
    next due r hdue => exact absurd ⟨r, due, hdue⟩ hnote
    next => rfl

/-- The end of a fire leaves the next fire of a schedule, unless it is the fire that was to add
it. -/
theorem HasNextFire.finish {jobs : DelayedJobs (Id × ℕ) (Option Schedule)} {k : Id × ℕ}
    {schedules : Effect.Table Schedule} (h : p.HasNextFire env s) (hjobs : jobs = p.jobs)
    (hk : ∀ t r, Active p.jobs (s.id, t) (some r) → r.Lasting env → (s.id, t) ≠ k) :
    ({ p with schedules := schedules, jobs := jobs.finish k } : Planner).HasNextFire env s := by
  subst hjobs
  rcases h with ⟨t, ht, hwaiting⟩ | ⟨t, r, hactive, hlasts⟩
  · exact .inl ⟨t, ht, hwaiting.finish⟩
  · exact .inr ⟨t, r, hactive.finish_of_ne (hk t r hactive hlasts), hlasts⟩

include henv in
theorem Armed.finish (hsound : p.Sound env) (h : p.Armed env) (k : Id × ℕ) {ending : Ending}
    (hcalm : ∀ booked, ending ≠ .lost booked) : (p.finish env k ending).Armed env := by
  rcases finish_cases env p k ending with ⟨r, hr, heq⟩ | ⟨hidle, heq⟩
  swap
  · rw [heq]
    intro id s hs henabled hlasting
    exact (h id s hs henabled hlasting).finish rfl fun t r hactive _ hk => hidle r (hk ▸ hactive)
  rw [heq]
  have hrid : r.id = k.1 := hsound.noted k r hr
  rcases endFire_cases r hcalm with ⟨hsame, hnone⟩ | ⟨f, hf, hrows, hjobs⟩
  · -- the schedule was deleted meanwhile
    rw [hsame]
    intro id s hs henabled hlasting
    obtain rfl : s.id = id := (Effect.Table.get_eq_some.mp hs).2
    refine (h s.id s hs henabled hlasting).finish rfl fun t _ _ _ hk => ?_
    have hgone : p.schedules.get s.id = none := by
      rw [hrid, ← hk] at hnone
      exact hnone
    have hthere : p.schedules.get s.id = some s := hs
    rw [hgone] at hthere
    cases hthere
  obtain ⟨e, he⟩ : ∃ e, e = p.endFire env r ending := ⟨_, rfl⟩
  rw [← he] at hrows hjobs ⊢
  intro id
  by_cases hid : id = r.id
  swap
  · refine (h id).congr ((hrows id).trans (if_neg hid)) fun t => ?_
    have hk : (id, t) ≠ k := fun hk => hid (by rw [hrid, ← hk])
    show e.jobs.finish k (id, t) = _
    rw [DelayedJobs.finish_of_ne hk, hjobs, jobs_enqueue hid]
  subst hid
  intro s' hs henabled hlasting
  have hrow : (p.schedules.get r.id).map f = some s' := by
    have hget := hrows r.id
    rw [if_pos rfl] at hget
    exact hget.symm.trans hs
  obtain ⟨s₀, hs₀, rfl⟩ := Option.map_eq_some_iff.mp hrow
  obtain ⟨hnextRun, hcron, henabled₀⟩ := hf s₀
  have hid : (f s₀).id = r.id := (Effect.Table.get_eq_some.mp hs).2
  have hid₀ : s₀.id = r.id := (Effect.Table.get_eq_some.mp hs₀).2
  cases hnext : computeNextRun env r p.now with
  | some t =>
    rw [hnext] at hnextRun hjobs
    have hfresh : ¬Begun p.jobs (r.id, t) := hsound.not_begun (computeNextRun_later henv hnext)
    refine .inl ⟨t, hnextRun, ?_⟩
    show Waiting (e.jobs.finish k) _
    rw [hid, hjobs]
    exact (waiting_add_self hfresh).finish
  | none =>
    rw [hnext] at hnextRun hjobs
    -- the expression that the fire has read does not last, so the next fire is another's to add
    have hfire := h r.id s₀ hs₀ (henabled₀ ▸ henabled) fun now => by
      rw [← hcron]
      exact hlasting now
    rcases hfire with ⟨t, ht, hwaiting⟩ | ⟨t, r', hactive, hlasts⟩
    · refine .inl ⟨t, hnextRun.trans ht, ?_⟩
      show Waiting (e.jobs.finish k) _
      rw [hid, hjobs]
      exact (hid₀ ▸ hwaiting).finish
    · rw [hid₀] at hactive
      have hk : (r.id, t) ≠ k := by
        rintro rfl
        obtain rfl := Option.some.inj (hr.note_eq hactive)
        obtain ⟨t', ht'⟩ := computeNextRun_of_lasting hlasts p.now
        rw [hnext] at ht'
        cases ht'
      refine .inr ⟨t, r', ?_, hlasts⟩
      show Active (e.jobs.finish k) _ _
      rw [hid, hjobs]
      exact hactive.finish_of_ne hk

/-- Every action but a lost fire, and an edit of a schedule while a worker is on a fire that found
it disabled. -/
def Calm (p : Planner) : Action → Prop
  | .updateSchedule _ scheduleId _ => ¬p.Idle scheduleId
  | .finish _ _ (.lost _) => False
  | _ => True

include henv in
theorem Armed.act (hsound : p.Sound env) (h : p.Armed env) {a : Action} (hcalm : p.Calm a) :
    (p.act env a).Armed env := by
  cases a with
  | tick ms => exact h
  | createSchedule orgId userId body => exact h.createSchedule henv hsound orgId userId body
  | updateSchedule orgId scheduleId body => exact h.updateSchedule henv hsound hcalm orgId body
  | deleteSchedule orgId scheduleId => exact h.deleteSchedule orgId scheduleId
  | hydrateSchedules => exact hsound.armed_hydrateSchedules henv
  | start scheduleId runAt => exact h.start scheduleId runAt
  | finish scheduleId runAt ending =>
    refine h.finish henv hsound (scheduleId, runAt) ?_
    rintro booked rfl
    exact hcalm

end Actions

theorem sound_initial : initial.Sound env where
  planned _ hs := absurd hs List.not_mem_nil
  waits _ _ hjob := nomatch hjob
  begun _ hbegun := nomatch hbegun.choose_spec.1
  read _ hs := absurd hs List.not_mem_nil
  noted _ _ hactive := nomatch hactive.choose_spec

/-- Every planner that is reached is sound. -/
theorem Reaches.sound (henv : env.Forward) {cond : Planner → Action → Prop}
    (hp : p.Sound env) (h : Reaches env cond p q) : q.Sound env := by
  induction h with
  | refl => exact hp
  | act a _ _ ih => exact ih.act henv a

/-- **No schedule is forgotten.** Whatever has happened before, after a start of the control plane
and any calm actions every enabled schedule whose expression has a next run at every moment has a
job that waits for the moment in its row, or a worker is on a fire that will add one. The time zone
has a fixed offset: where the clock is put back, a next run may be one that a worker has taken. -/
theorem armed_since_start {ahead : ℤ} (hwhole : Calendar.msPerMinute ∣ ahead)
    (hbefore : Reaches (env.inZone (.fixed ahead)) (fun _ _ => True) initial p)
    (hsince : Reaches (env.inZone (.fixed ahead)) Calm
      (p.act (env.inZone (.fixed ahead)) .hydrateSchedules) q) :
    q.Armed (env.inZone (.fixed ahead)) := by
  have henv := env.forward_inZone hwhole
  have hsound := hbefore.sound henv sound_initial
  have hstart := hsound.act henv .hydrateSchedules
  suffices q.Sound (env.inZone (.fixed ahead)) ∧ q.Armed (env.inZone (.fixed ahead)) from this.2
  induction hsince with
  | refl => exact ⟨hstart, hsound.armed_hydrateSchedules henv⟩
  | act a _ hcalm ih => exact ⟨ih.1.act henv a, ih.2.act henv ih.1 hcalm⟩

/-- A schedule of every minute. -/
def everyMinute : CreateScheduleBody := ⟨"wave", 0, "* * * * *", "SERVER_RESTART", none, none⟩

/-- It is armed after it was created, the control plane was started again, and it fired. -/
theorem armed_since_start_fired :
    let env := Env.everyMinute.inZone (.fixed 0)
    ((((initial.act env (.createSchedule 0 0 everyMinute)).act env .hydrateSchedules).act env
      (.tick 60000)).act env (.start 0 60000)).act env (.finish 0 60000 (.success 0))
      |>.Armed env :=
  armed_since_start (dvd_zero _) (.act (.createSchedule 0 0 everyMinute) .refl trivial)
    (.act (.finish 0 60000 (.success 0))
      (.act (.start 0 60000) (.act (.tick 60000) .refl trivial) trivial) trivial)

end Planner

end Mastermind
