import Mastermind.Dispatch.Rules

/-!
# What the scheduler's operations can do

A fire dispatches the job of its schedule and books the outcome. The booking moves the schedule's
counters and its next run and can itself fail, inside the handler as well as outside of it; but
whatever it does, every schedule stays the same organization's, for the same server, with the same
type and payload (`Rescheduled`). So `fire_spec` names the states that a fire can leave but for
that. A member creates a schedule (`create_spec`) or edits one of the organization
(`update_spec`).
-/

namespace Mastermind

open Effect Effect.Program

variable {env : Env} {may : Stmt → World → Prop} {w : World}

/-- `w'` is `w` after changes to the bookkeeping of schedules and to the scheduler's queue: every
schedule is still the same organization's, for the same server, with the same type and payload, and
enabled or not as it was. -/
def Rescheduled (w w' : World) : Prop :=
  ∃ schedules scheduler,
    w' = { w with db.schedules := schedules, scheduler := scheduler } ∧
      ∀ s' ∈ schedules.rows, ∃ s ∈ w.db.schedules.rows, s'.id = s.id ∧ s'.orgId = s.orgId ∧
        s'.serverInstanceId = s.serverInstanceId ∧ s'.jobType = s.jobType ∧
          s'.payload = s.payload ∧ s'.enabled = s.enabled

namespace Rescheduled

theorem refl (w : World) : Rescheduled w w :=
  ⟨w.db.schedules, w.scheduler, rfl, fun s hs => ⟨s, hs, rfl, rfl, rfl, rfl, rfl, rfl⟩⟩

theorem trans {w₁ w₂ w₃ : World} (h : Rescheduled w₁ w₂) (h' : Rescheduled w₂ w₃) :
    Rescheduled w₁ w₃ := by
  obtain ⟨s₂, q₂, rfl, h₂⟩ := h
  obtain ⟨s₃, q₃, rfl, h₃⟩ := h'
  refine ⟨s₃, q₃, rfl, fun s hs => ?_⟩
  obtain ⟨t, ht, e₁, e₂, e₃, e₄, e₅, e₆⟩ := h₃ s hs
  obtain ⟨u, hu, f₁, f₂, f₃, f₄, f₅, f₆⟩ := h₂ t ht
  exact ⟨u, hu, e₁.trans f₁, e₂.trans f₂, e₃.trans f₃, e₄.trans f₄, e₅.trans f₅, e₆.trans f₆⟩

/-- A statement that books a fire or touches the scheduler's queue. -/
def Books : Stmt → Prop
  | .dateNow => True
  | .scheduleUpdate _ (.fired _ _ _ _ _) => True
  | .scheduleUpdate _ .workerFailed => True
  | .schedulerAdd _ => True
  | .schedulerRemove _ _ => True
  | _ => False

theorem updateSchedule (id : Id) {p : SchedulePatch} (hp : Books (.scheduleUpdate id p)) :
    Rescheduled w (w.updateSchedule id p) := by
  refine ⟨(w.updateSchedule id p).db.schedules, w.scheduler, rfl, fun s' hs => ?_⟩
  obtain ⟨s, hmem, rfl⟩ := World.mem_updateSchedule.mp hs
  refine ⟨s, hmem, ?_⟩
  split_ifs
  · cases p with
    | fired _ _ _ _ _ => exact ⟨rfl, rfl, rfl, rfl, rfl, rfl⟩
    | workerFailed => exact ⟨rfl, rfl, rfl, rfl, rfl, rfl⟩
    | edit _ _ _ _ _ => exact hp.elim
  · exact ⟨rfl, rfl, rfl, rfl, rfl, rfl⟩

theorem exec_of_books (s : Stmt) (w : World) (hs : Books s) : Rescheduled w (exec env s w).2 := by
  cases s with
  | dateNow => exact refl w
  | schedulerAdd _ => exact ⟨w.db.schedules, _, rfl, fun s hs => ⟨s, hs, rfl, rfl, rfl, rfl, rfl, rfl⟩⟩
  | schedulerRemove _ _ =>
    exact ⟨w.db.schedules, _, rfl, fun s hs => ⟨s, hs, rfl, rfl, rfl, rfl, rfl, rfl⟩⟩
  | scheduleUpdate id p =>
    cases h : w.db.schedules.get id with
    | none =>
      simp only [exec, h]
      exact refl w
    | some s =>
      cases p with
      | fired _ _ _ _ _ =>
        simp only [exec, h]
        exact updateSchedule id hs
      | workerFailed =>
        simp only [exec, h]
        exact updateSchedule id hs
      | edit _ _ _ _ _ => exact hs.elim
  | _ => exact hs.elim

/-- A program that only books leaves a store that differs in its bookkeeping only. -/
theorem wp_of_books {α : Type} {p : Service α} {w₀ : World} {Q : Except Err α → Unit → Prop}
    (hp : p.wp (usingOnly Books) Q ()) (h : Rescheduled w₀ w) :
    p.wp (alone env may) (fun r w' => Q r () ∧ Rescheduled w₀ w') w :=
  wp_of_usingOnly (fun s w hs hw => hw.trans (exec_of_books s w hs)) hp h

end Rescheduled

namespace SchedulerService

/-- What a fire of a schedule dispatches. -/
def creation (env : Env) (schedule : Schedule) (server : ServerInstance)
    (avoidBloodMoonRestart : Bool) : Creation :=
  let type := effectiveJobType env schedule server
  let payload := firePayload schedule server avoidBloodMoonRestart
  { data := ⟨schedule.orgId, none, some schedule.serverInstanceId, type, some payload, none⟩
    hostId := server.hostId
    entry := fireEntry schedule server.hostId type payload }

/-- A fire of the schedule dispatches `c`: the schedule is enabled and no job of it is active. -/
inductive Fires (env : Env) (w : World) (scheduleId : Id) : Creation → Prop where
  | mk {s si} (schedule : w.db.schedules.get scheduleId = some s) (enabled : s.enabled = true)
      (server : w.db.serverInstances.get s.serverInstanceId = some si)
      (idle : w.db.jobRuns.rows.find?
        (w.db.isActive s.serverInstanceId (effectiveJobType env s si) s.id) = none) :
      Fires env w scheduleId (creation env s si (w.db.avoidBloodMoonRestart si.orgId))

/-- Putting the next fire into the scheduler's queue reads the clock and adds an entry. -/
theorem scheduleNext_using {P : Stmt → Prop} (hnow : P .dateNow)
    (hadd : ∀ entry, P (.schedulerAdd entry)) (scheduleId : Id) (nextRun : Option ℕ)
    {Q : Except Err Unit → Prop} (hQ : ∀ r, Q r) :
    (scheduleNext scheduleId nextRun).wp (usingOnly P) (fun r _ => Q r) () := by
  unfold scheduleNext
  cases nextRun with
  | none => exact (wp_pure _ _ _).mpr (hQ _)
  | some t =>
    simp only [wp_bind, wp_request, usingOnly_apply, andThen_ok, andThen_error]
    exact ⟨hnow, fun _ => hQ _, fun _ => ⟨hadd _, fun _ => hQ _, fun _ => hQ _⟩⟩

theorem scheduleNext_books (scheduleId : Id) (nextRun : Option ℕ) {Q : Except Err Unit → Prop}
    (hQ : ∀ r, Q r) :
    (scheduleNext scheduleId nextRun).wp (usingOnly Rescheduled.Books) (fun r _ => Q r) () :=
  scheduleNext_using trivial (fun _ => trivial) scheduleId nextRun hQ

/-- The handler of a fire books the failure and throws. -/
theorem fireFailed_books {α : Type} (schedule : Schedule) (createdJobId : Option Id) (e : Err) :
    (fireFailed env schedule createdJobId e : Service α).wp (usingOnly Rescheduled.Books)
      (fun r _ => ∀ a, r ≠ .ok a) () := by
  have failed : ∀ e : Err, ∀ a : α, Except.error e ≠ .ok a := fun e a h => absurd h (by simp)
  unfold fireFailed
  simp only [wp_bind, wp_request, usingOnly_apply, andThen_ok, andThen_error]
  refine ⟨trivial, failed, fun now => ⟨trivial, failed, fun _ => ?_⟩⟩
  have hnext := scheduleNext_books schedule.id (computeNextRun env schedule now)
    (fun _ => trivial : ∀ r : Except Err Unit, True)
  refine wp_mono (usingOnly_monotone _) ?_ hnext
  intro r u _
  cases r with
  | error e' => exact failed e'
  | ok _ => exact (wp_throw _ _ _).mpr (failed e)

/-- The states that a fire can leave, but for the bookkeeping of schedules. -/
def Fired (env : Env) (may : Stmt → World → Prop) (scheduleId : Id) (w w' : World) : Prop :=
  ∃ w₁, Rescheduled w₁ w' ∧ (w₁ = w ∨ ∃ c, Fires env w scheduleId c ∧ c.Ends may w w₁)

theorem Fired.trans {scheduleId : Id} {w₁ w₂ : World} (h : Fired env may scheduleId w w₁)
    (h' : Rescheduled w₁ w₂) : Fired env may scheduleId w w₂ := by
  obtain ⟨w₀, hw₀, hends⟩ := h
  exact ⟨w₀, hw₀.trans h', hends⟩

/-- The handler after a failure in a state that a fire can leave. -/
theorem fireFailed_spec {α : Type} {scheduleId : Id} {w₁ : World} (schedule : Schedule)
    (createdJobId : Option Id) (e : Err) (h : Fired env may scheduleId w w₁) :
    (fireFailed env schedule createdJobId e : Service α).wp (alone env may)
      (fun r w' => (∀ a, r ≠ .ok a) ∧ Fired env may scheduleId w w') w₁ := by
  refine wp_mono alone_monotone ?_
    (Rescheduled.wp_of_books (fireFailed_books schedule createdJobId e) (.refl w₁))
  rintro r w' ⟨hr, hw'⟩
  exact ⟨hr, h.trans hw'⟩

/-- The body of a fire that finds the schedule idle. -/
theorem dispatch_spec {scheduleId : Id} (s : Schedule) (si : ServerInstance) (c : Creation)
    (hdata : c.data = ⟨s.orgId, none, some s.serverInstanceId, effectiveJobType env s si,
      some (firePayload s si (w.db.avoidBloodMoonRestart si.orgId)), none⟩)
    (hhost : c.hostId = si.hostId) (hc : Fires env w scheduleId c) :
    (tryCatch
      (dispatch s si.hostId (effectiveJobType env s si)
        (firePayload s si (w.db.avoidBloodMoonRestart si.orgId)))
      (fireFailed env s none)).wp (alone env may)
      (fun r w' => (∀ ids, r = .ok ids →
          c.Refers w ∧ ids = (w.db.jobs.next, w.db.jobRuns.next) ∧ w' = c.run w) ∧
        ((∀ ids, r ≠ .ok ids) → Fired env may scheduleId w w')) w := by
  have hstart : Fired env may scheduleId w w := ⟨w, .refl w, .inl rfl⟩
  have hjob (h : w.db.refersToRecords c.data = true) : Fired env may scheduleId w (c.job w) :=
    ⟨c.job w, .refl _, .inr ⟨c, hc, .job h⟩⟩
  refine wp_tryCatch_of alone_monotone
    (?_ : (dispatch s si.hostId (effectiveJobType env s si)
        (firePayload s si (w.db.avoidBloodMoonRestart si.orgId))).wp (alone env may)
      (fun r w' => (∀ ids, r = .ok ids →
          c.Refers w ∧ ids = (w.db.jobs.next, w.db.jobRuns.next) ∧ w' = c.run w) ∧
        ((∀ ids, r ≠ .ok ids) → Fired env may scheduleId w w')) w) (fun _ _ h => h) ?_
  · unfold dispatch
    rw [← hdata, ← hhost]
    apply c.wp_create fun jobId runId => pure (jobId, runId)
    · exact fun e _ => ⟨fun ids h => absurd h (by simp), fun _ => hstart⟩
    · exact fun h e _ => ⟨fun ids h => absurd h (by simp), fun _ => hjob h⟩
    · intro h
      rw [wp_pure]
      exact ⟨fun ids hids => ⟨h, (Except.ok.inj hids).symm, rfl⟩, fun hne => (hne _ rfl).elim⟩
  · rintro e w₁ ⟨-, hfired⟩
    refine wp_mono alone_monotone ?_
      (fireFailed_spec s none e (hfired fun ids h => absurd h (by simp)))
    rintro r w' ⟨hne, hw'⟩
    exact ⟨fun ids h => (hne ids h).elim, fun _ => hw'⟩

/-- A fire leaves the stores as they are or dispatches the schedule's job, and books the outcome. -/
theorem processScheduleFire_spec (scheduleId : Id) :
    (processScheduleFire env scheduleId).wp (alone env may)
      (fun _ w' => Fired env may scheduleId w w') w := by
  have hstart : Fired env may scheduleId w w := ⟨w, .refl w, .inl rfl⟩
  unfold processScheduleFire
  rw [wp_bind, wp_request, alone_apply]
  refine ⟨?_, fun _ _ => hstart⟩
  rw [exec, andThen_ok]
  cases hs : w.db.schedules.get scheduleId with
  | none => exact (wp_pure _ _ _).mpr hstart
  | some s =>
    cases hsi : w.db.serverInstances.get s.serverInstanceId with
    | none =>
      simp only [Option.bind_some, hsi, Option.map_none]
      exact (wp_pure _ _ _).mpr hstart
    | some si =>
      simp only [Option.bind_some, hsi, Option.map_some]
      rw [wp_ite]
      split_ifs with henabled
      · exact (wp_pure _ _ _).mpr hstart
      rw [wp_bind, wp_request, alone_apply]
      refine ⟨?_, fun _ _ => hstart⟩
      rw [exec, andThen_ok]
      split
      · -- a job of the schedule is active
        refine wp_mono alone_monotone ?_ (Rescheduled.wp_of_books (?_ :
          Program.wp (usingOnly Rescheduled.Books) _ (fun _ _ => True) ()) (.refl w))
        · rintro r w' ⟨-, hw'⟩
          exact hstart.trans hw'
        · simp only [wp_bind, wp_request, usingOnly_apply, andThen_ok, andThen_error]
          exact ⟨trivial, fun _ => trivial, fun _ => ⟨trivial, fun _ => trivial,
            fun _ => scheduleNext_books _ _ fun _ => trivial⟩⟩
      · rename_i hidle
        let c := creation env s si (w.db.avoidBloodMoonRestart si.orgId)
        have hc : Fires env w scheduleId c := .mk hs (by simpa using henabled) hsi hidle
        refine wp_bind_of alone_monotone (dispatch_spec s si c rfl rfl hc) ?_ ?_
        swap
        · rintro e w' ⟨-, h⟩
          exact h fun ids h => absurd h (by simp)
        rintro ⟨jobId, runId⟩ w' ⟨h, -⟩
        obtain ⟨hrefers, hids, rfl⟩ := h _ rfl
        obtain ⟨rfl, rfl⟩ := Prod.mk.inj hids
        have hrun (hm : may (.queueAdd c.data.orgId (c.queueEntry w)) (c.run w)) :
            Fired env may scheduleId w (c.run w) :=
          ⟨_, .refl _, .inr ⟨c, hc, .run hrefers hm⟩⟩
        have hqueued : Fired env may scheduleId w (c.queued w) :=
          ⟨_, .refl _, .inr ⟨c, hc, .queued hrefers⟩⟩
        refine wp_tryCatch_of alone_monotone (?_ : Program.wp (alone env may) _
          (fun _ w' => Fired env may scheduleId w w') (c.run w)) (fun _ _ h => h) ?_
        · unfold fireDispatched
          rw [wp_bind]
          apply c.wp_enqueue hrun
          rw [andThen_ok]
          refine wp_mono alone_monotone ?_ (Rescheduled.wp_of_books (?_ :
            Program.wp (usingOnly Rescheduled.Books) _ (fun _ _ => True) ()) (.refl (c.queued w)))
          · rintro r w' ⟨-, hw'⟩
            exact hqueued.trans hw'
          · simp only [wp_bind, wp_request, usingOnly_apply, andThen_ok, andThen_error]
            exact ⟨trivial, fun _ => trivial, fun _ => ⟨trivial, fun _ => trivial,
              fun _ => scheduleNext_books _ _ fun _ => trivial⟩⟩
        · intro e w₁ h
          refine wp_mono alone_monotone ?_ (fireFailed_spec s (some w.db.jobs.next) e h)
          rintro r w' ⟨-, hw'⟩
          exact hw'

/-- The worker's handler adds to the bookkeeping only. -/
theorem fire_spec (scheduleId : Id) :
    (fire env scheduleId).wp (alone env may) (fun _ w' => Fired env may scheduleId w w') w := by
  unfold fire
  refine wp_tryCatch_of alone_monotone (processScheduleFire_spec scheduleId) (fun _ _ h => h) ?_
  intro e w₁ h
  refine wp_mono alone_monotone ?_ (Rescheduled.wp_of_books (?_ :
    Program.wp (usingOnly Rescheduled.Books) _ (fun _ _ => True) ()) (.refl w₁))
  · rintro r w' ⟨-, hw'⟩
    exact h.trans hw'
  · simp only [handleWorkerFailure, wp_bind, wp_request, usingOnly_apply, andThen_ok,
      andThen_error, wp_pure, wp_throw]
    exact ⟨trivial, fun _ => trivial, fun _ => trivial⟩

end SchedulerService

section Requests

open SchedulerService

/-- `w'` is `w` with another scheduler's queue. -/
def Retimed (w w' : World) : Prop := ∃ scheduler, w' = { w with scheduler := scheduler }

/-- A statement that reads the clock or touches the scheduler's queue. -/
def Retimed.Times : Stmt → Prop
  | .dateNow => True
  | .schedulerAdd _ => True
  | .schedulerRemove _ _ => True
  | _ => False

/-- A program of such statements leaves the other stores as they are. -/
theorem Retimed.wp_of_times {α : Type} {p : Service α} {Q : Except Err α → Unit → Prop}
    (hp : p.wp (usingOnly Times) Q ()) :
    p.wp (alone env may) (fun r w' => Q r () ∧ Retimed w w') w := by
  apply wp_of_usingOnly _ hp
  · exact ⟨w.scheduler, rfl⟩
  · rintro s _ hs ⟨q, rfl⟩
    cases s with
    | dateNow => exact ⟨q, rfl⟩
    | schedulerAdd _ => exact ⟨_, rfl⟩
    | schedulerRemove _ _ => exact ⟨_, rfl⟩
    | _ => exact hs.elim

/-- The schedule that a request asks for. -/
def CreateScheduleBody.data (body : CreateScheduleBody) (orgId userId : Id) (nextRunAt : ℕ) :
    ScheduleData :=
  ⟨orgId, body.serverInstanceId, body.name, body.cronExpression, body.jobType, body.payload,
    body.enabled.getD true, some nextRunAt, some userId⟩

/-- The request is one that the controller and `createSchedule` accept, for the database to check:
its texts are not empty, its expression is valid, and its payload is not a bare `null`. -/
def CreateScheduleBody.Acceptable (env : Env) (body : CreateScheduleBody) (now : ℕ) : Prop :=
  (body.name ≠ "" ∧ body.cronExpression ≠ "" ∧ body.jobType ≠ "") ∧
    (env.getNextCronRun body.cronExpression now).isSome = true ∧ rejectsNull body.payload = false

/-- `createSchedule` leaves the stores as they are, or creates the schedule that it is asked for,
on a server instance that exists. -/
theorem SchedulerService.createSchedule_spec (orgId userId : Id) (body : CreateScheduleBody) :
    (createSchedule env orgId userId body).wp (alone env may)
      (fun _ w' => w' = w ∨ ∃ nextRunAt,
        (env.getNextCronRun body.cronExpression w.now = some nextRunAt ∧
          rejectsNull body.payload = false) ∧
        (w.db.serverInstances.get body.serverInstanceId).isSome = true ∧
          Retimed (w.insertSchedule (body.data orgId userId nextRunAt)) w') w := by
  unfold createSchedule
  rw [wp_bind, wp_request, alone_apply]
  refine ⟨?_, fun _ _ => .inl rfl⟩
  rw [exec, andThen_ok]
  cases hcron : env.getNextCronRun body.cronExpression w.now with
  | none => exact (wp_throw _ _ _).mpr (.inl rfl)
  | some nextRunAt =>
    dsimp only
    rw [wp_bind, wp_request, alone_apply]
    refine ⟨?_, fun _ _ => .inl rfl⟩
    rw [exec]
    split_ifs with hnull hserver
    · exact .inl rfl
    · exact .inl rfl
    · rw [andThen_ok]
      have hfound : (w.db.serverInstances.get body.serverInstanceId).isSome = true :=
        Option.isSome_iff_ne_none.mpr (by simpa using hserver)
      refine wp_mono alone_monotone ?_ (Retimed.wp_of_times (Q := fun _ _ => True) ?_)
      · rintro r w' ⟨-, hw'⟩
        exact .inr ⟨nextRunAt, ⟨rfl, by simpa using hnull⟩, hfound, hw'⟩
      · rw [wp_bind]
        refine wp_mono (usingOnly_monotone _) ?_
          (scheduleNext_using trivial (fun _ => trivial) _ _ fun _ => trivial)
        rintro (e | u) _ -
        · trivial
        · exact (wp_pure _ _ _).mpr trivial

/-- A request to create a schedule leaves the stores as they are, or a member of the organization
creates the schedule. -/
theorem SchedulerController.create_spec (orgId userId : Id) (body : CreateScheduleBody) :
    (SchedulerController.create env orgId userId body).wp (alone env may)
      (fun _ w' => w' = w ∨ ∃ nextRunAt, (w.db.userOrg userId orgId).isSome = true ∧
        body.Acceptable env w.now ∧ (w.db.serverInstances.get body.serverInstanceId).isSome = true ∧
          Retimed (w.insertSchedule (body.data orgId userId nextRunAt)) w') w := by
  unfold SchedulerController.create
  apply wp_bind_of alone_monotone (orgMemberGuard_spec userId orgId)
  swap
  · rintro e w' ⟨rfl, -⟩
    exact .inl rfl
  rintro role w₁ ⟨hw₁, hrole⟩
  subst hw₁
  have hmember : (w₁.db.userOrg userId orgId).isSome = true := by rw [hrole role rfl]; rfl
  rw [wp_ite]
  split_ifs with hempty
  · exact (wp_throw _ _ _).mpr (.inl rfl)
  · obtain ⟨hname, htexts⟩ := not_or.mp hempty
    rw [wp_tryCatch, wp_bind]
    refine wp_mono alone_monotone ?_ (createSchedule_spec orgId userId body)
    rintro r w' (rfl | ⟨nextRunAt, ⟨hcron, hnull⟩, hfound, hw'⟩)
    · cases r with
      | ok _ => exact (wp_pure _ _ _).mpr (.inl rfl)
      | error e => exact (wp_throw _ _ _).mpr (.inl rfl)
    · have hbody : body.Acceptable env w₁.now :=
        ⟨⟨hname, not_or.mp htexts⟩, by rw [hcron]; rfl, hnull⟩
      cases r with
      | ok _ => exact (wp_pure _ _ _).mpr (.inr ⟨nextRunAt, hmember, hbody, hfound, hw'⟩)
      | error e => exact (wp_throw _ _ _).mpr (.inr ⟨nextRunAt, hmember, hbody, hfound, hw'⟩)

/-- The edit that a request asks for. -/
def UpdateScheduleBody.patch (body : UpdateScheduleBody) (nextRunAt : Option ℕ) : SchedulePatch :=
  .edit body.name (body.cronExpression.map fun cron => (cron, nextRunAt)) body.jobType body.payload
    body.enabled

/-- The request is one that `updateSchedule` accepts: its expression, if it gives one, is valid, and
its payload is not a bare `null`. -/
def UpdateScheduleBody.Acceptable (env : Env) (body : UpdateScheduleBody) (now : ℕ) : Prop :=
  (∀ cron, body.cronExpression = some cron → cron ≠ "" →
    (env.getNextCronRun cron now).isSome = true) ∧ rejectsNull body.payload = false

theorem SchedulerService.updatedNextRun_spec (existing : Schedule)
    (cronExpression : Option String) :
    (updatedNextRun env existing cronExpression).wp (alone env may)
      (fun r w' => w' = w ∧ ∀ nextRunAt, r = .ok nextRunAt → ∀ cron, cronExpression = some cron →
        cron ≠ "" → (env.getNextCronRun cron w.now).isSome = true) w := by
  unfold updatedNextRun
  split
  · exact (wp_pure _ _ _).mpr ⟨rfl, fun _ _ cron h => absurd h (by simp)⟩
  · exact (wp_pure _ _ _).mpr ⟨rfl, fun _ _ cron h hne => absurd (Option.some.inj h).symm hne⟩
  · rename_i cron _
    rw [wp_bind, wp_request, alone_apply]
    refine ⟨?_, fun _ _ => ⟨rfl, fun _ h => absurd h (by simp)⟩⟩
    rw [exec, andThen_ok]
    cases hcron : env.getNextCronRun cron w.now with
    | none => exact (wp_throw _ _ _).mpr ⟨rfl, fun _ h => absurd h (by simp)⟩
    | some _ =>
      refine (wp_pure _ _ _).mpr ⟨rfl, fun _ _ cron' h _ => ?_⟩
      rw [← Option.some.inj h, hcron]
      rfl

/-- What follows the update of a schedule leaves the stores but for the scheduler's queue. -/
theorem SchedulerService.retime_times (existing updated : Schedule) :
    (do
      removeNext existing.id existing.nextRunAt
      scheduleNext updated.id (if updated.enabled = true then updated.nextRunAt else none)
      return updated : Service Schedule).wp (usingOnly Retimed.Times) (fun _ _ => True) () := by
  have next : (do
      scheduleNext updated.id (if updated.enabled = true then updated.nextRunAt else none)
      return updated : Service Schedule).wp (usingOnly Retimed.Times) (fun _ _ => True) () := by
    rw [wp_bind]
    refine wp_mono (usingOnly_monotone _) ?_
      (scheduleNext_using trivial (fun _ => trivial) _ _ fun _ => trivial)
    rintro (e | u) _ -
    · trivial
    · exact (wp_pure _ _ _).mpr trivial
  unfold removeNext
  cases existing.nextRunAt with
  | none =>
    rw [wp_bind, wp_pure, andThen_ok]
    exact next
  | some t =>
    simp only [wp_bind (p := tryCatch _ _), wp_tryCatch, wp_request, usingOnly_apply, orElse_ok,
      orElse_error, andThen_ok, wp_pure]
    exact ⟨trivial, fun _ => next, fun _ => next⟩

/-- `updateSchedule` leaves the stores as they are, or edits a schedule of the organization. -/
theorem SchedulerService.updateSchedule_spec (orgId scheduleId : Id) (body : UpdateScheduleBody) :
    (updateSchedule env orgId scheduleId body).wp (alone env may)
      (fun _ w' => w' = w ∨ ∃ existing nextRunAt, w.db.schedules.get scheduleId = some existing ∧
        existing.orgId = orgId ∧ body.Acceptable env w.now ∧
          Retimed (w.updateSchedule scheduleId (body.patch nextRunAt)) w') w := by
  unfold updateSchedule
  rw [wp_bind, wp_request, alone_apply]
  refine ⟨?_, fun _ _ => .inl rfl⟩
  rw [exec, andThen_ok]
  cases hs : w.db.schedules.get scheduleId with
  | none => exact (wp_throw _ _ _).mpr (.inl rfl)
  | some existing =>
    by_cases horg : existing.orgId = orgId
    swap
    · simp only [Option.filter_some, beq_iff_eq, horg, if_false]
      exact (wp_throw _ _ _).mpr (.inl rfl)
    simp only [Option.filter_some, beq_iff_eq, horg, if_true]
    refine wp_bind_of alone_monotone (updatedNextRun_spec existing body.cronExpression) ?_ ?_
    swap
    · rintro e w' ⟨rfl, -⟩
      exact .inl rfl
    rintro nextRunAt w' ⟨rfl, hcron⟩
    rw [wp_bind, wp_request, alone_apply]
    refine ⟨?_, fun _ _ => .inl rfl⟩
    simp only [exec, hs]
    split
    · exact .inl rfl
    · exact .inl rfl
    · rename_i s hs' hnull
      obtain rfl := Option.some.inj hs'
      have hpayload : rejectsNull body.payload = false := by
        cases hp : body.payload with
        | none => rfl
        | some json =>
          cases json with
          | null => exact (hnull body.name _ body.jobType body.enabled (by rw [hp])).elim
          | _ => rfl
      rw [andThen_ok]
      refine wp_mono alone_monotone ?_ (Retimed.wp_of_times (retime_times existing _))
      rintro r w' ⟨-, hw'⟩
      exact .inr ⟨existing, nextRunAt, rfl, horg, ⟨hcron _ rfl, hpayload⟩, hw'⟩

/-- A request to update a schedule leaves the stores as they are, or a member of the schedule's
organization edits it. -/
theorem SchedulerController.update_spec (orgId userId scheduleId : Id)
    (body : UpdateScheduleBody) :
    (SchedulerController.update env orgId userId scheduleId body).wp (alone env may)
      (fun _ w' => w' = w ∨ ∃ existing nextRunAt, (w.db.userOrg userId orgId).isSome = true ∧
        w.db.schedules.get scheduleId = some existing ∧ existing.orgId = orgId ∧
        body.Acceptable env w.now ∧
          Retimed (w.updateSchedule scheduleId (body.patch nextRunAt)) w') w := by
  unfold SchedulerController.update
  apply wp_bind_of alone_monotone (orgMemberGuard_spec userId orgId)
  swap
  · rintro e w' ⟨rfl, -⟩
    exact .inl rfl
  rintro role w' ⟨rfl, hrole⟩
  have hmember : (w'.db.userOrg userId orgId).isSome = true := by rw [hrole role rfl]; rfl
  rw [wp_tryCatch, wp_bind]
  refine wp_mono alone_monotone ?_ (updateSchedule_spec orgId scheduleId body)
  rintro r w' h
  cases r with
  | ok _ =>
    refine (wp_pure _ _ _).mpr ?_
    rcases h with rfl | ⟨existing, nextRunAt, hrest⟩
    · exact .inl rfl
    · exact .inr ⟨existing, nextRunAt, hmember, hrest⟩
  | error e =>
    rw [andThen_error, orElse_error, wp_ite]
    split_ifs <;> rw [wp_throw] <;>
      exact h.imp_right fun ⟨existing, nextRunAt, hrest⟩ => ⟨existing, nextRunAt, hmember, hrest⟩

end Requests

end Mastermind
