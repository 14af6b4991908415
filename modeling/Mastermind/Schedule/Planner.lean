import Mastermind.Dispatch.ScheduleRules
import Mastermind.Platform.DelayedJobs

/-!
# The scheduler's own queue

When a schedule fires next is written twice: as `nextRunAt` in its row, and as a delayed job whose
id is the schedule's and the moment. A worker takes the job when it is due, reads the row,
dispatches, and only then writes the row and adds the next job, so that a member may edit the row, or
delete it, while a fire is under way; and BullMQ keeps the ids of finished jobs. `Planner` has the
rows, the jobs and the clock; what a fire does to the other stores is in `Dispatch/Scheduler.lean`,
and here only how it ends. A request that throws changes nothing. The statements of one request, and
those at the end of one fire, are not interleaved with others.
-/

namespace Mastermind

open SchedulerService

/-- The rows of the schedules and the jobs of the scheduler's queue. A worker notes with a job the
row that it read, unless that was missing or disabled. -/
structure Planner where
  now : ℕ
  schedules : Effect.Table Schedule
  jobs : DelayedJobs (Id × ℕ) (Option Schedule)

/-- A schedule with its next run. -/
def Schedule.withNextRun (nextRunAt : ℕ) (s : Schedule) : Schedule :=
  { s with nextRunAt := some nextRunAt }

theorem Schedule.key_withNextRun (nextRunAt : ℕ) (s : Schedule) :
    Effect.Keyed.key (s.withNextRun nextRunAt) = Effect.Keyed.key s := rfl

namespace Planner

variable (env : Env) (p : Planner)

/-- The planner of an empty database. -/
def initial : Planner := ⟨0, .empty, fun _ => none⟩

/-- Puts the next fire of a schedule into the queue. -/
def enqueue (id : Id) (nextRun : Option ℕ) : Planner :=
  match nextRun with
  | none => p
  | some t => { p with jobs := p.jobs.add (id, t) (p.now + (t - p.now)) }

/-- Takes the next fire of a schedule out of the queue. -/
def dequeue (id : Id) (nextRun : Option ℕ) : Planner :=
  match nextRun with
  | none => p
  | some t => { p with jobs := p.jobs.remove (id, t) }

/-- An update of a row. -/
def patch (id : Id) (patch : SchedulePatch) : Planner :=
  { p with schedules := p.schedules.update id (patch.apply p.now) (patch.key_apply p.now) }

/-- A new row. -/
def insert (data : ScheduleData) : Planner :=
  { p with schedules := p.schedules.insert data.row data.key_row }

/-- `createSchedule`. -/
def createSchedule (orgId userId : Id) (body : CreateScheduleBody) : Planner :=
  match env.getNextCronRun body.cronExpression p.now with
  | none => p
  | some t =>
    let data := body.data orgId userId t
    if data.enabled = true then (p.insert data).enqueue p.schedules.next (some t) else p.insert data

/-- The next run that `updateSchedule` stores, or `none` if the expression is invalid. -/
def updatedNextRun (existing : Schedule) (cronExpression : Option String) : Option (Option ℕ) :=
  match cronExpression with
  | none => some existing.nextRunAt
  | some "" => some existing.nextRunAt
  | some cronExpression => (env.getNextCronRun cronExpression p.now).map some

/-- What `updateSchedule` does once its request is accepted. -/
def editSchedule (existing : Schedule) (patch : SchedulePatch) : Planner :=
  let updated := patch.apply p.now existing
  let removed := (p.patch existing.id patch).dequeue existing.id existing.nextRunAt
  if updated.enabled = true then removed.enqueue existing.id updated.nextRunAt else removed

/-- `updateSchedule`. -/
def updateSchedule (orgId scheduleId : Id) (body : UpdateScheduleBody) : Planner :=
  match (p.schedules.get scheduleId).filter fun s => s.orgId == orgId with
  | none => p
  | some existing =>
    match p.updatedNextRun env existing body.cronExpression with
    | none => p
    | some nextRunAt => p.editSchedule existing (body.patch nextRunAt)

/-- `deleteSchedule`. -/
def deleteSchedule (orgId scheduleId : Id) : Planner :=
  match (p.schedules.get scheduleId).filter fun s => s.orgId == orgId with
  | none => p
  | some _ => { p with schedules := p.schedules.erase fun s => s.id == scheduleId }

/-- What `hydrateSchedules` does for one schedule, at the moment `now`. -/
def hydrateSchedule (now : ℕ) (p : Planner) (s : Schedule) : Planner :=
  match computeNextRun env s now with
  | none => p
  | some t =>
    let queued := p.enqueue s.id (some t)
    { queued with
      schedules := p.schedules.update s.id (Schedule.withNextRun t) (Schedule.key_withNextRun t) }

/-- `hydrateSchedules`. -/
def hydrateSchedules : Planner :=
  (p.schedules.rows.filter fun s => s.enabled).foldl (hydrateSchedule env p.now) p

/-- How a fire that has something to do ends. The scheduler's queue is left alone where a call fails
outside of the `try` or in its handler, which the worker's own handler may book. -/
inductive Ending where
  | skippedBusy
  | success (jobId : Id)
  | failed (createdJobId : Option Id)
  | lost (booked : Bool)

/-- The update of the row with which a fire ends. -/
def Ending.patch (nextRun : Option ℕ) : Ending → SchedulePatch
  | skippedBusy => .fired .skippedBusy none 0 0 nextRun
  | success jobId => .fired .success (some (some jobId)) 1 0 nextRun
  | failed createdJobId => .fired .schedulerFailed (some createdJobId) 0 1 nextRun
  | lost _ => .workerFailed

/-- The end of a fire that has read the row `s`: the row of the schedule, if it is still there, and
the next fire. -/
def endFire (s : Schedule) (ending : Ending) : Planner :=
  let nextRun := computeNextRun env s p.now
  match p.schedules.get s.id with
  | none => p
  | some _ =>
    match ending with
    | .lost booked => if booked = true then p.patch s.id .workerFailed else p
    | .failed createdJobId =>
      ((p.patch s.id ((Ending.failed createdJobId).patch nextRun)).enqueue s.id nextRun).patch s.id
        .workerFailed
    | ending => (p.patch s.id (ending.patch nextRun)).enqueue s.id nextRun

/-- What happens to a planner. `start` is a worker that takes a due job and reads the row, and
`finish` the end of the fire. -/
inductive Action where
  | tick (ms : ℕ)
  | createSchedule (orgId userId : Id) (body : CreateScheduleBody)
  | updateSchedule (orgId scheduleId : Id) (body : UpdateScheduleBody)
  | deleteSchedule (orgId scheduleId : Id)
  | hydrateSchedules
  | start (scheduleId : Id) (runAt : ℕ)
  | finish (scheduleId : Id) (runAt : ℕ) (ending : Ending)

/-- The end of the fire of a job. -/
def finish (k : Id × ℕ) (ending : Ending) : Planner :=
  let ended := match p.jobs k with
    | some ⟨_, .active (some s)⟩ => p.endFire env s ending
    | _ => p
  { ended with jobs := ended.jobs.finish k }

/-- A planner after an action. -/
def act : Action → Planner
  | .tick ms => { p with now := p.now + ms }
  | .createSchedule orgId userId body => p.createSchedule env orgId userId body
  | .updateSchedule orgId scheduleId body => p.updateSchedule env orgId scheduleId body
  | .deleteSchedule orgId scheduleId => p.deleteSchedule orgId scheduleId
  | .hydrateSchedules => p.hydrateSchedules env
  | .start scheduleId runAt =>
    let read := (p.schedules.get scheduleId).filter fun s => s.enabled
    { p with jobs := p.jobs.take (scheduleId, runAt) p.now read }
  | .finish scheduleId runAt ending => p.finish env (scheduleId, runAt) ending

/-- The planners that are reached from another by actions which meet a condition. -/
inductive Reaches (cond : Planner → Action → Prop) (p₀ : Planner) : Planner → Prop where
  | refl : Reaches cond p₀ p₀
  | act {p : Planner} (a : Action) :
      Reaches cond p₀ p → cond p a → Reaches cond p₀ (p.act env a)

end Planner

end Mastermind
