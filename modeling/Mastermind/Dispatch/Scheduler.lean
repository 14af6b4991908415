import Mastermind.Dispatch.Jobs

/-!
# `SchedulerService`

A schedule names a server instance, a job type and a payload. When it fires, `processScheduleFire`
dispatches a job of that type, unless a job that it dispatched before has not ended, and puts the
next fire into the scheduler's queue. A fire has no request: what it does is decided by the
schedule as it is stored, and by the server instance that the schedule names.
-/

namespace Mastermind

open Effect

/-- The body of a request that creates a schedule. -/
structure CreateScheduleBody where
  name : String
  serverInstanceId : Id
  cronExpression : String
  jobType : String
  payload : Option Json
  enabled : Option Bool

/-- The body of a request that updates a schedule. -/
structure UpdateScheduleBody where
  enabled : Option Bool
  name : Option String
  cronExpression : Option String
  jobType : Option String
  payload : Option Json

namespace SchedulerService

/-- `computeNextRun`. -/
def computeNextRun (env : Env) (s : Schedule) (now : ℕ) : Option ℕ :=
  (env.getNextCronRun s.cronExpression now).map fun next =>
    env.clampToExecutionWindow next s.executionWindowStart s.executionWindowEnd

/-- Puts the fire of a schedule at `nextRun` into the scheduler's queue. -/
def scheduleNext (scheduleId : Id) (nextRun : Option ℕ) : Service Unit :=
  match nextRun with
  | none => pure ()
  | some nextRun => do
    let now ← query .dateNow
    query (.schedulerAdd ⟨scheduleId, nextRun, nextRun - now⟩)

/-- Takes the fire of a schedule at `nextRun` out of the scheduler's queue, if that succeeds. -/
def removeNext (scheduleId : Id) (nextRun : Option ℕ) : Service Unit :=
  match nextRun with
  | none => pure ()
  | some nextRun => tryCatch (query (.schedulerRemove scheduleId nextRun)) fun _ => pure ()

/-- The job type that a schedule dispatches: a restart of a 7DTD server is the safe one. -/
def effectiveJobType (env : Env) (schedule : Schedule) (server : ServerInstance) : String :=
  if server.gameType = "7dtd" ∧ env.cases.toUpperCase schedule.jobType = "SERVER_RESTART" then
    "SERVER_SAFE_RESTART"
  else schedule.jobType

/-- The payload that a schedule dispatches. -/
def firePayload (schedule : Schedule) (server : ServerInstance) (avoidBloodMoonRestart : Bool) :
    JsonObject :=
  JsonObject.spread
    (serverPayload server avoidBloodMoonRestart ++ [("schedule_id", .str (idText schedule.id))])
    ((schedule.payload.getD .null).props)

/-- The queue entry of a job that a schedule dispatches. -/
def fireEntry (schedule : Schedule) (hostId : Id) (type : String) (payload : JsonObject)
    (jobId runId : Id) : QueueEntry :=
  { id := runId
    name := type
    data := ⟨jobId, runId, hostId, some schedule.serverInstanceId, type, payload, some schedule.id⟩
    delay := 0
    attempts := ((schedule.retryPolicy.bind RetryPolicy.maxRetries).getD 2) + 1
    backoff := .fixed ((schedule.retryPolicy.bind RetryPolicy.backoffMs).getD 2000) }

/-- Creates the job that a schedule dispatches and its run, and returns their ids. -/
def dispatch (schedule : Schedule) (hostId : Id) (type : String) (payload : JsonObject) :
    Service (Id × Id) := do
  let job ← query <| .jobCreate
    ⟨schedule.orgId, none, some schedule.serverInstanceId, type, some payload, none⟩
  let run ← query (.jobRunCreate job.id hostId)
  return (job.id, run.id)

/-- The handler of `processScheduleFire`: books the failure, puts the next fire into the queue and
throws the error again. -/
def fireFailed {α : Type} (env : Env) (schedule : Schedule) (createdJobId : Option Id) (e : Err) :
    Service α := do
  let now ← query .dateNow
  let nextRun := computeNextRun env schedule now
  let _ ← query <| .scheduleUpdate schedule.id
    (.fired .schedulerFailed (some createdJobId) 0 1 nextRun)
  scheduleNext schedule.id nextRun
  throw e

/-- The rest of `processScheduleFire` once the job and its run exist. -/
def fireDispatched (env : Env) (schedule : Schedule) (hostId : Id) (type : String)
    (payload : JsonObject) (jobId runId : Id) : Service Unit := do
  query (.queueAdd schedule.orgId (fireEntry schedule hostId type payload jobId runId))
  let now ← query .dateNow
  let nextRun := computeNextRun env schedule now
  let _ ← query <| .scheduleUpdate schedule.id (.fired .success (some (some jobId)) 1 0 nextRun)
  scheduleNext schedule.id nextRun

/-- `processScheduleFire`. -/
def processScheduleFire (env : Env) (scheduleId : Id) : Service Unit := do
  let found ← query (.scheduleFindUnique scheduleId)
  match found with
  | none => pure ()
  | some (schedule, server, avoidBloodMoonRestart) =>
    if schedule.enabled = false then pure ()
    else do
      let type := effectiveJobType env schedule server
      let payload := firePayload schedule server avoidBloodMoonRestart
      let activeRun ← query (.jobRunFindActive schedule.serverInstanceId type schedule.id)
      match activeRun with
      | some _ => do
        let now ← query .dateNow
        let nextRun := computeNextRun env schedule now
        let _ ← query <| .scheduleUpdate scheduleId (.fired .skippedBusy none 0 0 nextRun)
        scheduleNext scheduleId nextRun
      | none => do
        -- one `try` in the source, whose handler reads `createdJobId`, set once the run exists
        let (jobId, runId) ← tryCatch (dispatch schedule server.hostId type payload)
          (fireFailed env schedule none)
        tryCatch (fireDispatched env schedule server.hostId type payload jobId runId)
          (fireFailed env schedule (some jobId))

/-- `handleWorkerFailure`. -/
def handleWorkerFailure (scheduleId : Id) : Service Unit := do
  let _ ← query (.scheduleUpdate scheduleId .workerFailed)

/-- What the scheduler's worker does with an entry of its queue. -/
def fire (env : Env) (scheduleId : Id) : Service Unit :=
  tryCatch (processScheduleFire env scheduleId) fun e => do
    handleWorkerFailure scheduleId
    throw e

/-- `createSchedule`. -/
def createSchedule (env : Env) (orgId userId : Id) (data : CreateScheduleBody) :
    Service Schedule := do
  let now ← query .dateNow
  match env.getNextCronRun data.cronExpression now with
  | none => throw (.error ("Invalid cron expression: " ++ data.cronExpression))
  | some nextRunAt => do
    let schedule ← query <| .scheduleCreate
      ⟨orgId, data.serverInstanceId, data.name, data.cronExpression, data.jobType, data.payload,
        data.enabled.getD true, some nextRunAt, some userId⟩
    scheduleNext schedule.id (if schedule.enabled = true then some nextRunAt else none)
    return schedule

/-- The next run that `updateSchedule` stores: a new expression's, or the schedule's own. -/
def updatedNextRun (env : Env) (existing : Schedule) (cronExpression : Option String) :
    Service (Option ℕ) :=
  match cronExpression with
  | none => pure existing.nextRunAt
  | some "" => pure existing.nextRunAt
  | some cronExpression => do
    let now ← query .dateNow
    match env.getNextCronRun cronExpression now with
    | none => throw (.error ("Invalid cron expression: " ++ cronExpression))
    | some nextRunAt => pure (some nextRunAt)

/-- `updateSchedule`. -/
def updateSchedule (env : Env) (orgId scheduleId : Id) (data : UpdateScheduleBody) :
    Service Schedule := do
  let found ← query (.scheduleFindFirst scheduleId orgId)
  match found with
  | none => throw (.error "Schedule not found")
  | some existing => do
    let nextRunAt ← updatedNextRun env existing data.cronExpression
    let updated ← query <| .scheduleUpdate scheduleId <|
      .edit data.name (data.cronExpression.map fun cron => (cron, nextRunAt)) data.jobType
        data.payload data.enabled
    removeNext existing.id existing.nextRunAt
    scheduleNext updated.id (if updated.enabled = true then updated.nextRunAt else none)
    return updated

end SchedulerService

end Mastermind
