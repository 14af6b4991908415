import Mastermind.Effect.Table
import Mastermind.Platform.Json

/-!
# The stores of the control plane

The records of `prisma/schema.prisma` that dispatching work reads or writes, the entries of the
BullMQ queues, and `World`, the state that all of the control plane's operations share. A record's
id stands for its `cuid`, and `idText` for its text. A server instance holds the slug of its game
type, which the code reaches through the relation, and `Database.avoidBloodMoonRestart` the one
setting of an organization that jobs depend on. Times are milliseconds.
-/

namespace Mastermind

open Effect

/-- The id of a record. -/
abbrev Id := ℕ

/-- The text of an id, as it stands in a payload. -/
def idText (i : Id) : String := Nat.repr i

/-- `Role.name`. -/
inductive Role where
  | admin | operator | viewer
deriving DecidableEq

/-- `JOB_RUN_STATUS`. -/
inductive JobRunStatus where
  | pending | running | success | failed | cancelled
deriving DecidableEq

/-- `BATCH_TYPES`. -/
inductive BatchType where
  | restartWave | updateWave | bulkModInstall | custom
deriving DecidableEq

/-- `JobBatch.status`. -/
inductive BatchStatus where
  | running | completed | completedWithFailures | cancelled
deriving DecidableEq

/-- `model Host`. -/
structure Host where
  id : Id
  orgId : Id
  name : String

/-- `model ServerInstance`, with the slug of its game type. -/
structure ServerInstance where
  id : Id
  orgId : Id
  hostId : Id
  gameType : String
  name : String
  installPath : Option String
  startCommand : Option String
  telnetHost : Option String
  telnetPort : Option ℕ
  telnetPassword : Option String
  config : Option Json

/-- `Schedule.retryPolicy`. -/
structure RetryPolicy where
  maxRetries : Option ℕ
  backoffMs : Option ℕ

/-- `Schedule.lastRunStatus`. -/
inductive FireStatus where
  | success | skippedBusy | schedulerFailed
deriving DecidableEq

/-- `model Schedule`. -/
structure Schedule where
  id : Id
  orgId : Id
  serverInstanceId : Id
  name : String
  cronExpression : String
  jobType : String
  payload : Option Json
  enabled : Bool
  executionWindowStart : Option String
  executionWindowEnd : Option String
  retryPolicy : Option RetryPolicy
  lastRunAt : Option ℕ
  nextRunAt : Option ℕ
  lastRunStatus : Option FireStatus
  lastRunJobId : Option Id
  runCount : ℕ
  failureCount : ℕ
  createdById : Option Id

/-- `model Job`. -/
structure Job where
  id : Id
  orgId : Id
  batchId : Option Id
  serverInstanceId : Option Id
  type : String
  payload : Option JsonObject
  createdById : Option Id

/-- The properties that the code writes into `JobRun.result`. -/
structure RunResult where
  phase : Option String
  message : Option String
  updatedAt : Option ℕ
  durationMs : Option ℚ
  errorMessage : Option String
  output : Option String
  data : Option JsonObject
  recoveredAt : Option ℕ

/-- The result `{}`. -/
def RunResult.none : RunResult :=
  ⟨Option.none, Option.none, Option.none, Option.none, Option.none, Option.none, Option.none,
    Option.none⟩

/-- `model JobRun`. -/
structure JobRun where
  id : Id
  jobId : Id
  hostId : Id
  status : JobRunStatus
  startedAt : Option ℕ
  finishedAt : Option ℕ
  result : Option RunResult

/-- `model JobBatch`. -/
structure JobBatch where
  id : Id
  orgId : Id
  type : BatchType
  status : BatchStatus
  totalCount : ℤ
  pendingCount : ℤ
  runningCount : ℤ
  successCount : ℤ
  failedCount : ℤ
  cancelledCount : ℤ
  createdById : Option Id
  createdAt : ℕ
  completedAt : Option ℕ

/-- The counter of a batch for the runs in a status. -/
def JobBatch.counter (b : JobBatch) : JobRunStatus → ℤ
  | .pending => b.pendingCount
  | .running => b.runningCount
  | .success => b.successCount
  | .failed => b.failedCount
  | .cancelled => b.cancelledCount

/-- `model AuditLog`. -/
structure AuditLog where
  orgId : Id
  actorId : Option Id
  action : String
  resourceType : String
  resourceId : Id
  details : JsonObject

instance : Keyed Host := ⟨Host.id⟩
instance : Keyed ServerInstance := ⟨ServerInstance.id⟩
instance : Keyed Schedule := ⟨Schedule.id⟩
instance : Keyed Job := ⟨Job.id⟩
instance : Keyed JobRun := ⟨JobRun.id⟩
instance : Keyed JobBatch := ⟨JobBatch.id⟩

/-- The PostgreSQL database. `userOrg` is the role of a user in an organization. -/
structure Database where
  avoidBloodMoonRestart : Id → Bool
  userOrg : Id → Id → Option Role
  hosts : Table Host
  serverInstances : Table ServerInstance
  schedules : Table Schedule
  jobs : Table Job
  jobRuns : Table JobRun
  jobBatches : Table JobBatch
  auditLogs : List AuditLog

/-- `QueueJobData`, which an agent receives when it polls. -/
structure QueueJobData where
  jobId : Id
  jobRunId : Id
  hostId : Id
  serverInstanceId : Option Id
  type : String
  payload : JsonObject
  scheduleId : Option Id

/-- The `backoff` option of a queue entry. -/
inductive Backoff where
  | fixed (delay : ℕ)
  | exponential (delay : ℕ)

/-- An entry of an organization's job queue. `id` is the entry's BullMQ job id. -/
structure QueueEntry where
  id : Id
  name : String
  data : QueueJobData
  delay : ℕ
  attempts : ℕ
  backoff : Backoff

/-- An entry of the scheduler's queue; its BullMQ job id is `schedule:{scheduleId}:{runAt}`. -/
structure SchedulerEntry where
  scheduleId : Id
  runAt : ℕ
  delay : ℕ

/-- The payload of a `batch.progress` event: the batch, and the run that changed. -/
structure ProgressEvent where
  orgId : Id
  batch : JobBatch
  updatedRun : Option (Id × JobRunStatus)

/-- A status as the text that the code stores. -/
def JobRunStatus.text : JobRunStatus → String
  | .pending => "pending"
  | .running => "running"
  | .success => "success"
  | .failed => "failed"
  | .cancelled => "cancelled"

/-- The state that the operations of the control plane share. `queues` maps an organization to
its job queue, and `uploads` holds the names of the staged mod archives. -/
structure World where
  now : ℕ
  db : Database
  queues : Id → List QueueEntry
  scheduler : List SchedulerEntry
  uploads : List String
  progress : List ProgressEvent

namespace Database

variable (db : Database)

/-- The batch that the run belongs to, through its job. -/
def batchOf (r : JobRun) : Option Id := (db.jobs.get r.jobId).bind Job.batchId

/-- The number of runs of the batch `b` that have the status `st`. -/
def tally (b : Id) (st : JobRunStatus) : ℕ :=
  db.jobRuns.count fun r => db.batchOf r == some b && r.status == st

/-- The newest run of a job. -/
def latestRun (jobId : Id) : Option JobRun :=
  (db.jobRuns.rows.filter fun r => r.jobId == jobId).getLast?

end Database

end Mastermind
