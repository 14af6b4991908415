import Mastermind.Effect.System
import Mastermind.Platform.Text
import Mastermind.Dispatch.Schema

/-!
# The statements of the control plane

The calls that the services make to PostgreSQL (through Prisma), to the BullMQ queues, to the
upload directory and to the progress gateway, each as one atomic step on `World`. A statement
checks what the database checks (foreign keys, and that the record of an `update` exists) and
nothing that a service checks. `fallible` is false of the two that make no call: reading the clock
and emitting a progress event.

`Env` is what the services rely on and these modules leave open: the case tables of the runtimes,
the cron arithmetic, and which entries `getJobs` lists in which order.
-/

namespace Mastermind

open Effect

/-- The parameters of the model. `getNextCronRun` is `none` where the code throws. -/
structure Env where
  cases : CaseTables
  getNextCronRun : String → ℕ → Option ℕ
  clampToExecutionWindow : ℕ → Option String → Option String → ℕ
  getJobs : List QueueEntry → List QueueEntry
  /-- `getJobs` lists entries of the queue. -/
  getJobs_subset : ∀ queue, getJobs queue ⊆ queue

/-- An environment with the cron expression of every minute, in which `getJobs` lists the waiting
entries before the delayed ones. -/
def Env.everyMinute : Env where
  cases := .western
  getNextCronRun cron now := if cron = "* * * * *" then some ((now / 60000 + 1) * 60000) else none
  clampToExecutionWindow next _ _ := next
  getJobs queue :=
    ((queue.filter fun e => e.delay == 0) ++ queue.filter fun e => e.delay != 0).take 500
  getJobs_subset queue e he := by
    rcases List.mem_append.mp (List.mem_of_mem_take he) with h | h
    · exact List.mem_of_mem_filter h
    · exact List.mem_of_mem_filter h

/-- The errors of the services, with their messages, those of Prisma (a foreign key that names no
record, an update of a missing record, an invalid argument), and the error of a failed call. -/
inductive Err where
  | notFound (message : String)
  | badRequest (message : String)
  | forbidden (message : String)
  | error (message : String)
  | foreignKey
  | recordNotFound
  | validation
  | fault

/-- The data of `job.create`. -/
structure JobData where
  orgId : Id
  batchId : Option Id
  serverInstanceId : Option Id
  type : String
  payload : Option JsonObject
  createdById : Option Id

/-- The job that `job.create` makes. -/
def JobData.row (d : JobData) (i : Id) : Job :=
  ⟨i, d.orgId, d.batchId, d.serverInstanceId, d.type, d.payload, d.createdById⟩

theorem JobData.key_row (d : JobData) (i : ℕ) : Keyed.key (d.row i) = i := rfl

/-- The run that `jobRun.create` makes. -/
def pendingRun (jobId hostId : Id) (i : Id) : JobRun :=
  ⟨i, jobId, hostId, .pending, none, none, none⟩

theorem key_pendingRun (jobId hostId : Id) (i : ℕ) : Keyed.key (pendingRun jobId hostId i) = i :=
  rfl

/-- The data of `jobBatch.create`, for `n` servers. -/
structure BatchData where
  orgId : Id
  type : BatchType
  n : ℕ
  createdById : Option Id

/-- The batch that `jobBatch.create` makes at the time `now`. -/
def BatchData.row (d : BatchData) (now : ℕ) (i : Id) : JobBatch :=
  ⟨i, d.orgId, d.type, .running, d.n, d.n, 0, 0, 0, 0, d.createdById, now, none⟩

theorem BatchData.key_row (d : BatchData) (now i : ℕ) : Keyed.key (d.row now i) = i := rfl

/-- The data of `schedule.create`. -/
structure ScheduleData where
  orgId : Id
  serverInstanceId : Id
  name : String
  cronExpression : String
  jobType : String
  payload : Option Json
  enabled : Bool
  nextRunAt : Option ℕ
  createdById : Option Id

/-- The schedule that `schedule.create` makes. -/
def ScheduleData.row (d : ScheduleData) (i : Id) : Schedule :=
  ⟨i, d.orgId, d.serverInstanceId, d.name, d.cronExpression, d.jobType, d.payload, d.enabled, none,
    none, none, none, d.nextRunAt, none, none, 0, 0, d.createdById⟩

theorem ScheduleData.key_row (d : ScheduleData) (i : ℕ) : Keyed.key (d.row i) = i := rfl

/-- The data of an update of a run: an agent claimed it, its result was reported, its batch was
cancelled, it was released as stale, or its progress was reported. -/
inductive RunPatch where
  | start
  | finish (status : JobRunStatus) (result : RunResult)
  | cancel
  | release (prior : RunResult)
  | progress (phase : String) (message : Option String)

/-- The status that an update writes. -/
def RunPatch.status? : RunPatch → Option JobRunStatus
  | start => some .running
  | finish status _ => some status
  | cancel => some .cancelled
  | release _ => some .failed
  | progress _ _ => none

/-- The text that `failStaleRunningJobs` writes into the result. -/
def staleMessage : String :=
  "Agent stopped reporting progress; job released as stale. Retry if still needed."

/-- A run after an update at the time `now`. -/
def RunPatch.apply (now : ℕ) : RunPatch → JobRun → JobRun
  | start, r => { r with status := .running, startedAt := some now }
  | finish status result, r =>
    { r with status := status, finishedAt := some now, result := some result }
  | cancel, r => { r with status := .cancelled, finishedAt := some now }
  | release prior, r =>
    { r with
      status := .failed
      finishedAt := some now
      result := some { prior with errorMessage := some staleMessage, recoveredAt := some now } }
  | progress phase message, r =>
    { r with
      result := some
        { RunResult.none with phase := some phase, message := message, updatedAt := some now } }

theorem RunPatch.key_apply (now : ℕ) (p : RunPatch) (r : JobRun) :
    Keyed.key (p.apply now r) = Keyed.key r := by
  cases p <;> rfl

/-- The data of an update of a batch: increments of its counters, its status, and whether
`completedAt` is set. -/
structure BatchPatch where
  pendingCount : ℤ
  runningCount : ℤ
  successCount : ℤ
  failedCount : ℤ
  cancelledCount : ℤ
  status : Option BatchStatus
  completedAt : Bool

/-- The update that changes nothing. -/
def BatchPatch.none : BatchPatch := ⟨0, 0, 0, 0, 0, Option.none, false⟩

/-- A batch after an update at the time `now`. -/
def BatchPatch.apply (now : ℕ) (p : BatchPatch) (b : JobBatch) : JobBatch :=
  { b with
    pendingCount := b.pendingCount + p.pendingCount
    runningCount := b.runningCount + p.runningCount
    successCount := b.successCount + p.successCount
    failedCount := b.failedCount + p.failedCount
    cancelledCount := b.cancelledCount + p.cancelledCount
    status := p.status.getD b.status
    completedAt := if p.completedAt then some now else b.completedAt }

theorem BatchPatch.key_apply (now : ℕ) (p : BatchPatch) (b : JobBatch) :
    Keyed.key (p.apply now b) = Keyed.key b := rfl

/-- The data of an update of a schedule: the outcome of a fire, in which `lastRunJobId` and
`nextRunAt` are left as they are if they are `none`, or the fields that a member edits. -/
inductive SchedulePatch where
  | fired (status : FireStatus) (lastRunJobId : Option (Option Id)) (runs failures : ℕ)
      (nextRunAt : Option ℕ)
  | workerFailed
  | edit (name : Option String) (cron : Option (String × Option ℕ)) (jobType : Option String)
      (payload : Option Json) (enabled : Option Bool)

/-- A schedule after an update at the time `now`. -/
def SchedulePatch.apply (now : ℕ) : SchedulePatch → Schedule → Schedule
  | fired status lastRunJobId runs failures nextRunAt, s =>
    { s with
      lastRunAt := some now
      lastRunStatus := some status
      lastRunJobId := lastRunJobId.getD s.lastRunJobId
      runCount := s.runCount + runs
      failureCount := s.failureCount + failures
      nextRunAt := nextRunAt.or s.nextRunAt }
  | workerFailed, s =>
    { s with lastRunStatus := some .schedulerFailed, failureCount := s.failureCount + 1 }
  | edit name cron jobType payload enabled, s =>
    { s with
      name := name.getD s.name
      cronExpression := (cron.map Prod.fst).getD s.cronExpression
      nextRunAt := (cron.map Prod.snd).getD s.nextRunAt
      jobType := jobType.getD s.jobType
      payload := payload.or s.payload
      enabled := enabled.getD s.enabled }

theorem SchedulePatch.key_apply (now : ℕ) (p : SchedulePatch) (s : Schedule) :
    Keyed.key (p.apply now s) = Keyed.key s := by
  cases p <;> rfl

/-- A job with another payload. -/
def Job.withPayload (payload : JsonObject) (j : Job) : Job := { j with payload := some payload }

theorem Job.key_withPayload (payload : JsonObject) (j : Job) :
    Keyed.key (j.withPayload payload) = Keyed.key j := rfl

/-- A JSON argument that Prisma rejects: a bare `null`. -/
def rejectsNull : Option Json → Bool
  | some .null => true
  | _ => false

/-- The statements, named after the model and the method that they call. -/
inductive Stmt where
  | dateNow
  | emitProgress (event : ProgressEvent)
  | userOrgFindUnique (userId orgId : Id)
  | hostFindUnique (id : Id)
  | hostFindFirst (id orgId : Id)
  | hostRemoveTransaction (id : Id) (audit : AuditLog)
  | serverInstanceFindFirst (id orgId : Id)
  | serverInstanceFindMany (ids : List Id) (orgId : Id)
  | serverInstanceDelete (id : Id)
  | jobCreate (data : JobData)
  | jobUpdate (id : Id) (payload : JsonObject)
  | jobFindFirst (id orgId : Id)
  | jobRunCreate (jobId hostId : Id)
  | jobRunFindUnique (id : Id)
  | jobRunFindManyRunning
  | jobRunFindActive (serverInstanceId : Id) (type : String) (scheduleId : Id)
  | jobRunUpdate (id : Id) (patch : RunPatch)
  | jobRunUpdateManyRunning (id : Id) (patch : RunPatch)
  | jobBatchCreate (data : BatchData)
  | jobBatchFindUnique (id : Id)
  | jobBatchFindFirst (id orgId : Id)
  | jobBatchUpdate (id : Id) (patch : BatchPatch)
  | scheduleFindUnique (id : Id)
  | scheduleFindFirst (id orgId : Id)
  | scheduleCreate (data : ScheduleData)
  | scheduleUpdate (id : Id) (patch : SchedulePatch)
  | auditLogCreate (audit : AuditLog)
  | syncPlayers (orgId serverInstanceId : Id) (output : String)
  | queueAdd (orgId : Id) (entry : QueueEntry)
  | queueGetJobs (orgId : Id)
  | queueGetJob (orgId id : Id)
  | queueChangeDelay (orgId id : Id)
  | queueRemove (orgId id : Id)
  | schedulerAdd (entry : SchedulerEntry)
  | schedulerRemove (scheduleId : Id) (runAt : ℕ)
  | unlinkUpload (name : String)

namespace Stmt

/-- The response of a statement. A lookup answers with what the code includes in it: a host with
the number of its server instances, a server instance with its organization's setting, a job with
its batch, a run with its job, a batch with its jobs and their newest runs, and a schedule with its
server instance and the setting. -/
@[reducible] def Resp : Stmt → Type
  | dateNow => ℕ
  | emitProgress _ => Unit
  | userOrgFindUnique _ _ => Option Role
  | hostFindUnique _ => Option Host
  | hostFindFirst _ _ => Option (Host × ℕ)
  | hostRemoveTransaction _ _ => Unit
  | serverInstanceFindFirst _ _ => Option (ServerInstance × Bool)
  | serverInstanceFindMany _ _ => List ServerInstance
  | serverInstanceDelete _ => Unit
  | jobCreate _ => Job
  | jobUpdate _ _ => Unit
  | jobFindFirst _ _ => Option (Job × Option JobBatch)
  | jobRunCreate _ _ => JobRun
  | jobRunFindUnique _ => Option (JobRun × Job)
  | jobRunFindManyRunning => List JobRun
  | jobRunFindActive _ _ _ => Option JobRun
  | jobRunUpdate _ _ => Unit
  | jobRunUpdateManyRunning _ _ => Unit
  | jobBatchCreate _ => JobBatch
  | jobBatchFindUnique _ => Option JobBatch
  | jobBatchFindFirst _ _ => Option (JobBatch × List (Job × Option JobRun))
  | jobBatchUpdate _ _ => JobBatch
  | scheduleFindUnique _ => Option (Schedule × ServerInstance × Bool)
  | scheduleFindFirst _ _ => Option Schedule
  | scheduleCreate _ => Schedule
  | scheduleUpdate _ _ => Schedule
  | auditLogCreate _ => Unit
  | syncPlayers _ _ _ => Unit
  | queueAdd _ _ => Unit
  | queueGetJobs _ => List QueueEntry
  | queueGetJob _ _ => Option QueueEntry
  | queueChangeDelay _ _ => Unit
  | queueRemove _ _ => Unit
  | schedulerAdd _ => Unit
  | schedulerRemove _ _ => Unit
  | unlinkUpload _ => Unit

/-- The statements that make a call, which can fail. -/
def fallible : Stmt → Bool
  | dateNow => false
  | emitProgress _ => false
  | _ => true

end Stmt

namespace Database

variable (db : Database)

/-- The job that runs for `scheduleId` on the server with the type, which has not ended. -/
def isActive (serverInstanceId : Id) (type : String) (scheduleId : Id) (r : JobRun) : Bool :=
  (r.status == .pending || r.status == .running) &&
    (db.jobs.get r.jobId).any fun j =>
      j.serverInstanceId == some serverInstanceId && j.type == type &&
        ((j.payload.bind fun p => p.lookup "schedule_id").bind Json.str?) ==
          some (idText scheduleId)

/-- The records that a new job refers to exist. -/
def refersToRecords (d : JobData) : Bool :=
  d.serverInstanceId.all (fun i => (db.serverInstances.get i).isSome) &&
    d.batchId.all fun i => (db.jobBatches.get i).isSome

end Database

namespace World

variable (w : World)

/-- `job.create`. -/
def insertJob (d : JobData) : World :=
  { w with db.jobs := w.db.jobs.insert d.row d.key_row }

/-- `jobRun.create`. -/
def insertJobRun (jobId hostId : Id) : World :=
  { w with db.jobRuns := w.db.jobRuns.insert (pendingRun jobId hostId) (key_pendingRun jobId hostId) }

/-- `jobBatch.create`. -/
def insertJobBatch (d : BatchData) : World :=
  { w with db.jobBatches := w.db.jobBatches.insert (d.row w.now) (d.key_row w.now) }

/-- `schedule.create`. -/
def insertSchedule (d : ScheduleData) : World :=
  { w with db.schedules := w.db.schedules.insert d.row d.key_row }

/-- An update of the run `id`. -/
def updateJobRun (id : Id) (p : RunPatch) : World :=
  { w with db.jobRuns := w.db.jobRuns.update id (p.apply w.now) (p.key_apply w.now) }

/-- An update of the batch `id`. -/
def updateJobBatch (id : Id) (p : BatchPatch) : World :=
  { w with db.jobBatches := w.db.jobBatches.update id (p.apply w.now) (p.key_apply w.now) }

/-- An update of the schedule `id`. -/
def updateSchedule (id : Id) (p : SchedulePatch) : World :=
  { w with db.schedules := w.db.schedules.update id (p.apply w.now) (p.key_apply w.now) }

/-- An update of the payload of the job `id`. -/
def updateJob (id : Id) (payload : JsonObject) : World :=
  { w with db.jobs := w.db.jobs.update id (Job.withPayload payload) (Job.key_withPayload payload) }

/-- The transaction that deletes a host with its runs. -/
def removeHost (id : Id) (audit : AuditLog) : World :=
  { w with
    db.jobRuns := w.db.jobRuns.erase fun r => r.hostId == id
    db.auditLogs := w.db.auditLogs ++ [audit]
    db.hosts := w.db.hosts.erase fun h => h.id == id }

/-- The deletion of a server instance: its schedules go with it, and its jobs stay without it. -/
def removeServerInstance (id : Id) : World :=
  { w with
    db.serverInstances := w.db.serverInstances.erase fun s => s.id == id
    db.schedules := w.db.schedules.erase fun s => s.serverInstanceId == id
    db.jobs := w.db.jobs.modify (fun j => j.serverInstanceId == some id)
      (fun j => { j with serverInstanceId := none }) fun _ => rfl }

/-- `auditLog.create`. -/
def log (audit : AuditLog) : World := { w with db.auditLogs := w.db.auditLogs ++ [audit] }

/-- An organization's queue replaced. -/
def setQueue (orgId : Id) (queue : List QueueEntry) : World :=
  { w with queues := Function.update w.queues orgId queue }

theorem queues_setQueue (orgId : Id) (queue : List QueueEntry) :
    (w.setQueue orgId queue).queues = Function.update w.queues orgId queue := rfl

/-- `queue.add`, which ignores an entry whose id the queue holds. -/
def enqueue (orgId : Id) (entry : QueueEntry) : World :=
  w.setQueue orgId <|
    if (w.queues orgId).any fun e => e.id == entry.id then w.queues orgId
    else w.queues orgId ++ [entry]

/-- `job.remove()`, which also resolves if the entry is gone. -/
def dequeue (orgId id : Id) : World :=
  w.setQueue orgId <| (w.queues orgId).filter fun e => e.id != id

/-- `job.changeDelay(0)`. -/
def promote (orgId id : Id) : World :=
  w.setQueue orgId <| (w.queues orgId).map fun e => if e.id == id then { e with delay := 0 } else e

/-- `queue.add` on the scheduler's queue. -/
def addSchedulerEntry (entry : SchedulerEntry) : World :=
  { w with
    scheduler :=
      if w.scheduler.any fun e => e.scheduleId == entry.scheduleId && e.runAt == entry.runAt then
        w.scheduler
      else w.scheduler ++ [entry] }

/-- `queue.remove` on the scheduler's queue. -/
def removeSchedulerEntry (scheduleId : Id) (runAt : ℕ) : World :=
  { w with
    scheduler := w.scheduler.filter fun e => !(e.scheduleId == scheduleId && e.runAt == runAt) }

section Lookup

variable {w : World} {id : Id}

theorem mem_insertJob {d : JobData} {j : Job} :
    j ∈ (w.insertJob d).db.jobs.rows ↔ j ∈ w.db.jobs.rows ∨ j = d.row w.db.jobs.next :=
  Table.mem_insert d.key_row

theorem mem_insertJobRun {jobId hostId : Id} {r : JobRun} :
    r ∈ (w.insertJobRun jobId hostId).db.jobRuns.rows ↔
      r ∈ w.db.jobRuns.rows ∨ r = pendingRun jobId hostId w.db.jobRuns.next :=
  Table.mem_insert (key_pendingRun jobId hostId)

theorem mem_insertJobBatch {d : BatchData} {b : JobBatch} :
    b ∈ (w.insertJobBatch d).db.jobBatches.rows ↔
      b ∈ w.db.jobBatches.rows ∨ b = d.row w.now w.db.jobBatches.next :=
  Table.mem_insert (d.key_row w.now)

theorem mem_insertSchedule {d : ScheduleData} {s : Schedule} :
    s ∈ (w.insertSchedule d).db.schedules.rows ↔
      s ∈ w.db.schedules.rows ∨ s = d.row w.db.schedules.next :=
  Table.mem_insert d.key_row

theorem get_insertJob {d : JobData} {j : Job} (h : w.db.jobs.get id = some j) :
    (w.insertJob d).db.jobs.get id = some j :=
  Table.get_insert_of_get d.key_row h

theorem get_insertJobRun {jobId hostId : Id} {r : JobRun} (h : w.db.jobRuns.get id = some r) :
    (w.insertJobRun jobId hostId).db.jobRuns.get id = some r :=
  Table.get_insert_of_get (key_pendingRun jobId hostId) h

theorem get_insertJobBatch {d : BatchData} {b : JobBatch} (h : w.db.jobBatches.get id = some b) :
    (w.insertJobBatch d).db.jobBatches.get id = some b :=
  Table.get_insert_of_get (d.key_row w.now) h

theorem mem_updateSchedule {p : SchedulePatch} {s' : Schedule} :
    s' ∈ (w.updateSchedule id p).db.schedules.rows ↔
      ∃ s ∈ w.db.schedules.rows, s' = if s.id = id then p.apply w.now s else s := by
  unfold updateSchedule
  exact Table.mem_update (p.key_apply w.now)

theorem mem_updateJobRun {p : RunPatch} {r' : JobRun} :
    r' ∈ (w.updateJobRun id p).db.jobRuns.rows ↔
      ∃ r ∈ w.db.jobRuns.rows, r' = if r.id = id then p.apply w.now r else r := by
  unfold updateJobRun
  exact Table.mem_update (p.key_apply w.now)

theorem mem_updateJobBatch {p : BatchPatch} {b' : JobBatch} :
    b' ∈ (w.updateJobBatch id p).db.jobBatches.rows ↔
      ∃ b ∈ w.db.jobBatches.rows, b' = if b.id = id then p.apply w.now b else b := by
  unfold updateJobBatch
  exact Table.mem_update (p.key_apply w.now)

theorem mem_updateJob {payload : JsonObject} {j' : Job} :
    j' ∈ (w.updateJob id payload).db.jobs.rows ↔
      ∃ j ∈ w.db.jobs.rows, j' = if j.id = id then j.withPayload payload else j := by
  unfold updateJob
  exact Table.mem_update (Job.key_withPayload payload)

end Lookup

section Queues

variable {w : World} {orgId org : Id} {e entry : QueueEntry}

/-- An entry leaves a queue by its id. -/
theorem mem_dequeue {id : Id} :
    e ∈ (w.dequeue orgId id).queues org ↔ e ∈ w.queues org ∧ (org = orgId → e.id ≠ id) := by
  unfold dequeue setQueue
  by_cases h : org = orgId
  · subst h
    simp
  · simp [h]

/-- Adding an entry keeps the others. -/
theorem mem_enqueue_of_mem (h : e ∈ w.queues org) : e ∈ (w.enqueue orgId entry).queues org := by
  rw [enqueue, queues_setQueue]
  by_cases horg : org = orgId
  · subst horg
    rw [Function.update_self]
    split_ifs
    · exact h
    · exact List.mem_append_left _ h
  · rwa [Function.update_of_ne horg]

/-- What a queue holds after an entry was added. -/
theorem mem_enqueue (h : e ∈ (w.enqueue orgId entry).queues org) :
    e ∈ w.queues org ∨ org = orgId ∧ e = entry := by
  rw [enqueue, queues_setQueue] at h
  by_cases horg : org = orgId
  · subst horg
    rw [Function.update_self] at h
    split_ifs at h
    · exact .inl h
    · rcases List.mem_append.mp h with h | h
      · exact .inl h
      · exact .inr ⟨rfl, List.mem_singleton.mp h⟩
  · rw [Function.update_of_ne horg] at h
    exact .inl h

/-- An entry with a new id is added. -/
theorem mem_enqueue_self (h : ∀ e ∈ w.queues orgId, e.id ≠ entry.id) :
    entry ∈ (w.enqueue orgId entry).queues orgId := by
  rw [enqueue, queues_setQueue, Function.update_self]
  have hfresh : ¬((w.queues orgId).any fun e => e.id == entry.id) = true := by simpa using h
  rw [if_neg hfresh]
  exact List.mem_append_right _ (List.mem_singleton.mpr rfl)

end Queues

end World

/-- What a statement answers and does. -/
def exec (env : Env) : (s : Stmt) → World → Except Err s.Resp × World
  | .dateNow, w => (.ok w.now, w)
  | .emitProgress event, w => (.ok (), { w with progress := w.progress ++ [event] })
  | .userOrgFindUnique userId orgId, w => (.ok (w.db.userOrg userId orgId), w)
  | .hostFindUnique id, w => (.ok (w.db.hosts.get id), w)
  | .hostFindFirst id orgId, w =>
    (.ok (((w.db.hosts.get id).filter fun h => h.orgId == orgId).map fun h =>
      (h, w.db.serverInstances.count fun s => s.hostId == h.id)), w)
  | .hostRemoveTransaction id audit, w =>
    if (w.db.hosts.get id).isNone then (.error .recordNotFound, w)
    else if w.db.serverInstances.rows.any fun s => s.hostId == id then (.error .foreignKey, w)
    else (.ok (), w.removeHost id audit)
  | .serverInstanceFindFirst id orgId, w =>
    (.ok (((w.db.serverInstances.get id).filter fun s => s.orgId == orgId).map fun s =>
      (s, w.db.avoidBloodMoonRestart s.orgId)), w)
  | .serverInstanceFindMany ids orgId, w =>
    (.ok (w.db.serverInstances.rows.filter fun s => ids.contains s.id && s.orgId == orgId), w)
  | .serverInstanceDelete id, w =>
    if (w.db.serverInstances.get id).isNone then (.error .recordNotFound, w)
    else (.ok (), w.removeServerInstance id)
  | .jobCreate data, w =>
    if w.db.refersToRecords data then (.ok (data.row w.db.jobs.next), w.insertJob data)
    else (.error .foreignKey, w)
  | .jobUpdate id payload, w =>
    if (w.db.jobs.get id).isNone then (.error .recordNotFound, w)
    else (.ok (), w.updateJob id payload)
  | .jobFindFirst id orgId, w =>
    (.ok (((w.db.jobs.get id).filter fun j => j.orgId == orgId).map fun j =>
      (j, j.batchId.bind w.db.jobBatches.get)), w)
  | .jobRunCreate jobId hostId, w =>
    if (w.db.jobs.get jobId).isSome && (w.db.hosts.get hostId).isSome then
      (.ok (pendingRun jobId hostId w.db.jobRuns.next), w.insertJobRun jobId hostId)
    else (.error .foreignKey, w)
  | .jobRunFindUnique id, w =>
    (.ok ((w.db.jobRuns.get id).bind fun r => (w.db.jobs.get r.jobId).map fun j => (r, j)), w)
  | .jobRunFindManyRunning, w => (.ok (w.db.jobRuns.rows.filter fun r => r.status == .running), w)
  | .jobRunFindActive serverInstanceId type scheduleId, w =>
    (.ok (w.db.jobRuns.rows.find? (w.db.isActive serverInstanceId type scheduleId)), w)
  | .jobRunUpdate id patch, w =>
    if (w.db.jobRuns.get id).isNone then (.error .recordNotFound, w)
    else (.ok (), w.updateJobRun id patch)
  | .jobRunUpdateManyRunning id patch, w =>
    if (w.db.jobRuns.get id).any fun r => r.status == .running then
      (.ok (), w.updateJobRun id patch)
    else (.ok (), w)
  | .jobBatchCreate data, w =>
    (.ok (data.row w.now w.db.jobBatches.next), w.insertJobBatch data)
  | .jobBatchFindUnique id, w => (.ok (w.db.jobBatches.get id), w)
  | .jobBatchFindFirst id orgId, w =>
    (.ok (((w.db.jobBatches.get id).filter fun b => b.orgId == orgId).map fun b =>
      (b, (w.db.jobs.rows.filter fun j => j.batchId == some b.id).map fun j =>
        (j, w.db.latestRun j.id))), w)
  | .jobBatchUpdate id patch, w =>
    match w.db.jobBatches.get id with
    | none => (.error .recordNotFound, w)
    | some b => (.ok (patch.apply w.now b), w.updateJobBatch id patch)
  | .scheduleFindUnique id, w =>
    (.ok ((w.db.schedules.get id).bind fun s =>
      (w.db.serverInstances.get s.serverInstanceId).map fun si =>
        (s, si, w.db.avoidBloodMoonRestart si.orgId)), w)
  | .scheduleFindFirst id orgId, w =>
    (.ok ((w.db.schedules.get id).filter fun s => s.orgId == orgId), w)
  | .scheduleCreate data, w =>
    if rejectsNull data.payload then (.error .validation, w)
    else if (w.db.serverInstances.get data.serverInstanceId).isNone then (.error .foreignKey, w)
    else (.ok (data.row w.db.schedules.next), w.insertSchedule data)
  | .scheduleUpdate id patch, w =>
    match w.db.schedules.get id, patch with
    | none, _ => (.error .recordNotFound, w)
    | some _, .edit _ _ _ (some .null) _ => (.error .validation, w)
    | some s, patch => (.ok (patch.apply w.now s), w.updateSchedule id patch)
  | .auditLogCreate audit, w => (.ok (), w.log audit)
  | .syncPlayers _ _ _, w => (.ok (), w)
  | .queueAdd orgId entry, w => (.ok (), w.enqueue orgId entry)
  | .queueGetJobs orgId, w => (.ok (env.getJobs (w.queues orgId)), w)
  | .queueGetJob orgId id, w => (.ok ((w.queues orgId).find? fun e => e.id == id), w)
  | .queueChangeDelay orgId id, w => (.ok (), w.promote orgId id)
  | .queueRemove orgId id, w => (.ok (), w.dequeue orgId id)
  | .schedulerAdd entry, w => (.ok (), w.addSchedulerEntry entry)
  | .schedulerRemove scheduleId runAt, w => (.ok (), w.removeSchedulerEntry scheduleId runAt)
  | .unlinkUpload name, w => (.ok (), { w with uploads := w.uploads.filter fun n => n != name })

/-- The database and the queues as a machine. -/
def machine (env : Env) : Machine Stmt.Resp Err World := ⟨exec env, Stmt.fallible, .fault⟩

/-- A program of a service. -/
abbrev Service (α : Type) := Program Stmt.Resp Err α

/-- Sends a statement. -/
abbrev query (s : Stmt) : Service s.Resp := Program.request s

end Mastermind
