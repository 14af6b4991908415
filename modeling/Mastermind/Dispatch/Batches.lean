import Mastermind.Dispatch.Statements

/-!
# `BatchesService`

A batch runs one job on each of several servers. Its row carries five counters, one per status of
a run. They are written with their final sum when the batch is created, before any job is, and
from then on moved by increments: when an agent claims a run (`recordJobRunStarted`), when its
result arrives (`recordJobRunCompleted`), and when the batch is cancelled (`cancelBatch`).
-/

namespace Mastermind

open Effect

/-- `MAX_RETRIES`. -/
def maxRetries : ℕ := 2

/-- `JOB_ATTEMPTS`. -/
def jobAttempts : ℕ := maxRetries + 1

/-- `CreateBatchDto`. -/
structure CreateBatchDto where
  type : BatchType
  serverInstanceIds : List Id
  payload : Option JsonObject

namespace BatchType

/-- A batch type as the text that requests give. -/
def text : BatchType → String
  | restartWave => "restart_wave"
  | updateWave => "update_wave"
  | bulkModInstall => "bulk_mod_install"
  | custom => "custom"

/-- `BATCH_TYPE_TO_JOB_TYPE`. -/
def jobType : BatchType → String
  | restartWave => "SERVER_RESTART"
  | updateWave => "SERVER_UPDATE"
  | bulkModInstall => "BULK_MOD_INSTALL"
  | custom => "custom"

end BatchType

namespace BatchesService

/-- `audit`. -/
def audit (orgId : Id) (actorId : Option Id) (action : String) (resourceId : Id)
    (details : JsonObject) : Service Unit :=
  query (.auditLogCreate ⟨orgId, actorId, action, "job_batch", resourceId, details⟩)

/-- `auditJob`. -/
def auditJob (orgId : Id) (actorId : Option Id) (action : String) (resourceId : Id)
    (details : JsonObject) : Service Unit :=
  query (.auditLogCreate ⟨orgId, actorId, action, "job", resourceId, details⟩)

/-- `emitProgress`. -/
def emitProgress (orgId : Id) (batch : JobBatch) (updatedRun : Option (Id × JobRunStatus)) :
    Service Unit :=
  query (.emitProgress ⟨orgId, batch, updatedRun⟩)

/-- What `createBatch` does for one server: the job, its run, its queue entry and its audit
record. -/
def createBatchJob (orgId : Id) (userId : Option Id) (dto : CreateBatchDto) (batch : JobBatch)
    (si : ServerInstance) : Service Unit := do
  let jobType := dto.type.jobType
  let job ← query (.jobCreate ⟨orgId, some batch.id, some si.id, jobType, dto.payload, userId⟩)
  let run ← query (.jobRunCreate job.id si.hostId)
  query <| .queueAdd orgId
    { id := run.id
      name := jobType
      data := ⟨job.id, run.id, si.hostId, some si.id, jobType, dto.payload.getD [], none⟩
      delay := 0
      attempts := jobAttempts
      backoff := .fixed 2000 }
  auditJob orgId userId "job_created" job.id
    [("batchId", .str (idText batch.id)), ("serverInstanceId", .str (idText si.id))]

/-- `createBatch`. -/
def createBatch (orgId : Id) (userId : Option Id) (dto : CreateBatchDto) : Service JobBatch := do
  let instances ← query (.serverInstanceFindMany dto.serverInstanceIds orgId)
  if instances.length ≠ dto.serverInstanceIds.length then
    let missing := dto.serverInstanceIds.filter fun id => !instances.any fun i => i.id == id
    throw <| .badRequest <|
      "Server instance(s) not found or not in org: " ++ ", ".intercalate (missing.map idText)
  else do
    let batch ← query (.jobBatchCreate ⟨orgId, dto.type, instances.length, userId⟩)
    instances.foldlM (fun _ si => createBatchJob orgId userId dto batch si) ()
    audit orgId userId "batch_created" batch.id
      [("type", .str batch.type.text), ("serverCount", .num batch.totalCount)]
    return batch

/-- The increments with which `recordJobRunCompleted` books a run that ended with `runStatus`. -/
def completion (runStatus priorRunStatus : JobRunStatus) : BatchPatch :=
  { BatchPatch.none with
    successCount := if runStatus = .success then 1 else 0
    failedCount := if runStatus = .success then 0 else if runStatus = .failed then 1 else 0
    cancelledCount := if runStatus = .success ∨ runStatus = .failed then 0 else 1
    runningCount := if priorRunStatus = .running then -1 else 0
    pendingCount := if priorRunStatus = .running then 0 else -1 }

/-- The update that books a run as running. -/
def started : BatchPatch := { BatchPatch.none with pendingCount := -1, runningCount := 1 }

/-- The update that ends a batch with `status`. -/
def closing (status : BatchStatus) : BatchPatch :=
  { BatchPatch.none with status := some status, completedAt := true }

/-- The update that cancels a batch of which `cancelled` runs were cancelled. -/
def cancellation (cancelled : ℕ) : BatchPatch :=
  { BatchPatch.none with
    status := some .cancelled
    pendingCount := -cancelled
    cancelledCount := cancelled
    completedAt := true }

/-- `recordJobRunCompleted`. -/
def recordJobRunCompleted (orgId jobId : Id) (runStatus priorRunStatus : JobRunStatus) :
    Service Unit := do
  let found ← query (.jobFindFirst jobId orgId)
  match found.bind Prod.snd with
  | none => pure ()
  | some batch =>
    let updated ← query (.jobBatchUpdate batch.id (completion runStatus priorRunStatus))
    if updated.pendingCount ≤ 0 ∧ updated.runningCount ≤ 0 then
      let status :=
        if updated.failedCount > 0 then BatchStatus.completedWithFailures else .completed
      let final ← query (.jobBatchUpdate batch.id (closing status))
      emitProgress orgId final (some (jobId, runStatus))
    else emitProgress orgId updated (some (jobId, runStatus))

/-- `recordJobRunStarted`. -/
def recordJobRunStarted (orgId jobId : Id) : Service Unit := do
  let found ← query (.jobFindFirst jobId orgId)
  match found.bind Prod.snd with
  | none => pure ()
  | some batch =>
    let _ ← query (.jobBatchUpdate batch.id started)
    let updated ← query (.jobBatchFindUnique batch.id)
    match updated with
    | none => pure ()
    | some updated => emitProgress orgId updated (some (jobId, .running))

/-- What `cancelBatch` does for one job, by the newest run that it has: counts the run, if it was
pending, and takes its entry out of the queue, if that succeeds. -/
def cancelJob (orgId : Id) (cancelled : ℕ) (run : Option JobRun) : Service ℕ :=
  match run with
  | none => pure cancelled
  | some run =>
    if run.status ≠ .pending then pure cancelled
    else do
      query (.jobRunUpdate run.id .cancel)
      tryCatch (removeEntry run.id) fun _ => pure ()
      return cancelled + 1
where
  /-- Takes the entry of a run out of the queue. -/
  removeEntry (runId : Id) : Service Unit := do
    let bullJob ← query (.queueGetJob orgId runId)
    match bullJob with
    | none => pure ()
    | some _ => query (.queueRemove orgId runId)

/-- `cancelBatch`. -/
def cancelBatch (orgId batchId : Id) : Service JobBatch := do
  let found ← query (.jobBatchFindFirst batchId orgId)
  match found with
  | none => throw (.notFound "Batch not found")
  | some (batch, jobs) =>
    if batch.status ≠ .running then throw (.badRequest "Batch is not running")
    else do
      let cancelled ← jobs.foldlM (fun cancelled job => cancelJob orgId cancelled job.2) 0
      let updated ← query (.jobBatchUpdate batchId (cancellation cancelled))
      audit orgId none "batch_cancelled" batchId
        [("remainingPending", .num (batch.pendingCount - cancelled)),
          ("cancelledCount", .num cancelled)]
      emitProgress orgId updated none
      return updated

end BatchesService

end Mastermind
