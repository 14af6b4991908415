import Mastermind.Dispatch.Batches

/-!
# `JobsQueueService`, `JobsService` and the moderation command

An organization's jobs wait in its queue until an agent polls. `getNextJobForHost` takes an entry
out of the queue and `markJobRunStarted` then moves its run from pending to running: the queue and
the database are two stores, and the two steps are not one. `createJob` and
`enqueueModerationCommand` build a job's payload from the stored server instance
(`serverPayload`), each with its own additions.
-/

namespace Mastermind

open Effect

namespace JobsQueueService

/-- `addJob`. -/
def addJob (orgId : Id) (data : QueueJobData) : Service Unit :=
  query <| .queueAdd orgId
    { id := data.jobRunId
      name := data.type
      data := data
      delay := 0
      attempts := jobAttempts
      backoff := .exponential 2000 }

/-- `isReadOnly`. -/
def isReadOnly (type : String) : Bool :=
  ["MOD_LIST", "MOD_QUARANTINE_LIST", "MOD_CONFIG_READ", "PROFILE_LIST", "PROFILE_READ",
    "PLAYER_LIST_SYNC", "PLAYER_ADMIN_LIST", "SAVE_LIST"].contains type

/-- Claims an entry by removing it from the queue. -/
def claim (orgId : Id) (job : QueueEntry) : Service (Option QueueJobData) :=
  tryCatch
    (do
      promote
      query (.queueRemove orgId job.id)
      pure (some job.data))
    fun _ => pure none
where
  /-- A delayed entry is made due first. -/
  promote : Service Unit :=
    if job.delay > 0 then query (.queueChangeDelay orgId job.id) else pure ()

/-- The loop of `getNextJobForHost` over the entries that the queue listed. -/
def claimFirst (orgId hostId : Id) (mutationBusy : Bool) :
    List QueueEntry → Service (Option QueueJobData)
  | [] => pure none
  | job :: waiting =>
    if job.data.hostId = hostId ∧ ¬(mutationBusy = true ∧ isReadOnly job.data.type = false) then do
      let claimed ← claim orgId job
      match claimed with
      | some data => pure (some data)
      | none => claimFirst orgId hostId mutationBusy waiting
    else claimFirst orgId hostId mutationBusy waiting

/-- `getNextJobForHost`. -/
def getNextJobForHost (orgId hostId : Id) (mutationBusy : Bool) :
    Service (Option QueueJobData) := do
  let waiting ← query (.queueGetJobs orgId)
  claimFirst orgId hostId mutationBusy waiting

end JobsQueueService

/-- The properties that a server instance contributes to a job's payload, with the setting of its
organization. The properties that the instance leaves out are `undefined`. -/
def serverPayload (si : ServerInstance) (avoidBloodMoonRestart : Bool) : JsonObject :=
  [("server_instance_id", .str (idText si.id)), ("game_type", .str si.gameType)] ++
    JsonObject.prop "install_path" (si.installPath.map .str) ++
    JsonObject.prop "start_command" (si.startCommand.map .str) ++
    JsonObject.prop "telnet_host" (si.telnetHost.map .str) ++
    JsonObject.prop "telnet_port" (si.telnetPort.map fun n => .num n) ++
    JsonObject.prop "telnet_password" (si.telnetPassword.map .str) ++
    JsonObject.prop "config" si.config ++
    [("avoid_blood_moon_restart", .bool avoidBloodMoonRestart)]

/-- `ReportResultDto`. -/
structure ReportResultDto where
  status : String
  durationMs : Option ℚ
  errorMessage : Option String
  output : Option String
  result : Option JsonObject

/-- The status that a report gives its run. -/
def ReportResultDto.runStatus (dto : ReportResultDto) : JobRunStatus :=
  if dto.status = "success" then .success else .failed

/-- The result that a report stores with its run. -/
def ReportResultDto.runResult (dto : ReportResultDto) : RunResult :=
  { RunResult.none with
    durationMs := dto.durationMs
    errorMessage := dto.errorMessage
    output := dto.output
    data := dto.result }

/-- A job that `enforceConnectionTools` creates for a player in a player list: the member in whose
name it does, whether the player is banned or kicked, and the payload. Which jobs a list leads to
depends on the protection settings, on earlier lists and on a lookup of addresses. -/
structure ConnectionTool where
  userId : Id
  ban : Bool
  payload : JsonObject

/-- The job type of a connection tool. -/
def ConnectionTool.type (tool : ConnectionTool) : String :=
  if tool.ban then "PLAYER_BAN" else "PLAYER_KICK"

/-- The text matches `/^[0-9a-f-]{36}$/i`. -/
def isUploadId (s : String) : Bool :=
  s.toList.length == 36 &&
    s.toList.all fun c =>
      c.isDigit || ('a' ≤ c && c ≤ 'f') || ('A' ≤ c && c ≤ 'F') || c == '-'

namespace JobsService

/-- `normalizeJobType`. -/
def normalizeJobType (env : Env) (jobType : String) : String :=
  match env.cases.toLowerCase jobType with
  | "start" => "SERVER_START"
  | "stop" => "SERVER_STOP"
  | "restart" => "SERVER_RESTART"
  | "rcon" => "RCON"
  | _ => env.cases.toUpperCase jobType

/-- The role is admin. -/
def isAdmin (role : Role) : Bool := role == .admin

/-- The role is admin or operator. -/
def isAdminOrOperator (role : Role) : Bool := role == .admin || role == .operator

/-- For the job types `types`, throws unless the user is a member of the organization with a role
that `allowed` accepts. -/
def requireRole (types : List String) (allowed : Role → Bool) (message : String)
    (userId orgId : Id) (normalizedJobType : String) : Service Unit :=
  if normalizedJobType ∈ types then do
    let membership ← query (.userOrgFindUnique userId orgId)
    if membership.any allowed = true then pure () else throw (.forbidden message)
  else pure ()

/-- The check that `createJob` makes of the member's role for a job type. -/
def checkRole (userId orgId : Id) (normalizedJobType : String) : Service Unit := do
  requireRole ["PLAYER_ADMIN_PROMOTE", "PLAYER_ADMIN_DEMOTE"] isAdmin
    "Only organization administrators may change game administrators"
    userId orgId normalizedJobType
  requireRole ["PLAYER_KICK_ALL", "SERVER_KILL"] isAdminOrOperator
    "Only organization administrators or operators may perform this action"
    userId orgId normalizedJobType
  requireRole ["SAVE_BACKUP", "SAVE_RESTORE", "SAVE_DELETE", "SAVE_RETENTION"] isAdminOrOperator
    "Only organization administrators or operators may manage saves"
    userId orgId normalizedJobType
  requireRole ["PROFILE_STAGE"] isAdminOrOperator
    "Only organization administrators or operators may stage player profiles"
    userId orgId normalizedJobType
  requireRole ["MOD_UPLOAD_QUARANTINE"] isAdminOrOperator
    "Only organization administrators or operators may upload mods"
    userId orgId normalizedJobType

/-- The command of a payload, trimmed; empty if there is none. -/
def consoleCommand (payload : Option JsonObject) : String :=
  trim ((((payload.getD []).lookup "command").bind Json.str?).getD "")

/-- Why `createJob` rejects a console command, if it does. -/
def commandError (command : String) : Option String :=
  if command = "" then some "Console command is required"
  else if utf16Length command > 512 then some "Console command cannot exceed 512 characters"
  else if command.toList.any fun c => c == '\r' || c == '\n' then
    some "Only one console command may be sent at a time"
  else none

/-- The payload with which `createJob` goes on: for a console command, the caller's with the
command trimmed and checked. -/
def commandPayload (normalizedJobType : String) (payload : Option JsonObject) :
    Service (Option JsonObject) :=
  if normalizedJobType = "RCON" ∨ normalizedJobType = "SEND_COMMAND" then
    match commandError (consoleCommand payload) with
    | some message => throw (.badRequest message)
    | none =>
      pure (some (JsonObject.spread (payload.getD []) [("command", .str (consoleCommand payload))]))
  else pure payload

/-- `createJob`. -/
def createJob (env : Env) (orgId userId serverInstanceId : Id) (jobType : String)
    (payload : Option JsonObject) : Service (Id × Id) := do
  let normalizedJobType := normalizeJobType env jobType
  let payload ← commandPayload normalizedJobType payload
  checkRole userId orgId normalizedJobType
  let found ← query (.serverInstanceFindFirst serverInstanceId orgId)
  match found with
  | none => throw (.notFound "Server instance not found")
  | some (serverInstance, avoidBloodMoonRestart) =>
    let mergedPayload := JsonObject.spread
      (serverPayload serverInstance avoidBloodMoonRestart) (payload.getD [])
    let job ← query <| .jobCreate
      ⟨orgId, none, some serverInstanceId, normalizedJobType, some mergedPayload, some userId⟩
    let run ← query (.jobRunCreate job.id serverInstance.hostId)
    JobsQueueService.addJob orgId
      ⟨job.id, run.id, serverInstance.hostId, some serverInstanceId, normalizedJobType,
        mergedPayload, none⟩
    return (job.id, run.id)

/-- Throws unless the run exists, belongs to the host and is running. -/
def checkRunning (hostId : Id) (run : Option (JobRun × Job)) : Service (JobRun × Job) :=
  match run with
  | none => throw (.notFound "Job run not found")
  | some (run, job) =>
    if run.hostId ≠ hostId then throw (.badRequest "Job run does not belong to this host")
    else if run.status ≠ .running then
      throw (.badRequest ("Job run is not running (status: " ++ run.status.text ++ ")"))
    else pure (run, job)

/-- Deletes the uploaded archive of a finished `MOD_UPLOAD_QUARANTINE` job. -/
def discardUpload (job : Job) : Service Unit :=
  let uploadId := (((job.payload.getD []).lookup "uploadId").bind Json.str?).getD ""
  if isUploadId uploadId = true then
    tryCatch (query (.unlinkUpload (uploadId ++ ".zip"))) fun _ => pure ()
  else pure ()

/-- What is left of the payload of a finished `PROFILE_STAGE` job. -/
def scrubbedPayload (payload : Option JsonObject) (runStatus : JobRunStatus) : JsonObject :=
  JsonObject.prop "path" ((payload.getD []).lookup "path") ++
    [("staged", .bool (runStatus == .success))]

/-- Scrubs the payload of a finished `PROFILE_STAGE` job. -/
def scrubProfile (job : Job) (runStatus : JobRunStatus) : Service Unit :=
  query (.jobUpdate job.id (scrubbedPayload job.payload runStatus))

/-- Brings the players of a server up to date with a player list, and creates the jobs that
`enforceConnectionTools` decides on. -/
def playerListReceived (env : Env) (job : Job) (output : Option String)
    (tools : List ConnectionTool) : Service Unit :=
  match output, job.serverInstanceId with
  | some output, some serverInstanceId =>
    if output = "" then pure ()
    else do
      query (.syncPlayers job.orgId serverInstanceId output)
      tools.foldlM (fun _ tool => do
        let _ ← createJob env job.orgId tool.userId serverInstanceId tool.type
          (some tool.payload)) ()
  | _, _ => pure ()

/-- What `reportJobResult` does for the type of the job that ended. -/
def afterResult (env : Env) (job : Job) (runStatus : JobRunStatus) (output : Option String)
    (tools : List ConnectionTool) : Service Unit :=
  if job.type = "MOD_UPLOAD_QUARANTINE" then discardUpload job
  else if job.type = "PROFILE_STAGE" then scrubProfile job runStatus
  else if job.type = "PLAYER_LIST_SYNC" ∧ runStatus = .success then
    playerListReceived env job output tools
  else pure ()

/-- `reportJobResult`. `tools` is what `enforceConnectionTools` decides on for a player list. -/
def reportJobResult (env : Env) (hostId jobRunId : Id) (dto : ReportResultDto)
    (tools : List ConnectionTool) : Service Unit := do
  let found ← query (.jobRunFindUnique jobRunId)
  let (_, job) ← checkRunning hostId found
  query (.jobRunUpdate jobRunId (.finish dto.runStatus dto.runResult))
  afterResult env job dto.runStatus dto.output tools
  if job.batchId.isSome = true then
    BatchesService.recordJobRunCompleted job.orgId job.id dto.runStatus .running
  else pure ()

/-- `markJobRunStarted`. -/
def markJobRunStarted (hostId jobRunId : Id) : Service Unit := do
  let found ← query (.jobRunFindUnique jobRunId)
  match found with
  | none => pure ()
  | some (run, job) =>
    if run.hostId ≠ hostId ∨ run.status ≠ .pending then pure ()
    else do
      query (.jobRunUpdate jobRunId .start)
      if job.batchId.isSome = true then BatchesService.recordJobRunStarted job.orgId job.id
      else pure ()

/-- `reportJobProgress`. -/
def reportJobProgress (hostId jobRunId : Id) (phase : String) (message : Option String) :
    Service Unit := do
  let found ← query (.jobRunFindUnique jobRunId)
  let _ ← checkRunning hostId found
  query (.jobRunUpdate jobRunId (.progress phase (message.filter fun m => m ≠ "")))

/-- The time of the last sign of life of a run: its last progress, its start, or 0. -/
def heartbeat (run : JobRun) : ℕ :=
  -- `||` goes on to the next operand for the time 0, as it does for `NaN`
  (((run.result.bind RunResult.updatedAt).filter fun t => t ≠ 0).or run.startedAt).getD 0

/-- How long a run may be silent: three minutes. -/
def staleAfter : ℕ := 3 * 60000

/-- `failStaleRunningJobs`. -/
def failStaleRunningJobs : Service Unit := do
  let now ← query .dateNow
  let runs ← query .jobRunFindManyRunning
  runs.foldlM (fun _ run =>
    if now ≤ heartbeat run + staleAfter then pure ()
    else query (.jobRunUpdateManyRunning run.id (.release (run.result.getD RunResult.none)))) ()

end JobsService

/-- `LogsService.enqueueModerationCommand`. -/
def LogsService.enqueueModerationCommand (orgId serverInstanceId : Id) (command : String) :
    Service Unit := do
  let found ← query (.serverInstanceFindFirst serverInstanceId orgId)
  match found with
  | none => pure ()
  | some (server, avoidBloodMoonRestart) =>
    let payload := serverPayload server avoidBloodMoonRestart ++ [("command", .str command)]
    let job ← query <| .jobCreate
      ⟨orgId, none, some serverInstanceId, "RCON", some payload, none⟩
    let run ← query (.jobRunCreate job.id server.hostId)
    JobsQueueService.addJob orgId
      ⟨job.id, run.id, server.hostId, some serverInstanceId, "RCON", payload, none⟩

end Mastermind
