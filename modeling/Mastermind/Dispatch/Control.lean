import Mastermind.Dispatch.Scheduler

/-!
# The control plane as a system

The requests that reach the services, with the guards and the checks of the bodies that stand
before them, the agents' requests, the schedule fires and the stale sweep: `Op` lists them, and
`controlPlane` is the system that they form on `World`. What the rest of the control plane does to
these stores meanwhile (hosts are paired, server instances are registered and edited, members come
and go, time passes) is the system's environment, `Elsewhere`.
-/

namespace Mastermind

open Effect

/-- `CreateJobDto`. -/
structure CreateJobDto where
  type : String
  serverInstanceId : Id
  payload : Option JsonObject

/-- `JOB_TYPES`. -/
def jobTypes : List String :=
  ["SERVER_START", "SERVER_STOP", "SERVER_KILL", "SERVER_RESTART", "SERVER_SAFE_RESTART",
    "SERVER_WIPE_SAVE", "RCON", "SEND_COMMAND", "REGION_HEALER_START", "REGION_HEALER_STOP",
    "SAVE_LIST", "SAVE_BACKUP", "SAVE_RESTORE", "SAVE_DELETE", "SAVE_RETENTION", "PLAYER_KICK",
    "PLAYER_KICK_ALL", "PLAYER_BAN", "PLAYER_LIST_SYNC", "PLAYER_ADMIN_LIST",
    "PLAYER_ADMIN_PROMOTE", "PLAYER_ADMIN_DEMOTE", "MOD_LIST", "MOD_QUARANTINE",
    "MOD_QUARANTINE_LIST", "MOD_RESTORE", "MOD_DELETE", "MOD_CONFIG_READ", "MOD_CONFIG_WRITE",
    "MOD_UPLOAD_QUARANTINE", "PROFILE_LIST", "PROFILE_READ", "PROFILE_STAGE", "start", "stop",
    "restart", "rcon"]

/-- The message of an error; that of a Prisma error is its code. -/
def Err.message : Err → String
  | notFound m => m
  | badRequest m => m
  | forbidden m => m
  | error m => m
  | foreignKey => "P2003"
  | recordNotFound => "P2025"
  | validation => "PrismaClientValidationError"
  | fault => "P1001"

/-- `OrgMemberGuard`: the role of a member of the organization. -/
def orgMemberGuard (userId orgId : Id) : Service Role := do
  let userOrg ← query (.userOrgFindUnique userId orgId)
  match userOrg with
  | none => throw (.forbidden "Not a member of this org")
  | some role => return role

/-- `OrgMemberGuard` and `RequireOrgRoleGuard` with the roles admin and operator. -/
def orgRoleGuard (userId orgId : Id) : Service Unit := do
  let role ← orgMemberGuard userId orgId
  if JobsService.isAdminOrOperator role = true then pure ()
  else throw (.forbidden "Insufficient permissions (admin or operator required)")

/-- `HostsService.remove`. -/
def HostsService.remove (orgId hostId userId : Id) : Service Unit := do
  let found ← query (.hostFindFirst hostId orgId)
  match found with
  | none => throw (.notFound "Host not found")
  | some (host, serverInstances) =>
    if serverInstances > 0 then
      throw (.badRequest "Unregister this host’s server instances before deleting the host")
    else
      query <| .hostRemoveTransaction hostId
        ⟨orgId, some userId, "delete", "host", hostId, [("name", .str host.name)]⟩

/-- `ServerInstancesService.remove`. -/
def ServerInstancesService.remove (orgId userId id : Id) : Service Unit := do
  let existing ← query (.serverInstanceFindFirst id orgId)
  match existing with
  | none => throw (.notFound "Server instance not found")
  | some (existing, _) => do
    query (.serverInstanceDelete id)
    query <| .auditLogCreate
      ⟨orgId, some userId, "delete", "server_instance", id, [("name", .str existing.name)]⟩

/-- `JobsController.create`. -/
def JobsController.create (env : Env) (orgId userId : Id) (dto : CreateJobDto) : Service Unit := do
  let _ ← orgMemberGuard userId orgId
  if dto.type ∈ jobTypes then
    let _ ← JobsService.createJob env orgId userId dto.serverInstanceId dto.type dto.payload
  else
    throw <| .badRequest <|
      "type must be one of the following values: " ++ ", ".intercalate jobTypes

/-- `BatchesController.create`. -/
def BatchesController.create (orgId userId : Id) (dto : CreateBatchDto) : Service Unit := do
  orgRoleGuard userId orgId
  if dto.serverInstanceIds = [] then
    throw (.badRequest "serverInstanceIds must contain at least 1 elements")
  else
    let _ ← BatchesService.createBatch orgId (some userId) dto

/-- `BatchesController.cancel`. -/
def BatchesController.cancel (orgId userId batchId : Id) : Service Unit := do
  orgRoleGuard userId orgId
  let _ ← BatchesService.cancelBatch orgId batchId

/-- `SchedulerController.create`. -/
def SchedulerController.create (env : Env) (orgId userId : Id) (body : CreateScheduleBody) :
    Service Unit := do
  let _ ← orgMemberGuard userId orgId
  if body.name = "" ∨ body.cronExpression = "" ∨ body.jobType = "" then
    throw (.badRequest "name, serverInstanceId, cronExpression, and jobType are required")
  else
    tryCatch (do let _ ← SchedulerService.createSchedule env orgId userId body)
      fun e => throw (.badRequest e.message)

/-- `SchedulerController.update`. -/
def SchedulerController.update (env : Env) (orgId userId scheduleId : Id)
    (body : UpdateScheduleBody) : Service Unit := do
  let _ ← orgMemberGuard userId orgId
  tryCatch (do let _ ← SchedulerService.updateSchedule env orgId scheduleId body)
    fun e =>
      if "not found".toList <:+: e.message.toList then throw (.notFound e.message)
      else throw (.badRequest e.message)

/-- `AgentJobsController.poll`. -/
def AgentJobsController.poll (hostId : Id) (mutationBusy : Bool) :
    Service (Option QueueJobData) := do
  let host ← query (.hostFindUnique hostId)
  match host with
  | none => return none
  | some host => do
    let jobData ← JobsQueueService.getNextJobForHost host.orgId hostId mutationBusy
    match jobData with
    | none => return none
    | some jobData => do
      JobsService.markJobRunStarted hostId jobData.jobRunId
      return some jobData

/-- `AgentJobsController.reportResult`. -/
def AgentJobsController.reportResult (env : Env) (hostId jobRunId : Id) (dto : ReportResultDto)
    (tools : List ConnectionTool) : Service Unit :=
  if dto.status = "success" ∨ dto.status = "failed" then
    JobsService.reportJobResult env hostId jobRunId dto tools
  else throw (.badRequest "status must be one of the following values: success, failed")

/-- What reaches the services. The requests of members carry the user that made them, and those of
agents the host that their token names. -/
inductive Op where
  | createJob (orgId userId : Id) (dto : CreateJobDto)
  | createBatch (orgId userId : Id) (dto : CreateBatchDto)
  | cancelBatch (orgId userId batchId : Id)
  | createSchedule (orgId userId : Id) (body : CreateScheduleBody)
  | updateSchedule (orgId userId scheduleId : Id) (body : UpdateScheduleBody)
  | fire (scheduleId : Id)
  | poll (hostId : Id) (mutationBusy : Bool)
  | reportResult (hostId jobRunId : Id) (dto : ReportResultDto) (tools : List ConnectionTool)
  | reportProgress (hostId jobRunId : Id) (phase : String) (message : Option String)
  | failStaleRunningJobs
  | enqueueModerationCommand (orgId serverInstanceId : Id) (command : String)
  | removeHost (orgId userId hostId : Id)
  | removeServerInstance (orgId userId serverInstanceId : Id)

/-- The program of an operation. Its result is the job that a poll returns to the agent. -/
def Op.prog (env : Env) : Op → Service (Option QueueJobData)
  | createJob orgId userId dto => do JobsController.create env orgId userId dto; return none
  | createBatch orgId userId dto => do BatchesController.create orgId userId dto; return none
  | cancelBatch orgId userId batchId => do
    BatchesController.cancel orgId userId batchId
    return none
  | createSchedule orgId userId body => do
    SchedulerController.create env orgId userId body
    return none
  | updateSchedule orgId userId scheduleId body => do
    SchedulerController.update env orgId userId scheduleId body
    return none
  | fire scheduleId => do SchedulerService.fire env scheduleId; return none
  | poll hostId mutationBusy => AgentJobsController.poll hostId mutationBusy
  | reportResult hostId jobRunId dto tools => do
    AgentJobsController.reportResult env hostId jobRunId dto tools
    return none
  | reportProgress hostId jobRunId phase message => do
    JobsService.reportJobProgress hostId jobRunId phase message
    return none
  | failStaleRunningJobs => do JobsService.failStaleRunningJobs; return none
  | enqueueModerationCommand orgId serverInstanceId command => do
    LogsService.enqueueModerationCommand orgId serverInstanceId command
    return none
  | removeHost orgId userId hostId => do
    orgRoleGuard userId orgId
    HostsService.remove orgId hostId userId
    return none
  | removeServerInstance orgId userId serverInstanceId => do
    orgRoleGuard userId orgId
    ServerInstancesService.remove orgId userId serverInstanceId
    return none

/-- The host that a server instance names is one of its organization (`assertHostInOrg`). -/
def Database.hostInOrg (db : Database) (s : ServerInstance) : Prop :=
  ∃ h, db.hosts.get s.hostId = some h ∧ h.orgId = s.orgId

/-- What the rest of the control plane does to the stores: time passes, an agent is paired, a
server instance is registered or edited, a schedule is deleted, and memberships and the settings
of organizations change. -/
inductive Elsewhere : World → World → Prop where
  | tick (w : World) (ms : ℕ) : Elsewhere w { w with now := w.now + ms }
  | pairHost (w : World) (orgId : Id) (name : String) :
      Elsewhere w
        { w with db.hosts := w.db.hosts.insert (fun i => ⟨i, orgId, name⟩) fun _ => rfl }
  | createServerInstance (w : World) (mk : Id → ServerInstance) (hk : ∀ i, (mk i).id = i) :
      w.db.hostInOrg (mk w.db.serverInstances.next) →
        Elsewhere w { w with db.serverInstances := w.db.serverInstances.insert mk hk }
  | updateServerInstance (w : World) (id : Id) (f : ServerInstance → ServerInstance)
      (hk : ∀ s, (f s).id = s.id) :
      (∀ s, w.db.serverInstances.get id = some s →
        (f s).orgId = s.orgId ∧ w.db.hostInOrg (f s)) →
        Elsewhere w { w with db.serverInstances := w.db.serverInstances.update id f hk }
  | deleteSchedule (w : World) (id : Id) :
      Elsewhere w { w with db.schedules := w.db.schedules.erase fun s => s.id == id }
  | setMembers (w : World) (userOrg : Id → Id → Option Role) :
      Elsewhere w { w with db.userOrg := userOrg }
  | setAvoidBloodMoonRestart (w : World) (f : Id → Bool) :
      Elsewhere w { w with db.avoidBloodMoonRestart := f }

/-- The control plane. -/
def controlPlane (env : Env) : System Op Stmt.Resp Err (Option QueueJobData) World :=
  ⟨machine env, Op.prog env, Elsewhere⟩

/-- The stores of a control plane that no operation has used yet. -/
def World.initial : World where
  now := 0
  db := ⟨fun _ => false, fun _ _ => none, .empty, .empty, .empty, .empty, .empty, .empty, []⟩
  queues := fun _ => []
  scheduler := []
  uploads := []
  progress := []

/-- A server instance of the small installation. -/
def smallServer (orgId hostId : Id) (telnetPassword : String) (i : Id) : ServerInstance :=
  ⟨i, orgId, hostId, "7dtd", "pve", some "/srv/7dtd", some "./startserver.sh", some "127.0.0.1",
    some 8081, some telnetPassword, none⟩

/-- The members of the small installation: an admin and a viewer of the organization 0, and an
admin of the organization 1. -/
def smallUserOrg (userId orgId : Id) : Option Role :=
  if orgId = 0 then
    if userId = 0 then some .admin else if userId = 1 then some .viewer else none
  else if orgId = 1 ∧ userId = 2 then some .admin else none

/-- A small installation, for examples: two organizations, each with a host and a server instance
whose ids are the organization's. -/
def World.small : World :=
  { initial with
    db.userOrg := smallUserOrg
    db.hosts := (Table.empty.insert (fun i => ⟨i, 0, "alpha"⟩) fun _ => rfl).insert
      (fun i => ⟨i, 1, "beta"⟩) fun _ => rfl
    db.serverInstances := (Table.empty.insert (smallServer 0 0 "alpha-pw") fun _ => rfl).insert
      (smallServer 1 1 "beta-pw") fun _ => rfl }

/-- The small installation is reached from the initial stores without any operation. -/
theorem Runs.small {env : Env} {cond : Op → List Bool → World → Prop} :
    Runs (controlPlane env) cond World.initial [] World.small :=
  .environment
    (.environment
      (.environment
        (.environment
          (.environment .init (.setMembers _ smallUserOrg))
          (.pairHost _ 0 "alpha"))
        (.pairHost _ 1 "beta"))
      (.createServerInstance _ (smallServer 0 0 "alpha-pw") (fun _ => rfl) ⟨_, rfl, rfl⟩))
    (.createServerInstance _ (smallServer 1 1 "beta-pw") (fun _ => rfl) ⟨_, rfl, rfl⟩)

/-- The control plane of the examples. -/
abbrev smallPlane : System Op Stmt.Resp Err (Option QueueJobData) World :=
  controlPlane Env.everyMinute

/-- The small installation after its admin has started a restart wave. -/
def World.wave : World :=
  (smallPlane.turn (.createBatch 0 0 ⟨.restartWave, [0], none⟩) [] .small).after

/-- The same after the agent of the first host has claimed the wave's run. -/
def World.waveClaimed : World := (smallPlane.turn (.poll 0 false) [] .wave).after

theorem Runs.wave {cond : Op → List Bool → World → Prop}
    (hcreate : cond (.createBatch 0 0 ⟨.restartWave, [0], none⟩) [] .small) :
    ∃ h, Runs smallPlane cond World.initial h .wave :=
  ⟨_, .turn _ [] Runs.small hcreate⟩

theorem Runs.waveClaimed {cond : Op → List Bool → World → Prop}
    (hcreate : cond (.createBatch 0 0 ⟨.restartWave, [0], none⟩) [] .small)
    (hpoll : cond (.poll 0 false) [] .wave) :
    ∃ h, Runs smallPlane cond World.initial h .waveClaimed := by
  obtain ⟨h, hr⟩ := Runs.wave hcreate
  exact ⟨_, .turn _ [] hr hpoll⟩

end Mastermind
