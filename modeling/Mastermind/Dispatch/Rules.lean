import Mastermind.Dispatch.Control

/-!
# What each operation can do

The rules by which the services are verified when they run alone. Every path that dispatches work
creates a job and its run and then puts the run's entry into the queue; `Creation` is what such a
path dispatches and `Creation.Ends` are the states that it can leave, since each of the three calls
can fail. For each operation one theorem says which states it can leave (`createJob_spec`,
`createBatchJob_spec`, `claimFirst_spec`), and an invariant is then proved from these states, without looking
at the program again.

`may` is the condition under which a call may fail: `alone env may` is what a call requires of the
stores when the program runs alone.
-/

namespace Mastermind

open Effect Effect.Program

variable {env : Env} {may : Stmt → World → Prop} {w : World}

/-- What a call of a program that runs alone requires. -/
abbrev alone (env : Env) (may : Stmt → World → Prop) : Transformer Stmt.Resp Err World :=
  (machine env).requires may

theorem alone_apply (s : Stmt) (K : Except Err s.Resp → World → Prop) (w : World) :
    alone env may s K w ↔
      K (exec env s w).1 (exec env s w).2 ∧ (s.fallible = true → may s w → K (.error .fault) w) :=
  Iff.rfl

theorem alone_monotone : (alone env may).Monotone := Machine.requires_monotone _ _

section Guards

/-- The guard reads the role and changes nothing. -/
theorem orgMemberGuard_spec (userId orgId : Id) :
    (orgMemberGuard userId orgId).wp (alone env may)
      (fun r w' => w' = w ∧ ∀ role, r = .ok role → w.db.userOrg userId orgId = some role) w := by
  unfold orgMemberGuard
  rw [wp_bind, wp_request, alone_apply]
  refine ⟨?_, fun _ _ => ⟨rfl, fun role h => nomatch h⟩⟩
  rw [exec, andThen_ok]
  cases h : w.db.userOrg userId orgId with
  | none =>
    rw [wp_throw]
    exact ⟨rfl, fun role h => nomatch h⟩
  | some role =>
    rw [wp_pure]
    exact ⟨rfl, fun role' h' => by rw [Except.ok.inj h']⟩

/-- The role guard lets admins and operators pass and changes nothing. -/
theorem orgRoleGuard_spec (userId orgId : Id) :
    (orgRoleGuard userId orgId).wp (alone env may)
      (fun r w' => w' = w ∧ (r = .ok () →
        (w.db.userOrg userId orgId).any JobsService.isAdminOrOperator = true)) w := by
  unfold orgRoleGuard
  apply wp_bind_of alone_monotone (orgMemberGuard_spec userId orgId)
  · rintro role w' ⟨rfl, hrole⟩
    rw [wp_ite]
    split_ifs with h
    · rw [wp_pure]
      exact ⟨rfl, fun _ => by simp [hrole role rfl, h]⟩
    · rw [wp_throw]
      exact ⟨rfl, fun h' => nomatch h'⟩
  · rintro e w' ⟨rfl, -⟩
    exact ⟨rfl, fun h' => nomatch h'⟩

end Guards

/-- What a path dispatches: the job, the host of its run, and the run's queue entry, given the ids
of the job and the run. -/
structure Creation where
  data : JobData
  hostId : Id
  entry : Id → Id → QueueEntry

namespace Creation

variable (c : Creation)

/-- The job exists. -/
def job (w : World) : World := w.insertJob c.data

/-- The job and its run exist. -/
def run (w : World) : World := (c.job w).insertJobRun w.db.jobs.next c.hostId

/-- The entry that goes into the queue. -/
def queueEntry (w : World) : QueueEntry := c.entry w.db.jobs.next w.db.jobRuns.next

/-- The call that puts the entry of a run into the queue. -/
def enqueue (jobId runId : Id) : Service Unit :=
  query (.queueAdd c.data.orgId (c.entry jobId runId))

/-- The run's entry is in the queue. -/
def queued (w : World) : World := (c.run w).enqueue c.data.orgId (c.queueEntry w)

/-- The records that the job and its run refer to exist. -/
def Refers (w : World) : Prop :=
  w.db.refersToRecords c.data = true ∧ (w.db.hosts.get c.hostId).isSome = true

/-- The states, other than `w` itself, in which dispatching can end. -/
inductive Ends (may : Stmt → World → Prop) (w : World) : World → Prop where
  | job (h : w.db.refersToRecords c.data = true) : Ends may w (c.job w)
  | run (h : c.Refers w) (hm : may (.queueAdd c.data.orgId (c.queueEntry w)) (c.run w)) :
      Ends may w (c.run w)
  | queued (h : c.Refers w) : Ends may w (c.queued w)

/-- The two records that a path creates to dispatch `c`, and what follows them. An error before
that means that a record they refer to is missing, or that a call failed. -/
theorem wp_create {α : Type} (c : Creation) (rest : Id → Id → Service α)
    {Q : Except Err α → World → Prop}
    (start : ∀ e, (c.Refers w → ∃ s w₁, may s w₁) → Q (.error e) w)
    (job : w.db.refersToRecords c.data = true →
      ∀ e, (c.Refers w → ∃ s w₁, may s w₁) → Q (.error e) (c.job w))
    (run : c.Refers w →
      (rest w.db.jobs.next w.db.jobRuns.next).wp (alone env may) Q (c.run w)) :
    (do
      let job ← query (.jobCreate c.data)
      let run ← query (.jobRunCreate job.id c.hostId)
      rest job.id run.id : Service α).wp (alone env may) Q w := by
  rw [wp_bind, wp_request, alone_apply]
  refine ⟨?_, fun _ hm => start _ fun _ => ⟨_, _, hm⟩⟩
  rw [exec]
  split_ifs with hrefers
  · rw [andThen_ok, wp_bind, wp_request, alone_apply]
    refine ⟨?_, fun _ hm => job hrefers _ fun _ => ⟨_, _, hm⟩⟩
    -- the job exists by now, so that only the host can be missing
    have hjob : ((w.insertJob c.data).db.jobs.get (c.data.row w.db.jobs.next).id).isSome = true :=
      congrArg Option.isSome (Table.get_insert_next w.db.jobs c.data.row fun _ => rfl)
    rw [exec, hjob, Bool.true_and]
    split_ifs with hhost
    · exact run ⟨hrefers, hhost⟩
    · exact job hrefers _ fun h => absurd h.2 hhost
  · exact start _ fun h => absurd h.1 hrefers

theorem wp_enqueue {Q : Except Err Unit → World → Prop}
    (run : may (.queueAdd c.data.orgId (c.queueEntry w)) (c.run w) → Q (.error .fault) (c.run w))
    (queued : Q (.ok ()) (c.queued w)) :
    (c.enqueue w.db.jobs.next w.db.jobRuns.next).wp (alone env may) Q (c.run w) := by
  rw [enqueue, wp_request, alone_apply]
  exact ⟨queued, fun _ hm => run hm⟩

end Creation

namespace JobsService

/-- The job types that `createJob` keeps for admins. -/
def adminTypes : List String := ["PLAYER_ADMIN_PROMOTE", "PLAYER_ADMIN_DEMOTE"]

/-- The job types that `createJob` keeps for admins and operators. -/
def operatorTypes : List String :=
  ["PLAYER_KICK_ALL", "SERVER_KILL", "SAVE_BACKUP", "SAVE_RESTORE", "SAVE_DELETE",
    "SAVE_RETENTION", "PROFILE_STAGE", "MOD_UPLOAD_QUARANTINE"]

/-- A member with the role, if any, may create jobs of the type. -/
def Accepts (role : Option Role) (type : String) : Prop :=
  (type ∈ adminTypes → role.any isAdmin = true) ∧
    (type ∈ operatorTypes → role.any isAdminOrOperator = true)

/-- The payload with which `createJob` goes on: the caller's, with the command replaced if the job
is a console command. -/
def Checked (payload own : Option JsonObject) : Prop :=
  own = payload ∨
    ∃ command, own = some (JsonObject.spread (payload.getD []) [("command", .str command)])

theorem commandPayload_spec (type : String) (payload : Option JsonObject) :
    (commandPayload type payload).wp (alone env may)
      (fun r w' => w' = w ∧ ∀ own, r = .ok own → Checked payload own) w := by
  unfold commandPayload
  rw [wp_ite]
  split_ifs
  · cases commandError (consoleCommand payload) with
    | some message =>
      rw [wp_throw]
      exact ⟨rfl, fun own h => nomatch h⟩
    | none =>
      rw [wp_pure]
      exact ⟨rfl, fun own h => .inr ⟨_, (Except.ok.inj h).symm⟩⟩
  · rw [wp_pure]
    exact ⟨rfl, fun own h => .inl (Except.ok.inj h).symm⟩

theorem requireRole_spec (types : List String) (allowed : Role → Bool) (message : String)
    (userId orgId : Id) (type : String) :
    (requireRole types allowed message userId orgId type).wp (alone env may)
      (fun r w' => w' = w ∧
        (r = .ok () → type ∈ types → (w.db.userOrg userId orgId).any allowed = true)) w := by
  unfold requireRole
  rw [wp_ite]
  split_ifs with hmem
  · rw [wp_bind, wp_request, alone_apply]
    refine ⟨?_, fun _ _ => ⟨rfl, fun h => nomatch h⟩⟩
    rw [exec, andThen_ok, wp_ite]
    split_ifs with hrole
    · rw [wp_pure]
      exact ⟨rfl, fun _ _ => hrole⟩
    · rw [wp_throw]
      exact ⟨rfl, fun h => nomatch h⟩
  · rw [wp_pure]
    exact ⟨rfl, fun _ h => absurd h hmem⟩

/-- A role check passes only members whom `createJob` accepts, and changes nothing. -/
theorem checkRole_spec (userId orgId : Id) (type : String) :
    (checkRole userId orgId type).wp (alone env may)
      (fun r w' => w' = w ∧ (r = .ok () → Accepts (w.db.userOrg userId orgId) type)) w := by
  have refuse : ∀ e : Err, w = w ∧
      (Except.error e = .ok () → Accepts (w.db.userOrg userId orgId) type) :=
    fun e => ⟨rfl, fun h => nomatch h⟩
  unfold checkRole
  apply wp_bind_of alone_monotone (requireRole_spec _ _ _ _ _ _)
  swap
  · rintro e w' ⟨rfl, -⟩
    exact refuse e
  rintro ⟨⟩ w' ⟨rfl, hadmin⟩
  apply wp_bind_of alone_monotone (requireRole_spec _ _ _ _ _ _)
  swap
  · rintro e w' ⟨rfl, -⟩
    exact refuse e
  rintro ⟨⟩ w' ⟨rfl, hkill⟩
  apply wp_bind_of alone_monotone (requireRole_spec _ _ _ _ _ _)
  swap
  · rintro e w' ⟨rfl, -⟩
    exact refuse e
  rintro ⟨⟩ w' ⟨rfl, hsave⟩
  apply wp_bind_of alone_monotone (requireRole_spec _ _ _ _ _ _)
  swap
  · rintro e w' ⟨rfl, -⟩
    exact refuse e
  rintro ⟨⟩ w' ⟨rfl, hstage⟩
  refine wp_mono alone_monotone ?_ (requireRole_spec _ _ _ _ _ _)
  rintro r w' ⟨rfl, hupload⟩
  refine ⟨rfl, fun hr => ⟨hadmin rfl, fun hmem => ?_⟩⟩
  -- the operator types are those of the last four checks
  simp only [operatorTypes, List.mem_cons, List.not_mem_nil, or_false] at hmem
  rcases hmem with h | h | h | h | h | h | h | h
  · exact hkill rfl (by simp [h])
  · exact hkill rfl (by simp [h])
  · exact hsave rfl (by simp [h])
  · exact hsave rfl (by simp [h])
  · exact hsave rfl (by simp [h])
  · exact hsave rfl (by simp [h])
  · exact hstage rfl (by simp [h])
  · exact hupload hr (by simp [h])

/-- What `createJob` dispatches for a server instance, with the caller's payload `own`. -/
def creation (env : Env) (orgId userId : Id) (jobType : String) (si : ServerInstance)
    (avoidBloodMoonRestart : Bool) (own : Option JsonObject) : Creation :=
  let type := normalizeJobType env jobType
  let payload := JsonObject.spread (serverPayload si avoidBloodMoonRestart) (own.getD [])
  { data := ⟨orgId, none, some si.id, type, some payload, some userId⟩
    hostId := si.hostId
    entry := fun jobId runId =>
      { id := runId
        name := type
        data := ⟨jobId, runId, si.hostId, some si.id, type, payload, none⟩
        delay := 0
        attempts := jobAttempts
        backoff := .exponential 2000 } }

/-- `createJob` dispatches `c`. -/
inductive Creates (env : Env) (w : World) (orgId userId serverInstanceId : Id) (jobType : String)
    (payload : Option JsonObject) : Creation → Prop where
  | mk {si own} (server : w.db.serverInstances.get serverInstanceId = some si)
      (org : si.orgId = orgId) (checked : Checked payload own)
      (role : Accepts (w.db.userOrg userId orgId) (normalizeJobType env jobType)) :
      Creates env w orgId userId serverInstanceId jobType payload
        (creation env orgId userId jobType si (w.db.avoidBloodMoonRestart si.orgId) own)

/-- `createJob` leaves the stores as they are or dispatches a job. -/
theorem createJob_spec (orgId userId serverInstanceId : Id) (jobType : String)
    (payload : Option JsonObject) :
    (createJob env orgId userId serverInstanceId jobType payload).wp (alone env may)
      (fun _ w' => w' = w ∨
        ∃ c, Creates env w orgId userId serverInstanceId jobType payload c ∧ c.Ends may w w') w := by
  unfold createJob
  dsimp only
  apply wp_bind_of alone_monotone (commandPayload_spec _ _)
  swap
  · rintro e w' ⟨rfl, -⟩
    exact .inl rfl
  rintro own w' ⟨rfl, hown⟩
  apply wp_bind_of alone_monotone (checkRole_spec _ _ _)
  swap
  · rintro e w' ⟨rfl, -⟩
    exact .inl rfl
  rintro ⟨⟩ w' ⟨rfl, hrole⟩
  rw [wp_bind, wp_request, alone_apply]
  refine ⟨?_, fun _ _ => .inl rfl⟩
  rw [exec, andThen_ok]
  cases hs : w'.db.serverInstances.get serverInstanceId with
  | none => exact (wp_throw _ _ _).mpr (.inl rfl)
  | some si =>
    by_cases horg : si.orgId = orgId
    swap
    · simp only [Option.filter_some, beq_iff_eq, horg, if_false, Option.map_none]
      exact (wp_throw _ _ _).mpr (.inl rfl)
    simp only [Option.filter_some, beq_iff_eq, horg, if_true, Option.map_some]
    have hid : si.id = serverInstanceId := (Table.get_eq_some.mp hs).2
    have hc : Creates env w' orgId userId serverInstanceId jobType payload
        (creation env orgId userId jobType si (w'.db.avoidBloodMoonRestart si.orgId) own) :=
      .mk hs horg (hown _ rfl) (hrole rfl)
    subst hid horg
    let c := creation env si.orgId userId jobType si (w'.db.avoidBloodMoonRestart si.orgId) own
    apply c.wp_create fun jobId runId => do
      c.enqueue jobId runId
      pure (jobId, runId)
    · exact fun _ _ => .inl rfl
    · exact fun h _ _ => .inr ⟨c, hc, .job h⟩
    · intro h
      rw [wp_bind]
      apply c.wp_enqueue
      · exact fun hm => .inr ⟨c, hc, .run h hm⟩
      · exact (wp_pure _ _ _).mpr (.inr ⟨c, hc, .queued h⟩)

end JobsService

/-- A request to create a job leaves the stores as they are, or dispatches a job. -/
theorem JobsController.create_spec (orgId userId : Id) (dto : CreateJobDto) :
    (JobsController.create env orgId userId dto).wp (alone env may)
      (fun _ w' => w' = w ∨ ∃ c, dto.type ∈ jobTypes ∧
        JobsService.Creates env w orgId userId dto.serverInstanceId dto.type dto.payload c ∧
          c.Ends may w w') w := by
  unfold JobsController.create
  apply wp_bind_of alone_monotone (orgMemberGuard_spec userId orgId)
  swap
  · rintro e w' ⟨rfl, -⟩
    exact .inl rfl
  rintro role w' ⟨rfl, -⟩
  rw [wp_ite]
  split_ifs with htype
  · refine wp_bind_of alone_monotone (JobsService.createJob_spec _ _ _ _ _) ?_ ?_
    · rintro a w₁ (rfl | ⟨c, hc, hends⟩)
      · exact (wp_pure _ _ _).mpr (.inl rfl)
      · exact (wp_pure _ _ _).mpr (.inr ⟨c, htype, hc, hends⟩)
    · rintro e w₁ (rfl | ⟨c, hc, hends⟩)
      · exact .inl rfl
      · exact .inr ⟨c, htype, hc, hends⟩
  · exact (wp_throw _ _ _).mpr (.inl rfl)

namespace LogsService

/-- What `enqueueModerationCommand` dispatches for a server instance. -/
def creation (orgId : Id) (si : ServerInstance) (avoidBloodMoonRestart : Bool) (command : String) :
    Creation :=
  let payload := serverPayload si avoidBloodMoonRestart ++ [("command", .str command)]
  { data := ⟨orgId, none, some si.id, "RCON", some payload, none⟩
    hostId := si.hostId
    entry := fun jobId runId =>
      { id := runId
        name := "RCON"
        data := ⟨jobId, runId, si.hostId, some si.id, "RCON", payload, none⟩
        delay := 0
        attempts := jobAttempts
        backoff := .exponential 2000 } }

/-- `enqueueModerationCommand` dispatches `c`. -/
inductive Enqueues (w : World) (orgId serverInstanceId : Id) (command : String) :
    Creation → Prop where
  | mk {si} (server : w.db.serverInstances.get serverInstanceId = some si)
      (org : si.orgId = orgId) :
      Enqueues w orgId serverInstanceId command
        (creation orgId si (w.db.avoidBloodMoonRestart si.orgId) command)

/-- `enqueueModerationCommand` leaves the stores as they are or dispatches a job. -/
theorem enqueueModerationCommand_spec (orgId serverInstanceId : Id) (command : String) :
    (enqueueModerationCommand orgId serverInstanceId command).wp (alone env may)
      (fun _ w' => w' = w ∨
        ∃ c, Enqueues w orgId serverInstanceId command c ∧ c.Ends may w w') w := by
  unfold enqueueModerationCommand
  rw [wp_bind, wp_request, alone_apply]
  refine ⟨?_, fun _ _ => .inl rfl⟩
  rw [exec, andThen_ok]
  cases hs : w.db.serverInstances.get serverInstanceId with
  | none => exact (wp_pure _ _ _).mpr (.inl rfl)
  | some si =>
    by_cases horg : si.orgId = orgId
    swap
    · simp only [Option.filter_some, beq_iff_eq, horg, if_false, Option.map_none]
      exact (wp_pure _ _ _).mpr (.inl rfl)
    simp only [Option.filter_some, beq_iff_eq, horg, if_true, Option.map_some]
    have hid : si.id = serverInstanceId := (Table.get_eq_some.mp hs).2
    have hc : Enqueues w orgId serverInstanceId command
        (creation orgId si (w.db.avoidBloodMoonRestart si.orgId) command) := .mk hs horg
    subst hid horg
    let c := creation si.orgId si (w.db.avoidBloodMoonRestart si.orgId) command
    apply c.wp_create c.enqueue
    · exact fun _ _ => .inl rfl
    · exact fun h _ _ => .inr ⟨c, hc, .job h⟩
    · intro h
      apply c.wp_enqueue
      · exact fun hm => .inr ⟨c, hc, .run h hm⟩
      · exact .inr ⟨c, hc, .queued h⟩

end LogsService

namespace BatchesService

/-- What `createBatch` dispatches for one server instance. -/
def creation (orgId : Id) (userId : Option Id) (dto : CreateBatchDto) (batchId : Id)
    (si : ServerInstance) : Creation :=
  { data := ⟨orgId, some batchId, some si.id, dto.type.jobType, dto.payload, userId⟩
    hostId := si.hostId
    entry := fun jobId runId =>
      { id := runId
        name := dto.type.jobType
        data := ⟨jobId, runId, si.hostId, some si.id, dto.type.jobType, dto.payload.getD [], none⟩
        delay := 0
        attempts := jobAttempts
        backoff := .fixed 2000 } }

/-- One round of the loop of `createBatch` dispatches the server instance's job and logs it. An
error means that a record is missing, or that a call failed. -/
theorem createBatchJob_spec (orgId : Id) (userId : Option Id) (dto : CreateBatchDto)
    (batch : JobBatch) (si : ServerInstance) :
    (createBatchJob orgId userId dto batch si).wp (alone env may)
      (fun r w' =>
        let c := creation orgId userId dto batch.id si
        match r with
        | .ok _ => c.Refers w ∧ ∃ audit, w' = (c.queued w).log audit
        | .error _ => (w' = w ∨ c.Ends may w w') ∧ (c.Refers w → ∃ s w₁, may s w₁)) w := by
  let c := creation orgId userId dto batch.id si
  unfold createBatchJob
  apply c.wp_create fun jobId runId => do
    c.enqueue jobId runId
    auditJob orgId userId "job_created" jobId
      [("batchId", .str (idText batch.id)), ("serverInstanceId", .str (idText si.id))]
  · exact fun _ hm => ⟨.inl rfl, hm⟩
  · exact fun h _ hm => ⟨.inr (.job h), hm⟩
  · intro h
    rw [wp_bind]
    apply c.wp_enqueue
    · exact fun hm => ⟨.inr (.run h hm), fun _ => ⟨_, _, hm⟩⟩
    · rw [andThen_ok, auditJob, wp_request, alone_apply]
      exact ⟨⟨h, _, rfl⟩, fun _ hm => ⟨.inr (.queued h), fun _ => ⟨_, _, hm⟩⟩⟩

end BatchesService

section Reports

variable {job : Job} {I : World → Prop}

/-- What a player list leads to keeps what the jobs of `createJob` keep. -/
theorem JobsService.playerListReceived_keeps (output : Option String)
    (tools : List ConnectionTool)
    (creates : ∀ w w' serverInstanceId tool c, I w →
      Creates env w job.orgId (ConnectionTool.userId tool) serverInstanceId tool.type
        (some tool.payload) c → c.Ends may w w' → I w')
    (h : I w) :
    (playerListReceived env job output tools).wp (alone env may) (fun _ w' => I w') w := by
  unfold playerListReceived
  split
  swap
  · exact (wp_pure _ _ _).mpr h
  rename_i output serverInstanceId
  rw [wp_ite]
  split_ifs
  · exact (wp_pure _ _ _).mpr h
  rw [wp_bind, wp_request, alone_apply]
  refine ⟨?_, fun _ _ => h⟩
  rw [exec, andThen_ok]
  refine wp_foldlM alone_monotone (fun _ _ w => I w) ?_ (fun _ _ h => h) _ _ _ h
  intro tool rest u w hw
  refine wp_bind_of alone_monotone (createJob_spec _ _ _ _ _) ?_ ?_
  · rintro a w' (rfl | ⟨c, hc, hends⟩)
    · exact (wp_pure _ _ _).mpr hw
    · exact (wp_pure _ _ _).mpr (creates _ _ _ _ _ hw hc hends)
  · rintro e w' (rfl | ⟨c, hc, hends⟩)
    · exact hw
    · exact creates _ _ _ _ _ hw hc hends

/-- What `reportJobResult` does for the type of the job keeps what the jobs of `createJob`, the
scrubbing of a payload and the deletion of an upload keep. -/
theorem JobsService.afterResult_keeps (runStatus : JobRunStatus) (output : Option String)
    (tools : List ConnectionTool)
    (creates : ∀ w w' serverInstanceId tool c, I w →
      Creates env w job.orgId (ConnectionTool.userId tool) serverInstanceId tool.type
        (some tool.payload) c → c.Ends may w w' → I w')
    (update : I w → I (w.updateJob job.id (scrubbedPayload job.payload runStatus)))
    (discard : ∀ w uploads, I w → I { w with uploads := uploads })
    (h : I w) :
    (afterResult env job runStatus output tools).wp (alone env may) (fun _ w' => I w') w := by
  unfold afterResult
  simp only [wp_ite]
  split_ifs
  · unfold discardUpload
    simp only [wp_ite, wp_tryCatch, wp_request, alone_apply, exec, orElse_ok, orElse_error, wp_pure]
    split_ifs
    · exact ⟨discard _ _ h, fun _ _ => h⟩
    · exact h
  · rw [scrubProfile, wp_request, alone_apply]
    refine ⟨?_, fun _ _ => h⟩
    rw [exec]
    split_ifs
    · exact h
    · exact update h
  · exact playerListReceived_keeps output tools creates h
  · exact (wp_pure _ _ _).mpr h

end Reports

/-- An entry that is due. -/
def QueueEntry.due (e : QueueEntry) : QueueEntry := { e with delay := 0 }

/-- `w'` is `w` after some delayed entries were made due. -/
def Promoted (w w' : World) : Prop :=
  ∃ queues, w' = { w with queues := queues } ∧
    ∀ orgId, (queues orgId).map QueueEntry.due = (w.queues orgId).map QueueEntry.due

namespace Promoted

theorem refl (w : World) : Promoted w w := ⟨w.queues, rfl, fun _ => rfl⟩

theorem trans {w₁ w₂ w₃ : World} (h : Promoted w₁ w₂) (h' : Promoted w₂ w₃) : Promoted w₁ w₃ := by
  obtain ⟨q, rfl, hq⟩ := h
  obtain ⟨q', rfl, hq'⟩ := h'
  exact ⟨q', rfl, fun orgId => (hq' orgId).trans (hq orgId)⟩

theorem promote (w : World) (orgId id : Id) : Promoted w (w.promote orgId id) := by
  refine ⟨(w.promote orgId id).queues, rfl, fun org => ?_⟩
  simp only [World.promote, World.setQueue, Function.update_apply]
  split_ifs with horg
  · subst horg
    rw [List.map_map]
    refine List.map_congr_left fun e _ => ?_
    simp only [Function.comp_apply]
    split_ifs <;> rfl
  · rfl

/-- The queues hold the same entries but for their delays. -/
theorem mem_due {w' : World} (h : Promoted w w') {orgId : Id} {e : QueueEntry}
    (he : e ∈ w'.queues orgId) : ∃ e' ∈ w.queues orgId, e'.due = e.due := by
  obtain ⟨q, rfl, hq⟩ := h
  have : e.due ∈ (w.queues orgId).map QueueEntry.due := hq orgId ▸ List.mem_map_of_mem he
  exact List.mem_map.mp this

theorem symm_mem_due {w' : World} (h : Promoted w w') {orgId : Id} {e : QueueEntry}
    (he : e ∈ w.queues orgId) : ∃ e' ∈ w'.queues orgId, e'.due = e.due := by
  obtain ⟨q, rfl, hq⟩ := h
  have : e.due ∈ (q orgId).map QueueEntry.due := (hq orgId).symm ▸ List.mem_map_of_mem he
  exact List.mem_map.mp this

end Promoted

section Polls

open JobsQueueService

/-- A claim takes the entry out of the queue or leaves it there. -/
theorem JobsQueueService.claim_spec (orgId : Id) (job : QueueEntry) :
    (claim orgId job).wp (alone env may)
      (fun r w' => (r = .ok none ∧ Promoted w w') ∨
        (r = .ok (some job.data) ∧ ∃ w₁, Promoted w w₁ ∧ w' = w₁.dequeue orgId job.id)) w := by
  unfold claim
  rw [wp_tryCatch, wp_bind]
  have remove (w₁ : World) (h : Promoted w w₁) : (do
      query (.queueRemove orgId job.id)
      pure (some job.data) : Service (Option QueueJobData)).wp (alone env may)
        (orElse (alone env may) (fun _ => pure none) fun r w' => (r = .ok none ∧ Promoted w w') ∨
          (r = .ok (some job.data) ∧ ∃ w₁, Promoted w w₁ ∧ w' = w₁.dequeue orgId job.id)) w₁ := by
    rw [wp_bind, wp_request, alone_apply]
    refine ⟨?_, fun _ _ => (wp_pure _ _ _).mpr (.inl ⟨rfl, h⟩)⟩
    rw [exec, andThen_ok, wp_pure]
    exact .inr ⟨rfl, w₁, h, rfl⟩
  unfold claim.promote
  rw [wp_ite]
  split_ifs
  · rw [wp_request, alone_apply]
    refine ⟨?_, fun _ _ => (wp_pure _ _ _).mpr (.inl ⟨rfl, .refl w⟩)⟩
    rw [exec, andThen_ok]
    exact remove _ (.promote w orgId job.id)
  · rw [wp_pure, andThen_ok]
    exact remove w (.refl w)

/-- The loop of a poll claims one of the entries listed for the host, or none. -/
theorem JobsQueueService.claimFirst_spec (orgId hostId : Id) (mutationBusy : Bool)
    (waiting : List QueueEntry) :
    (claimFirst orgId hostId mutationBusy waiting).wp (alone env may)
      (fun r w' => (r = .ok none ∧ Promoted w w') ∨
        ∃ e ∈ waiting, r = .ok (some e.data) ∧ e.data.hostId = hostId ∧
          ∃ w₁, Promoted w w₁ ∧ w' = w₁.dequeue orgId e.id) w := by
  induction waiting generalizing w with
  | nil => exact (wp_pure _ _ _).mpr (.inl ⟨rfl, .refl w⟩)
  | cons job waiting ih =>
    -- the entries after this one, in a state in which some entries were made due
    have rest (w₁ : World) (h : Promoted w w₁) :
        (claimFirst orgId hostId mutationBusy waiting).wp (alone env may)
          (fun r w' => (r = .ok none ∧ Promoted w w') ∨
            ∃ e ∈ job :: waiting, r = .ok (some e.data) ∧ e.data.hostId = hostId ∧
              ∃ w₁, Promoted w w₁ ∧ w' = w₁.dequeue orgId e.id) w₁ := by
      refine wp_mono alone_monotone ?_ (ih (w := w₁))
      rintro r w' (⟨hr, hw'⟩ | ⟨e, he, hr, hhost, w₂, hw₂, rfl⟩)
      · exact .inl ⟨hr, h.trans hw'⟩
      · exact .inr ⟨e, List.mem_cons_of_mem _ he, hr, hhost, w₂, h.trans hw₂, rfl⟩
    unfold claimFirst
    rw [wp_ite]
    split_ifs with hmine
    · refine wp_bind_of alone_monotone (claim_spec orgId job) ?_ ?_
      · rintro a w' (⟨hr, hw'⟩ | ⟨hr, w₁, hw₁, rfl⟩)
        · obtain rfl := Except.ok.inj hr
          exact rest w' hw'
        · obtain rfl := Except.ok.inj hr
          rw [wp_pure]
          exact .inr ⟨job, List.mem_cons_self, rfl, hmine.1, w₁, hw₁, rfl⟩
      · rintro e w' (⟨hr, -⟩ | ⟨hr, -⟩)
        · exact nomatch hr
        · exact nomatch hr
    · exact rest w (.refl w)

/-- A poll hands out nothing, or takes one of the host's entries out of its organization's queue
and marks the entry's run. -/
theorem AgentJobsController.poll_spec (hostId : Id) (mutationBusy : Bool)
    {Q : Except Err (Option QueueJobData) → World → Prop} (failed : ∀ e, Q (.error e) w)
    (nothing : ∀ w', Promoted w w' → Q (.ok none) w')
    (claimed : ∀ host w₁ e, w.db.hosts.get hostId = some host → Promoted w w₁ →
      e ∈ w.queues host.orgId → e.data.hostId = hostId →
      (do
        JobsService.markJobRunStarted hostId e.data.jobRunId
        return some e.data : Service (Option QueueJobData)).wp (alone env may) Q
        (w₁.dequeue host.orgId e.id)) :
    (poll hostId mutationBusy).wp (alone env may) Q w := by
  unfold poll
  rw [wp_bind, wp_request, alone_apply]
  refine ⟨?_, fun _ _ => failed _⟩
  rw [exec, andThen_ok]
  cases hhost : w.db.hosts.get hostId with
  | none => exact (wp_pure _ _ _).mpr (nothing w (.refl w))
  | some host =>
    dsimp only
    unfold getNextJobForHost
    rw [wp_bind, wp_bind, wp_request, alone_apply]
    refine ⟨?_, fun _ _ => failed _⟩
    rw [exec, andThen_ok]
    refine wp_mono alone_monotone ?_ (claimFirst_spec host.orgId hostId mutationBusy _)
    rintro r w' (⟨rfl, hw'⟩ | ⟨e, he, rfl, hmine, w₁, hw₁, rfl⟩)
    · exact (wp_pure _ _ _).mpr (nothing w' hw')
    · exact claimed host w₁ e hhost hw₁ (env.getJobs_subset _ he) hmine

end Polls

end Mastermind
