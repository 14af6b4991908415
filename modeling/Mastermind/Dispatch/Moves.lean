import Mathlib.Logic.Relation
import Mastermind.Dispatch.RunRules
import Mastermind.Dispatch.ScheduleRules

/-!
# What an operation does, move by move

`Move env may o w w'` says once what an operation `o` can do to the stores at a time: the changes
that an invariant may have to see together are one move, such as an agent's claim, which takes an
entry out of the queue and starts its run. Whatever an operation does is a sequence of its moves
(`Op.moves`), also when calls fail under `may`; so what every move keeps holds after every
operation, and a proof of an invariant goes through the moves and never through a program.
-/

namespace Mastermind

open Effect Effect.Program

variable {env : Env} {may : Stmt → World → Prop}

/-- The entry `e` is one of the host's in the queue of its organization. -/
structure Claimable (w : World) (hostId : Id) (host : Host) (e : QueueEntry) : Prop where
  paired : w.db.hosts.get hostId = some host
  queued : e ∈ w.queues host.orgId
  mine : e.data.hostId = hostId

/-- The moves of an operation. -/
inductive Move (env : Env) (may : Stmt → World → Prop) : Op → World → World → Prop where
  /-- A request dispatches a job. -/
  | create {orgId userId dto c w w'} (type : dto.type ∈ jobTypes)
      (creates : JobsService.Creates env w orgId userId dto.serverInstanceId dto.type dto.payload c)
      (ends : c.Ends may w w') : Move env may (.createJob orgId userId dto) w w'
  /-- A player list leads to a job against a player. -/
  | enforce {hostId jobRunId dto tools orgId serverInstanceId c w w'} (tool : ConnectionTool)
      (creates : JobsService.Creates env w orgId tool.userId serverInstanceId tool.type
        (some tool.payload) c)
      (ends : c.Ends may w w') : Move env may (.reportResult hostId jobRunId dto tools) w w'
  /-- A moderation rule dispatches a command. -/
  | moderate {orgId serverInstanceId command c w w'}
      (enqueues : LogsService.Enqueues w orgId serverInstanceId command c)
      (ends : c.Ends may w w') :
      Move env may (.enqueueModerationCommand orgId serverInstanceId command) w w'
  /-- A schedule dispatches its job. -/
  | fire {scheduleId c w w'} (fires : SchedulerService.Fires env w scheduleId c)
      (ends : c.Ends may w w') : Move env may (.fire scheduleId) w w'
  /-- The outcome of a fire is booked. -/
  | book {scheduleId w w'} (rescheduled : Rescheduled w w') : Move env may (.fire scheduleId) w w'
  /-- A batch is created, of the server instances found. -/
  | batch {orgId userId dto w}
      (role : (w.db.userOrg userId orgId).any JobsService.isAdminOrOperator = true) :
      Move env may (.createBatch orgId userId dto) w
        (w.insertJobBatch ⟨orgId, dto.type, (w.db.batchServers orgId dto).length, some userId⟩)
  /-- A batch dispatches the job of one of its server instances. -/
  | batchJob {orgId userId dto batchId w w'} (si : ServerInstance)
      (server : w.db.serverInstances.get si.id = some si) (org : si.orgId = orgId)
      (ends : (BatchesService.creation orgId (some userId) dto batchId si).Ends may w w') :
      Move env may (.createBatch orgId userId dto) w w'
  /-- A run of a batch is cancelled, with its entry or without. -/
  | cancelRun {orgId userId batchId w w'} (runId : Id)
      (cancelled : w' = w.updateJobRun runId .cancel ∨
        w' = (w.updateJobRun runId .cancel).dequeue orgId runId) :
      Move env may (.cancelBatch orgId userId batchId) w w'
  /-- A batch is cancelled, after `n` of its runs. -/
  | cancel {orgId userId batchId w} (n : ℕ) :
      Move env may (.cancelBatch orgId userId batchId) w
        (w.updateJobBatch batchId (BatchesService.cancellation n))
  /-- A member creates a schedule. -/
  | schedule {orgId userId body w w'} (nextRunAt : ℕ)
      (member : (w.db.userOrg userId orgId).isSome = true)
      (acceptable : body.Acceptable env w.now)
      (server : (w.db.serverInstances.get body.serverInstanceId).isSome = true)
      (retimed : Retimed (w.insertSchedule (body.data orgId userId nextRunAt)) w') :
      Move env may (.createSchedule orgId userId body) w w'
  /-- A member edits a schedule of the organization. -/
  | edit {orgId userId scheduleId body w w'} (existing : Schedule) (nextRunAt : Option ℕ)
      (member : (w.db.userOrg userId orgId).isSome = true)
      (found : w.db.schedules.get scheduleId = some existing) (org : existing.orgId = orgId)
      (acceptable : body.Acceptable env w.now)
      (retimed : Retimed (w.updateSchedule scheduleId (body.patch nextRunAt)) w') :
      Move env may (.updateSchedule orgId userId scheduleId body) w w'
  /-- Entries are made due. -/
  | promote {hostId mutationBusy w w'} (promoted : Promoted w w') :
      Move env may (.poll hostId mutationBusy) w w'
  /-- An entry is taken out of the queue and its run started. -/
  | claim {hostId mutationBusy w} (host : Host) (e : QueueEntry) (run : JobRun) (j : Job)
      (claimable : Claimable w hostId host e)
      (found : w.db.jobRuns.get e.data.jobRunId = some run)
      (job : w.db.jobs.get run.jobId = some j) (mine : run.hostId = hostId)
      (pending : run.status = .pending) :
      Move env may (.poll hostId mutationBusy) w
        ((w.dequeue host.orgId e.id).updateJobRun e.data.jobRunId .start)
  /-- An entry is taken out of the queue and no run started: the entry's is not a pending run of the
  host, or a call failed. -/
  | drop {hostId mutationBusy w} (host : Host) (e : QueueEntry)
      (claimable : Claimable w hostId host e)
      (kept : ∀ run, w.db.jobRuns.get e.data.jobRunId = some run → run.status = .pending →
        run.hostId = hostId → (w.db.jobs.get run.jobId).isSome = true →
          may (.jobRunFindUnique e.data.jobRunId) (w.dequeue host.orgId e.id) ∨
            may (.jobRunUpdate e.data.jobRunId .start) (w.dequeue host.orgId e.id)) :
      Move env may (.poll hostId mutationBusy) w (w.dequeue host.orgId e.id)
  /-- The start of a run is booked. -/
  | bookStart {hostId mutationBusy w} (b : Id) :
      Move env may (.poll hostId mutationBusy) w (w.updateJobBatch b BatchesService.started)
  /-- A run ends as its host reports. -/
  | finish {hostId jobRunId dto tools w} (run : JobRun)
      (found : w.db.jobRuns.get jobRunId = some run) (mine : run.hostId = hostId)
      (running : run.status = .running) :
      Move env may (.reportResult hostId jobRunId dto tools) w
        (w.updateJobRun jobRunId (.finish dto.runStatus dto.runResult))
  /-- A payload is scrubbed. -/
  | scrub {hostId jobRunId dto tools w} (j : Job) (found : w.db.jobs.get j.id = some j) :
      Move env may (.reportResult hostId jobRunId dto tools) w
        (w.updateJob j.id (JobsService.scrubbedPayload j.payload dto.runStatus))
  /-- The end of a run is booked. -/
  | bookEnd {hostId jobRunId dto tools w} (b : Id) (p : BatchPatch) :
      Move env may (.reportResult hostId jobRunId dto tools) w (w.updateJobBatch b p)
  /-- The progress of a run is stored. -/
  | progress {hostId jobRunId phase message w} (message' : Option String) :
      Move env may (.reportProgress hostId jobRunId phase message) w
        (w.updateJobRun jobRunId (.progress phase message'))
  /-- A running run is released. -/
  | release {w} (runId : Id) (prior : RunResult)
      (running : ((w.db.jobRuns.get runId).any fun r => r.status == .running) = true) :
      Move env may .failStaleRunningJobs w (w.updateJobRun runId (.release prior))
  /-- A host without server instances is removed with its runs. -/
  | removeHost {orgId userId hostId w} (audit : AuditLog)
      (unused : (w.db.serverInstances.rows.any fun s => s.hostId == hostId) = false) :
      Move env may (.removeHost orgId userId hostId) w (w.removeHost hostId audit)
  /-- A server instance is removed with its schedules. -/
  | removeServer {orgId userId id w} :
      Move env may (.removeServerInstance orgId userId id) w (w.removeServerInstance id)
  /-- Logs are written, progress is emitted, uploads are deleted. -/
  | tidy {o w} (logs : List AuditLog) (uploads : List String) (progress : List ProgressEvent) :
      Move env may o w
        { w with db.auditLogs := logs, uploads := uploads, progress := progress }

/-- The stores that an operation can leave on the way. -/
abbrev Moves (env : Env) (may : Stmt → World → Prop) (o : Op) : World → World → Prop :=
  Relation.ReflTransGen (Move env may o)

namespace Moves

variable {o : Op} {w w' : World}

/-- What every move of an operation keeps holds after all of its moves. -/
theorem keep {I : World → Prop} (step : ∀ w w', I w → Move env may o w w' → I w')
    (hm : Moves env may o w w') (h : I w) : I w' := by
  induction hm with
  | refl => exact h
  | tail _ hmove ih => exact step _ _ ih hmove

end Moves

namespace Op

variable {w : World}

/-- Creating a batch goes by its moves. -/
theorem createBatch_moves (orgId userId : Id) (dto : CreateBatchDto)
    (role : (w.db.userOrg userId orgId).any JobsService.isAdminOrOperator = true) :
    (BatchesService.createBatch orgId (some userId) dto).wp (alone env may)
      (fun _ w' => Moves env may (.createBatch orgId userId dto) w w') w := by
  -- the server instances that are still to come are the organization's
  let I (rest : List ServerInstance) (w₁ : World) : Prop :=
    Moves env may (.createBatch orgId userId dto) w w₁ ∧
      ∀ si ∈ rest, w₁.db.serverInstances.get si.id = some si ∧ si.orgId = orgId
  apply BatchesService.createBatch_rule orgId (some userId) dto I
  · exact fun _ => .refl
  · intro _
    refine ⟨.single (.batch role), fun si hsi => ?_⟩
    obtain ⟨hmem, hfound⟩ := List.mem_filter.mp hsi
    simp only [Bool.and_eq_true, beq_iff_eq] at hfound
    exact ⟨Table.get_key hmem, hfound.2⟩
  · rintro si rest w₁ audit ⟨hmoves, hrest⟩ hrefers
    obtain ⟨hserver, horg⟩ := hrest si List.mem_cons_self
    refine ⟨?_, fun s hs => hrest s (List.mem_cons_of_mem _ hs)⟩
    exact (hmoves.tail (.batchJob si hserver horg (.queued hrefers))).tail
      (.tidy _ w₁.uploads w₁.progress)
  · rintro si rest w₁ w₂ e ⟨hmoves, hrest⟩ hends _
    obtain ⟨hserver, horg⟩ := hrest si List.mem_cons_self
    rcases hends with rfl | hends
    · exact hmoves
    · exact hmoves.tail (.batchJob si hserver horg hends)
  · rintro w₁ r logs ⟨hmoves, -⟩
    exact hmoves.tail (.tidy logs w₁.uploads w₁.progress)

/-- Cancelling a batch goes by its moves. -/
theorem cancelBatch_moves (orgId userId batchId : Id) :
    (BatchesService.cancelBatch orgId batchId).wp (alone env may)
      (fun _ w' => Moves env may (.cancelBatch orgId userId batchId) w w') w := by
  let I (_ : List (Job × Option JobRun)) (_ : ℕ) (w₁ : World) : Prop :=
    Moves env may (.cancelBatch orgId userId batchId) w w₁
  apply BatchesService.cancelBatch_rule orgId batchId I
  · exact fun _ => .refl
  · exact fun _ _ _ _ => .refl
  · exact fun _ _ _ _ _ hI _ => hI
  · exact fun _ r _ _ _ _ hI _ _ hcancelled => hI.tail (.cancelRun r.id hcancelled)
  · exact fun _ _ _ _ _ _ hI _ _ => hI
  · exact fun _ _ _ hI _ => hI
  · exact fun n w₁ _ logs progress hI =>
      (hI.tail (.cancel n)).tail (.tidy logs w₁.uploads progress)

/-- A statement that books runs with increments that satisfy `P`. -/
def Books (P : BatchPatch → Prop) : Stmt → Prop
  | .jobFindFirst _ _ => True
  | .jobBatchFindUnique _ => True
  | .jobBatchUpdate _ p => P p
  | .emitProgress _ => True
  | _ => False

/-- A program that books keeps what its bookings and the progress that it emits keep. -/
theorem wp_of_books {P : BatchPatch → Prop} {I : World → Prop} {p : Service Unit}
    (hp : p.wp (usingOnly (Books P)) (fun _ _ => True) ())
    (book : ∀ w b p, P p → I w → I (w.updateJobBatch b p))
    (emit : ∀ w progress, I w → I { w with progress := progress }) (h : I w) :
    p.wp (alone env may) (fun _ w' => I w') w := by
  have hI (s : Stmt) (w₁ : World) (hs : Books P s) (hw₁ : I w₁) : I (exec env s w₁).2 := by
    cases s with
    | jobFindFirst _ _ => exact hw₁
    | jobBatchFindUnique _ => exact hw₁
    | emitProgress _ => exact emit _ _ hw₁
    | jobBatchUpdate b p =>
      cases hx : w₁.db.jobBatches.get b with
      | none =>
        simp only [exec, hx]
        exact hw₁
      | some _ =>
        simp only [exec, hx]
        exact book _ _ _ hs hw₁
    | _ => exact hs.elim
  exact wp_mono alone_monotone (fun _ _ h => h.2) (wp_of_usingOnly hI hp h)

theorem emitProgress_books {P : BatchPatch → Prop} (orgId : Id) (batch : JobBatch)
    (updatedRun : Option (Id × JobRunStatus)) :
    (BatchesService.emitProgress orgId batch updatedRun).wp (usingOnly (Books P))
      (fun _ _ => True) () := by
  rw [BatchesService.emitProgress, wp_request, usingOnly_apply]
  exact ⟨trivial, fun _ => trivial, fun _ => trivial⟩

theorem recordJobRunStarted_books (orgId jobId : Id) :
    (BatchesService.recordJobRunStarted orgId jobId).wp
      (usingOnly (Books fun p => p = BatchesService.started)) (fun _ _ => True) () := by
  unfold BatchesService.recordJobRunStarted
  rw [wp_bind, wp_request, usingOnly_apply]
  refine ⟨trivial, fun _ => trivial, fun found => ?_⟩
  rw [andThen_ok]
  split
  · exact (wp_pure _ _ _).mpr trivial
  · rw [wp_bind, wp_request, usingOnly_apply]
    refine ⟨rfl, fun _ => trivial, fun _ => ?_⟩
    rw [andThen_ok, wp_bind, wp_request, usingOnly_apply]
    refine ⟨trivial, fun _ => trivial, fun updated => ?_⟩
    rw [andThen_ok]
    split
    · exact (wp_pure _ _ _).mpr trivial
    · exact emitProgress_books _ _ _

theorem recordJobRunCompleted_books (orgId jobId : Id) (runStatus priorRunStatus : JobRunStatus) :
    (BatchesService.recordJobRunCompleted orgId jobId runStatus priorRunStatus).wp
      (usingOnly (Books fun _ => True)) (fun _ _ => True) () := by
  unfold BatchesService.recordJobRunCompleted
  rw [wp_bind, wp_request, usingOnly_apply]
  refine ⟨trivial, fun _ => trivial, fun found => ?_⟩
  rw [andThen_ok]
  split
  · exact (wp_pure _ _ _).mpr trivial
  · rw [wp_bind, wp_request, usingOnly_apply]
    refine ⟨trivial, fun _ => trivial, fun updated => ?_⟩
    rw [andThen_ok, wp_ite]
    by_cases hends : updated.pendingCount ≤ 0 ∧ updated.runningCount ≤ 0
    · rw [if_pos hends, wp_bind, wp_request, usingOnly_apply]
      exact ⟨trivial, fun _ => trivial, fun final => emitProgress_books _ _ _⟩
    · rw [if_neg hends]
      exact emitProgress_books _ _ _

/-- A poll goes by its moves. -/
theorem poll_moves (hostId : Id) (mutationBusy : Bool) :
    (AgentJobsController.poll hostId mutationBusy).wp (alone env may)
      (fun _ w' => Moves env may (.poll hostId mutationBusy) w w') w := by
  apply AgentJobsController.poll_spec
  · exact fun _ => .refl
  · exact fun _ hp => .single (.promote hp)
  · intro host w₁ e hhost hp he hmine
    have hfirst : Moves env may (.poll hostId mutationBusy) w w₁ := .single (.promote hp)
    -- the entry may have been made due meanwhile
    obtain ⟨e', he', hdue⟩ := hp.symm_mem_due he
    have hid : e'.id = e.id := by
      show e'.due.id = e.due.id
      rw [hdue]
    have hdata : e'.data = e.data := by
      show e'.due.data = e.due.data
      rw [hdue]
    obtain ⟨q, rfl, -⟩ := hp
    have hclaimable : Claimable { w with queues := q } hostId host e' :=
      ⟨hhost, he', by rw [hdata]; exact hmine⟩
    have hmark : (JobsService.markJobRunStarted hostId e.data.jobRunId).wp (alone env may)
        (fun _ w' => Moves env may (.poll hostId mutationBusy) w w')
        (({ w with queues := q } : World).dequeue host.orgId e.id) := by
      rw [← hid, ← hdata]
      apply JobsService.markJobRunStarted_rule
      · exact fun _ hkept => hfirst.tail (.drop host e' hclaimable hkept)
      · intro run j hrun hj hhost' hpending
        have hclaimed := hfirst.tail (.claim host e' run j hclaimable hrun hj hhost' hpending)
        rw [wp_ite]
        split_ifs
        · refine wp_of_books (recordJobRunStarted_books j.orgId j.id) ?_ ?_ hclaimed
          · rintro w₁ b p rfl hw₁
            exact hw₁.tail (.bookStart b)
          · exact fun w₁ progress hw₁ => hw₁.tail (.tidy w₁.db.auditLogs w₁.uploads progress)
        · exact (wp_pure _ _ _).mpr hclaimed
    refine wp_bind_of alone_monotone hmark ?_ fun _ _ h => h
    exact fun _ _ h => (wp_pure _ _ _).mpr h

/-- A report goes by its moves. -/
theorem reportResult_moves (hostId jobRunId : Id) (dto : ReportResultDto)
    (tools : List ConnectionTool) :
    (JobsService.reportJobResult env hostId jobRunId dto tools).wp (alone env may)
      (fun _ w' => Moves env may (.reportResult hostId jobRunId dto tools) w w') w := by
  apply JobsService.reportJobResult_rule
  · exact fun _ => .refl
  · intro run j hrun hj hmine hrunning
    have hfinished : Moves env may (.reportResult hostId jobRunId dto tools) w
        (w.updateJobRun jobRunId (.finish dto.runStatus dto.runResult)) :=
      .single (.finish run hrun hmine hrunning)
    refine wp_bind_of alone_monotone
      (JobsService.afterResult_keeps dto.runStatus dto.output tools ?_ ?_ ?_ hfinished) ?_
      fun _ _ h => h
    · exact fun w₁ w₂ _ tool c hw₁ hc hends => hw₁.tail (.enforce tool hc hends)
    · exact fun hw₁ => hw₁.tail (.scrub j (Table.get_key (Table.get_eq_some.mp hj).1))
    · exact fun w₁ uploads hw₁ => hw₁.tail (.tidy w₁.db.auditLogs uploads w₁.progress)
    · intro _ w₁ hw₁
      rw [wp_ite]
      split_ifs
      · refine wp_of_books (recordJobRunCompleted_books j.orgId j.id dto.runStatus .running)
          ?_ ?_ hw₁
        · exact fun w₂ b p _ hw₂ => hw₂.tail (.bookEnd b p)
        · exact fun w₂ progress hw₂ => hw₂.tail (.tidy w₂.db.auditLogs w₂.uploads progress)
      · exact (wp_pure _ _ _).mpr hw₁

/-- The sweep goes by its moves. -/
theorem failStaleRunningJobs_moves :
    JobsService.failStaleRunningJobs.wp (alone env may)
      (fun _ w' => Moves env may .failStaleRunningJobs w w') w := by
  let I (_ : List JobRun) (w₁ : World) : Prop := Moves env may .failStaleRunningJobs w w₁
  apply JobsService.failStaleRunningJobs_rule I
  · exact fun _ => .refl
  · exact .refl
  · exact fun _ _ _ hI _ => hI
  · exact fun run _ _ hI _ hrunning => hI.tail (.release run.id _ hrunning)
  · exact fun _ _ _ hI => hI
  · exact fun _ hI => hI

/-- Every operation goes by its moves. -/
theorem moves (o : Op) (w : World) :
    (o.prog env).wp (alone env may) (fun _ w' => Moves env may o w w') w := by
  cases o with
  | createJob orgId userId dto =>
    apply wp_handsOutNothing
    refine wp_mono alone_monotone ?_ (JobsController.create_spec orgId userId dto)
    rintro _ w' (rfl | ⟨c, htype, hc, hends⟩)
    · exact .refl
    · exact .single (.create htype hc hends)
  | createBatch orgId userId dto =>
    apply wp_handsOutNothing
    refine wp_orgRoleGuard userId orgId _ (fun _ => .refl) fun hrole => ?_
    rw [wp_ite]
    split_ifs
    · exact (wp_throw _ _ _).mpr .refl
    · refine wp_bind_of alone_monotone (createBatch_moves orgId userId dto hrole) ?_ fun _ _ h => h
      exact fun _ _ h => (wp_pure _ _ _).mpr h
  | cancelBatch orgId userId batchId =>
    apply wp_handsOutNothing
    refine wp_orgRoleGuard userId orgId _ (fun _ => .refl) fun _ => ?_
    refine wp_bind_of alone_monotone (cancelBatch_moves orgId userId batchId) ?_ fun _ _ h => h
    exact fun _ _ h => (wp_pure _ _ _).mpr h
  | createSchedule orgId userId body =>
    apply wp_handsOutNothing
    refine wp_mono alone_monotone ?_ (SchedulerController.create_spec orgId userId body)
    rintro _ w' (rfl | ⟨nextRunAt, hmember, hbody, hserver, hretimed⟩)
    · exact .refl
    · exact .single (.schedule nextRunAt hmember hbody hserver hretimed)
  | updateSchedule orgId userId scheduleId body =>
    apply wp_handsOutNothing
    refine wp_mono alone_monotone ?_ (SchedulerController.update_spec orgId userId scheduleId body)
    rintro _ w' (rfl | ⟨existing, nextRunAt, hmember, hfound, horg, hbody, hretimed⟩)
    · exact .refl
    · exact .single (.edit existing nextRunAt hmember hfound horg hbody hretimed)
  | fire scheduleId =>
    apply wp_handsOutNothing
    refine wp_mono alone_monotone ?_ (SchedulerService.fire_spec scheduleId)
    rintro _ w' ⟨w₁, hrescheduled, rfl | ⟨c, hfires, hends⟩⟩
    · exact .single (.book hrescheduled)
    · exact .tail (.single (.fire hfires hends)) (.book hrescheduled)
  | poll hostId mutationBusy => exact poll_moves hostId mutationBusy
  | reportResult hostId jobRunId dto tools =>
    apply wp_handsOutNothing
    unfold AgentJobsController.reportResult
    rw [wp_ite]
    split_ifs
    · exact reportResult_moves hostId jobRunId dto tools
    · exact (wp_throw _ _ _).mpr .refl
  | reportProgress hostId jobRunId phase message =>
    apply wp_handsOutNothing
    refine JobsService.reportJobProgress_rule hostId jobRunId phase message (fun _ => .refl) ?_
    exact fun run _ _ _ message => .single (.progress message)
  | failStaleRunningJobs =>
    apply wp_handsOutNothing
    exact failStaleRunningJobs_moves
  | enqueueModerationCommand orgId serverInstanceId command =>
    apply wp_handsOutNothing
    refine wp_mono alone_monotone ?_
      (LogsService.enqueueModerationCommand_spec orgId serverInstanceId command)
    rintro _ w' (rfl | ⟨c, hc, hends⟩)
    · exact .refl
    · exact .single (.moderate hc hends)
  | removeHost orgId userId hostId =>
    refine wp_orgRoleGuard userId orgId _ (fun _ => .refl) fun _ => ?_
    apply wp_handsOutNothing
    refine HostsService.remove_rule orgId userId hostId (fun _ => .refl) fun _ hunused audit => ?_
    exact .single (.removeHost audit hunused)
  | removeServerInstance orgId userId id =>
    refine wp_orgRoleGuard userId orgId _ (fun _ => .refl) fun _ => ?_
    apply wp_handsOutNothing
    refine ServerInstancesService.remove_rule orgId userId id (fun _ => .refl) fun _ logs => ?_
    exact .tail (.single .removeServer) (.tidy logs w.uploads w.progress)

end Op

/-- What the moves of the operations in a run keep, and what happens elsewhere keeps, holds in every
state reached. A call may fail as `may` says. -/
theorem runs_of_moves (may : Stmt → World → Prop) {cond : Op → List Bool → World → Prop} {I : World → Prop}
    (init : I World.initial)
    (failures : ∀ o plan w, cond o plan w →
      ∀ f ∈ (o.prog env).faults (machine env) plan w, may f.1 f.2)
    (step : ∀ o plan w w₁ w₂, I w → cond o plan w → Moves env may o w w₁ → I w₁ →
      Move env may o w₁ w₂ → I w₂)
    (elsewhere : ∀ w w', I w → Elsewhere w w' → I w')
    {h : List (Turn Op Err (Option QueueJobData) World)} {w : World}
    (hr : Runs (controlPlane env) cond World.initial h w) : I w := by
  refine Runs.invariant (J := fun _ w => I w) init ?_ (fun _ w w' hw he => elsewhere w w' hw he) hr
  intro _ w op plan hw hcond
  have hmoves : Moves env may op w ((controlPlane env).turn op plan w).after :=
    Program.run_of_wp (op.moves w) (failures op plan w hcond)
  generalize ((controlPlane env).turn op plan w).after = w' at hmoves ⊢
  induction hmoves with
  | refl => exact hw
  | tail hbefore hmove ih => exact step op plan w _ _ hw hcond hbefore ih hmove

end Mastermind
