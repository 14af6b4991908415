import Mastermind.Dispatch.Delivery
import Mastermind.Effect.Uses

/-!
# The hand-out of jobs when polls and cancellations interleave

A poll lists the queue, removes an entry, looks the entry's run up, starts it if it is pending, and
returns the entry's job in any case. The removal resolves also when another poll or a cancellation
has taken the entry. `handed_out_of_reaches` is about every interleaving of polls and cancellations,
call by call, in which a poll's removal resolves only for a pending run that no other poll is about
to start, and no cancellation writes a run that a poll is about to start (`Undisputed`): every poll
that returns a job has started its run itself, and a run that was started or cancelled is not
started again. A cancellation that writes the run between that start and the return of the poll is
not excluded: it changes nothing of this, but then the run that the poll returns is a cancelled one.

The monitor `hand` follows a poll from its listing to the start of the run. `Stocked` is what the
entries are like that the creating paths put into the queue (`supplied_of_ends`).
-/

namespace Mastermind

open Effect Effect.Program

/-- A poll, or a cancellation. -/
inductive ClaimOp where
  | poll (hostId : Id) (mutationBusy : Bool)
  | cancelBatch (orgId userId batchId : Id)

/-- The program of an operation. -/
def ClaimOp.prog (env : Env) : ClaimOp → Service (Option QueueJobData)
  | poll hostId mutationBusy => Op.prog env (.poll hostId mutationBusy)
  | cancelBatch orgId userId batchId => Op.prog env (.cancelBatch orgId userId batchId)

/-- The entry has the id of its run, which is a run of the entry's host and of a job. -/
def QueueEntry.Stocked (e : QueueEntry) (w : World) : Prop :=
  e.id = e.data.jobRunId ∧ ∃ run, w.db.jobRuns.get e.id = some run ∧
    run.hostId = e.data.hostId ∧ (w.db.jobs.get run.jobId).isSome = true

/-- What everything else does: it creates jobs, runs and entries, and changes the runs that are not
pending. -/
structure Supplied (w w' : World) : Prop where
  jobs : ∀ i, (w.db.jobs.get i).isSome = true → (w'.db.jobs.get i).isSome = true
  runs : ∀ i run, w.db.jobRuns.get i = some run → ∃ run', w'.db.jobRuns.get i = some run' ∧
    run'.hostId = run.hostId ∧ run'.jobId = run.jobId ∧
      (run'.status = .pending ↔ run.status = .pending)
  entries : ∀ orgId, ∀ e' ∈ w'.queues orgId,
    (∃ e ∈ w.queues orgId, e'.id = e.id ∧ e'.data = e.data) ∨ e'.Stocked w'

/-- The polls and cancellations, and everything else around them. -/
def claiming (env : Env) : System ClaimOp Stmt.Resp Err (Option QueueJobData) World :=
  ⟨machine env, ClaimOp.prog env, Supplied⟩

/-- A call of one of the operations. -/
abbrev ClaimEvent := Event Stmt.Resp Err World

namespace ClaimEvent

/-- The call starts the run. -/
def Starts (e : ClaimEvent) (r : Id) : Prop :=
  e.stmt = .jobRunUpdate r .start ∧ e.answer.isOk = true

/-- The call starts or cancels the run. -/
def Writes (e : ClaimEvent) (r : Id) : Prop :=
  ∃ p, e.stmt = .jobRunUpdate r p ∧ e.answer.isOk = true

end ClaimEvent

/-! ## What one operation does -/

/-- How far a poll is with a run: none, one whose entry it has removed, one that it has found
pending, or one that it has started. -/
inductive Stage where
  | idle
  | holding (r : Id)
  | checked (r : Id)
  | started (r : Id)

/-- Where an operation is: whether it is a poll that has listed the queue, what was listed, and how
far it is with a run. -/
structure HandPhase where
  listed : List QueueEntry
  polling : Bool
  stage : Stage

/-- The poll has removed the run's entry and is about to start the run. -/
def HandPhase.Holds (q : HandPhase) (r : Id) : Prop :=
  q.stage = .holding r ∨ q.stage = .checked r

/-- A poll removes an entry that was listed, looks its run up and starts it; a cancellation cancels
runs. -/
def hand : Monitor Stmt.Resp Err HandPhase where
  start := ⟨[], false, .idle⟩
  allowed q s := match s with
    | .queueRemove _ r => q.polling = true → q.stage = .idle ∧ ∃ e ∈ q.listed, e.id = r
    | .jobRunFindUnique r => q.stage = .holding r
    | .jobRunUpdate r p => p = .start ∧ q.stage = .checked r ∨ p = .cancel ∧ q.stage = .idle
    | .queueGetJobs _ => q.stage = .idle
    | .emitProgress _ => True
    | .userOrgFindUnique _ _ => True
    | .hostFindUnique _ => True
    | .jobFindFirst _ _ => True
    | .jobBatchFindUnique _ => True
    | .jobBatchFindFirst _ _ => True
    | .jobBatchUpdate _ _ => True
    | .auditLogCreate _ => True
    | .queueGetJob _ _ => True
    | .queueChangeDelay _ _ => True
    | _ => False
  possible q s r := match s, r with
    | .queueGetJobs _, .ok l => ∀ e ∈ l, e.id = e.data.jobRunId
    | .jobRunFindUnique i, .ok found => ∃ run job, found = some (run, job) ∧
      run.status = .pending ∧ ∀ e ∈ q.listed, e.id = i → run.hostId = e.data.hostId
    | _, _ => True
  next q s r := match s, r with
    | .queueGetJobs _, .ok l => { q with listed := l, polling := true }
    | .queueRemove _ r, .ok _ => if q.polling then { q with stage := .holding r } else q
    | .jobRunFindUnique r, .ok _ => { q with stage := .checked r }
    | .jobRunFindUnique _, .error _ => { q with stage := .idle }
    | .jobRunUpdate r .start, .ok _ => { q with stage := .started r }
    | .jobRunUpdate _ _, .error _ => { q with stage := .idle }
    | _, _ => q

/-- A statement that neither takes entries nor looks runs up nor writes them. -/
def Stmt.Quiet : Stmt → Prop
  | .emitProgress _ => True
  | .userOrgFindUnique _ _ => True
  | .hostFindUnique _ => True
  | .jobFindFirst _ _ => True
  | .jobBatchFindUnique _ => True
  | .jobBatchFindFirst _ _ => True
  | .jobBatchUpdate _ _ => True
  | .auditLogCreate _ => True
  | .queueGetJob _ _ => True
  | .queueChangeDelay _ _ => True
  | _ => False

/-- Quiet statements are allowed anywhere and lead nowhere. -/
theorem hand_of_quiet (q : HandPhase) {s : Stmt} (hs : s.Quiet) :
    hand.allowed q s ∧ ∀ r, hand.next q s r = q := by
  cases s with
  | emitProgress _ => exact ⟨trivial, fun r => rfl⟩
  | userOrgFindUnique _ _ => exact ⟨trivial, fun r => rfl⟩
  | hostFindUnique _ => exact ⟨trivial, fun r => rfl⟩
  | jobFindFirst _ _ => exact ⟨trivial, fun r => rfl⟩
  | jobBatchFindUnique _ => exact ⟨trivial, fun r => rfl⟩
  | jobBatchFindFirst _ _ => exact ⟨trivial, fun r => rfl⟩
  | jobBatchUpdate _ _ => exact ⟨trivial, fun r => rfl⟩
  | auditLogCreate _ => exact ⟨trivial, fun r => rfl⟩
  | queueGetJob _ _ => exact ⟨trivial, fun r => rfl⟩
  | queueChangeDelay _ _ => exact ⟨trivial, fun r => rfl⟩
  | _ => exact hs.elim

section Programs

variable {env : Env} {α β : Type}

/-- A quiet program before another one. -/
theorem hand_bind {p : Service α} {f : α → Service β} {Q : Except Err β → HandPhase → Prop}
    {q : HandPhase} (hp : Uses Stmt.Quiet p) (hf : ∀ a, (f a).wp hand.requires Q q)
    (he : ∀ e, Q (.error e) q) : (p >>= f).wp hand.requires Q q :=
  hand.bind_of_uses hp (fun _ => hand_of_quiet q) hf he

theorem emitProgress_quiet (orgId : Id) (batch : JobBatch)
    (updatedRun : Option (Id × JobRunStatus)) :
    Uses Stmt.Quiet (BatchesService.emitProgress orgId batch updatedRun) := .request trivial

theorem recordJobRunStarted_quiet (orgId jobId : Id) :
    Uses Stmt.Quiet (BatchesService.recordJobRunStarted orgId jobId) := by
  unfold BatchesService.recordJobRunStarted
  refine .bind (.request trivial) fun found => ?_
  split
  · exact .pure _
  · refine .bind (.request trivial) fun _ => .bind (.request trivial) fun updated => ?_
    split
    · exact .pure _
    · exact emitProgress_quiet _ _ _

/-- A claim removes the entry, or the poll goes on. -/
theorem claim_hands (orgId : Id) {job : QueueEntry} {l : List QueueEntry} (hjob : job ∈ l) :
    (JobsQueueService.claim orgId job).wp hand.requires (fun r q' =>
      (r = .ok none ∧ q' = ⟨l, true, .idle⟩) ∨
        r = .ok (some job.data) ∧ q' = ⟨l, true, .holding job.id⟩) ⟨l, true, .idle⟩ := by
  unfold JobsQueueService.claim
  rw [wp_tryCatch]
  have hpromote : Uses Stmt.Quiet (JobsQueueService.claim.promote orgId job) :=
    .ite (.request trivial) (.pure _)
  refine hand_bind hpromote (fun _ => ?_) fun e => (wp_pure _ _ _).mpr (.inl ⟨rfl, rfl⟩)
  refine hand.bind_request (fun _ => ⟨rfl, job, hjob, rfl⟩) (fun _ _ => ?_) fun e => ?_
  · exact (wp_pure _ _ _).mpr (.inr ⟨rfl, rfl⟩)
  · exact (wp_pure _ _ _).mpr (.inl ⟨rfl, rfl⟩)

/-- The loop of a poll ends with the data of an entry that was listed for the host and removed, or
with nothing. -/
theorem claimFirst_hands (orgId hostId : Id) (mutationBusy : Bool) {l : List QueueEntry}
    (waiting : List QueueEntry) (hsub : waiting ⊆ l) :
    (JobsQueueService.claimFirst orgId hostId mutationBusy waiting).wp hand.requires (fun r q' =>
      ∀ data, r = .ok (some data) → ∃ e ∈ l, e.data = data ∧ e.data.hostId = hostId ∧
        q' = ⟨l, true, .holding e.id⟩) ⟨l, true, .idle⟩ := by
  induction waiting with
  | nil => exact (wp_pure _ _ _).mpr fun data hdata => by cases hdata
  | cons job waiting ih =>
    have hrest := ih fun e he => hsub (List.mem_cons_of_mem _ he)
    have hjob : job ∈ l := hsub List.mem_cons_self
    unfold JobsQueueService.claimFirst
    rw [wp_ite]
    by_cases hmine : job.data.hostId = hostId ∧
        ¬(mutationBusy = true ∧ JobsQueueService.isReadOnly job.data.type = false)
    · rw [if_pos hmine]
      refine wp_bind_of hand.requires_monotone (claim_hands orgId hjob) ?_ ?_
      · rintro claimed q (⟨hr, rfl⟩ | ⟨hr, rfl⟩)
        · obtain rfl := Except.ok.inj hr
          exact hrest
        · obtain rfl := Except.ok.inj hr
          refine (wp_pure _ _ _).mpr fun data hdata => ?_
          obtain rfl := Option.some.inj (Except.ok.inj hdata)
          exact ⟨job, hjob, rfl, hmine.1, rfl⟩
      · rintro e q (⟨hr, -⟩ | ⟨hr, -⟩) <;> cases hr
    · rw [if_neg hmine]
      exact hrest

/-- A poll starts the run whose entry it has removed. -/
theorem markJobRunStarted_hands {e : QueueEntry} {l : List QueueEntry} (he : e ∈ l) :
    (JobsService.markJobRunStarted e.data.hostId e.id).wp hand.requires (fun r q' =>
      ∀ u, r = .ok u → q'.stage = .started e.id) ⟨l, true, .holding e.id⟩ := by
  unfold JobsService.markJobRunStarted
  refine hand.bind_request rfl (fun found hfound => ?_) fun _ u hu => by cases hu
  obtain ⟨run, job, rfl, hpending, hhost⟩ := hfound
  dsimp only
  rw [wp_ite, if_neg]
  swap
  · rw [hpending, hhost e he rfl]
    simp
  refine hand.bind_request (.inl ⟨rfl, rfl⟩) (fun _ _ => ?_) fun _ u hu => by cases hu
  have hquiet : Uses Stmt.Quiet (if job.batchId.isSome = true then
      BatchesService.recordJobRunStarted job.orgId job.id else pure ()) :=
    .ite (recordJobRunStarted_quiet _ _) (.pure _)
  refine wp_mono hand.requires_monotone ?_ (hand.wp_of_uses hquiet fun _ => hand_of_quiet _)
  rintro r q' rfl u _
  rfl

/-- A poll that returns a job has started its run. -/
theorem poll_hands (hostId : Id) (mutationBusy : Bool) :
    (AgentJobsController.poll hostId mutationBusy).wp hand.requires (fun r q' =>
      ∀ data, r = .ok (some data) → q'.stage = .started data.jobRunId) hand.start := by
  unfold AgentJobsController.poll
  refine hand_bind (.request trivial) (fun host => ?_) fun _ data hdata => by cases hdata
  cases host with
  | none => exact (wp_pure _ _ _).mpr fun data hdata => by cases hdata
  | some host =>
    dsimp only
    unfold JobsQueueService.getNextJobForHost
    rw [wp_bind]
    refine hand.bind_request rfl (fun l hl => ?_) fun _ data hdata => by cases hdata
    refine wp_mono hand.requires_monotone ?_
      (claimFirst_hands host.orgId hostId mutationBusy l fun e he => he)
    intro r q hclaimed
    rcases r with e | - | data
    · exact fun data hdata => by cases hdata
    · exact (wp_pure _ _ _).mpr fun data hdata => by cases hdata
    · obtain ⟨e, he, rfl, rfl, rfl⟩ := hclaimed data rfl
      show (JobsService.markJobRunStarted e.data.hostId e.data.jobRunId >>= _).wp _ _ _
      rw [← hl e he, wp_bind]
      refine wp_mono hand.requires_monotone ?_ (markJobRunStarted_hands he)
      intro r q' hstarted
      cases r with
      | error _ => exact fun data hdata => by cases hdata
      | ok u =>
        refine (wp_pure _ _ _).mpr fun data hdata => ?_
        obtain rfl := Option.some.inj (Except.ok.inj hdata)
        rw [← hl e he]
        exact hstarted u rfl

theorem orgRoleGuard_quiet (userId orgId : Id) :
    Uses Stmt.Quiet (orgRoleGuard userId orgId) := by
  unfold orgRoleGuard orgMemberGuard
  refine .bind (.bind (.request trivial) fun role => ?_) fun role => .ite (.pure _) (.throw _)
  split
  · exact .throw _
  · exact .pure _

theorem audit_quiet (orgId : Id) (actorId : Option Id) (action : String) (resourceId : Id)
    (details : JsonObject) :
    Uses Stmt.Quiet (BatchesService.audit orgId actorId action resourceId details) :=
  .request trivial

/-- A removal of a cancellation is none of a poll. -/
theorem removeEntry_hands (orgId runId : Id) :
    (tryCatch (BatchesService.cancelJob.removeEntry orgId runId) fun _ => pure () :
      Service Unit).wp hand.requires (fun _ q' => q' = hand.start) hand.start := by
  have hthen : ∀ r q', q' = hand.start → orElse hand.requires (fun _ => (pure () : Service Unit))
      (fun _ q' => q' = hand.start) r q' := by
    rintro r q' rfl
    cases r with
    | ok _ => exact rfl
    | error _ => exact (wp_pure _ _ _).mpr rfl
  rw [wp_tryCatch]
  unfold BatchesService.cancelJob.removeEntry
  refine hand_bind (.request trivial) (fun entry => ?_) fun e => hthen _ _ rfl
  split
  · exact (wp_pure _ _ _).mpr (hthen _ _ rfl)
  · rw [wp_request]
    refine ⟨fun h => (nomatch h), fun r _ => ?_⟩
    cases r <;> exact hthen _ _ rfl

/-- A cancellation cancels runs and is never about to start one. -/
theorem cancelBatch_hands (orgId userId batchId : Id) :
    (BatchesController.cancel orgId userId batchId).wp hand.requires (fun _ _ => True)
      hand.start := by
  unfold BatchesController.cancel
  refine hand_bind (orgRoleGuard_quiet _ _) (fun _ => ?_) fun _ => trivial
  rw [wp_bind]
  suffices h : (BatchesService.cancelBatch orgId batchId).wp hand.requires (fun _ _ => True)
      hand.start by
    refine wp_mono hand.requires_monotone ?_ h
    intro r q _
    cases r with
    | ok _ => exact (wp_pure _ _ _).mpr trivial
    | error _ => exact trivial
  unfold BatchesService.cancelBatch
  refine hand_bind (.request trivial) (fun found => ?_) fun _ => trivial
  rcases found with - | ⟨batch, jobs⟩
  · exact (wp_throw _ _ _).mpr trivial
  dsimp only
  rw [wp_ite]
  split_ifs
  · exact (wp_throw _ _ _).mpr trivial
  rw [wp_bind]
  refine wp_foldlM hand.requires_monotone (fun _ _ q => q = hand.start) ?_ ?_ jobs 0 _ rfl
  · rintro ⟨job, run⟩ rest n q rfl
    cases run with
    | none => exact (wp_pure _ _ _).mpr rfl
    | some run =>
      unfold BatchesService.cancelJob
      dsimp only
      rw [wp_ite]
      split_ifs
      · exact (wp_pure _ _ _).mpr rfl
      refine hand.bind_request (.inr ⟨rfl, rfl⟩) (fun _ _ => ?_) fun _ => trivial
      rw [wp_bind]
      refine wp_mono hand.requires_monotone ?_ (removeEntry_hands orgId run.id)
      rintro r q rfl
      cases r with
      | ok _ => exact (wp_pure _ _ _).mpr rfl
      | error _ => exact trivial
  · rintro n q rfl
    rw [andThen_ok]
    refine hand_bind (.request trivial) (fun updated => ?_) fun _ => trivial
    refine hand_bind (audit_quiet _ _ _ _ _) (fun _ => ?_) fun _ => trivial
    refine hand_bind (emitProgress_quiet _ _ _) (fun _ => ?_) fun _ => trivial
    exact (wp_pure _ _ _).mpr trivial

end Programs

/-! ## What one call does -/

section Calls

variable {env : Env}

/-- What a call can do to the runs, the jobs and the queues. -/
inductive ClaimChange (s : Stmt) (w : World) : Except Err s.Resp → World → Prop where
  | kept {r w'} (runs : w'.db.jobRuns = w.db.jobRuns) (jobs : w'.db.jobs = w.db.jobs)
      (entries : ∀ orgId, ∀ e' ∈ w'.queues orgId,
        ∃ e ∈ w.queues orgId, e'.id = e.id ∧ e'.data = e.data)
      (unwritten : ∀ i p, s = .jobRunUpdate i p → r.isOk = false) : ClaimChange s w r w'
  | written {r} (i : Id) (p : RunPatch) (run : JobRun) (found : w.db.jobRuns.get i = some run)
      (stmt : s = .jobRunUpdate i p) (ok : r.isOk = true) :
      ClaimChange s w r (w.updateJobRun i p)

/-- Every call that the monitor allows changes the stores in one of these ways. -/
theorem ClaimChange.of_outcome {q : HandPhase} {s : Stmt} {w w' : World} {r : Except Err s.Resp}
    (hallowed : hand.allowed q s) (hout : (machine env).Outcome s w r w') :
    ClaimChange s w r w' := by
  have hsame : ∀ orgId, ∀ e ∈ w.queues orgId, ∃ e' ∈ w.queues orgId, e.id = e'.id ∧
      e.data = e'.data := fun _ e he => ⟨e, he, rfl, rfl⟩
  rcases hout with ⟨rfl, rfl⟩ | ⟨-, rfl, rfl⟩
  swap
  · exact .kept rfl rfl hsame fun _ _ _ => rfl
  cases s with
  | jobRunUpdate i p =>
    cases hfound : w.db.jobRuns.get i with
    | none =>
      have hexec : exec env (.jobRunUpdate i p) w = (.error .recordNotFound, w) := by
        rw [exec, hfound]
        rfl
      show ClaimChange _ w (exec env (.jobRunUpdate i p) w).1 (exec env (.jobRunUpdate i p) w).2
      rw [hexec]
      exact .kept rfl rfl hsame fun _ _ _ => rfl
    | some run =>
      have hexec : exec env (.jobRunUpdate i p) w = (.ok (), w.updateJobRun i p) := by
        rw [exec, hfound]
        rfl
      show ClaimChange _ w (exec env (.jobRunUpdate i p) w).1 (exec env (.jobRunUpdate i p) w).2
      rw [hexec]
      exact .written i p run hfound rfl rfl
  | queueRemove orgId i =>
    exact .kept rfl rfl (fun _ e he => ⟨e, (World.mem_dequeue.mp he).1, rfl, rfl⟩)
      fun _ _ h => by cases h
  | queueChangeDelay orgId i =>
    refine .kept rfl rfl (fun org e he => ?_) fun _ _ h => by cases h
    obtain ⟨e', he', hdue⟩ := (Promoted.promote w orgId i).mem_due he
    have hid : e'.due.id = e.due.id := congrArg QueueEntry.id hdue
    have hdata : e'.due.data = e.due.data := congrArg QueueEntry.data hdue
    exact ⟨e', he', hid.symm, hdata.symm⟩
  | jobBatchUpdate b p =>
    have hexec : (exec env (.jobBatchUpdate b p) w).2.db.jobRuns = w.db.jobRuns ∧
        (exec env (.jobBatchUpdate b p) w).2.db.jobs = w.db.jobs ∧
          (exec env (.jobBatchUpdate b p) w).2.queues = w.queues := by
      rw [exec]
      split <;> exact ⟨rfl, rfl, rfl⟩
    obtain ⟨hruns, hjobs, hqueues⟩ := hexec
    refine .kept hruns hjobs (fun org e he => ?_) fun _ _ h => by cases h
    have he : e ∈ (exec env (.jobBatchUpdate b p) w).2.queues org := he
    rw [hqueues] at he
    exact hsame org e he
  | emitProgress _ => exact .kept rfl rfl hsame fun _ _ h => by cases h
  | userOrgFindUnique _ _ => exact .kept rfl rfl hsame fun _ _ h => by cases h
  | hostFindUnique _ => exact .kept rfl rfl hsame fun _ _ h => by cases h
  | jobFindFirst _ _ => exact .kept rfl rfl hsame fun _ _ h => by cases h
  | jobRunFindUnique _ => exact .kept rfl rfl hsame fun _ _ h => by cases h
  | jobBatchFindUnique _ => exact .kept rfl rfl hsame fun _ _ h => by cases h
  | jobBatchFindFirst _ _ => exact .kept rfl rfl hsame fun _ _ h => by cases h
  | auditLogCreate _ => exact .kept rfl rfl hsame fun _ _ h => by cases h
  | queueGetJobs _ => exact .kept rfl rfl hsame fun _ _ h => by cases h
  | queueGetJob _ _ => exact .kept rfl rfl hsame fun _ _ h => by cases h
  | _ => exact hallowed.elim

/-- The runs keep their hosts and jobs. -/
theorem ClaimChange.runs_kept {s : Stmt} {w w' : World} {r : Except Err s.Resp}
    (h : ClaimChange s w r w') {i : Id} {run : JobRun} (hrun : w.db.jobRuns.get i = some run) :
    ∃ run', w'.db.jobRuns.get i = some run' ∧ run'.hostId = run.hostId ∧ run'.jobId = run.jobId ∧
      ((∀ p, s = .jobRunUpdate i p → r.isOk = false) → run'.status = run.status) := by
  cases h with
  | kept runs _ _ _ => exact ⟨run, runs ▸ hrun, rfl, rfl, fun _ => rfl⟩
  | written j p run₀ found stmt ok =>
    have hget : (w.updateJobRun j p).db.jobRuns.get i = _ := Table.get_update (p.key_apply w.now)
    by_cases hij : i = j
    · subst hij
      rw [if_pos rfl, hrun] at hget
      refine ⟨p.apply w.now run, hget, ?_, ?_, fun hnone => ?_⟩
      · cases p <;> rfl
      · cases p <;> rfl
      · have hfalse := hnone p stmt
        rw [ok] at hfalse
        cases hfalse
    · rw [if_neg hij, hrun] at hget
      exact ⟨run, hget, rfl, rfl, fun _ => rfl⟩

/-- The entries are ones from before. -/
theorem ClaimChange.entries_kept {s : Stmt} {w w' : World} {r : Except Err s.Resp}
    (h : ClaimChange s w r w') {orgId : Id} {e' : QueueEntry} (he' : e' ∈ w'.queues orgId) :
    ∃ e ∈ w.queues orgId, e'.id = e.id ∧ e'.data = e.data := by
  cases h with
  | kept _ _ entries _ => exact entries orgId e' he'
  | written j p run found stmt ok => exact ⟨e', he', rfl, rfl⟩

/-- An entry stays what it is. -/
theorem ClaimChange.stocked {s : Stmt} {w w' : World} {r : Except Err s.Resp}
    (h : ClaimChange s w r w') {e : QueueEntry} (he : e.Stocked w) : e.Stocked w' := by
  obtain ⟨hid, run, hrun, hhost, hjob⟩ := he
  obtain ⟨run', hrun', hhost', hjob', -⟩ := h.runs_kept hrun
  have hjobs : w'.db.jobs = w.db.jobs := by cases h <;> first | assumption | rfl
  exact ⟨hid, run', hrun', hhost'.trans hhost, by rw [hjob', hjobs]; exact hjob⟩

end Calls

/-! ## The invariant -/

/-- A poll's removal resolves only for a pending run that no poll is about to start, and a
cancellation writes no run that a poll is about to start. -/
structure Undisputed (trace : List ClaimEvent) (e : ClaimEvent) : Prop where
  remove : ∀ orgId r, e.stmt = .queueRemove orgId r → e.answer.isOk = true →
    (hand.phase trace e.thread).polling = true →
      (∃ run, e.before.db.jobRuns.get r = some run ∧ run.status = .pending) ∧
        ∀ i, ¬(hand.phase trace i).Holds r
  cancel : ∀ r, e.stmt = .jobRunUpdate r .cancel → ∀ i, ¬(hand.phase trace i).Holds r

/-- The statement neither takes an entry nor cancels a run. -/
def Stmt.Plain : Stmt → Prop
  | .queueRemove _ _ => False
  | .jobRunUpdate _ .cancel => False
  | _ => True

/-- Only removals and cancellations are disputed. -/
theorem Undisputed.of_plain {trace : List ClaimEvent} {e : ClaimEvent} (h : e.stmt.Plain) :
    Undisputed trace e := by
  refine ⟨fun orgId r hs _ _ => ?_, fun r hs => ?_⟩
  · rw [hs] at h
    exact h.elim
  · rw [hs] at h
    exact h.elim

/-- Runs are started from pending, and a run that was started or cancelled is not started again. -/
structure HandedOnce (trace : List ClaimEvent) : Prop where
  starts : ∀ e ∈ trace, ∀ r, ClaimEvent.Starts e r →
    (∃ run, e.before.db.jobRuns.get r = some run ∧ run.status = .pending) ∧
      ∃ run, e.after.db.jobRuns.get r = some run ∧ run.status = .running
  first : ∀ later x earlier, trace = later ++ x :: earlier → ∀ r, ClaimEvent.Writes x r →
    ∀ e ∈ later, ¬ClaimEvent.Starts e r

/-- What is kept while polls and cancellations interleave. -/
structure Handing (trace : List ClaimEvent) (w : World) : Prop where
  entries : ∀ orgId, ∀ e ∈ w.queues orgId, e.Stocked w
  listed : ∀ i, ∀ e ∈ (hand.phase trace i).listed, e.Stocked w
  held : ∀ i r, (hand.phase trace i).Holds r → (∃ e ∈ (hand.phase trace i).listed, e.id = r) ∧
    ∃ run, w.db.jobRuns.get r = some run ∧ run.status = .pending
  alone : ∀ i j r, (hand.phase trace i).Holds r → (hand.phase trace j).Holds r → i = j
  moved : ∀ x ∈ trace, ∀ r, ClaimEvent.Writes x r →
    ∃ run, w.db.jobRuns.get r = some run ∧ run.status ≠ .pending
  order : HandedOnce trace

/-- A poll in the phase of one that has started a run has started it. -/
theorem starts_of_phase {trace : List ClaimEvent} {i : ℕ} {r : Id}
    (h : (hand.phase trace i).stage = .started r) :
    ∃ e ∈ trace, e.thread = i ∧ ClaimEvent.Starts e r := by
  induction trace with
  | nil => cases h
  | cons e trace ih =>
    obtain ⟨j, s, a, w, w'⟩ := e
    by_cases hij : j = i
    swap
    · rw [hand.phase_cons_of_ne hij] at h
      obtain ⟨e, he, hstarts⟩ := ih h
      exact ⟨e, List.mem_cons_of_mem _ he, hstarts⟩
    subst hij
    rw [hand.phase_cons_self] at h
    have hbefore (hsame : (hand.phase trace j).stage = .started r) :
        ∃ e ∈ (⟨j, s, a, w, w'⟩ :: trace : List ClaimEvent), e.thread = j ∧
          ClaimEvent.Starts e r := by
      obtain ⟨e, he, hstarts⟩ := ih hsame
      exact ⟨e, List.mem_cons_of_mem _ he, hstarts⟩
    cases s with
    | jobRunUpdate k p =>
      cases a with
      | error _ => cases p <;> cases h
      | ok _ =>
        cases p with
        | start =>
          obtain rfl : k = r := Stage.started.inj h
          exact ⟨_, List.mem_cons_self, rfl, rfl, rfl⟩
        | _ => exact hbefore h
    | queueRemove orgId k =>
      cases a with
      | error _ => exact hbefore h
      | ok _ =>
        have h : (if (hand.phase trace j).polling then
            { hand.phase trace j with stage := .holding k } else hand.phase trace j).stage =
              .started r := h
        split_ifs at h
        exact hbefore h
    | jobRunFindUnique k => cases a <;> cases h
    | queueGetJobs orgId => cases a <;> exact hbefore h
    | _ => exact hbefore h

section Step

variable {env : Env} {trace : List ClaimEvent} {i : ℕ} {s : Stmt} {r : Except Err s.Resp}
  {w w' : World}

/-- A call that writes a run is a start of one that its poll holds, or a cancellation of one that
no poll holds. -/
theorem Handing.not_held (h : Handing trace w) (hallowed : hand.allowed (hand.phase trace i) s)
    (hcond : Undisputed trace ⟨i, s, r, w, w'⟩) {k : Id} {p : RunPatch}
    (hs : s = .jobRunUpdate k p) {j : ℕ} (hj : j ≠ i) : ¬(hand.phase trace j).Holds k := by
  subst hs
  intro hholds
  have hallowed : p = .start ∧ (hand.phase trace i).stage = .checked k ∨
    p = .cancel ∧ (hand.phase trace i).stage = .idle := hallowed
  rcases hallowed with ⟨-, hchecked⟩ | ⟨rfl, -⟩
  · exact hj (h.alone j i k hholds (.inr hchecked))
  · exact hcond.cancel k rfl j hholds

/-- An answer that can come is one that the monitor holds possible. -/
theorem Handing.possible (h : Handing trace w) (hallowed : hand.allowed (hand.phase trace i) s)
    (hout : (machine env).Outcome s w r w') : hand.possible (hand.phase trace i) s r := by
  rcases hout with ⟨rfl, rfl⟩ | ⟨-, rfl, rfl⟩
  swap
  · cases s <;> trivial
  cases s with
  | queueGetJobs orgId =>
    intro e he
    exact (h.entries orgId e (env.getJobs_subset _ he)).1
  | jobRunFindUnique k =>
    have hholding : (hand.phase trace i).stage = .holding k := hallowed
    obtain ⟨⟨e, he, hid⟩, run, hrun, hpending⟩ := h.held i k (.inl hholding)
    obtain ⟨-, run', hrun', -, hjob⟩ := h.listed i e he
    rw [hid] at hrun'
    obtain rfl := Option.some.inj (hrun.symm.trans hrun')
    obtain ⟨job, hjob⟩ := Option.isSome_iff_exists.mp hjob
    refine ⟨run, job, ?_, hpending, fun e' he' hid' => ?_⟩
    · show (w.db.jobRuns.get k).bind _ = _
      rw [hrun, Option.bind_some, hjob]
      rfl
    · obtain ⟨-, run', hrun', hhost, -⟩ := h.listed i e' he'
      rw [hid'] at hrun'
      obtain rfl := Option.some.inj (hrun.symm.trans hrun')
      exact hhost
  | _ => trivial

/-- The entries that an operation has listed are what they are. -/
theorem Handing.listed_call (h : Handing trace w) (hout : (machine env).Outcome s w r w')
    (hchange : ClaimChange s w r w') (j : ℕ) :
    ∀ e ∈ (hand.phase (⟨i, s, r, w, w'⟩ :: trace) j).listed, e.Stocked w' := by
  intro e he
  by_cases hij : i = j
  swap
  · rw [hand.phase_cons_of_ne hij] at he
    exact hchange.stocked (h.listed j e he)
  subst hij
  rw [hand.phase_cons_self] at he
  have hbefore (hsame : e ∈ (hand.phase trace i).listed) : e.Stocked w' :=
    hchange.stocked (h.listed i e hsame)
  cases s with
  | queueGetJobs orgId =>
    cases r with
    | error _ => exact hbefore he
    | ok l =>
      rcases hout with ⟨hl, -⟩ | ⟨-, hl, -⟩
      · obtain rfl : l = env.getJobs (w.queues orgId) := Except.ok.inj hl
        exact hchange.stocked (h.entries orgId e (env.getJobs_subset _ he))
      · cases hl
  | queueRemove orgId k =>
    cases r with
    | error _ => exact hbefore he
    | ok _ =>
      have he : e ∈ (if (hand.phase trace i).polling then
        { hand.phase trace i with stage := .holding k } else hand.phase trace i).listed := he
      split_ifs at he <;> exact hbefore he
  | jobRunFindUnique k => cases r <;> exact hbefore he
  | jobRunUpdate k p => cases r <;> cases p <;> exact hbefore he
  | _ => exact hbefore he

/-- What an operation is about to start after its call, it was about to start before, or it has
removed its entry in this call. -/
theorem holds_of_call (hallowed : hand.allowed (hand.phase trace i) s) {k : Id}
    (hholds : (hand.phase (⟨i, s, r, w, w'⟩ :: trace) i).Holds k) :
    (∃ e ∈ (hand.phase (⟨i, s, r, w, w'⟩ :: trace) i).listed, e.id = k) ∧
      (∃ orgId, s = .queueRemove orgId k) ∧ r.isOk = true ∧
        (hand.phase trace i).polling = true ∨
    (hand.phase trace i).Holds k ∧ (∀ j p, s ≠ .jobRunUpdate j p) ∧
      (hand.phase (⟨i, s, r, w, w'⟩ :: trace) i).listed = (hand.phase trace i).listed := by
  rw [hand.phase_cons_self] at hholds ⊢
  cases s with
  | queueRemove orgId j =>
    cases r with
    | error _ => exact .inr ⟨hholds, fun _ _ h => (nomatch h), rfl⟩
    | ok u =>
      cases hpolling : (hand.phase trace i).polling with
      | false =>
        have hsame : hand.next (hand.phase trace i) (.queueRemove orgId j) (.ok u) =
            hand.phase trace i := by
          show (if (hand.phase trace i).polling then _ else _) = _
          rw [hpolling]
          rfl
        rw [hsame] at hholds ⊢
        exact .inr ⟨hholds, fun _ _ h => (nomatch h), rfl⟩
      | true =>
        have hnow : hand.next (hand.phase trace i) (.queueRemove orgId j) (.ok u) =
            { hand.phase trace i with stage := .holding j } := by
          show (if (hand.phase trace i).polling = true then _ else _) = _
          exact if_pos hpolling
        rw [hnow] at hholds ⊢
        obtain ⟨-, hlisted⟩ := hallowed hpolling
        obtain hj | hj := hholds
        · obtain rfl : j = k := Stage.holding.inj hj
          exact .inl ⟨hlisted, ⟨orgId, rfl⟩, rfl, rfl⟩
        · cases hj
  | jobRunFindUnique j =>
    have hholding : (hand.phase trace i).stage = .holding j := hallowed
    cases r with
    | error _ => rcases hholds with h | h <;> cases h
    | ok _ =>
      obtain hj | hj := hholds
      · cases hj
      · obtain rfl : j = k := Stage.checked.inj hj
        exact .inr ⟨.inl hholding, fun _ _ h => (nomatch h), rfl⟩
  | jobRunUpdate j p =>
    have hallowed : p = .start ∧ (hand.phase trace i).stage = .checked j ∨
      p = .cancel ∧ (hand.phase trace i).stage = .idle := hallowed
    cases r with
    | error _ => rcases hholds with h | h <;> cases p <;> cases h
    | ok _ =>
      rcases hallowed with ⟨rfl, -⟩ | ⟨rfl, hidle⟩
      · rcases hholds with h | h <;> cases h
      · have hholds : (hand.phase trace i).Holds k := hholds
        rcases hholds with h | h <;> cases hidle.symm.trans h
  | queueGetJobs orgId =>
    have hidle : (hand.phase trace i).stage = .idle := hallowed
    have hholds : (hand.phase trace i).Holds k := by cases r <;> exact hholds
    rcases hholds with h | h <;> cases hidle.symm.trans h
  | _ => exact .inr ⟨hholds, fun _ _ h => (nomatch h), rfl⟩

/-- What an operation is about to start after a call, it was about to start before, or this call has
removed its entry. -/
theorem holds_before (hallowed : hand.allowed (hand.phase trace i) s) {j : ℕ} {k : Id}
    (hholds : (hand.phase (⟨i, s, r, w, w'⟩ :: trace) j).Holds k) :
    (i = j ∧ (∃ orgId, s = .queueRemove orgId k) ∧ r.isOk = true ∧
      (hand.phase trace i).polling = true) ∨ (hand.phase trace j).Holds k := by
  by_cases hij : i = j
  swap
  · rw [hand.phase_cons_of_ne hij] at hholds
    exact .inr hholds
  subst hij
  rcases holds_of_call hallowed hholds with ⟨-, hremoved⟩ | ⟨hbefore, -⟩
  · exact .inl ⟨rfl, hremoved⟩
  · exact .inr hbefore

/-- A run that the call has written is not pending. -/
theorem moved_of_call (hallowed : hand.allowed (hand.phase trace i) s)
    (hchange : ClaimChange s w r w') {k : Id}
    (hwrites : ClaimEvent.Writes ⟨i, s, r, w, w'⟩ k) :
    ∃ run, w'.db.jobRuns.get k = some run ∧ run.status ≠ .pending := by
  obtain ⟨p, rfl, hok⟩ := hwrites
  cases hchange with
  | kept _ _ _ unwritten =>
    have hfailed := unwritten k p rfl
    have hok : r.isOk = true := hok
    rw [hok] at hfailed
    cases hfailed
  | written j p' run found stmt ok =>
    obtain ⟨rfl, rfl⟩ := Stmt.jobRunUpdate.inj stmt
    refine ⟨_, Table.get_update_self (p.key_apply w.now) found, ?_⟩
    have hallowed : p = .start ∧ (hand.phase trace i).stage = .checked k ∨
      p = .cancel ∧ (hand.phase trace i).stage = .idle := hallowed
    rcases hallowed with ⟨rfl, -⟩ | ⟨rfl, -⟩ <;> exact fun h => by cases h

/-- What an operation is about to start is pending, and its entry was listed. -/
theorem Handing.held_call (h : Handing trace w)
    (hallowed : hand.allowed (hand.phase trace i) s) (hchange : ClaimChange s w r w')
    (hcond : Undisputed trace ⟨i, s, r, w, w'⟩) {j : ℕ} {k : Id}
    (hholds : (hand.phase (⟨i, s, r, w, w'⟩ :: trace) j).Holds k) :
    (∃ e ∈ (hand.phase (⟨i, s, r, w, w'⟩ :: trace) j).listed, e.id = k) ∧
      ∃ run, w'.db.jobRuns.get k = some run ∧ run.status = .pending := by
  -- a pending run that this call does not write is still pending
  have hstill {run : JobRun} (hrun : w.db.jobRuns.get k = some run) (hpending : run.status = .pending)
      (hnone : ∀ p, s = .jobRunUpdate k p → r.isOk = false) :
      ∃ run, w'.db.jobRuns.get k = some run ∧ run.status = .pending := by
    obtain ⟨run', hrun', -, -, hsame⟩ := hchange.runs_kept hrun
    exact ⟨run', hrun', (hsame hnone).trans hpending⟩
  by_cases hij : i = j
  swap
  · rw [hand.phase_cons_of_ne hij] at hholds ⊢
    obtain ⟨hlisted, run, hrun, hpending⟩ := h.held j k hholds
    have hother : j ≠ i := fun hji => hij hji.symm
    exact ⟨hlisted, hstill hrun hpending fun p hs =>
      absurd hholds (h.not_held hallowed hcond hs hother)⟩
  subst hij
  rcases holds_of_call hallowed hholds with ⟨hlisted, ⟨orgId, hs⟩, hok, hpolling⟩ |
      ⟨hbefore, hnone, hsame⟩
  · obtain ⟨⟨run, hrun, hpending⟩, -⟩ := hcond.remove orgId k hs hok hpolling
    refine ⟨hlisted, hstill hrun hpending fun p hs' => ?_⟩
    cases hs.symm.trans hs'
  · obtain ⟨hlisted, run, hrun, hpending⟩ := h.held i k hbefore
    rw [hsame]
    exact ⟨hlisted, hstill hrun hpending fun p hs => absurd hs (hnone k p)⟩

/-- A start finds its run pending and leaves it running. -/
theorem Handing.starts_call (h : Handing trace w)
    (hallowed : hand.allowed (hand.phase trace i) s) (hchange : ClaimChange s w r w') {k : Id}
    (hstarts : ClaimEvent.Starts ⟨i, s, r, w, w'⟩ k) :
    (∃ run, w.db.jobRuns.get k = some run ∧ run.status = .pending) ∧
      ∃ run, w'.db.jobRuns.get k = some run ∧ run.status = .running := by
  obtain ⟨rfl, hok⟩ := hstarts
  have hallowed : RunPatch.start = .start ∧ (hand.phase trace i).stage = .checked k ∨
    RunPatch.start = .cancel ∧ (hand.phase trace i).stage = .idle := hallowed
  obtain ⟨-, hchecked⟩ | ⟨hcancel, -⟩ := hallowed
  swap
  · cases hcancel
  obtain ⟨-, hpending⟩ := h.held i k (.inr hchecked)
  refine ⟨hpending, ?_⟩
  cases hchange with
  | kept _ _ _ unwritten =>
    have hfailed := unwritten k .start rfl
    have hok : r.isOk = true := hok
    rw [hok] at hfailed
    cases hfailed
  | written j p run found stmt _ =>
    obtain ⟨rfl, rfl⟩ := Stmt.jobRunUpdate.inj stmt
    exact ⟨_, Table.get_update_self (RunPatch.key_apply w.now .start) found, rfl⟩

/-- An undisputed call keeps the invariant. -/
theorem Handing.call (h : Handing trace w) (hallowed : hand.allowed (hand.phase trace i) s)
    (hout : (machine env).Outcome s w r w') (hcond : Undisputed trace ⟨i, s, r, w, w'⟩) :
    Handing (⟨i, s, r, w, w'⟩ :: trace) w' := by
  have hchange := ClaimChange.of_outcome hallowed hout
  refine ⟨fun orgId e' he' => ?_, h.listed_call hout hchange,
    fun j k hholds => h.held_call hallowed hchange hcond hholds, fun j j' k hholds hholds' => ?_,
    fun x hx k hwrites => ?_, fun e he k hstarts => ?_, fun later x earlier hsplit k hwrites => ?_⟩
  · -- the entries are those from before
    obtain ⟨e, he, hid, hdata⟩ := hchange.entries_kept he'
    have hstocked := hchange.stocked (h.entries orgId e he)
    unfold QueueEntry.Stocked
    rw [hid, hdata]
    exact hstocked
  · -- a poll that removes an entry finds no other one about to start its run
    rcases holds_before hallowed hholds with ⟨hij, ⟨orgId, hs⟩, hok, hpolling⟩ | hbefore
    · rcases holds_before hallowed hholds' with ⟨hij', -⟩ | hbefore'
      · exact hij.symm.trans hij'
      · exact absurd hbefore' ((hcond.remove orgId k hs hok hpolling).2 j')
    · rcases holds_before hallowed hholds' with ⟨-, ⟨orgId, hs⟩, hok, hpolling⟩ | hbefore'
      · exact absurd hbefore ((hcond.remove orgId k hs hok hpolling).2 j)
      · exact h.alone j j' k hbefore hbefore'
  · -- a run that was written is not pending again
    by_cases hnow : ClaimEvent.Writes ⟨i, s, r, w, w'⟩ k
    · exact moved_of_call hallowed hchange hnow
    obtain rfl | hx := List.mem_cons.mp hx
    · exact absurd hwrites hnow
    obtain ⟨run, hrun, hmoved⟩ := h.moved x hx k hwrites
    obtain ⟨run', hrun', -, -, hsame⟩ := hchange.runs_kept hrun
    refine ⟨run', hrun', ?_⟩
    rw [hsame fun p hs => Bool.eq_false_iff.mpr fun hok => hnow ⟨p, hs, hok⟩]
    exact hmoved
  · -- the starts
    rcases List.mem_cons.mp he with rfl | he
    · exact h.starts_call hallowed hchange hstarts
    · exact h.order.starts e he k hstarts
  · -- no start after a write
    intro e he hstarts
    cases later with
    | nil => cases he
    | cons e' later =>
      obtain ⟨rfl, htail⟩ := List.cons.inj hsplit
      rcases List.mem_cons.mp he with rfl | he
      · have hx : x ∈ trace := htail ▸ List.mem_append_right _ List.mem_cons_self
        obtain ⟨run, hrun, hmoved⟩ := h.moved x hx k hwrites
        obtain ⟨⟨run', hrun', hpending⟩, -⟩ := h.starts_call hallowed hchange hstarts
        obtain rfl := Option.some.inj (hrun.symm.trans hrun')
        exact hmoved hpending
      · exact h.order.first later x earlier htail k hwrites e he hstarts

end Step

/-- The operations and everything around them keep the invariant, and a poll that returns a job
has started its run. -/
theorem hand_keeps (env : Env) :
    Keeps (claiming env) Undisputed hand
      (fun r q => ∀ data, r = .ok (some data) → q.stage = .started data.jobRunId) Handing where
  follows op := by
    cases op with
    | poll hostId mutationBusy => exact poll_hands hostId mutationBusy
    | cancelBatch orgId userId batchId =>
      show (BatchesController.cancel orgId userId batchId >>= fun _ => pure none).wp _ _ _
      rw [wp_bind]
      refine wp_mono hand.requires_monotone ?_ (cancelBatch_hands orgId userId batchId)
      intro r q _
      cases r with
      | error _ => exact fun data hdata => by cases hdata
      | ok _ => exact (wp_pure _ _ _).mpr fun data hdata => by cases hdata
  call trace i s r w w' hJ hallowed hout hcond :=
    ⟨hJ.possible hallowed hout, hJ.call hallowed hout hcond⟩
  environment trace w w' hJ he := by
    have hstocked : ∀ e : QueueEntry, e.Stocked w → e.Stocked w' := by
      rintro e ⟨hid, run, hrun, hhost, hjob⟩
      obtain ⟨run', hrun', hhost', hjob', -⟩ := he.runs e.id run hrun
      exact ⟨hid, run', hrun', hhost'.trans hhost, by rw [hjob']; exact he.jobs _ hjob⟩
    refine ⟨fun orgId e' he' => ?_, fun i e hlisted => hstocked e (hJ.listed i e hlisted),
      fun i k hholds => ?_, hJ.alone, fun x hx k hwrites => ?_, hJ.order⟩
    · rcases he.entries orgId e' he' with ⟨e, hold, hid, hdata⟩ | hnew
      · have hold := hstocked e (hJ.entries orgId e hold)
        unfold QueueEntry.Stocked
        rw [hid, hdata]
        exact hold
      · exact hnew
    · obtain ⟨hlisted, run, hrun, hpending⟩ := hJ.held i k hholds
      obtain ⟨run', hrun', -, -, hstill⟩ := he.runs k run hrun
      exact ⟨hlisted, run', hrun', hstill.mpr hpending⟩
    · obtain ⟨run, hrun, hmoved⟩ := hJ.moved x hx k hwrites
      obtain ⟨run', hrun', -, -, hstill⟩ := he.runs k run hrun
      exact ⟨run', hrun', fun h => hmoved (hstill.mp h)⟩

/-- What dispatching leaves is supplied. -/
theorem supplied_of_ends {c : Creation} {may : Stmt → World → Prop} {w w' : World}
    (hreach : c.Reaches w) (hends : c.Ends may w w') : Supplied w w' := by
  have hjobs : ∀ i, (w.db.jobs.get i).isSome = true → ((c.job w).db.jobs.get i).isSome = true := by
    intro i hi
    obtain ⟨j, hj⟩ := Option.isSome_iff_exists.mp hi
    exact Option.isSome_iff_exists.mpr ⟨j, World.get_insertJob hj⟩
  have hruns : ∀ i run, w.db.jobRuns.get i = some run →
      (c.run w).db.jobRuns.get i = some run := fun i run hrun => World.get_insertJobRun hrun
  cases hends with
  | job _ =>
    exact ⟨hjobs, fun i run hrun => ⟨run, hrun, rfl, rfl, Iff.rfl⟩,
      fun orgId e he => .inl ⟨e, he, rfl, rfl⟩⟩
  | run _ _ =>
    exact ⟨hjobs, fun i run hrun => ⟨run, hruns i run hrun, rfl, rfl, Iff.rfl⟩,
      fun orgId e he => .inl ⟨e, he, rfl, rfl⟩⟩
  | queued _ =>
    refine ⟨hjobs, fun i run hrun => ⟨run, hruns i run hrun, rfl, rfl, Iff.rfl⟩,
      fun orgId e he => ?_⟩
    rcases World.mem_enqueue he with he | ⟨-, rfl⟩
    · exact .inl ⟨e, he, rfl, rfl⟩
    -- the new entry is that of the new run
    obtain ⟨hid, hdata, hhost⟩ := hreach.entry w.db.jobs.next w.db.jobRuns.next
    have hrun : (c.run w).db.jobRuns.get w.db.jobRuns.next =
        some (pendingRun w.db.jobs.next c.hostId w.db.jobRuns.next) :=
      Table.get_insert_next w.db.jobRuns (pendingRun w.db.jobs.next c.hostId) (key_pendingRun _ _)
    have hjob : ((c.job w).db.jobs.get w.db.jobs.next).isSome = true :=
      congrArg Option.isSome (Table.get_insert_next w.db.jobs c.data.row fun _ => rfl)
    refine .inr ⟨hid.trans hdata.symm, pendingRun w.db.jobs.next c.hostId w.db.jobRuns.next, ?_,
      hhost.symm, hjob⟩
    show (c.run w).db.jobRuns.get (c.entry w.db.jobs.next w.db.jobRuns.next).id = _
    rw [hid]
    exact hrun

section Examples

/-- The first host asks for a job. -/
def wavePoll : ClaimOp := .poll 0 false

/-- The wave is supplied. -/
theorem supplied_wave : Supplied World.initial World.wave := by
  refine ⟨fun i hi => (nomatch hi), fun i run hrun => (nomatch hrun), fun orgId e he => .inr ?_⟩
  by_cases horg : orgId = 0
  · subst horg
    obtain rfl := List.mem_singleton.mp he
    exact ⟨rfl, _, rfl, rfl, rfl⟩
  · obtain he | ⟨horg', -⟩ := World.mem_enqueue he
    · cases he
    · exact absurd horg' horg

end Examples

end Mastermind
