import Mastermind.Dispatch.RunRules
import Mastermind.Effect.Uses

/-!
# The life of a run when operations interleave

A poll, a result report and `cancelBatch` look a run up, check its status, and write the next one in
a later call. Between the two another operation can move the run, and the write does not look again.
`lifecycle_of_reaches` is about every interleaving of polls, reports, cancellations and sweeps, call
by call, in which this does not happen (`Uninterrupted`): every call that moves a run takes it one
step on from pending over running to its end (`Follows`), one call ends it, and it is booked as ended
at most once. The sweep needs no condition, since its write checks the status itself.

The monitor `life` follows a single operation: what its last lookup has shown, how many runs it has
ended, and whether it has booked them. `Alive` is the invariant of the calls made and the stores.
-/

namespace Mastermind

open Effect Effect.Program

/-- The operations that move runs. -/
inductive LifeOp where
  | poll (hostId : Id) (mutationBusy : Bool)
  | reportResult (hostId jobRunId : Id) (dto : ReportResultDto) (tools : List ConnectionTool)
  | cancelBatch (orgId userId batchId : Id)
  | failStaleRunningJobs

/-- The program of an operation. -/
def LifeOp.prog (env : Env) : LifeOp → Service (Option QueueJobData)
  | poll hostId mutationBusy => Op.prog env (.poll hostId mutationBusy)
  | reportResult hostId jobRunId dto tools => Op.prog env (.reportResult hostId jobRunId dto tools)
  | cancelBatch orgId userId batchId => Op.prog env (.cancelBatch orgId userId batchId)
  | failStaleRunningJobs => Op.prog env .failStaleRunningJobs

/-- What everything else does to the runs: it creates pending ones, deletes some and moves none. -/
structure RunsKept (w w' : World) : Prop where
  next : w.db.jobRuns.next ≤ w'.db.jobRuns.next
  status : ∀ i r', w'.db.jobRuns.get i = some r' →
    (∃ r, w.db.jobRuns.get i = some r ∧ r'.status = r.status) ∨
      w.db.jobRuns.next ≤ i ∧ r'.status = .pending

/-- The operations that move runs, and everything else around them. -/
def lifecycle (env : Env) : System LifeOp Stmt.Resp Err (Option QueueJobData) World :=
  ⟨machine env, LifeOp.prog env, RunsKept⟩

/-- A call of one of the operations. -/
abbrev RunEvent := Event Stmt.Resp Err World

/-- The steps of a run's life, or none. -/
inductive Follows : JobRunStatus → JobRunStatus → Prop where
  | same (st) : Follows st st
  | start : Follows .pending .running
  | success : Follows .running .success
  | failed : Follows .running .failed
  | cancelled : Follows .pending .cancelled

/-- The run has ended. -/
def JobRunStatus.Ended (st : JobRunStatus) : Prop :=
  st = .success ∨ st = .failed ∨ st = .cancelled

/-- An end is not left again. -/
theorem Follows.of_ended {st st' : JobRunStatus} (h : Follows st st') (hst : st.Ended) :
    st' = st := by
  rcases hst with rfl | rfl | rfl <;> cases h <;> rfl

/-- The update ends a run for which its operation will book an end. -/
def RunPatch.ends : RunPatch → Bool
  | finish _ _ => true
  | cancel => true
  | _ => false

/-- The increments of the counters of runs that have ended. -/
def BatchPatch.ended (p : BatchPatch) : ℤ := p.successCount + p.failedCount + p.cancelledCount

/-- The run that a call ends. -/
def endsRun : (s : Stmt) → Except Err s.Resp → Option Id
  | .jobRunUpdate id p, .ok _ => if p.ends then some id else none
  | _, _ => none

/-- How many ends of runs a call books. -/
def booksEnds : (s : Stmt) → Except Err s.Resp → ℤ
  | .jobBatchUpdate _ p, .ok _ => p.ended
  | _, _ => 0

/-- The lookups after which operations move runs. -/
def Stmt.looksUp : Stmt → Bool
  | .jobRunFindUnique _ => true
  | .jobBatchFindFirst _ _ => true
  | _ => false

/-- The runs that a lookup shows, with their statuses. -/
def shown : (s : Stmt) → Except Err s.Resp → List (Id × JobRunStatus)
  | .jobRunFindUnique id, .ok (some (run, _)) => [(id, run.status)]
  | .jobBatchFindFirst _ _, .ok (some (_, jobs)) =>
    jobs.filterMap fun x => x.2.map fun run => (run.id, run.status)
  | _, _ => []

namespace RunEvent

/-- The run that the call ends. -/
def ended (e : RunEvent) : Option Id := endsRun e.stmt e.answer

/-- How many ends of runs the call books. -/
def booked (e : RunEvent) : ℤ := booksEnds e.stmt e.answer

/-- The call changes the status of the run. -/
def Moves (e : RunEvent) (r : Id) : Prop :=
  (e.before.db.jobRuns.get r).map JobRun.status ≠ (e.after.db.jobRuns.get r).map JobRun.status

end RunEvent

/-- Since the last lookup of the operation no call has moved the run. -/
def Untouched (i : ℕ) (r : Id) : List RunEvent → Prop
  | [] => False
  | e :: trace => (e.thread = i ∧ e.stmt.looksUp = true) ∨ (¬RunEvent.Moves e r ∧ Untouched i r trace)

/-- If the call writes the status of a run, then no call has moved the run since the operation
looked it up. -/
def Uninterrupted (trace : List RunEvent) (e : RunEvent) : Prop :=
  ∀ r p, e.stmt = .jobRunUpdate r p → p.status?.isSome = true → Untouched e.thread r trace

/-- The call books an end of the run, which its operation has ended before. -/
def Completes (trace : List RunEvent) (e : RunEvent) (r : Id) : Prop :=
  RunEvent.booked e ≠ 0 ∧ ∃ x ∈ trace, x.thread = e.thread ∧ RunEvent.ended x = some r

/-- The calls made move runs step by step, end each run once, and book what they have ended. -/
structure Lifecycle (trace : List RunEvent) : Prop where
  follows : ∀ e ∈ trace, ∀ i r r', e.before.db.jobRuns.get i = some r →
    e.after.db.jobRuns.get i = some r' → Follows r.status r'.status
  once : ∀ i, (trace.filter fun e => RunEvent.ended e == some i).length ≤ 1
  books : ∀ later e earlier, trace = later ++ e :: earlier → RunEvent.booked e ≠ 0 →
    RunEvent.booked e =
      (earlier.filter fun x => x.thread == e.thread && (RunEvent.ended x).isSome).length ∧
    ∀ x ∈ earlier, x.thread = e.thread → RunEvent.booked x = 0

/-- Of two calls not both book an end of the same run. -/
theorem Lifecycle.completes_once {trace : List RunEvent} (h : Lifecycle trace)
    {later mid earlier : List RunEvent} {e e' : RunEvent}
    (hsplit : trace = later ++ e :: (mid ++ e' :: earlier)) (r : Id) :
    ¬(Completes (mid ++ e' :: earlier) e r ∧ Completes earlier e' r) := by
  rintro ⟨⟨hbooks, x, hx, hthread, hended⟩, hbooks', x', hx', hthread', hended'⟩
  have hmem : ∀ y ∈ mid ++ e' :: earlier, y ∈ trace := by
    intro y hy
    rw [hsplit]
    exact List.mem_append_right _ (List.mem_cons_of_mem _ hy)
  -- one call ended the run, so one operation books both
  have hsame : x = x' := by
    have hin : x ∈ trace.filter fun e => RunEvent.ended e == some r :=
      List.mem_filter.mpr ⟨hmem x hx, beq_iff_eq.mpr hended⟩
    have hin' : x' ∈ trace.filter fun e => RunEvent.ended e == some r :=
      List.mem_filter.mpr ⟨hmem x' (List.mem_append_right _ (List.mem_cons_of_mem _ hx')),
        beq_iff_eq.mpr hended'⟩
    obtain ⟨y, hy⟩ : ∃ y, ∀ z ∈ trace.filter fun e => RunEvent.ended e == some r, z = y := by
      cases hl : trace.filter fun e => RunEvent.ended e == some r with
      | nil => exact ⟨x, fun z hz => nomatch hz⟩
      | cons y rest =>
        have hlength := h.once r
        rw [hl, List.length_cons] at hlength
        have hnil : rest = [] := List.length_eq_zero_iff.mp (by omega)
        subst hnil
        exact ⟨y, fun z hz => List.mem_singleton.mp hz⟩
    exact (hy x hin).trans (hy x' hin').symm
  have hthreads : e'.thread = e.thread := hthread'.symm.trans ((congrArg Event.thread hsame).symm.trans hthread)
  obtain ⟨-, hfirst⟩ := h.books later e (mid ++ e' :: earlier) hsplit hbooks
  exact hbooks' (hfirst e' (List.mem_append_right _ List.mem_cons_self) hthreads)

/-! ## What one operation does -/

/-- Where an operation is: what its last lookup has shown, how many runs it has ended, and whether
it has booked ends. -/
structure LifePhase where
  seen : List (Id × JobRunStatus)
  ended : ℕ
  booked : Bool

/-- The write of a run is one that goes on from what was seen. -/
def LifePhase.Allows (q : LifePhase) (r : Id) : RunPatch → Prop
  | .start => (r, .pending) ∈ q.seen
  | .finish st _ => (r, .running) ∈ q.seen ∧ (st = .success ∨ st = .failed)
  | .cancel => (r, .pending) ∈ q.seen
  | .release _ => False
  | .progress _ _ => True

/-- Every operation writes what goes on from its last lookup, and books once, as many ends as it
has written. -/
def life : Monitor Stmt.Resp Err LifePhase where
  start := ⟨[], 0, false⟩
  allowed q s := match s with
    | .jobRunUpdate r p => q.Allows r p
    | .jobRunUpdateManyRunning _ p => ∃ prior, p = .release prior
    | .jobBatchUpdate _ p => p.ended = 0 ∨ q.booked = false ∧ p.ended = q.ended
    | .hostRemoveTransaction _ _ => False
    | _ => True
  possible _ _ _ := True
  next q s r :=
    ⟨if s.looksUp then shown s r else q.seen,
      q.ended + if (endsRun s r).isSome then 1 else 0, q.booked || decide (booksEnds s r ≠ 0)⟩

/-- A statement that neither looks up runs nor moves them nor books an end. -/
def Stmt.Harmless : Stmt → Prop
  | .jobRunUpdate _ _ => False
  | .jobRunUpdateManyRunning _ _ => False
  | .jobRunFindUnique _ => False
  | .jobBatchFindFirst _ _ => False
  | .jobBatchUpdate _ p => p.ended = 0
  | .hostRemoveTransaction _ _ => False
  | _ => True

/-- A call that looks up no runs, ends none and books no end stays in the phase. -/
theorem life_next_eq (q : LifePhase) {s : Stmt} {r : Except Err s.Resp} (hlooks : s.looksUp = false)
    (hends : endsRun s r = none) (hbooks : booksEnds s r = 0) : life.next q s r = q := by
  unfold life
  simp only [hlooks, hends, hbooks]
  simp

/-- Harmless statements are allowed anywhere and lead nowhere. -/
theorem life_of_harmless (q : LifePhase) {s : Stmt} (hs : s.Harmless) :
    life.allowed q s ∧ ∀ r, life.next q s r = q := by
  cases s with
  | jobBatchUpdate b p =>
    refine ⟨.inl hs, fun r => life_next_eq q rfl ?_ ?_⟩
    · cases r <;> rfl
    · cases r with
      | ok _ => exact hs
      | error _ => rfl
  | jobRunUpdate _ _ => exact hs.elim
  | jobRunUpdateManyRunning _ _ => exact hs.elim
  | jobRunFindUnique _ => exact hs.elim
  | jobBatchFindFirst _ _ => exact hs.elim
  | hostRemoveTransaction _ _ => exact hs.elim
  | _ => exact ⟨trivial, fun r => life_next_eq q rfl rfl rfl⟩

section Programs

variable {env : Env} {α β : Type}

/-- A harmless program can stand anywhere. -/
theorem life_uses {p : Service α} (hp : Uses Stmt.Harmless p) (q : LifePhase) :
    p.wp life.requires (fun _ _ => True) q :=
  wp_mono life.requires_monotone (fun _ _ _ => trivial)
    (life.wp_of_uses hp fun _ => life_of_harmless q)

/-- A harmless program before another one. -/
theorem life_bind {p : Service α} {f : α → Service β} {Q : Except Err β → LifePhase → Prop}
    {q : LifePhase} (hp : Uses Stmt.Harmless p) (hf : ∀ a, (f a).wp life.requires Q q)
    (he : ∀ e, Q (.error e) q) : (p >>= f).wp life.requires Q q :=
  life.bind_of_uses hp (fun _ => life_of_harmless q) hf he

/-- An operation that hands out nothing. -/
theorem life_then {p : Service Unit} {q : LifePhase}
    (hp : p.wp life.requires (fun _ _ => True) q) :
    (do p; return none : Service (Option QueueJobData)).wp life.requires (fun _ _ => True) q := by
  rw [wp_bind]
  refine wp_mono life.requires_monotone ?_ hp
  intro r q' _
  cases r with
  | ok _ => exact (wp_pure _ _ _).mpr trivial
  | error _ => exact trivial

/-- A call that the monitor allows, before more. -/
theorem life_call {s : Stmt} {f : s.Resp → Service β} {Q : Except Err β → LifePhase → Prop}
    {q : LifePhase} (hs : life.allowed q s)
    (hf : ∀ a, (f a).wp life.requires Q (life.next q s (.ok a)))
    (he : ∀ e, Q (.error e) (life.next q s (.error e))) :
    (query s >>= f).wp life.requires Q q :=
  life.bind_request hs (fun a _ => hf a) he

theorem requireRole_harmless (types : List String) (allowed : Role → Bool) (message : String)
    (userId orgId : Id) (type : String) :
    Uses Stmt.Harmless (JobsService.requireRole types allowed message userId orgId type) := by
  unfold JobsService.requireRole
  refine .ite (.bind (.request trivial) fun role => ?_) (.pure _)
  exact .ite (.pure _) (.throw _)

theorem createJob_harmless (orgId userId serverInstanceId : Id) (type : String)
    (payload : Option JsonObject) :
    Uses Stmt.Harmless (JobsService.createJob env orgId userId serverInstanceId type payload) := by
  unfold JobsService.createJob
  refine .bind ?_ fun own => .bind ?_ fun _ => .bind (.request trivial) fun found => ?_
  · unfold JobsService.commandPayload
    refine .ite ?_ (.pure _)
    split
    · exact .throw _
    · exact .pure _
  · unfold JobsService.checkRole
    exact .bind (requireRole_harmless _ _ _ _ _ _) fun _ =>
      .bind (requireRole_harmless _ _ _ _ _ _) fun _ =>
        .bind (requireRole_harmless _ _ _ _ _ _) fun _ =>
          .bind (requireRole_harmless _ _ _ _ _ _) fun _ => requireRole_harmless _ _ _ _ _ _
  · split
    · exact .throw _
    · exact .bind (.request trivial) fun _ => .bind (.request trivial) fun _ =>
        .bind (.request trivial) fun _ => .pure _

theorem afterResult_harmless (job : Job) (runStatus : JobRunStatus) (output : Option String)
    (tools : List ConnectionTool) :
    Uses Stmt.Harmless (JobsService.afterResult env job runStatus output tools) := by
  unfold JobsService.afterResult
  refine .ite ?_ (.ite (.request trivial) (.ite ?_ (.pure _)))
  · exact .ite (.tryCatch (.request trivial) fun _ => .pure _) (.pure _)
  · unfold JobsService.playerListReceived
    split
    · refine .ite (.pure _) (.bind (.request trivial) fun _ => .foldlM (fun _ tool => ?_) _ _)
      exact .bind (createJob_harmless _ _ _ _ _) fun _ => .pure _
    · exact .pure _

theorem getNextJobForHost_harmless (orgId hostId : Id) (mutationBusy : Bool) :
    Uses Stmt.Harmless (JobsQueueService.getNextJobForHost orgId hostId mutationBusy) := by
  unfold JobsQueueService.getNextJobForHost
  refine .bind (.request trivial) fun waiting => ?_
  induction waiting with
  | nil => exact .pure _
  | cons job waiting ih =>
    unfold JobsQueueService.claimFirst
    refine .ite (.bind ?_ fun claimed => ?_) ih
    · refine .tryCatch (.bind ?_ fun _ => .bind (.request trivial) fun _ => .pure _) fun _ => .pure _
      exact .ite (.request trivial) (.pure _)
    · split
      · exact .pure _
      · exact ih

theorem emitProgress_harmless (orgId : Id) (batch : JobBatch)
    (updatedRun : Option (Id × JobRunStatus)) :
    Uses Stmt.Harmless (BatchesService.emitProgress orgId batch updatedRun) := .request trivial

theorem audit_harmless (orgId : Id) (actorId : Option Id) (action : String) (resourceId : Id)
    (details : JsonObject) :
    Uses Stmt.Harmless (BatchesService.audit orgId actorId action resourceId details) :=
  .request trivial

theorem recordJobRunStarted_harmless (orgId jobId : Id) :
    Uses Stmt.Harmless (BatchesService.recordJobRunStarted orgId jobId) := by
  unfold BatchesService.recordJobRunStarted
  refine .bind (.request trivial) fun found => ?_
  split
  · exact .pure _
  · refine .bind (.request rfl) fun _ => .bind (.request trivial) fun updated => ?_
    split
    · exact .pure _
    · exact emitProgress_harmless _ _ _

/-- A poll marks the run as started that it has found pending. -/
theorem markJobRunStarted_follows (hostId jobRunId : Id) :
    (JobsService.markJobRunStarted hostId jobRunId).wp life.requires (fun _ _ => True)
      life.start := by
  unfold JobsService.markJobRunStarted
  refine life_call trivial (fun found => ?_) fun _ => trivial
  split
  · exact (wp_pure _ _ _).mpr trivial
  rename_i run job
  rw [wp_ite]
  by_cases hkept : run.hostId ≠ hostId ∨ run.status ≠ .pending
  · rw [if_pos hkept]
    exact (wp_pure _ _ _).mpr trivial
  rw [if_neg hkept]
  obtain ⟨-, hpending⟩ := not_or.mp hkept
  refine life_call ?_ (fun _ => ?_) fun _ => trivial
  · show (jobRunId, JobRunStatus.pending) ∈ [(jobRunId, run.status)]
    rw [not_not.mp hpending]
    exact List.mem_singleton_self _
  · exact life_uses (.ite (recordJobRunStarted_harmless _ _) (.pure _)) _

theorem poll_follows (hostId : Id) (mutationBusy : Bool) :
    (AgentJobsController.poll hostId mutationBusy).wp life.requires (fun _ _ => True)
      life.start := by
  unfold AgentJobsController.poll
  refine life_bind (.request trivial) (fun host => ?_) fun _ => trivial
  cases host with
  | none => exact (wp_pure _ _ _).mpr trivial
  | some host =>
    refine life_bind (getNextJobForHost_harmless _ _ _) (fun data => ?_) fun _ => trivial
    cases data with
    | none => exact (wp_pure _ _ _).mpr trivial
    | some data =>
      dsimp only
      rw [wp_bind]
      refine wp_mono life.requires_monotone ?_ (markJobRunStarted_follows hostId data.jobRunId)
      intro r q _
      cases r with
      | ok _ => exact (wp_pure _ _ _).mpr trivial
      | error _ => exact trivial

/-- An end that a report has written is booked as one. -/
theorem recordJobRunCompleted_follows (orgId jobId : Id) (runStatus priorRunStatus : JobRunStatus)
    {q : LifePhase} (hended : q.ended = 1) (hbooked : q.booked = false) :
    (BatchesService.recordJobRunCompleted orgId jobId runStatus priorRunStatus).wp life.requires
      (fun _ _ => True) q := by
  unfold BatchesService.recordJobRunCompleted
  refine life_bind (.request trivial) (fun found => ?_) fun _ => trivial
  split
  · exact (wp_pure _ _ _).mpr trivial
  refine life_call (.inr ⟨hbooked, ?_⟩) (fun updated => ?_) fun _ => trivial
  · rw [hended]
    cases runStatus <;> rfl
  · refine life_uses (.ite ?_ (emitProgress_harmless _ _ _)) _
    exact .bind (.request rfl) fun _ => emitProgress_harmless _ _ _

/-- A report ends the run that it has found running. -/
theorem reportResult_follows (hostId jobRunId : Id) (dto : ReportResultDto)
    (tools : List ConnectionTool) :
    (AgentJobsController.reportResult env hostId jobRunId dto tools).wp life.requires
      (fun _ _ => True) life.start := by
  unfold AgentJobsController.reportResult
  rw [wp_ite]
  split_ifs
  swap
  · exact (wp_throw _ _ _).mpr trivial
  unfold JobsService.reportJobResult
  refine life_call trivial (fun found => ?_) fun _ => trivial
  rw [wp_bind]
  rcases found with - | ⟨run, job⟩
  · exact (wp_throw _ _ _).mpr trivial
  unfold JobsService.checkRunning
  dsimp only
  rw [wp_ite, wp_ite]
  split_ifs with hhost hrunning
  · exact (wp_throw _ _ _).mpr trivial
  · exact (wp_throw _ _ _).mpr trivial
  refine (wp_pure _ _ _).mpr ?_
  rw [andThen_ok]
  refine life_call ⟨?_, ?_⟩ (fun _ => ?_) fun _ => trivial
  · show (jobRunId, JobRunStatus.running) ∈ [(jobRunId, run.status)]
    rw [not_not.mp hrunning]
    exact List.mem_singleton_self _
  · unfold ReportResultDto.runStatus
    split_ifs
    · exact .inl rfl
    · exact .inr rfl
  · refine life_bind (afterResult_harmless _ _ _ _) (fun _ => ?_) fun _ => trivial
    rw [wp_ite]
    split_ifs
    · exact recordJobRunCompleted_follows _ _ _ _ rfl rfl
    · exact (wp_pure _ _ _).mpr trivial

theorem orgRoleGuard_harmless (userId orgId : Id) :
    Uses Stmt.Harmless (orgRoleGuard userId orgId) := by
  unfold orgRoleGuard orgMemberGuard
  refine .bind (.bind (.request trivial) fun role => ?_) fun role => .ite (.pure _) (.throw _)
  split
  · exact .throw _
  · exact .pure _

/-- A cancellation cancels the runs that it has found pending, and books as many. -/
theorem cancelBatch_follows (orgId userId batchId : Id) :
    (BatchesController.cancel orgId userId batchId).wp life.requires (fun _ _ => True)
      life.start := by
  unfold BatchesController.cancel
  refine life_bind (orgRoleGuard_harmless _ _) (fun _ => ?_) fun _ => trivial
  rw [wp_bind]
  suffices h : (BatchesService.cancelBatch orgId batchId).wp life.requires (fun _ _ => True)
      life.start by
    refine wp_mono life.requires_monotone ?_ h
    intro r q _
    cases r with
    | ok _ => exact (wp_pure _ _ _).mpr trivial
    | error _ => exact trivial
  unfold BatchesService.cancelBatch
  refine life_call trivial (fun found => ?_) fun _ => trivial
  rcases found with - | ⟨batch, jobs⟩
  · exact (wp_throw _ _ _).mpr trivial
  dsimp only
  rw [wp_ite]
  split_ifs
  · exact (wp_throw _ _ _).mpr trivial
  rw [wp_bind]
  -- in the loop `n` runs are cancelled, and those to come were listed
  refine wp_foldlM life.requires_monotone
    (fun rest n q => (∀ x ∈ rest, ∀ run, x.2 = some run → (run.id, run.status) ∈ q.seen) ∧
      q.ended = n ∧ q.booked = false) ?_ ?_ jobs 0 _ ⟨?_, rfl, rfl⟩
  · rintro ⟨job, run⟩ rest n q ⟨hseen, hended, hbooked⟩
    have hrest : ∀ x ∈ rest, ∀ run, x.2 = some run → (run.id, run.status) ∈ q.seen :=
      fun x hx => hseen x (List.mem_cons_of_mem _ hx)
    cases run with
    | none => exact (wp_pure _ _ _).mpr ⟨hrest, hended, hbooked⟩
    | some run =>
      unfold BatchesService.cancelJob
      dsimp only
      rw [wp_ite]
      split_ifs with hpending
      · exact (wp_pure _ _ _).mpr ⟨hrest, hended, hbooked⟩
      refine life_call ?_ (fun _ => ?_) fun _ => trivial
      · have hrun := hseen _ List.mem_cons_self run rfl
        rw [not_not.mp hpending] at hrun
        exact hrun
      · refine life_bind (.tryCatch (.bind (.request trivial) fun entry => ?_) fun _ => .pure _)
          (fun _ => (wp_pure _ _ _).mpr ⟨hrest, ?_, ?_⟩) fun _ => trivial
        · split
          · exact .pure _
          · exact .request trivial
        · show q.ended + 1 = n + 1
          rw [hended]
        · show (q.booked || false) = false
          rw [hbooked]
          rfl
  · rintro n q ⟨-, hended, hbooked⟩
    rw [andThen_ok]
    refine life_call (.inr ⟨hbooked, ?_⟩) (fun updated => ?_) fun _ => trivial
    · rw [hended]
      simp [BatchPatch.ended, BatchesService.cancellation, BatchPatch.none]
    · exact life_uses (.bind (audit_harmless _ _ _ _ _) fun _ =>
        .bind (emitProgress_harmless _ _ _) fun _ => .pure _) _
  · intro x hx run hrun
    refine List.mem_filterMap.mpr ⟨x, hx, ?_⟩
    rw [hrun]
    rfl

/-- The sweep writes only through the statement that checks the status. -/
theorem failStaleRunningJobs_follows :
    JobsService.failStaleRunningJobs.wp life.requires (fun _ _ => True) life.start := by
  unfold JobsService.failStaleRunningJobs
  refine life_bind (.request trivial) (fun now => ?_) fun _ => trivial
  refine life_bind (.request trivial) (fun runs => ?_) fun _ => trivial
  refine wp_foldlM life.requires_monotone (fun _ _ _ => True) ?_ (fun _ _ _ => trivial) _ _ _
    trivial
  intro run rest u q _
  rw [wp_ite]
  split_ifs
  · exact (wp_pure _ _ _).mpr trivial
  · rw [wp_request]
    refine ⟨⟨_, rfl⟩, fun r _ => ?_⟩
    cases r <;> trivial

end Programs

/-! ## What one call does -/

section Calls

variable {env : Env}

/-- What a call can do to the runs. -/
inductive RunChange (s : Stmt) (w : World) : Except Err s.Resp → World → Prop where
  | same {r w'} (runs : w'.db.jobRuns = w.db.jobRuns) (ends : endsRun s r = none) :
      RunChange s w r w'
  | create {r} (jobId hostId : Id) (ends : endsRun s r = none) :
      RunChange s w r (w.insertJobRun jobId hostId)
  | update {r} (i : Id) (p : RunPatch) (run : JobRun) (found : w.db.jobRuns.get i = some run)
      (stmt : s = .jobRunUpdate i p ∨
        s = .jobRunUpdateManyRunning i p ∧ run.status = .running)
      (ends : endsRun s r = none ∨ endsRun s r = some i ∧ p.ends = true ∧ s = .jobRunUpdate i p) :
      RunChange s w r (w.updateJobRun i p)

/-- Every call that the monitor allows changes the runs in one of these ways. -/
theorem RunChange.of_outcome {q : LifePhase} {s : Stmt} {w w' : World} {r : Except Err s.Resp}
    (hallowed : life.allowed q s) (hout : (machine env).Outcome s w r w') :
    RunChange s w r w' := by
  rcases hout with ⟨rfl, rfl⟩ | ⟨-, rfl, rfl⟩
  swap
  · -- a call that fails
    refine .same rfl ?_
    cases s <;> rfl
  cases s with
  | hostRemoveTransaction _ _ => exact hallowed.elim
  | jobRunCreate jobId hostId =>
    by_cases hrefers : ((w.db.jobs.get jobId).isSome && (w.db.hosts.get hostId).isSome) = true
    · have hexec : exec env (.jobRunCreate jobId hostId) w =
          (.ok (pendingRun jobId hostId w.db.jobRuns.next), w.insertJobRun jobId hostId) :=
        if_pos hrefers
      show RunChange _ w (exec env (.jobRunCreate jobId hostId) w).1
        (exec env (.jobRunCreate jobId hostId) w).2
      rw [hexec]
      exact .create jobId hostId rfl
    · have hexec : exec env (.jobRunCreate jobId hostId) w = (.error .foreignKey, w) :=
        if_neg hrefers
      show RunChange _ w (exec env (.jobRunCreate jobId hostId) w).1
        (exec env (.jobRunCreate jobId hostId) w).2
      rw [hexec]
      exact .same rfl rfl
  | jobRunUpdate i p =>
    cases hfound : w.db.jobRuns.get i with
    | none =>
      have hexec : exec env (.jobRunUpdate i p) w = (.error .recordNotFound, w) := by
        rw [exec, hfound]
        rfl
      show RunChange _ w (exec env (.jobRunUpdate i p) w).1 (exec env (.jobRunUpdate i p) w).2
      rw [hexec]
      exact .same rfl rfl
    | some run =>
      have hexec : exec env (.jobRunUpdate i p) w = (.ok (), w.updateJobRun i p) := by
        rw [exec, hfound]
        rfl
      show RunChange _ w (exec env (.jobRunUpdate i p) w).1 (exec env (.jobRunUpdate i p) w).2
      rw [hexec]
      refine .update i p run hfound (.inl rfl) ?_
      cases hp : p.ends with
      | false => exact .inl (by simp [endsRun, hp])
      | true => exact .inr ⟨by simp [endsRun, hp], rfl, rfl⟩
  | jobRunUpdateManyRunning i p =>
    by_cases hrunning : ((w.db.jobRuns.get i).any fun r => r.status == .running) = true
    · have hexec : exec env (.jobRunUpdateManyRunning i p) w = (.ok (), w.updateJobRun i p) :=
        if_pos hrunning
      obtain ⟨run, hfound, hstatus⟩ := (Option.any_eq_true _ _).mp hrunning
      show RunChange _ w (exec env (.jobRunUpdateManyRunning i p) w).1
        (exec env (.jobRunUpdateManyRunning i p) w).2
      rw [hexec]
      exact .update i p run hfound (.inr ⟨rfl, beq_iff_eq.mp hstatus⟩) (.inl rfl)
    · have hexec : exec env (.jobRunUpdateManyRunning i p) w = (.ok (), w) := if_neg hrunning
      show RunChange _ w (exec env (.jobRunUpdateManyRunning i p) w).1
        (exec env (.jobRunUpdateManyRunning i p) w).2
      rw [hexec]
      exact .same rfl rfl
  | jobCreate data =>
    refine .same ?_ rfl
    show (exec env (.jobCreate data) w).2.db.jobRuns = _
    rw [exec]
    split_ifs <;> rfl
  | serverInstanceDelete i =>
    refine .same ?_ rfl
    show (exec env (.serverInstanceDelete i) w).2.db.jobRuns = _
    rw [exec]
    split_ifs <;> rfl
  | jobUpdate i payload =>
    refine .same ?_ rfl
    show (exec env (.jobUpdate i payload) w).2.db.jobRuns = _
    rw [exec]
    split_ifs <;> rfl
  | jobBatchUpdate i p =>
    refine .same ?_ rfl
    show (exec env (.jobBatchUpdate i p) w).2.db.jobRuns = _
    rw [exec]
    split <;> rfl
  | scheduleCreate data =>
    refine .same ?_ rfl
    show (exec env (.scheduleCreate data) w).2.db.jobRuns = _
    rw [exec]
    split_ifs <;> rfl
  | scheduleUpdate i p =>
    refine .same ?_ rfl
    show (exec env (.scheduleUpdate i p) w).2.db.jobRuns = _
    simp only [exec]
    split <;> rfl
  | _ => exact .same rfl rfl

/-- A lookup changes nothing, and shows the runs as they are. -/
theorem shown_of_outcome {s : Stmt} {w w' : World} {r : Except Err s.Resp}
    (hout : (machine env).Outcome s w r w') (hlooks : s.looksUp = true) :
    w' = w ∧ ∀ i st, (i, st) ∈ shown s r → ∃ run, w.db.jobRuns.get i = some run ∧
      run.status = st := by
  rcases hout with ⟨rfl, rfl⟩ | ⟨-, rfl, rfl⟩
  swap
  · refine ⟨rfl, fun i st hi => ?_⟩
    have hnone : shown s (.error (machine env).fault) = [] := by cases s <;> rfl
    rw [hnone] at hi
    cases hi
  cases s with
  | jobRunFindUnique j =>
    refine ⟨rfl, fun i st hi => ?_⟩
    have hi : (i, st) ∈ shown (.jobRunFindUnique j) (.ok ((w.db.jobRuns.get j).bind fun r =>
      (w.db.jobs.get r.jobId).map fun j => (r, j))) := hi
    cases hrun : w.db.jobRuns.get j with
    | none =>
      rw [hrun] at hi
      cases hi
    | some run =>
      rw [hrun, Option.bind_some] at hi
      cases hjob : w.db.jobs.get run.jobId with
      | none =>
        rw [hjob] at hi
        cases hi
      | some job =>
        rw [hjob] at hi
        obtain ⟨rfl, rfl⟩ := Prod.mk.inj (List.mem_singleton.mp hi)
        exact ⟨run, hrun, rfl⟩
  | jobBatchFindFirst b orgId =>
    refine ⟨rfl, fun i st hi => ?_⟩
    have hi : (i, st) ∈ shown (.jobBatchFindFirst b orgId)
      (.ok (((w.db.jobBatches.get b).filter fun b => b.orgId == orgId).map fun b =>
        (b, w.db.batchRuns b.id))) := hi
    cases hbatch : (w.db.jobBatches.get b).filter fun b => b.orgId == orgId with
    | none =>
      rw [hbatch] at hi
      cases hi
    | some batch =>
      rw [hbatch] at hi
      obtain ⟨⟨job, run⟩, hmem, hshown⟩ := List.mem_filterMap.mp hi
      obtain ⟨run', rfl, hpair⟩ := Option.map_eq_some_iff.mp hshown
      obtain ⟨rfl, rfl⟩ := Prod.mk.inj hpair
      exact ⟨run', (Database.mem_batchRuns hmem rfl).1, rfl⟩
  | _ => cases hlooks

/-- No run is new under the id of an older one, and the ids that were given stay given. -/
theorem RunChange.old {s : Stmt} {w w' : World} {r : Except Err s.Resp} (h : RunChange s w r w') :
    w.db.jobRuns.next ≤ w'.db.jobRuns.next ∧ ∀ i r', w'.db.jobRuns.get i = some r' →
      i < w.db.jobRuns.next → ∃ r, w.db.jobRuns.get i = some r := by
  cases h with
  | same runs _ =>
    rw [runs]
    exact ⟨le_rfl, fun i r' hr' _ => ⟨r', hr'⟩⟩
  | create jobId hostId _ =>
    refine ⟨Nat.le_succ _, fun i r' hr' hi => ⟨r', ?_⟩⟩
    have hr' : (w.db.jobRuns.insert (pendingRun jobId hostId) (key_pendingRun jobId hostId)).get i =
      some r' := hr'
    rwa [Table.get_insert_of_ne _ (Nat.ne_of_lt hi)] at hr'
  | update i p run found _ _ =>
    refine ⟨le_rfl, fun j r' hr' _ => ?_⟩
    have hr' : (w.db.jobRuns.update i (p.apply w.now) (p.key_apply w.now)).get j = some r' := hr'
    rw [Table.get_update] at hr'
    split_ifs at hr'
    · obtain ⟨r, hr, -⟩ := Option.map_eq_some_iff.mp hr'
      exact ⟨r, hr⟩
    · exact ⟨r', hr'⟩

end Calls

/-! ## The invariant -/

/-- What is kept while operations interleave: what an operation has seen is still so if no call has
moved the run since, a run that was ended has ended, and the calls made so far are in order. -/
structure Alive (trace : List RunEvent) (w : World) : Prop where
  seen : ∀ i r st, (r, st) ∈ (life.phase trace i).seen → r < w.db.jobRuns.next ∧
    (Untouched i r trace → ∀ run, w.db.jobRuns.get r = some run → run.status = st)
  ended : ∀ x ∈ trace, ∀ r, RunEvent.ended x = some r → r < w.db.jobRuns.next ∧
    ∀ run, w.db.jobRuns.get r = some run → run.status.Ended
  order : Lifecycle trace

/-- The number of runs that an operation has ended is its phase's. -/
theorem phase_ended (trace : List RunEvent) (i : ℕ) :
    (life.phase trace i).ended =
      (trace.filter fun x => x.thread == i && (RunEvent.ended x).isSome).length := by
  induction trace with
  | nil => rfl
  | cons e trace ih =>
    obtain ⟨j, s, r, w, w'⟩ := e
    by_cases hij : j = i
    · subst hij
      rw [life.phase_cons_self, List.filter_cons]
      show (life.phase trace j).ended + _ = _
      rw [ih]
      cases hends : endsRun s r <;> simp [RunEvent.ended, hends]
    · rw [life.phase_cons_of_ne hij, ih, List.filter_cons, if_neg]
      simp [hij]

/-- An operation that has booked ends is in a phase that says so. -/
theorem phase_booked (trace : List RunEvent) (i : ℕ) (h : (life.phase trace i).booked = false) :
    ∀ x ∈ trace, x.thread = i → RunEvent.booked x = 0 := by
  induction trace with
  | nil => exact fun x hx => nomatch hx
  | cons e trace ih =>
    obtain ⟨j, s, r, w, w'⟩ := e
    intro x hx hthread
    by_cases hij : j = i
    · subst hij
      rw [life.phase_cons_self] at h
      have hboth : ((life.phase trace j).booked || decide (booksEnds s r ≠ 0)) = false := h
      obtain ⟨hbefore, hnow⟩ := Bool.or_eq_false_iff.mp hboth
      rcases List.mem_cons.mp hx with rfl | hx
      · exact not_not.mp (of_decide_eq_false hnow)
      · exact ih hbefore x hx hthread
    · rw [life.phase_cons_of_ne hij] at h
      rcases List.mem_cons.mp hx with rfl | hx
      · exact absurd hthread hij
      · exact ih h x hx hthread

section Step

variable {env : Env} {trace : List RunEvent} {i : ℕ} {s : Stmt} {r : Except Err s.Resp}
  {w w' : World}

/-- An uninterrupted call moves a run one step on. -/
theorem Alive.follows (h : Alive trace w) (hallowed : life.allowed (life.phase trace i) s)
    (hchange : RunChange s w r w') (hcond : Uninterrupted trace ⟨i, s, r, w, w'⟩) {id : Id}
    {run run' : JobRun} (hrun : w.db.jobRuns.get id = some run)
    (hrun' : w'.db.jobRuns.get id = some run') : Follows run.status run'.status := by
  cases hchange with
  | same runs _ =>
    rw [runs, hrun] at hrun'
    obtain rfl := Option.some.inj hrun'
    exact .same _
  | create jobId hostId _ =>
    have hsame : (w.insertJobRun jobId hostId).db.jobRuns.get id = some run :=
      World.get_insertJobRun hrun
    obtain rfl := Option.some.inj (hsame.symm.trans hrun')
    exact .same _
  | update j p written found stmt _ =>
    have hget : (w.updateJobRun j p).db.jobRuns.get id = _ :=
      Table.get_update (p.key_apply w.now)
    rw [hrun'] at hget
    by_cases hid : id = j
    swap
    · rw [if_neg hid, hrun] at hget
      obtain rfl := Option.some.inj hget
      exact .same _
    subst hid
    obtain rfl := Option.some.inj (found.symm.trans hrun)
    rw [if_pos rfl, found] at hget
    obtain rfl := Option.some.inj hget
    rcases stmt with rfl | ⟨rfl, hrunning⟩
    · -- a write after a lookup: the run is as the lookup has shown it
      have hstill : p.status?.isSome = true → ∀ st, (id, st) ∈ (life.phase trace i).seen →
          written.status = st :=
        fun hp st hseen => (h.seen i id st hseen).2 (hcond id p rfl hp) written found
      have hallowed : (life.phase trace i).Allows id p := hallowed
      cases p with
      | start =>
        rw [hstill rfl _ hallowed]
        exact .start
      | finish st result =>
        obtain ⟨hseen, rfl | rfl⟩ := hallowed
        · rw [hstill rfl _ hseen]
          exact .success
        · rw [hstill rfl _ hseen]
          exact .failed
      | cancel =>
        rw [hstill rfl _ hallowed]
        exact .cancelled
      | release _ => exact hallowed.elim
      | progress _ _ => exact .same _
    · -- the sweep's write checks the status itself
      obtain ⟨prior, rfl⟩ := hallowed
      rw [hrunning]
      exact .failed

/-- A call that ends a run leaves it ended, and finds it not ended. -/
theorem Alive.ends (h : Alive trace w) (hallowed : life.allowed (life.phase trace i) s)
    (hchange : RunChange s w r w') (hcond : Uninterrupted trace ⟨i, s, r, w, w'⟩) {id : Id}
    (hends : endsRun s r = some id) :
    (∃ run, w.db.jobRuns.get id = some run ∧ ¬run.status.Ended) ∧ id < w'.db.jobRuns.next ∧
      ∀ run, w'.db.jobRuns.get id = some run → run.status.Ended := by
  cases hchange with
  | same _ ends => cases ends.symm.trans hends
  | create _ _ ends => cases ends.symm.trans hends
  | update j p run found _ ends =>
    obtain hnone | ⟨hsome, hp, rfl⟩ := ends
    · cases hnone.symm.trans hends
    obtain rfl := Option.some.inj (hsome.symm.trans hends)
    have hafter : (w.updateJobRun j p).db.jobRuns.get j = some (p.apply w.now run) :=
      Table.get_update_self (p.key_apply w.now) found
    have hstill : p.status?.isSome = true → ∀ st, (j, st) ∈ (life.phase trace i).seen →
        run.status = st :=
      fun hp st hseen => (h.seen i j st hseen).2 (hcond j p rfl hp) run found
    have hallowed : (life.phase trace i).Allows j p := hallowed
    refine ⟨⟨run, found, ?_⟩, Table.lt_of_get hafter, fun run' hrun' => ?_⟩
    · cases p with
      | finish st result =>
        rw [hstill rfl _ hallowed.1]
        rintro (hst | hst | hst) <;> cases hst
      | cancel =>
        rw [hstill rfl _ hallowed]
        rintro (hst | hst | hst) <;> cases hst
      | _ => cases hp
    · obtain rfl := Option.some.inj (hafter.symm.trans hrun')
      cases p with
      | finish st result =>
        rcases hallowed.2 with rfl | rfl
        · exact .inl rfl
        · exact .inr (.inl rfl)
      | cancel => exact .inr (.inr rfl)
      | _ => cases hp

/-- An uninterrupted call keeps the invariant. -/
theorem Alive.call (h : Alive trace w) (hallowed : life.allowed (life.phase trace i) s)
    (hout : (machine env).Outcome s w r w') (hcond : Uninterrupted trace ⟨i, s, r, w, w'⟩) :
    Alive (⟨i, s, r, w, w'⟩ :: trace) w' := by
  have hchange := RunChange.of_outcome hallowed hout
  obtain ⟨hnext, hold⟩ := hchange.old
  have hfollows : ∀ id run run', w.db.jobRuns.get id = some run →
      w'.db.jobRuns.get id = some run' → Follows run.status run'.status :=
    fun id run run' hrun hrun' => h.follows hallowed hchange hcond hrun hrun'
  refine ⟨fun j id st hseen => ?_, fun x hx id hends => ?_, ?_, fun id => ?_, ?_⟩
  · -- what was seen
    have hkept : (id, st) ∈ (life.phase trace j).seen → (j = i → s.looksUp = false) →
        id < w'.db.jobRuns.next ∧ (Untouched j id (⟨i, s, r, w, w'⟩ :: trace) →
          ∀ run, w'.db.jobRuns.get id = some run → run.status = st) := by
      intro hseen hlooks
      obtain ⟨hlt, hstatus⟩ := h.seen j id st hseen
      refine ⟨lt_of_lt_of_le hlt hnext, fun huntouched run' hrun' => ?_⟩
      rcases huntouched with ⟨hthread, hlooked⟩ | ⟨hmoves, huntouched⟩
      · have hfalse := hlooks hthread.symm
        rw [hlooked] at hfalse
        cases hfalse
      · obtain ⟨run, hrun⟩ := hold id run' hrun' hlt
        have hsame := not_not.mp hmoves
        simp only [hrun, hrun', Option.map_some, Option.some.injEq] at hsame
        rw [← hsame]
        exact hstatus huntouched run hrun
    by_cases hij : i = j
    · subst hij
      rw [life.phase_cons_self] at hseen
      cases hlooks : s.looksUp with
      | false =>
        have hseen : (id, st) ∈ if s.looksUp then shown s r else (life.phase trace i).seen := hseen
        rw [hlooks] at hseen
        exact hkept hseen fun _ => hlooks
      | true =>
        have hseen : (id, st) ∈ if s.looksUp then shown s r else (life.phase trace i).seen := hseen
        rw [hlooks, if_pos rfl] at hseen
        obtain ⟨rfl, hshown⟩ := shown_of_outcome hout hlooks
        obtain ⟨run, hrun, hst⟩ := hshown id st hseen
        refine ⟨Table.lt_of_get hrun, fun _ run' hrun' => ?_⟩
        obtain rfl := Option.some.inj (hrun.symm.trans hrun')
        exact hst
    · rw [life.phase_cons_of_ne hij] at hseen
      exact hkept hseen fun hji => absurd hji.symm hij
  · -- what was ended
    rcases List.mem_cons.mp hx with rfl | hx
    · exact (h.ends hallowed hchange hcond hends).2
    · obtain ⟨hlt, hended⟩ := h.ended x hx id hends
      refine ⟨lt_of_lt_of_le hlt hnext, fun run' hrun' => ?_⟩
      obtain ⟨run, hrun⟩ := hold id run' hrun' hlt
      have hrunEnded := hended run hrun
      rw [(hfollows id run run' hrun hrun').of_ended hrunEnded]
      exact hrunEnded
  · -- the steps
    intro e he id run run' hrun hrun'
    rcases List.mem_cons.mp he with rfl | he
    · exact hfollows id run run' hrun hrun'
    · exact h.order.follows e he id run run' hrun hrun'
  · -- the ends
    by_cases hends : RunEvent.ended ⟨i, s, r, w, w'⟩ = some id
    · obtain ⟨⟨run, hrun, hnot⟩, -⟩ := h.ends hallowed hchange hcond hends
      have hnone : trace.filter (fun e => RunEvent.ended e == some id) = [] := by
        refine List.filter_eq_nil_iff.mpr fun x hx hx' => ?_
        exact hnot ((h.ended x hx id (beq_iff_eq.mp hx')).2 run hrun)
      rw [List.filter_cons, if_pos (beq_iff_eq.mpr hends), hnone]
      exact le_rfl
    · rw [List.filter_cons, if_neg (by simpa using hends)]
      exact h.order.once id
  · -- the bookings
    intro later e earlier hsplit hbooked
    cases later with
    | cons _ later => exact h.order.books later e earlier (List.cons.inj hsplit).2 hbooked
    | nil =>
      obtain ⟨rfl, rfl⟩ := List.cons.inj hsplit
      have hbooks : booksEnds s r ≠ 0 := hbooked
      cases s with
      | jobBatchUpdate b p =>
        cases r with
        | error e => exact absurd rfl hbooks
        | ok updated =>
          have hallowed : p.ended = 0 ∨
            (life.phase trace i).booked = false ∧ p.ended = (life.phase trace i).ended := hallowed
          obtain ⟨hfirst, hcount⟩ := hallowed.resolve_left hbooks
          refine ⟨?_, phase_booked trace i hfirst⟩
          rw [← phase_ended]
          exact hcount
      | _ => exact absurd rfl hbooks

end Step

/-- The operations and everything around them keep the invariant. -/
theorem life_keeps (env : Env) :
    Keeps (lifecycle env) Uninterrupted life (fun _ _ => True) Alive where
  follows op := by
    cases op with
    | poll hostId mutationBusy => exact poll_follows hostId mutationBusy
    | reportResult hostId jobRunId dto tools =>
      exact life_then (reportResult_follows hostId jobRunId dto tools)
    | cancelBatch orgId userId batchId => exact life_then (cancelBatch_follows orgId userId batchId)
    | failStaleRunningJobs => exact life_then failStaleRunningJobs_follows
  call trace i s r w w' hJ hallowed hout hcond := ⟨trivial, hJ.call hallowed hout hcond⟩
  environment trace w w' hJ he := by
    refine ⟨fun i r st hseen => ?_, fun x hx r hends => ?_, hJ.order⟩
    · obtain ⟨hlt, hstatus⟩ := hJ.seen i r st hseen
      refine ⟨lt_of_lt_of_le hlt he.next, fun huntouched run' hrun' => ?_⟩
      rcases he.status r run' hrun' with ⟨run, hrun, hsame⟩ | ⟨hnew, -⟩
      · exact hsame.trans (hstatus huntouched run hrun)
      · exact absurd hlt (Nat.not_lt.mpr hnew)
    · obtain ⟨hlt, hended⟩ := hJ.ended x hx r hends
      refine ⟨lt_of_lt_of_le hlt he.next, fun run' hrun' => ?_⟩
      rcases he.status r run' hrun' with ⟨run, hrun, hsame⟩ | ⟨hnew, -⟩
      · rw [hsame]
        exact hended run hrun
      · exact absurd hlt (Nat.not_lt.mpr hnew)

/-- In every interleaving of polls, reports, cancellations and sweeps in which no call moves a run
between an operation's lookup and its write of the run's status: every call moves the runs step by
step, each run is ended once, each operation books once, as many ends as it has written, and each
run's end is booked at most once. -/
theorem lifecycle_of_reaches (env : Env) {w₀ : World}
    {c : Config LifeOp Stmt.Resp Err (Option QueueJobData) World}
    (hr : Reaches (lifecycle env) Uninterrupted w₀ c) :
    Lifecycle c.trace ∧ ∀ later e mid e' earlier r, c.trace = later ++ e :: (mid ++ e' :: earlier) →
      ¬(Completes (mid ++ e' :: earlier) e r ∧ Completes earlier e' r) := by
  have hinit : Alive [] w₀ := by
    refine ⟨fun i r st hseen => (nomatch hseen), fun x hx => (nomatch hx), ?_⟩
    refine ⟨fun e he => (nomatch he), fun i => Nat.zero_le 1, fun later e earlier hsplit => ?_⟩
    cases later <;> cases hsplit
  have horder := (Reaches.invariant (life_keeps env) hinit hr).1.order
  exact ⟨horder, fun later e mid e' earlier r hsplit => horder.completes_once hsplit r⟩

section Examples

/-- The agent of the first host reports how the wave's run has ended. -/
def waveReport (status : String) : LifeOp := .reportResult 0 0 ⟨status, none, none, none, none⟩ []

set_option maxRecDepth 10000 in
/-- The sweep takes the time between the first report's lookup of the run and its write, and a second
report finds the run ended before the first one books its end. -/
theorem lifecycle_of_reaches_reports :
    ∃ c : Config LifeOp Stmt.Resp Err (Option QueueJobData) World,
      (∃ answer, c.threads[0]? = some (waveReport "success", .ret (.ok answer))) ∧
        (∃ err, c.threads[1]? = some (waveReport "failed", .ret (.error err))) ∧
          Lifecycle c.trace := by
  have hstarted : Reaches (lifecycle Env.everyMinute) Uninterrupted .waveClaimed
      ⟨.waveClaimed, [(waveReport "success", (lifecycle Env.everyMinute).prog (waveReport "success")),
        (waveReport "failed", (lifecycle Env.everyMinute).prog (waveReport "failed")),
        (.failStaleRunningJobs, (lifecycle Env.everyMinute).prog .failStaleRunningJobs)], []⟩ :=
    .start .failStaleRunningJobs (.start (waveReport "failed") (.start (waveReport "success") .init))
  have hfound := Reaches.call 0 hstarted rfl (.inl ⟨rfl, rfl⟩) fun r p h => nomatch h
  have htime := Reaches.call 2 hfound rfl (.inl ⟨rfl, rfl⟩) fun r p h => nomatch h
  have hwritten := Reaches.call 0 htime rfl (.inl ⟨rfl, rfl⟩) fun r p _ _ =>
    .inr ⟨fun hmoves => hmoves rfl, .inl ⟨rfl, rfl⟩⟩
  -- the second report finds a success, the sweep no running run
  have hended := Reaches.call 1 hwritten rfl (.inl ⟨rfl, rfl⟩) fun r p h => nomatch h
  have hswept := Reaches.call 2 hended rfl (.inl ⟨rfl, rfl⟩) fun r p h => nomatch h
  -- the first report books its end
  have hbatch := Reaches.call 0 hswept rfl (.inl ⟨rfl, rfl⟩) fun r p h => nomatch h
  have hbooked := Reaches.call 0 hbatch rfl (.inl ⟨rfl, rfl⟩) fun r p h => nomatch h
  have hclosed := Reaches.call 0 hbooked rfl (.inl ⟨rfl, rfl⟩) fun r p h => nomatch h
  have hemitted := Reaches.call 0 hclosed rfl (.inl ⟨rfl, rfl⟩) fun r p h => nomatch h
  exact ⟨_, ⟨_, rfl⟩, ⟨_, rfl⟩, (lifecycle_of_reaches Env.everyMinute hemitted).1⟩

set_option maxRecDepth 10000 in
/-- Two reports about one run look it up before either of them writes: the second write makes a
success a failure. -/
theorem success_overwritten : ¬∀ (w₀ : World)
    (c : Config LifeOp Stmt.Resp Err (Option QueueJobData) World),
      Reaches (lifecycle Env.everyMinute) (fun _ _ => True) w₀ c → Lifecycle c.trace := by
  intro hall
  have hstarted : Reaches (lifecycle Env.everyMinute) (fun _ _ => True) .waveClaimed
      ⟨.waveClaimed, [(waveReport "success", (lifecycle Env.everyMinute).prog (waveReport "success")),
        (waveReport "failed", (lifecycle Env.everyMinute).prog (waveReport "failed"))], []⟩ :=
    .start (waveReport "failed") (.start (waveReport "success") .init)
  have hfirst := Reaches.call 0 hstarted rfl (.inl ⟨rfl, rfl⟩) trivial
  have hsecond := Reaches.call 1 hfirst rfl (.inl ⟨rfl, rfl⟩) trivial
  have hsuccess := Reaches.call 0 hsecond rfl (.inl ⟨rfl, rfl⟩) trivial
  have hfailed := Reaches.call 1 hsuccess rfl (.inl ⟨rfl, rfl⟩) trivial
  have hstep := (hall _ _ hfailed).follows _ List.mem_cons_self 0 _ _ rfl rfl
  exact nomatch hstep

end Examples

end Mastermind
