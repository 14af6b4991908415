import Mastermind.Dispatch.Rules

/-!
# What the operations on runs and batches can do

The rules of the operations that move existing runs and the counters of their batches. A run moves
when an agent claims it (`markJobRunStarted_rule`), when its result arrives
(`reportJobResult_rule`), when its batch is cancelled (`cancelBatch_rule`), when the sweep releases
it (`failStaleRunningJobs_rule`), and it goes with its host (`HostsService.remove_rule`). Each rule asks for
the postcondition in the states that the operation can leave; those with a loop ask for an
invariant of what is left to do. Where a state is left only because a call failed, the rule says
which one, so that a run without failures does not have to consider it.
-/

namespace Mastermind

open Effect Effect.Program

variable {env : Env} {may : Stmt → World → Prop} {w : World}

section Counters

open BatchesService

variable {Q : Except Err Unit → World → Prop} {jobId : Id} {j : Job} {b : Id} {x : JobBatch}

/-- Booking the end of a run of the batch `b` moves its counters, and closes the batch if none of
its runs is left to end. -/
theorem BatchesService.recordJobRunCompleted_rule (runStatus priorRunStatus : JobRunStatus)
    (hj : w.db.jobs.get jobId = some j) (hb : j.batchId = some b)
    (hx : w.db.jobBatches.get b = some x)
    (failed : (∃ s w₁, may s w₁) → Q (.error .fault) w)
    (booked : ∀ r progress,
      Q r { w.updateJobBatch b (completion runStatus priorRunStatus) with progress := progress })
    (closed : ((completion runStatus priorRunStatus).apply w.now x).pendingCount ≤ 0 →
      ((completion runStatus priorRunStatus).apply w.now x).runningCount ≤ 0 →
      ∀ r status progress,
        Q r { (w.updateJobBatch b (completion runStatus priorRunStatus)).updateJobBatch b
          (closing status) with progress := progress }) :
    (recordJobRunCompleted j.orgId jobId runStatus priorRunStatus).wp (alone env may) Q w := by
  have hxid : x.id = b := (Table.get_eq_some.mp hx).2
  unfold recordJobRunCompleted
  rw [wp_bind, wp_request, alone_apply]
  refine ⟨?_, fun _ hm => failed ⟨_, _, hm⟩⟩
  simp only [exec, hj, Option.filter_some, beq_self_eq_true, if_true, Option.map_some, hb,
    Option.bind_some, hx, andThen_ok]
  rw [wp_bind, wp_request, alone_apply]
  refine ⟨?_, fun _ hm => failed ⟨_, _, hm⟩⟩
  simp only [exec, hxid, hx, andThen_ok]
  rw [wp_ite]
  by_cases hends : ((completion runStatus priorRunStatus).apply w.now x).pendingCount ≤ 0 ∧
      ((completion runStatus priorRunStatus).apply w.now x).runningCount ≤ 0
  · -- the counters say that this was the last run
    rw [if_pos hends]
    obtain ⟨hpending, hrunning⟩ := hends
    have hx' : (w.updateJobBatch b (completion runStatus priorRunStatus)).db.jobBatches.get b =
        some ((completion runStatus priorRunStatus).apply w.now x) :=
      Table.get_update_self (BatchPatch.key_apply w.now _) hx
    rw [wp_bind, wp_request, alone_apply]
    refine ⟨?_, fun _ _ => booked (.error .fault) w.progress⟩
    simp only [exec, BatchPatch.apply, hxid, hx', andThen_ok]
    rw [emitProgress, wp_request, alone_apply]
    exact ⟨closed hpending hrunning _ _ _, fun h => absurd h Bool.false_ne_true⟩
  · rw [if_neg hends, emitProgress, wp_request, alone_apply]
    exact ⟨booked _ _, fun h => absurd h Bool.false_ne_true⟩

/-- Booking the start of a run of the batch `b` moves its counters. -/
theorem BatchesService.recordJobRunStarted_rule (hj : w.db.jobs.get jobId = some j)
    (hb : j.batchId = some b) (hx : w.db.jobBatches.get b = some x)
    (failed : (∃ s w₁, may s w₁) → Q (.error .fault) w)
    (booked : ∀ r progress, Q r { w.updateJobBatch b started with progress := progress }) :
    (recordJobRunStarted j.orgId jobId).wp (alone env may) Q w := by
  have hxid : x.id = b := (Table.get_eq_some.mp hx).2
  unfold recordJobRunStarted
  rw [wp_bind, wp_request, alone_apply]
  refine ⟨?_, fun _ hm => failed ⟨_, _, hm⟩⟩
  simp only [exec, hj, Option.filter_some, beq_self_eq_true, if_true, Option.map_some, hb,
    Option.bind_some, hx, andThen_ok]
  rw [wp_bind, wp_request, alone_apply]
  refine ⟨?_, fun _ hm => failed ⟨_, _, hm⟩⟩
  simp only [exec, hxid, hx, andThen_ok]
  rw [wp_bind, wp_request, alone_apply]
  refine ⟨?_, fun _ _ => booked (.error .fault) w.progress⟩
  rw [exec, andThen_ok]
  split
  · exact (wp_pure _ _ _).mpr (booked (.ok ()) w.progress)
  · rw [emitProgress, wp_request, alone_apply]
    exact ⟨booked _ _, fun h => absurd h Bool.false_ne_true⟩

end Counters

section Runs

open JobsService

/-- An agent's claim starts a run that is pending and is its host's, and books the start. -/
theorem JobsService.markJobRunStarted_rule (hostId jobRunId : Id)
    {Q : Except Err Unit → World → Prop}
    (kept : ∀ r, (∀ run, w.db.jobRuns.get jobRunId = some run → run.status = .pending →
        run.hostId = hostId → (w.db.jobs.get run.jobId).isSome = true →
        may (.jobRunFindUnique jobRunId) w ∨ may (.jobRunUpdate jobRunId .start) w) → Q r w)
    (started : ∀ run j, w.db.jobRuns.get jobRunId = some run → w.db.jobs.get run.jobId = some j →
      run.hostId = hostId → run.status = .pending →
      (if j.batchId.isSome = true then BatchesService.recordJobRunStarted j.orgId j.id
        else pure ()).wp (alone env may) Q (w.updateJobRun jobRunId .start)) :
    (markJobRunStarted hostId jobRunId).wp (alone env may) Q w := by
  unfold markJobRunStarted
  rw [wp_bind, wp_request, alone_apply]
  refine ⟨?_, fun _ hm => kept _ fun _ _ _ _ _ => .inl hm⟩
  rw [exec, andThen_ok]
  cases hrun : w.db.jobRuns.get jobRunId with
  | none => exact (wp_pure _ _ _).mpr (kept _ fun run h => by rw [hrun] at h; cases h)
  | some run =>
    have same (run' : JobRun) (h : w.db.jobRuns.get jobRunId = some run') : run = run' :=
      Option.some.inj (hrun.symm.trans h)
    cases hj : w.db.jobs.get run.jobId with
    | none =>
      simp only [Option.bind_some, hj, Option.map_none]
      refine (wp_pure _ _ _).mpr (kept _ fun run' h _ _ hjob => ?_)
      rw [← same run' h, hj] at hjob
      cases hjob
    | some j =>
      simp only [Option.bind_some, hj, Option.map_some]
      rw [wp_ite]
      by_cases hskip : run.hostId ≠ hostId ∨ run.status ≠ .pending
      · rw [if_pos hskip]
        refine (wp_pure _ _ _).mpr (kept _ fun run' h hpending hmine => ?_)
        obtain rfl := same run' h
        rcases hskip with hhost | hstatus
        · exact absurd hmine hhost
        · exact absurd hpending hstatus
      · obtain ⟨hmine, hpending⟩ := not_or.mp hskip
        rw [if_neg hskip, wp_bind, wp_request, alone_apply]
        refine ⟨?_, fun _ hm => kept _ fun _ _ _ _ _ => .inr hm⟩
        have hfound : ¬(w.db.jobRuns.get jobRunId).isNone = true := by simp [hrun]
        rw [exec, if_neg hfound]
        exact started run j hrun hj (not_not.mp hmine) (not_not.mp hpending)

/-- The check passes a run that was found, is the host's and is running. -/
theorem JobsService.checkRunning_spec (hostId : Id) (found : Option (JobRun × Job)) :
    (checkRunning hostId found).wp (alone env may)
      (fun r w' => w' = w ∧
        ∀ x, r = .ok x → found = some x ∧ x.1.hostId = hostId ∧ x.1.status = .running) w := by
  have refuse : ∀ e : Err, w = w ∧ ∀ x, Except.error e = .ok x →
      found = some x ∧ x.1.hostId = hostId ∧ x.1.status = .running :=
    fun e => ⟨rfl, fun x h => absurd h (by simp)⟩
  unfold checkRunning
  cases found with
  | none => exact (wp_throw _ _ _).mpr (refuse _)
  | some x =>
    obtain ⟨run, j⟩ := x
    rw [wp_ite]
    split_ifs with hhost hstatus
    · exact (wp_throw _ _ _).mpr (refuse _)
    · exact (wp_throw _ _ _).mpr (refuse _)
    · rw [wp_pure]
      refine ⟨rfl, fun x hx => ?_⟩
      obtain rfl := Except.ok.inj hx
      exact ⟨rfl, not_not.mp hhost, not_not.mp hstatus⟩

/-- What the lookup of a run with its job finds. -/
theorem exec_jobRunFindUnique {id : Id} {run : JobRun} {j : Job}
    (h : ((w.db.jobRuns.get id).bind fun r => (w.db.jobs.get r.jobId).map fun j => (r, j)) =
      some (run, j)) :
    w.db.jobRuns.get id = some run ∧ w.db.jobs.get run.jobId = some j := by
  obtain ⟨r, hr, hmap⟩ := Option.bind_eq_some_iff.mp h
  obtain ⟨j', hj', hpair⟩ := Option.map_eq_some_iff.mp hmap
  obtain ⟨rfl, rfl⟩ := Prod.mk.inj hpair
  exact ⟨hr, hj'⟩

/-- A report that is accepted ends a run that is running and is its host's, does what the job's
type asks for, and books the end. -/
theorem JobsService.reportJobResult_rule (hostId jobRunId : Id) (dto : ReportResultDto)
    (tools : List ConnectionTool) {Q : Except Err Unit → World → Prop}
    (refused : ∀ e, Q (.error e) w)
    (reported : ∀ run j, w.db.jobRuns.get jobRunId = some run → w.db.jobs.get run.jobId = some j →
      run.hostId = hostId → run.status = .running →
      (do
        afterResult env j dto.runStatus dto.output tools
        if j.batchId.isSome = true then
          BatchesService.recordJobRunCompleted j.orgId j.id dto.runStatus .running
        else pure () : Service Unit).wp (alone env may) Q
        (w.updateJobRun jobRunId (.finish dto.runStatus dto.runResult))) :
    (reportJobResult env hostId jobRunId dto tools).wp (alone env may) Q w := by
  unfold reportJobResult
  rw [wp_bind, wp_request, alone_apply]
  refine ⟨?_, fun _ _ => refused _⟩
  rw [exec, andThen_ok]
  refine wp_bind_of alone_monotone (checkRunning_spec hostId _) ?_ ?_
  swap
  · rintro e w' ⟨rfl, -⟩
    exact refused e
  rintro ⟨run, j⟩ w' ⟨rfl, hfound⟩
  obtain ⟨hrunjob, hmine, hrunning⟩ := hfound _ rfl
  obtain ⟨hrun, hj⟩ := exec_jobRunFindUnique hrunjob
  dsimp only
  rw [wp_bind, wp_request, alone_apply]
  refine ⟨?_, fun _ _ => refused _⟩
  have hpresent : ¬(w'.db.jobRuns.get jobRunId).isNone = true := by simp [hrun]
  rw [exec, if_neg hpresent]
  exact reported run j hrun hj hmine hrunning

/-- A progress report stores the phase with a run that is running and is its host's. -/
theorem JobsService.reportJobProgress_rule (hostId jobRunId : Id) (phase : String)
    (message : Option String) {Q : Except Err Unit → World → Prop} (kept : ∀ r, Q r w)
    (reported : ∀ run, w.db.jobRuns.get jobRunId = some run → run.status = .running →
      ∀ r message, Q r (w.updateJobRun jobRunId (.progress phase message))) :
    (reportJobProgress hostId jobRunId phase message).wp (alone env may) Q w := by
  unfold reportJobProgress
  rw [wp_bind, wp_request, alone_apply]
  refine ⟨?_, fun _ _ => kept _⟩
  rw [exec, andThen_ok]
  refine wp_bind_of alone_monotone (checkRunning_spec hostId _) ?_ ?_
  swap
  · rintro e w' ⟨rfl, -⟩
    exact kept _
  rintro ⟨run, j⟩ w' ⟨rfl, hfound⟩
  obtain ⟨hrunjob, -, hrunning⟩ := hfound _ rfl
  obtain ⟨hrun, -⟩ := exec_jobRunFindUnique hrunjob
  rw [wp_request, alone_apply]
  refine ⟨?_, fun _ _ => kept _⟩
  have hpresent : ¬(w'.db.jobRuns.get jobRunId).isNone = true := by simp [hrun]
  rw [exec, if_neg hpresent]
  exact reported run hrun hrunning _ _

/-- The sweep releases runs that have been silent for too long, and passes over a run that is not
or that has ended meanwhile. `I` is an invariant of its loop over the runs that it found running. -/
theorem JobsService.failStaleRunningJobs_rule {Q : Except Err Unit → World → Prop}
    (I : List JobRun → World → Prop) (failed : (∃ s w₁, may s w₁) → Q (.error .fault) w)
    (start : I (w.db.jobRuns.rows.filter fun r => r.status == .running) w)
    (skip : ∀ run rest w₁, I (run :: rest) w₁ → (w.now ≤ heartbeat run + staleAfter ∨
      ¬((w₁.db.jobRuns.get run.id).any fun r => r.status == .running) = true) → I rest w₁)
    (release : ∀ run rest w₁, I (run :: rest) w₁ → heartbeat run + staleAfter < w.now →
      ((w₁.db.jobRuns.get run.id).any fun r => r.status == .running) = true →
      I rest (w₁.updateJobRun run.id (.release (run.result.getD RunResult.none))))
    (stop : ∀ rest w₁, (∃ s w₂, may s w₂) → I rest w₁ → Q (.error .fault) w₁)
    (done : ∀ w₁, I [] w₁ → Q (.ok ()) w₁) :
    failStaleRunningJobs.wp (alone env may) Q w := by
  unfold failStaleRunningJobs
  rw [wp_bind, wp_request, alone_apply]
  refine ⟨?_, fun h => absurd h Bool.false_ne_true⟩
  rw [exec, andThen_ok, wp_bind, wp_request, alone_apply]
  refine ⟨?_, fun _ hm => failed ⟨_, _, hm⟩⟩
  rw [exec, andThen_ok]
  refine wp_foldlM alone_monotone (fun rest _ w₁ => I rest w₁) ?_ (fun _ w₁ h => done w₁ h) _ _ _
    start
  rintro run rest ⟨⟩ w₁ hI
  rw [wp_ite]
  split_ifs with hfresh
  · exact (wp_pure _ _ _).mpr (skip run rest w₁ hI (.inl hfresh))
  · rw [wp_request, alone_apply]
    refine ⟨?_, fun _ hm => stop _ _ ⟨_, _, hm⟩ hI⟩
    rw [exec]
    split_ifs with hrunning
    · exact release run rest w₁ hI (not_le.mp hfresh) hrunning
    · exact skip run rest w₁ hI (.inr hrunning)

end Runs

section Cancelling

open BatchesService

/-- Taking an entry out of the queue changes the queue only. -/
theorem BatchesService.removeEntry_spec (orgId runId : Id) :
    (cancelJob.removeEntry orgId runId).wp (alone env may)
      (fun _ w' => w' = w ∨ w' = w.dequeue orgId runId) w := by
  unfold cancelJob.removeEntry
  rw [wp_bind, wp_request, alone_apply]
  refine ⟨?_, fun _ _ => .inl rfl⟩
  rw [exec, andThen_ok]
  split
  · exact (wp_pure _ _ _).mpr (.inl rfl)
  · rw [wp_request, alone_apply]
    exact ⟨.inr rfl, fun _ _ => .inl rfl⟩

/-- One round of the loop of `cancelBatch`. -/
theorem BatchesService.cancelJob_rule (orgId : Id) (cancelled : ℕ) (run : Option JobRun)
    {Q : Except Err ℕ → World → Prop}
    (skip : (∀ r, run = some r → r.status ≠ .pending) → Q (.ok cancelled) w)
    (failed : ∀ r e, run = some r → r.status = .pending →
      ((w.db.jobRuns.get r.id).isSome = true → ∃ s w₁, may s w₁) → Q (.error e) w)
    (cancel : ∀ r w₁, run = some r → r.status = .pending →
      (w.db.jobRuns.get r.id).isSome = true →
      (w₁ = w.updateJobRun r.id .cancel ∨
        w₁ = (w.updateJobRun r.id .cancel).dequeue orgId r.id) → Q (.ok (cancelled + 1)) w₁) :
    (cancelJob orgId cancelled run).wp (alone env may) Q w := by
  unfold cancelJob
  cases run with
  | none => exact (wp_pure _ _ _).mpr (skip fun r hr => absurd hr (by simp))
  | some r =>
    dsimp only
    rw [wp_ite]
    split_ifs with hstatus
    · exact (wp_pure _ _ _).mpr (skip fun r' hr' => Option.some.inj hr' ▸ hstatus)
    rw [wp_bind, wp_request, alone_apply]
    refine ⟨?_, fun _ hm => failed r _ rfl (not_not.mp hstatus) fun _ => ⟨_, _, hm⟩⟩
    rw [exec]
    split_ifs with hgone
    · refine failed r _ rfl (not_not.mp hstatus) fun hfound => ?_
      rw [Option.isNone_iff_eq_none.mp hgone] at hfound
      cases hfound
    · have hfound : (w.db.jobRuns.get r.id).isSome = true :=
        Option.isSome_iff_ne_none.mpr fun h => hgone (Option.isNone_iff_eq_none.mpr h)
      rw [andThen_ok, wp_bind, wp_tryCatch]
      refine wp_mono alone_monotone ?_ (removeEntry_spec orgId r.id)
      rintro (e | u) w₁ hw₁
      · rw [orElse_error, wp_pure, andThen_ok, wp_pure]
        exact cancel r w₁ rfl (not_not.mp hstatus) hfound hw₁
      · rw [orElse_ok, andThen_ok, wp_pure]
        exact cancel r w₁ rfl (not_not.mp hstatus) hfound hw₁

/-- What `cancelBatch` goes through: the jobs of a batch, each with its newest run. -/
def Database.batchRuns (db : Database) (b : Id) : List (Job × Option JobRun) :=
  (db.jobs.rows.filter fun j => j.batchId == some b).map fun j => (j, db.latestRun j.id)

/-- The newest run of a job is a run of the job. -/
theorem Database.latestRun_spec {db : Database} {jobId : Id} {r : JobRun}
    (h : db.latestRun jobId = some r) : r ∈ db.jobRuns.rows ∧ r.jobId = jobId := by
  obtain ⟨hr, hjob⟩ := List.mem_filter.mp (List.mem_of_getLast? h)
  exact ⟨hr, by simpa using hjob⟩

/-- What `cancelBatch` goes through are runs of the batch. -/
theorem Database.mem_batchRuns {db : Database} {b : Id} {j : Job} {run : Option JobRun}
    (h : (j, run) ∈ db.batchRuns b) {r : JobRun} (hr : run = some r) :
    db.jobRuns.get r.id = some r ∧ db.batchOf r = some b := by
  obtain ⟨j', hj', hpair⟩ := List.mem_map.mp h
  obtain ⟨rfl, rfl⟩ := Prod.mk.inj hpair
  obtain ⟨hmem, hbatch⟩ := List.mem_filter.mp hj'
  obtain ⟨hrun, hjob⟩ := Database.latestRun_spec hr
  refine ⟨Table.get_key hrun, ?_⟩
  unfold batchOf
  rw [hjob, show db.jobs.get j'.id = some j' from Table.get_key hmem, Option.bind_some]
  simpa using hbatch

/-- It goes through every run once. -/
theorem Database.batchRuns_pairwise (db : Database) (b : Id) :
    (db.batchRuns b).Pairwise fun x y =>
      ∀ r r', x.2 = some r → y.2 = some r' → r.id ≠ r'.id := by
  unfold batchRuns
  rw [List.pairwise_map]
  have hkeys : db.jobs.rows.Pairwise fun j j' => j.id ≠ j'.id :=
    List.pairwise_map.mp db.jobs.nodup
  refine (hkeys.filter _).imp fun {j j'} hne r r' hr hr' hid => ?_
  -- one run would be the newest of two jobs
  obtain ⟨hmem, hjob⟩ := Database.latestRun_spec hr
  obtain ⟨hmem', hjob'⟩ := Database.latestRun_spec hr'
  obtain rfl := db.jobRuns.eq_of_key_eq hmem hmem' hid
  exact hne (hjob.symm.trans hjob')

/-- Cancelling a batch cancels those of its runs that are pending, and then books them. `I` is an
invariant of the loop over its jobs, which counts the runs cancelled. -/
theorem BatchesService.cancelBatch_rule (orgId batchId : Id)
    {Q : Except Err JobBatch → World → Prop} (I : List (Job × Option JobRun) → ℕ → World → Prop)
    (refused : ∀ e, Q (.error e) w)
    (start : ∀ x, w.db.jobBatches.get batchId = some x → x.orgId = orgId → x.status = .running →
      I (w.db.batchRuns batchId) 0 w)
    (skip : ∀ j run rest n w₁, I ((j, run) :: rest) n w₁ →
      (∀ r, run = some r → r.status ≠ .pending) → I rest n w₁)
    (cancel : ∀ j r rest n w₁ w₂, I ((j, some r) :: rest) n w₁ → r.status = .pending →
      (w₁.db.jobRuns.get r.id).isSome = true →
      (w₂ = w₁.updateJobRun r.id .cancel ∨
        w₂ = (w₁.updateJobRun r.id .cancel).dequeue orgId r.id) → I rest (n + 1) w₂)
    (stop : ∀ j r rest n w₁ e, I ((j, some r) :: rest) n w₁ → r.status = .pending →
      ((w₁.db.jobRuns.get r.id).isSome = true → ∃ s w₂, may s w₂) → Q (.error e) w₁)
    (unbooked : ∀ n w₁ e, I [] n w₁ →
      ((w₁.db.jobBatches.get batchId).isSome = true → ∃ s w₂, may s w₂) → Q (.error e) w₁)
    (done : ∀ n w₁ r logs progress, I [] n w₁ →
      Q r { w₁.updateJobBatch batchId (cancellation n) with
        db.auditLogs := logs, progress := progress }) :
    (cancelBatch orgId batchId).wp (alone env may) Q w := by
  unfold cancelBatch
  rw [wp_bind, wp_request, alone_apply]
  refine ⟨?_, fun _ _ => refused _⟩
  rw [exec, andThen_ok]
  cases hx : w.db.jobBatches.get batchId with
  | none => exact (wp_throw _ _ _).mpr (refused _)
  | some x =>
    have hid : x.id = batchId := (Table.get_eq_some.mp hx).2
    by_cases horg : x.orgId = orgId
    swap
    · simp only [Option.filter_some, beq_iff_eq, horg, if_false, Option.map_none]
      exact (wp_throw _ _ _).mpr (refused _)
    simp only [Option.filter_some, beq_iff_eq, horg, if_true, Option.map_some]
    rw [wp_ite]
    split_ifs with hstatus
    · exact (wp_throw _ _ _).mpr (refused _)
    have hstart := start x hx horg (not_not.mp hstatus)
    rw [wp_bind, hid]
    refine wp_foldlM alone_monotone I ?_ ?_ _ _ _ hstart
    · -- a round of the loop
      rintro ⟨j, run⟩ rest n w₁ hI
      refine cancelJob_rule orgId n run ?_ ?_ ?_
      · exact fun hkept => skip j run rest n w₁ hI hkept
      · intro r e hr hpending hm
        subst hr
        exact stop j r rest n w₁ e hI hpending hm
      · intro r w₂ hr hpending hfound hw₂
        subst hr
        exact cancel j r rest n w₁ w₂ hI hpending hfound hw₂
    · -- the runs are cancelled and the batch is not yet
      intro n w₁ hI
      rw [andThen_ok, wp_bind, wp_request, alone_apply]
      refine ⟨?_, fun _ hm => unbooked n w₁ _ hI fun _ => ⟨_, _, hm⟩⟩
      cases hx₁ : w₁.db.jobBatches.get batchId with
      | none =>
        simp only [exec, hx₁]
        exact unbooked n w₁ _ hI fun h => by rw [hx₁] at h; cases h
      | some x₁ =>
        simp only [exec, hx₁, andThen_ok]
        rw [audit, wp_bind, wp_request, alone_apply]
        refine ⟨?_, fun _ _ => done n w₁ _ w₁.db.auditLogs w₁.progress hI⟩
        rw [exec, andThen_ok, emitProgress, wp_bind, wp_request, alone_apply]
        exact ⟨(wp_pure _ _ _).mpr (done n w₁ _ _ _ hI), fun h => absurd h Bool.false_ne_true⟩

end Cancelling

section Creating

open BatchesService

/-- The server instances that `createBatch` finds for a request. -/
def Database.batchServers (db : Database) (orgId : Id) (dto : CreateBatchDto) :
    List ServerInstance :=
  db.serverInstances.rows.filter fun s => dto.serverInstanceIds.contains s.id && s.orgId == orgId

/-- Creating a batch books all of its runs before it dispatches the first one. `I` is an invariant
of the loop over its server instances, given the id of the batch. -/
theorem BatchesService.createBatch_rule (orgId : Id) (userId : Option Id) (dto : CreateBatchDto)
    {Q : Except Err JobBatch → World → Prop} (I : List ServerInstance → World → Prop)
    (refused : ∀ e, Q (.error e) w)
    (start : (w.db.batchServers orgId dto).length = dto.serverInstanceIds.length →
      I (w.db.batchServers orgId dto)
        (w.insertJobBatch ⟨orgId, dto.type, (w.db.batchServers orgId dto).length, userId⟩))
    (round : ∀ si rest w₁ audit, I (si :: rest) w₁ →
      (creation orgId userId dto w.db.jobBatches.next si).Refers w₁ →
      I rest (((creation orgId userId dto w.db.jobBatches.next si).queued w₁).log audit))
    (stop : ∀ si rest w₁ w₂ e, I (si :: rest) w₁ →
      (w₂ = w₁ ∨ (creation orgId userId dto w.db.jobBatches.next si).Ends may w₁ w₂) →
      ((creation orgId userId dto w.db.jobBatches.next si).Refers w₁ → ∃ s w₃, may s w₃) →
      Q (.error e) w₂)
    (done : ∀ w₁ r logs, I [] w₁ → Q r { w₁ with db.auditLogs := logs }) :
    (createBatch orgId userId dto).wp (alone env may) Q w := by
  unfold createBatch
  rw [wp_bind, wp_request, alone_apply]
  refine ⟨?_, fun _ _ => refused _⟩
  have hfound : exec env (.serverInstanceFindMany dto.serverInstanceIds orgId) w =
      (.ok (w.db.batchServers orgId dto), w) := rfl
  rw [hfound, andThen_ok, wp_ite]
  by_cases hlength : (w.db.batchServers orgId dto).length ≠ dto.serverInstanceIds.length
  · rw [if_pos hlength]
    exact (wp_throw _ _ _).mpr (refused _)
  rw [if_neg hlength, wp_bind, wp_request, alone_apply]
  refine ⟨?_, fun _ _ => refused _⟩
  rw [exec, andThen_ok, wp_bind]
  refine wp_foldlM alone_monotone (fun rest _ w₁ => I rest w₁) ?_ ?_ _ _ _
    (start (not_not.mp hlength))
  · rintro si rest ⟨⟩ w₁ hI
    refine wp_mono alone_monotone ?_ (createBatchJob_spec orgId userId dto _ si)
    rintro (e | ⟨⟩) w₂ h
    · exact stop si rest w₁ w₂ e hI h.1 h.2
    · obtain ⟨hrefers, audit, rfl⟩ := h
      exact round si rest w₁ audit hI hrefers
  · rintro ⟨⟩ w₁ hI
    rw [andThen_ok, audit, wp_bind, wp_request, alone_apply]
    exact ⟨(wp_pure _ _ _).mpr (done w₁ _ _ hI), fun _ _ => done w₁ _ w₁.db.auditLogs hI⟩

end Creating

section Removing

/-- A host can be removed by the user: it is one of the organization and has no server instances,
and the user's role is admin or operator. -/
def World.Removable (w : World) (orgId userId hostId : Id) : Prop :=
  (w.db.userOrg userId orgId).any JobsService.isAdminOrOperator = true ∧
    (∃ h, w.db.hosts.get hostId = some h ∧ h.orgId = orgId) ∧
      (w.db.serverInstances.rows.any fun s => s.hostId == hostId) = false

/-- Removing a host deletes it with its runs, or changes nothing. -/
theorem HostsService.remove_rule (orgId userId hostId : Id)
    {Q : Except Err Unit → World → Prop} (kept : ∀ r, Q r w)
    (removed : (∃ h, w.db.hosts.get hostId = some h ∧ h.orgId = orgId) →
      (w.db.serverInstances.rows.any fun s => s.hostId == hostId) = false →
      ∀ audit, Q (.ok ()) (w.removeHost hostId audit)) :
    (HostsService.remove orgId hostId userId).wp (alone env may) Q w := by
  unfold HostsService.remove
  rw [wp_bind, wp_request, alone_apply]
  refine ⟨?_, fun _ _ => kept _⟩
  rw [exec, andThen_ok]
  cases hhost : w.db.hosts.get hostId with
  | none => exact (wp_throw _ _ _).mpr (kept _)
  | some h =>
    by_cases horg : h.orgId = orgId
    swap
    · simp only [Option.filter_some, beq_iff_eq, horg, if_false, Option.map_none]
      exact (wp_throw _ _ _).mpr (kept _)
    simp only [Option.filter_some, beq_iff_eq, horg, if_true, Option.map_some]
    rw [wp_ite]
    split_ifs with hservers
    · exact (wp_throw _ _ _).mpr (kept _)
    rw [wp_request, alone_apply]
    refine ⟨?_, fun _ _ => kept _⟩
    rw [exec]
    split_ifs with hgone hused
    · exact kept _
    · exact kept _
    · exact removed ⟨h, hhost, horg⟩ (Bool.not_eq_true _ ▸ hused) _

/-- Removing a server instance deletes it with its schedules, or changes nothing. -/
theorem ServerInstancesService.remove_rule (orgId userId id : Id)
    {Q : Except Err Unit → World → Prop} (kept : ∀ r, Q r w)
    (removed : ∀ r logs,
      Q r { w.removeServerInstance id with db.auditLogs := logs }) :
    (ServerInstancesService.remove orgId userId id).wp (alone env may) Q w := by
  unfold ServerInstancesService.remove
  rw [wp_bind, wp_request, alone_apply]
  refine ⟨?_, fun _ _ => kept _⟩
  rw [exec, andThen_ok]
  cases ((w.db.serverInstances.get id).filter fun s => s.orgId == orgId).map fun s =>
      (s, w.db.avoidBloodMoonRestart s.orgId) with
  | none => exact (wp_throw _ _ _).mpr (kept _)
  | some found =>
    obtain ⟨existing, avoid⟩ := found
    dsimp only
    rw [wp_bind, wp_request, alone_apply]
    refine ⟨?_, fun _ _ => kept _⟩
    rw [exec]
    split_ifs with hgone
    · exact kept _
    · rw [andThen_ok, wp_request, alone_apply]
      exact ⟨removed _ _, fun _ _ => removed _ (w.removeServerInstance id).db.auditLogs⟩

end Removing

section Requests

/-- A program behind the role guard runs if the guard lets the user pass. -/
theorem wp_orgRoleGuard {α : Type} (userId orgId : Id) (p : Service α)
    {Q : Except Err α → World → Prop} (refused : ∀ e, Q (.error e) w)
    (passed : (w.db.userOrg userId orgId).any JobsService.isAdminOrOperator = true →
      p.wp (alone env may) Q w) :
    (do orgRoleGuard userId orgId; p).wp (alone env may) Q w := by
  refine wp_bind_of alone_monotone (orgRoleGuard_spec userId orgId) ?_ ?_
  · rintro ⟨⟩ w' ⟨rfl, hrole⟩
    exact passed (hrole rfl)
  · rintro e w' ⟨rfl, -⟩
    exact refused e

/-- An operation that hands out no job ends in the states in which its program does. -/
theorem wp_handsOutNothing {α : Type} {p : Service α} {I : World → Prop}
    (h : p.wp (alone env may) (fun _ w' => I w') w) :
    (do let _ ← p; return none : Service (Option QueueJobData)).wp (alone env may)
      (fun _ w' => I w') w := by
  refine wp_bind_of alone_monotone h ?_ (fun _ _ h => h)
  exact fun _ _ h => (wp_pure _ _ _).mpr h

end Requests

end Mastermind
