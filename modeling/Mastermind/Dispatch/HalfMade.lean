import Mastermind.Dispatch.Accounting
import Mastermind.Dispatch.Moves

/-!
# Batches whose creation fails

`createBatch` writes the batch with its final counters and then makes four calls for each server
instance. A call that fails ends it, and nothing takes back what the calls before have written.
`createBatch_whole_iff` says for every call, by its number, whether the batch is then whole
(`World.Whole`): its counters are those of its runs, and every one of its runs is queued.

Among the runs of a batch `Counted` follows how many there are and `Queued` that they are queued;
`createBatchJobs_planned` is about the loop over the server instances, by induction on these.
-/

namespace Mastermind

open Effect Effect.Program

/-- The number of runs of the batch `b`. -/
def Database.batchSize (db : Database) (b : Id) : ℕ :=
  db.jobRuns.count fun r => db.batchOf r == some b

/-- Every run of the batch is queued in the organization's queue. -/
def World.Queued (w : World) (orgId b : Id) : Prop :=
  ∀ r ∈ w.db.jobRuns.rows, w.db.batchOf r = some b →
    ∃ e ∈ w.queues orgId, e.data.jobRunId = r.id

/-- The total and the counters of the batch are the numbers of its runs, and every one of them is
queued. -/
structure World.Whole (w : World) (b : JobBatch) : Prop where
  total : b.totalCount = w.db.batchSize b.id
  counter : ∀ st, b.counter st = w.db.tally b.id st
  queued : w.Queued b.orgId b.id

/-- The entries of the queue are of runs that were created. -/
def World.Fresh (w : World) : Prop :=
  ∀ orgId, ∀ e ∈ w.queues orgId, e.id < w.db.jobRuns.next ∧ e.data.jobRunId < w.db.jobRuns.next

section Fresh

variable {env : Env} {may : Stmt → World → Prop} {w w' : World}

/-- What is dispatched has the id of a new run. -/
theorem Creation.Ends.fresh {c : Creation} (he : c.Ends may w w') (h : w.Fresh)
    (hid : ∀ jobId runId, (c.entry jobId runId).id = runId ∧
      (c.entry jobId runId).data.jobRunId = runId) : w'.Fresh := by
  have hold : ∀ orgId, ∀ e ∈ w.queues orgId, e.id < w.db.jobRuns.next + 1 ∧
      e.data.jobRunId < w.db.jobRuns.next + 1 := fun orgId e he =>
    ⟨Nat.lt_succ_of_lt (h orgId e he).1, Nat.lt_succ_of_lt (h orgId e he).2⟩
  cases he with
  | job _ => exact h
  | run _ _ => exact hold
  | queued _ =>
    intro orgId e he
    rcases World.mem_enqueue he with he | ⟨-, rfl⟩
    · exact hold orgId e he
    · obtain ⟨hentry, hrun⟩ := hid w.db.jobs.next w.db.jobRuns.next
      unfold Creation.queueEntry
      rw [hentry, hrun]
      exact ⟨Nat.lt_succ_self _, Nat.lt_succ_self _⟩

/-- A change that creates no run and adds no entry. -/
theorem World.Fresh.frame (h : w.Fresh) (hnext : w'.db.jobRuns.next = w.db.jobRuns.next)
    (hqueues : ∀ orgId, ∀ e' ∈ w'.queues orgId,
      ∃ e ∈ w.queues orgId, e'.id = e.id ∧ e'.data = e.data) : w'.Fresh := by
  intro orgId e' he'
  obtain ⟨e, he, hid, hdata⟩ := hqueues orgId e' he'
  rw [hid, hdata, hnext]
  exact h orgId e he

theorem Move.fresh {o : Op} (hm : Move env may o w w') (h : w.Fresh) : w'.Fresh := by
  have hsame : ∀ orgId, ∀ e ∈ w.queues orgId,
      ∃ e' ∈ w.queues orgId, e.id = e'.id ∧ e.data = e'.data := fun _ e he => ⟨e, he, rfl, rfl⟩
  have hless : ∀ org id orgId, ∀ e ∈ (w.dequeue org id).queues orgId,
      ∃ e' ∈ w.queues orgId, e.id = e'.id ∧ e.data = e'.data :=
    fun _ _ _ e he => ⟨e, (World.mem_dequeue.mp he).1, rfl, rfl⟩
  cases hm with
  | create _ creates ends =>
    obtain ⟨-, -, -, -⟩ := creates
    exact ends.fresh h fun _ _ => ⟨rfl, rfl⟩
  | enforce _ creates ends =>
    obtain ⟨-, -, -, -⟩ := creates
    exact ends.fresh h fun _ _ => ⟨rfl, rfl⟩
  | moderate enqueues ends =>
    obtain ⟨-, -⟩ := enqueues
    exact ends.fresh h fun _ _ => ⟨rfl, rfl⟩
  | fire fires ends =>
    obtain ⟨-, -, -, -⟩ := fires
    exact ends.fresh h fun _ _ => ⟨rfl, rfl⟩
  | batchJob _ _ _ ends => exact ends.fresh h fun _ _ => ⟨rfl, rfl⟩
  | book rescheduled =>
    obtain ⟨_, _, rfl, -⟩ := rescheduled
    exact h.frame rfl hsame
  | cancelRun _ cancelled =>
    rcases cancelled with rfl | rfl
    · exact h.frame rfl hsame
    · exact h.frame rfl (hless _ _)
  | schedule _ _ _ _ retimed =>
    obtain ⟨_, rfl⟩ := retimed
    exact h.frame rfl hsame
  | edit _ _ _ _ _ _ retimed =>
    obtain ⟨_, rfl⟩ := retimed
    exact h.frame rfl hsame
  | promote promoted =>
    refine h.frame (by obtain ⟨_, rfl, -⟩ := promoted; rfl) fun orgId e he => ?_
    obtain ⟨e', he', hdue⟩ := promoted.mem_due he
    have hid : e'.due.id = e.due.id := congrArg QueueEntry.id hdue
    have hdata : e'.due.data = e.due.data := congrArg QueueEntry.data hdue
    exact ⟨e', he', hid.symm, hdata.symm⟩
  | claim _ _ _ _ _ _ _ _ _ => exact h.frame rfl (hless _ _)
  | drop _ _ _ _ => exact h.frame rfl (hless _ _)
  | _ => exact h.frame rfl hsame

/-- In every state reached the entries are of runs that were created. -/
theorem World.fresh_of_runs {cond : Op → List Bool → World → Prop}
    {h : List (Turn Op Err (Option QueueJobData) World)}
    (hr : Runs (controlPlane env) cond World.initial h w) : w.Fresh := by
  refine runs_of_moves (fun _ _ => True) ?_ (fun _ _ _ _ _ _ => trivial) ?_ ?_ hr
  · exact fun _ _ he => nomatch he
  · exact fun _ _ _ _ _ _ _ _ hw hm => hm.fresh hw
  · intro w w' hw he
    cases he <;> exact hw

end Fresh

/-- A new job is not the job of an earlier run. -/
theorem batchOf_insertJob {w : World} (h : Integrity w.db) {data : JobData} {r : JobRun}
    (hr : r ∈ w.db.jobRuns.rows) : (w.insertJob data).db.batchOf r = w.db.batchOf r := by
  obtain ⟨j, hj⟩ := h.jobOfRun r hr
  unfold Database.batchOf
  rw [World.get_insertJob hj, hj]

/-- The batch is as it was created, `n` runs of it exist, and these are pending. -/
structure Counted (b : JobBatch) (n : ℕ) (w : World) : Prop where
  integrity : Integrity w.db
  batch : w.db.jobBatches.get b.id = some b
  size : w.db.batchSize b.id = n
  pending : ∀ r ∈ w.db.jobRuns.rows, w.db.batchOf r = some b.id → r.status = .pending

namespace Counted

variable {b : JobBatch} {n : ℕ} {w : World}

/-- The number of runs in a status. -/
theorem tally (h : Counted b n w) (st : JobRunStatus) :
    w.db.tally b.id st = if st = .pending then n else 0 := by
  unfold Database.tally
  split_ifs with hst
  · rw [← h.size]
    refine Table.count_congr fun r hr => ?_
    rw [Bool.eq_iff_iff, Bool.and_eq_true, beq_iff_eq, beq_iff_eq, and_iff_left_iff_imp, hst]
    exact h.pending r hr
  · have hnone : w.db.jobRuns.count (fun r => w.db.batchOf r == some b.id && r.status == st) =
        w.db.jobRuns.count fun _ => false := by
      refine Table.count_congr fun r hr => ?_
      rw [Bool.and_eq_false_iff, beq_eq_false_iff_ne, beq_eq_false_iff_ne]
      by_cases hof : w.db.batchOf r = some b.id
      · exact .inr fun hr' => hst (hr' ▸ h.pending r hr hof)
      · exact .inl hof
    rw [hnone]
    simp [Table.count]

/-- A batch that was created for `total` server instances is whole if all of its runs exist and are
queued. -/
theorem whole_iff {orgId : Id} {type : BatchType} {total : ℕ} {userId : Option Id} {now i : ℕ}
    (hb : b = BatchData.row ⟨orgId, type, total, userId⟩ now i) (h : Counted b n w) :
    w.Whole b ↔ n = total ∧ w.Queued orgId b.id := by
  have horg : b.orgId = orgId := by rw [hb]; rfl
  have htotal : b.totalCount = total := by rw [hb]; rfl
  constructor
  · intro hwhole
    have hsize := hwhole.total
    rw [h.size, htotal] at hsize
    exact ⟨by exact_mod_cast hsize.symm, horg ▸ hwhole.queued⟩
  · rintro ⟨rfl, hqueued⟩
    refine ⟨?_, fun st => ?_, horg ▸ hqueued⟩
    · rw [h.size, htotal]
    · rw [h.tally, hb]
      cases st <;> rfl

/-- The audit log and the queues are not looked at. -/
theorem frame (h : Counted b n w) {w' : World} {logs : List AuditLog}
    (hdb : w'.db = { w.db with auditLogs := logs }) : Counted b n w' := by
  obtain ⟨hintegrity, hbatch, hsize, hpending⟩ := h
  refine ⟨?_, ?_, ?_, ?_⟩
  · rw [hdb]
    exact hintegrity.congr rfl rfl rfl rfl rfl
  · rw [hdb]
    exact hbatch
  · rw [hdb]
    exact hsize
  · rw [hdb]
    exact hpending

/-- A job of the batch has no run yet. -/
theorem job (h : Counted b n w) {data : JobData} (hd : w.db.refersToRecords data = true) :
    Counted b n (w.insertJob data) := by
  have hof : ∀ r ∈ w.db.jobRuns.rows, (w.insertJob data).db.batchOf r = w.db.batchOf r :=
    fun r hr => batchOf_insertJob h.integrity hr
  refine ⟨h.integrity.insertJob hd, h.batch, ?_, fun r hr hb => h.pending r hr (hof r hr ▸ hb)⟩
  rw [← h.size]
  exact Table.count_congr fun r hr => by rw [hof r hr]

/-- A run of a job of the batch is one more. -/
theorem run (h : Counted b n w) {jobId hostId : Id} {j : Job}
    (hj : w.db.jobs.get jobId = some j) (hbatch : j.batchId = some b.id)
    (hh : (w.db.hosts.get hostId).isSome = true) :
    Counted b (n + 1) (w.insertJobRun jobId hostId) := by
  have hnew : w.db.batchOf (pendingRun jobId hostId w.db.jobRuns.next) = some b.id := by
    unfold Database.batchOf pendingRun
    rw [hj, Option.bind_some, hbatch]
  refine ⟨h.integrity.insertJobRun (by rw [hj]; rfl) hh, h.batch, ?_, fun r hr hb => ?_⟩
  · rw [← h.size]
    refine (Table.count_insert _ _ (key_pendingRun jobId hostId) _).trans ?_
    have hclass : (w.db.batchOf (pendingRun jobId hostId w.db.jobRuns.next) == some b.id) = true :=
      beq_iff_eq.mpr hnew
    exact congrArg _ (if_pos hclass)
  · rcases World.mem_insertJobRun.mp hr with hr | rfl
    · exact h.pending r hr hb
    · rfl

end Counted

namespace BatchesService

variable {env : Env} {orgId : Id} {userId : Option Id} {dto : CreateBatchDto}

/-- The four calls for one server instance, of which the number `k` fails. -/
theorem createBatchJob_planned {b : JobBatch} {si : ServerInstance} {w : World}
    (hrefers : (creation orgId userId dto b.id si).Refers w) (k : ℕ)
    {Q : Except Err Unit → List Bool × World → Prop}
    (job : k = 0 → Q (.error .fault) ([], w))
    (run : k = 1 → Q (.error .fault) ([], (creation orgId userId dto b.id si).job w))
    (entry : k = 2 → Q (.error .fault) ([], (creation orgId userId dto b.id si).run w))
    (logged : k = 3 → Q (.error .fault) ([], (creation orgId userId dto b.id si).queued w))
    (done : ∀ k' audit, k = k' + 4 →
      Q (.ok ()) (failAt k', ((creation orgId userId dto b.id si).queued w).log audit)) :
    (createBatchJob orgId userId dto b si).wp (planned (machine env)) Q (failAt k, w) := by
  have hjob : ((w.insertJob (creation orgId userId dto b.id si).data).db.jobs.get
      ((creation orgId userId dto b.id si).data.row w.db.jobs.next).id).isSome = true :=
    congrArg Option.isSome (Table.get_insert_next w.db.jobs _ fun _ => rfl)
  have hexecJob : exec env (.jobCreate (creation orgId userId dto b.id si).data) w =
      (.ok ((creation orgId userId dto b.id si).data.row w.db.jobs.next),
        (creation orgId userId dto b.id si).job w) := by
    rw [exec, if_pos hrefers.1]
    rfl
  have hexecRun : exec env (.jobRunCreate w.db.jobs.next si.hostId)
      ((creation orgId userId dto b.id si).job w) =
      (.ok (pendingRun w.db.jobs.next si.hostId w.db.jobRuns.next),
        (creation orgId userId dto b.id si).run w) := by
    have hboth := Bool.and_eq_true_iff.mpr ⟨hjob, hrefers.2⟩
    exact if_pos hboth
  unfold createBatchJob
  dsimp only
  rw [wp_bind, wp_request]
  cases k with
  | zero => exact (planned_zero rfl _ _).mpr (job rfl)
  | succ k =>
    refine (planned_succ rfl _ _ _).mpr ?_
    show andThen _ _ _ (exec env (.jobCreate (creation orgId userId dto b.id si).data) w).1
      (failAt k, (exec env (.jobCreate (creation orgId userId dto b.id si).data) w).2)
    rw [hexecJob, andThen_ok, wp_bind, wp_request]
    cases k with
    | zero => exact (planned_zero rfl _ _).mpr (run rfl)
    | succ k =>
      refine (planned_succ rfl _ _ _).mpr ?_
      show andThen _ _ _ (exec env (.jobRunCreate w.db.jobs.next si.hostId)
          ((creation orgId userId dto b.id si).job w)).1
        (failAt k, (exec env (.jobRunCreate w.db.jobs.next si.hostId)
          ((creation orgId userId dto b.id si).job w)).2)
      rw [hexecRun, andThen_ok, wp_bind, wp_request]
      cases k with
      | zero => exact (planned_zero rfl _ _).mpr (entry rfl)
      | succ k =>
        refine (planned_succ rfl _ _ _).mpr ?_
        show ((auditJob orgId userId "job_created" w.db.jobs.next _ : Service Unit)).wp _ _
          (failAt k, (creation orgId userId dto b.id si).queued w)
        rw [auditJob, wp_request]
        cases k with
        | zero => exact (planned_zero rfl _ _).mpr (logged rfl)
        | succ k =>
          refine (planned_succ rfl _ _ _).mpr ?_
          exact done k _ rfl

/-- What the loop over the server instances leaves. With the failing call in one of its rounds it
ends with the error, and the batch has all of its runs, queued, if that is the very last call. -/
structure LoopEnds (orgId : Id) (b : JobBatch) (total calls k : ℕ) (r : Except Err Unit)
    (x : List Bool × World) : Prop where
  done : calls ≤ k →
    r = .ok () ∧ x.1 = failAt (k - calls) ∧ Counted b total x.2 ∧ x.2.Queued orgId b.id
  failed : k < calls → (∃ e, r = .error e) ∧ ∃ n, Counted b n x.2 ∧
    (n = total ∧ x.2.Queued orgId b.id ↔ k + 1 = calls)

/-- The loop over the server instances, of whose calls the number `k` fails. -/
theorem createBatchJobs_planned {b : JobBatch} (servers : List ServerInstance) (n k : ℕ)
    {w : World} (hcounted : Counted b n w) (hqueued : w.Queued orgId b.id) (hfresh : w.Fresh)
    (hservers : ∀ si ∈ servers, w.db.serverInstances.get si.id = some si) :
    (servers.foldlM (fun _ si => createBatchJob orgId userId dto b si) ()).wp
      (planned (machine env)) (LoopEnds orgId b (n + servers.length) (4 * servers.length) k)
      (failAt k, w) := by
  induction servers generalizing n k w with
  | nil =>
    refine (wp_pure _ _ _).mpr ⟨fun _ => ⟨rfl, rfl, hcounted, hqueued⟩, fun hk => ?_⟩
    exact absurd hk (Nat.not_lt_zero k)
  | cons si rest ih =>
    let c := creation orgId userId dto b.id si
    have hsi := hservers si List.mem_cons_self
    obtain ⟨host, hhost⟩ := hcounted.integrity.host_of_server hsi
    have hrefers : c.Refers w := by
      refine ⟨?_, by show (w.db.hosts.get si.hostId).isSome = true; rw [hhost]; rfl⟩
      simp [Database.refersToRecords, c, creation, hsi, hcounted.batch]
    have hnewJob : (c.job w).db.jobs.get w.db.jobs.next = some (c.data.row w.db.jobs.next) :=
      Table.get_insert_next w.db.jobs c.data.row c.data.key_row
    have hjob : Counted b n (c.job w) := hcounted.job hrefers.1
    have hrun : Counted b (n + 1) (c.run w) := hjob.run hnewJob rfl hrefers.2
    have hof : ∀ r ∈ w.db.jobRuns.rows, (c.job w).db.batchOf r = w.db.batchOf r :=
      fun r hr => batchOf_insertJob hcounted.integrity hr
    have hnewEntry : ∀ e ∈ (c.run w).queues orgId, e.id ≠ (c.queueEntry w).id :=
      fun e he => Nat.ne_of_lt (hfresh orgId e he).1
    have hentry : (c.queued w).Queued orgId b.id := by
      intro r hr hb
      rcases World.mem_insertJobRun.mp hr with hold | rfl
      · obtain ⟨e, he, hid⟩ := hqueued r hold (hof r hold ▸ hb)
        exact ⟨e, World.mem_enqueue_of_mem he, hid⟩
      · exact ⟨c.queueEntry w, World.mem_enqueue_self hnewEntry, rfl⟩
    have hmissing : ¬(c.run w).Queued orgId b.id := by
      intro hall
      have hnew : (c.run w).db.batchOf (pendingRun w.db.jobs.next si.hostId w.db.jobRuns.next) =
          some b.id := by
        show ((c.job w).db.jobs.get w.db.jobs.next).bind Job.batchId = some b.id
        rw [hnewJob]
        rfl
      obtain ⟨e, he, hid⟩ := hall _ (World.mem_insertJobRun.mpr (.inr rfl)) hnew
      have hlt : e.data.jobRunId < w.db.jobRuns.next := (hfresh orgId e he).2
      rw [hid] at hlt
      exact absurd hlt (lt_irrefl _)
    rw [List.foldlM_cons, wp_bind]
    apply createBatchJob_planned hrefers k
    · intro hk
      refine ⟨fun hdone => by simp at hdone; omega, fun _ => ⟨⟨_, rfl⟩, n, hcounted, ?_⟩⟩
      simp only [List.length_cons]
      omega
    · intro hk
      refine ⟨fun hdone => by simp at hdone; omega, fun _ => ⟨⟨_, rfl⟩, n, hjob, ?_⟩⟩
      simp only [List.length_cons]
      omega
    · intro hk
      refine ⟨fun hdone => by simp at hdone; omega, fun _ => ⟨⟨_, rfl⟩, n + 1, hrun, ?_⟩⟩
      refine iff_of_false (fun hboth => hmissing hboth.2) ?_
      simp only [List.length_cons]
      omega
    · intro hk
      refine ⟨fun hdone => by simp at hdone; omega, fun _ => ⟨⟨_, rfl⟩, n + 1, ?_, ?_⟩⟩
      · exact hrun.frame rfl
      · rw [and_iff_left hentry]
        simp only [List.length_cons]
        omega
    · rintro k' audit rfl
      have hends : c.Ends (fun _ _ => True) w (c.queued w) := .queued hrefers
      have hqueuedFresh : (c.queued w).Fresh := hends.fresh hfresh fun _ _ => ⟨rfl, rfl⟩
      have hnext := ih (n + 1) k' (w := (c.queued w).log audit) (hrun.frame rfl) hentry
        hqueuedFresh fun s hs => hservers s (List.mem_cons_of_mem _ hs)
      refine wp_mono planned_monotone ?_ hnext
      rintro r x hends
      have htotal : n + 1 + rest.length = n + (si :: rest).length := by
        rw [List.length_cons]
        omega
      have hcalls : 4 * (si :: rest).length = 4 * rest.length + 4 := by
        rw [List.length_cons]
        omega
      rw [htotal] at hends
      refine ⟨fun hk => ?_, fun hk => ?_⟩
      · obtain ⟨hr, hplan, hrest⟩ := hends.done (by omega)
        have hleft : k' - 4 * rest.length = k' + 4 - 4 * (si :: rest).length := by omega
        exact ⟨hr, hleft ▸ hplan, hrest⟩
      · obtain ⟨hr, m, hm, hiff⟩ := hends.failed (by omega)
        refine ⟨hr, m, hm, hiff.trans ?_⟩
        omega

/-- The batch that a request creates in the state `w`. -/
def newBatch (orgId : Id) (userId : Option Id) (dto : CreateBatchDto) (w : World) : JobBatch :=
  BatchData.row ⟨orgId, dto.type, (w.db.batchServers orgId dto).length, userId⟩ w.now
    w.db.jobBatches.next

/-- A run of the next batch would have a job of a batch that does not exist yet. -/
theorem batchOf_ne_next {w : World} (h : Integrity w.db) :
    ∀ r ∈ w.db.jobRuns.rows, w.db.batchOf r ≠ some w.db.jobBatches.next := by
  intro r hr hof
  obtain ⟨j, hj⟩ := h.jobOfRun r hr
  unfold Database.batchOf at hof
  rw [hj, Option.bind_some] at hof
  obtain ⟨b, hb⟩ := h.batchOfJob j (Table.get_eq_some.mp hj).1 _ hof
  exact absurd (Table.lt_of_get hb) (lt_irrefl _)

/-- A batch that was just created has no runs. -/
theorem counted_newBatch {w : World} (h : Integrity w.db) :
    Counted (newBatch orgId userId dto w) 0
      (w.insertJobBatch ⟨orgId, dto.type, (w.db.batchServers orgId dto).length, userId⟩) := by
  have hnone := batchOf_ne_next h
  refine ⟨h.insertJobBatch _, ?_, ?_, fun r hr hof => absurd hof (hnone r hr)⟩
  · exact Table.get_insert_next w.db.jobBatches _ fun _ => rfl
  · have hsize : w.db.jobRuns.count (fun r => w.db.batchOf r == some w.db.jobBatches.next) =
        w.db.jobRuns.count fun _ => false :=
      Table.count_congr fun r hr => beq_eq_false_iff_ne.mpr (hnone r hr)
    refine Eq.trans hsize ?_
    simp [Table.count]

/-- A request of whose calls the number `k` fails either creates no batch, or leaves one that is
whole exactly if no call fails that comes after the batch's creation and before the audit record of
its last run. -/
theorem createBatch_planned {w : World} (h : Integrity w.db) (hfresh : w.Fresh) (k : ℕ) :
    (createBatch orgId userId dto).wp (planned (machine env)) (fun _ x =>
      (((w.db.batchServers orgId dto).length ≠ dto.serverInstanceIds.length ∨ k ≤ 1) ∧
        x.2.db.jobBatches = w.db.jobBatches) ∨
      ((w.db.batchServers orgId dto).length = dto.serverInstanceIds.length ∧ 2 ≤ k) ∧
        ∃ n, Counted (newBatch orgId userId dto w) n x.2 ∧
          (n = dto.serverInstanceIds.length ∧
              x.2.Queued orgId (newBatch orgId userId dto w).id ↔
            4 * dto.serverInstanceIds.length + 1 ≤ k)) (failAt k, w) := by
  unfold createBatch
  rw [wp_bind, wp_request]
  rcases k with - | k
  · exact (planned_zero rfl _ _).mpr (.inl ⟨.inr (Nat.zero_le 1), rfl⟩)
  refine (planned_succ rfl _ _ _).mpr ?_
  have hfound : exec env (.serverInstanceFindMany dto.serverInstanceIds orgId) w =
      (.ok (w.db.batchServers orgId dto), w) := rfl
  show andThen _ _ _ (exec env (.serverInstanceFindMany dto.serverInstanceIds orgId) w).1
    (failAt k, (exec env (.serverInstanceFindMany dto.serverInstanceIds orgId) w).2)
  rw [hfound, andThen_ok, wp_ite]
  by_cases hlength : (w.db.batchServers orgId dto).length ≠ dto.serverInstanceIds.length
  · rw [if_pos hlength]
    exact (wp_throw _ _ _).mpr (.inl ⟨.inl hlength, rfl⟩)
  rw [if_neg hlength, wp_bind, wp_request]
  have hlength := not_not.mp hlength
  rcases k with - | k
  · exact (planned_zero rfl _ _).mpr (.inl ⟨.inr (Nat.le_refl 1), rfl⟩)
  refine (planned_succ rfl _ _ _).mpr ?_
  let w₁ := w.insertJobBatch ⟨orgId, dto.type, (w.db.batchServers orgId dto).length, userId⟩
  have hcreated : exec env (.jobBatchCreate
      ⟨orgId, dto.type, (w.db.batchServers orgId dto).length, userId⟩) w =
      (.ok (newBatch orgId userId dto w), w₁) := rfl
  show andThen _ _ _ (exec env (.jobBatchCreate
      ⟨orgId, dto.type, (w.db.batchServers orgId dto).length, userId⟩) w).1
    (failAt k, (exec env (.jobBatchCreate
      ⟨orgId, dto.type, (w.db.batchServers orgId dto).length, userId⟩) w).2)
  rw [hcreated, andThen_ok, wp_bind]
  have hcounted : Counted (newBatch orgId userId dto w) 0 w₁ := counted_newBatch h
  have hqueued : w₁.Queued orgId (newBatch orgId userId dto w).id :=
    fun r hr hof => absurd hof (batchOf_ne_next h r hr)
  have hservers : ∀ si ∈ w.db.batchServers orgId dto, w₁.db.serverInstances.get si.id = some si :=
    fun si hsi => Table.get_key (List.mem_of_mem_filter hsi)
  have hloop : ((w.db.batchServers orgId dto).foldlM (fun _ si =>
      createBatchJob orgId userId dto (newBatch orgId userId dto w) si) ()).wp
        (planned (machine env)) _ (failAt k, w₁) :=
    createBatchJobs_planned (w.db.batchServers orgId dto) 0 k hcounted hqueued hfresh hservers
  refine wp_mono planned_monotone ?_ hloop
  intro r x hends
  rw [hlength, Nat.zero_add] at hends
  rcases Nat.lt_or_ge k (4 * dto.serverInstanceIds.length) with hk | hk
  · -- the loop ends with the error
    obtain ⟨⟨e, rfl⟩, n, hn, hiff⟩ := hends.failed hk
    refine .inr ⟨⟨hlength, by omega⟩, n, hn, hiff.trans ?_⟩
    omega
  · -- the loop is done, and only the audit record of the batch can be missing
    obtain ⟨rfl, hplan, hall, hlast⟩ := hends.done hk
    rw [andThen_ok, wp_bind, audit, wp_request]
    obtain ⟨plan, w₂⟩ := x
    obtain rfl : plan = failAt (k - 4 * dto.serverInstanceIds.length) := hplan
    cases k - 4 * dto.serverInstanceIds.length with
    | zero =>
      refine (planned_zero rfl _ _).mpr (.inr ⟨⟨hlength, by omega⟩, _, hall, ?_⟩)
      exact iff_of_true ⟨rfl, hlast⟩ (by omega)
    | succ left =>
      refine (planned_succ rfl _ _ _).mpr ?_
      show (pure (newBatch orgId userId dto w) : Service JobBatch).wp _ _ (failAt left, w₂.log _)
      refine (wp_pure _ _ _).mpr (.inr ⟨⟨hlength, by omega⟩, _, hall.frame rfl, ?_⟩)
      exact iff_of_true ⟨rfl, hlast⟩ (by omega)

end BatchesService

/-- The state after a request to create a batch of whose calls the number `k` fails. -/
def BatchesService.createBatchFailing (env : Env) (orgId : Id) (userId : Option Id)
    (dto : CreateBatchDto) (k : ℕ) (w : World) : World :=
  ((createBatch orgId userId dto).run (machine env) (failAt k) w).2.2

/-- In every state reached and for every request to create a batch: if one of its calls fails, then
no batch exists or the batch is whole, exactly if the request is refused, or the call is one of the
first two, or it comes after the last server instance's entry was put into the queue. -/
theorem createBatch_whole_iff (env : Env) {cond : Op → List Bool → World → Prop}
    {h : List (Turn Op Err (Option QueueJobData) World)} {w : World}
    (hr : Runs (controlPlane env) cond World.initial h w) (orgId : Id) (userId : Option Id)
    (dto : CreateBatchDto) (k : ℕ) :
    (∀ b, (BatchesService.createBatchFailing env orgId userId dto k w).db.jobBatches.get
        w.db.jobBatches.next = some b →
      (BatchesService.createBatchFailing env orgId userId dto k w).Whole b) ↔
    (w.db.batchServers orgId dto).length ≠ dto.serverInstanceIds.length ∨ k ≤ 1 ∨
      4 * dto.serverInstanceIds.length + 1 ≤ k := by
  have hplanned : (BatchesService.createBatch orgId userId dto).wp (planned (machine env)) _
      (failAt k, w) :=
    BatchesService.createBatch_planned (Integrity.of_runs hr) (World.fresh_of_runs hr) k
  rcases run_of_planned hplanned with ⟨hrefused, hsame⟩ | ⟨⟨hlength, hk⟩, n, hcounted, hiff⟩
  · refine iff_of_true (fun b hb => ?_) (or_assoc.mp (.inl hrefused))
    have hb : (w.db.jobBatches).get w.db.jobBatches.next = some b := hsame ▸ hb
    exact absurd (Table.lt_of_get hb) (lt_irrefl _)
  · have hwhole : World.Whole _ (BatchesService.newBatch orgId userId dto w) ↔
        n = (w.db.batchServers orgId dto).length ∧
          World.Queued _ orgId (BatchesService.newBatch orgId userId dto w).id :=
      hcounted.whole_iff rfl
    rw [hlength] at hwhole
    constructor
    · intro hall
      exact .inr (.inr (hiff.mp (hwhole.mp (hall _ hcounted.batch))))
    · rintro (hne | hle | hlate) b hb
      · exact absurd hlength hne
      · omega
      · obtain rfl := Option.some.inj (hcounted.batch.symm.trans hb)
        exact hwhole.mpr (hiff.mpr hlate)

section Examples

/-- The restart wave of one server instance. -/
def oneServer : CreateBatchDto := ⟨.restartWave, [0], none⟩

theorem createBatch_whole_iff_audit :
    (BatchesService.createBatchFailing Env.everyMinute 0 (some 0) oneServer 5 .small).Whole
      (BatchesService.newBatch 0 (some 0) oneServer .small) := by
  have hr : Runs smallPlane (fun _ _ _ => True) World.initial [] World.small := Runs.small
  exact (createBatch_whole_iff Env.everyMinute hr 0 (some 0) oneServer 5).mpr
    (.inr (.inr (by decide))) _ rfl

/-- The creation of the job fails: the batch counts one pending run, and no run will ever be. -/
theorem createBatch_half_made : ¬∀ h w, Runs smallPlane (fun _ _ _ => True) World.initial h w →
    ∀ orgId userId dto k b,
      (BatchesService.createBatchFailing Env.everyMinute orgId userId dto k w).db.jobBatches.get
        w.db.jobBatches.next = some b →
      (BatchesService.createBatchFailing Env.everyMinute orgId userId dto k w).Whole b := by
  intro hall
  have hbad : ((BatchesService.createBatchFailing Env.everyMinute 0 (some 0) oneServer 2
      .small).db.jobBatches.get 0).any (fun b => decide (b.totalCount = 1) &&
        decide ((BatchesService.createBatchFailing Env.everyMinute 0 (some 0) oneServer 2
          .small).db.batchSize b.id = 0)) = true := by
    decide +kernel
  obtain ⟨b, hb, hcounts⟩ := (Option.any_eq_true _ _).mp hbad
  obtain ⟨htotal, hsize⟩ := Bool.and_eq_true_iff.mp hcounts
  have hwhole := (hall _ _ Runs.small 0 (some 0) oneServer 2 b hb).total
  rw [of_decide_eq_true htotal, of_decide_eq_true hsize] at hwhole
  cases hwhole

end Examples

end Mastermind
