import Mastermind.Dispatch.Moves

/-!
# What is attached to a job

A `PROFILE_STAGE` job carries the content of a profile in its payload, and a
`MOD_UPLOAD_QUARANTINE` job names an archive in the upload directory. `reportJobResult` scrubs the
one and deletes the other when the result of the job arrives; the two other paths on which a run
ends, `cancelBatch` and `failStaleRunningJobs`, do neither. A batch never has such a job, so what
is left is the sweep, and a scrub or a deletion that fails.

`uploadPlane` is the control plane with the request that uploads a mod. `Kept` says that the runs
that have ended have nothing attached; the moves of the operations keep it but for the three that
end runs, which have their own lemmas.
-/

namespace Mastermind

open Effect Effect.Program

/-- The run has ended. -/
def JobRunStatus.Terminal (st : JobRunStatus) : Prop := st ≠ .pending ∧ st ≠ .running

/-- The id of the archive that a payload names. -/
def Job.uploadId (j : Job) : Option String := ((j.payload.getD []).lookup "uploadId").bind Json.str?

/-- The job is of a type that has something attached. -/
def Job.Attaches (j : Job) : Prop := j.type = "PROFILE_STAGE" ∨ j.type = "MOD_UPLOAD_QUARANTINE"

/-- Nothing is attached to the job: the content of its profile is scrubbed, and its archive is not
in the upload directory. -/
def Job.Clear (uploads : List String) (j : Job) : Prop :=
  (j.type = "PROFILE_STAGE" → (j.payload.getD []).lookup "contentBase64" = none) ∧
    (j.type = "MOD_UPLOAD_QUARANTINE" → ∀ u, j.uploadId = some u → u ++ ".zip" ∉ uploads)

/-- Nothing is attached to the job of a run that has ended. -/
def World.Clean (w : World) : Prop :=
  ∀ run ∈ w.db.jobRuns.rows, run.status.Terminal →
    ∀ j, w.db.jobs.get run.jobId = some j → j.Clear w.uploads

/-- What reaches the control plane: one of the operations, or the upload of a mod, whose archive
has been written under a new id. -/
inductive Request where
  | op (o : Op)
  | uploadMod (orgId userId serverInstanceId : Id) (uploadId originalName : String) (sizeBytes : ℕ)

/-- The program of a request. `uploadMod` deletes the archive again if its job cannot be created. -/
def Request.prog (env : Env) : Request → Service (Option QueueJobData)
  | op o => o.prog env
  | uploadMod orgId userId serverInstanceId uploadId originalName sizeBytes => do
    let _ ← orgMemberGuard userId orgId
    tryCatch (do
      let _ ← JobsService.createJob env orgId userId serverInstanceId "MOD_UPLOAD_QUARANTINE"
        (some [("uploadId", .str uploadId), ("originalName", .str originalName),
          ("sizeBytes", .num sizeBytes)])
      return none) fun error => do
        tryCatch (query (.unlinkUpload (uploadId ++ ".zip"))) fun _ => pure ()
        throw error

/-- An archive is written under an id that no job names. -/
inductive Stages : World → World → Prop where
  | mk (w : World) (uploadId : String) : isUploadId uploadId = true →
      (∀ j ∈ w.db.jobs.rows, j.uploadId ≠ some uploadId) →
      Stages w { w with uploads := w.uploads ++ [uploadId ++ ".zip"] }

/-- The control plane with its upload directory. -/
def uploadPlane (env : Env) : System Request Stmt.Resp Err (Option QueueJobData) World :=
  ⟨machine env, Request.prog env, fun w w' => Elsewhere w w' ∨ Stages w w'⟩

/-- The statement removes what is attached to a job: the payload still has its content, or the
archive is there. -/
def Stmt.Removes (s : Stmt) (w : World) : Prop :=
  match s with
  | .jobUpdate id _ => ∃ j, w.db.jobs.get id = some j ∧
      (j.payload.getD []).lookup "contentBase64" ≠ none
  | .unlinkUpload name => name ∈ w.uploads
  | _ => False

/-- The request ends no run that keeps its attachment: a sweep releases only runs of jobs without
one, and no call that removes one fails in a report. -/
def Request.Tidies (env : Env) (r : Request) (plan : List Bool) (w : World) : Prop :=
  match r with
  | .op .failStaleRunningJobs => ∀ run ∈ w.db.jobRuns.rows, run.status = .running →
      JobsService.heartbeat run + JobsService.staleAfter < w.now →
        ∀ j, w.db.jobs.get run.jobId = some j → j.Clear w.uploads
  | .op (.reportResult hostId jobRunId dto tools) =>
      ∀ f ∈ ((Op.reportResult hostId jobRunId dto tools).prog env).faults (machine env) plan w,
        ¬f.1.Removes f.2
  | _ => True

section Kept

/-- The runs that have ended have nothing attached, given the archives that are there: their jobs
exist, and no batch has a job with an attachment. -/
structure Kept (uploads : List String) (w : World) : Prop where
  jobs : ∀ run ∈ w.db.jobRuns.rows, run.jobId < w.db.jobs.next
  batched : ∀ j ∈ w.db.jobs.rows, j.batchId.isSome = true → ¬j.Attaches
  clear : ∀ run ∈ w.db.jobRuns.rows, run.status.Terminal →
    ∀ j, w.db.jobs.get run.jobId = some j → j.Clear uploads

variable {env : Env} {may : Stmt → World → Prop} {uploads : List String} {w w' : World}

/-- A job of another type has nothing attached. -/
theorem Job.clear_of_not_attaches {j : Job} (h : ¬j.Attaches) : j.Clear uploads :=
  ⟨fun htype => absurd (.inl htype) h, fun htype => absurd (.inr htype) h⟩

/-- With fewer archives less is attached. -/
theorem Job.Clear.mono {uploads' : List String} {j : Job} (h : j.Clear uploads)
    (hfewer : uploads' ⊆ uploads) : j.Clear uploads' :=
  ⟨h.1, fun htype u hu hmem => h.2 htype u hu (hfewer hmem)⟩

theorem Kept.mono {uploads' : List String} (h : Kept uploads w) (hfewer : uploads' ⊆ uploads) :
    Kept uploads' w :=
  ⟨h.jobs, h.batched, fun run hrun hended j hj => (h.clear run hrun hended j hj).mono hfewer⟩

/-- Only the jobs and the runs matter. -/
theorem Kept.frame (h : Kept uploads w) (hjobs : w'.db.jobs = w.db.jobs)
    (hruns : w'.db.jobRuns = w.db.jobRuns) : Kept uploads w' := by
  obtain ⟨hbound, hbatched, hclear⟩ := h
  rw [← hjobs] at hbound hbatched hclear
  rw [← hruns] at hbound hclear
  exact ⟨hbound, hbatched, hclear⟩

/-- A new job has no run yet. -/
theorem Kept.insertJob (h : Kept uploads w) (d : JobData)
    (hd : d.batchId = none ∨ (d.type ≠ "PROFILE_STAGE" ∧ d.type ≠ "MOD_UPLOAD_QUARANTINE")) :
    Kept uploads (w.insertJob d) := by
  refine ⟨fun run hrun => Nat.lt_succ_of_lt (h.jobs run hrun), ?_, ?_⟩
  · intro j hj hbatch
    rcases (Table.mem_insert d.key_row).mp hj with hj | rfl
    · exact h.batched j hj hbatch
    · rcases hd with hd | ⟨hprofile, hupload⟩
      · have hnone : (d.row w.db.jobs.next).batchId = none := hd
        rw [hnone] at hbatch
        exact absurd hbatch Bool.false_ne_true
      · rintro (htype | htype)
        · exact hprofile htype
        · exact hupload htype
  · intro run hrun hended j hj
    have hne : run.jobId ≠ w.db.jobs.next := Nat.ne_of_lt (h.jobs run hrun)
    have hold : w.db.jobs.get run.jobId = some j :=
      (Table.get_insert_of_ne d.key_row hne).symm.trans hj
    exact h.clear run hrun hended j hold

/-- A new run is pending. -/
theorem Kept.insertJobRun (h : Kept uploads w) {jobId : Id} (hostId : Id)
    (hjob : jobId < w.db.jobs.next) : Kept uploads (w.insertJobRun jobId hostId) := by
  refine ⟨fun run hrun => ?_, h.batched, fun run hrun hended j hj => ?_⟩
  · rcases (Table.mem_insert (key_pendingRun jobId hostId)).mp hrun with hrun | rfl
    · exact h.jobs run hrun
    · exact hjob
  · rcases (Table.mem_insert (key_pendingRun jobId hostId)).mp hrun with hrun | rfl
    · exact h.clear run hrun hended j hj
    · exact absurd rfl hended.1

/-- What a path dispatches. -/
theorem Kept.ends (h : Kept uploads w) {c : Creation}
    (hc : c.data.batchId = none ∨
      (c.data.type ≠ "PROFILE_STAGE" ∧ c.data.type ≠ "MOD_UPLOAD_QUARANTINE"))
    (hends : c.Ends may w w') : Kept uploads w' := by
  have hjob : Kept uploads (c.job w) := h.insertJob c.data hc
  have hrun : Kept uploads (c.run w) := hjob.insertJobRun c.hostId (Nat.lt_succ_self _)
  cases hends with
  | job _ => exact hjob
  | run _ _ => exact hrun
  | queued _ => exact hrun.frame rfl rfl

/-- An update that ends a run needs its job to be clear. -/
theorem Kept.updateJobRun (h : Kept uploads w) (id : Id) (p : RunPatch)
    (hp : ∀ run, w.db.jobRuns.get id = some run → (p.apply w.now run).status.Terminal →
      ∀ j, w.db.jobs.get run.jobId = some j → j.Clear uploads) :
    Kept uploads (w.updateJobRun id p) := by
  have hjobId (run : JobRun) : (p.apply w.now run).jobId = run.jobId := by cases p <;> rfl
  refine ⟨fun run hrun => ?_, h.batched, fun run hrun hended j hj => ?_⟩
  · obtain ⟨run₀, hrun₀, rfl⟩ := (Table.mem_update (p.key_apply w.now)).mp hrun
    split_ifs
    · exact (hjobId run₀).trans_lt (h.jobs run₀ hrun₀)
    · exact h.jobs run₀ hrun₀
  · obtain ⟨run₀, hrun₀, rfl⟩ := (Table.mem_update (p.key_apply w.now)).mp hrun
    split_ifs at hended hj with hid
    · rw [hjobId] at hj
      exact hp run₀ (Table.get_eq_some.mpr ⟨hrun₀, hid⟩) hended j hj
    · exact h.clear run₀ hrun₀ hended j hj

/-- An update that starts a run or stores its progress. -/
theorem Kept.updateJobRun_alive (h : Kept uploads w) (id : Id) {p : RunPatch}
    (hp : p = .start ∨ ∃ phase message, p = .progress phase message) :
    Kept uploads (w.updateJobRun id p) := by
  refine h.updateJobRun id p fun run hrun hended j hj => ?_
  rcases hp with rfl | ⟨phase, message, rfl⟩
  · exact absurd rfl hended.2
  · exact h.clear run (Table.get_eq_some.mp hrun).1 hended j hj

/-- A scrubbed payload has no content, and names no archive. -/
theorem Job.clear_withPayload (j : Job) (payload : Option JsonObject) (runStatus : JobRunStatus) :
    (j.withPayload (JobsService.scrubbedPayload payload runStatus)).Clear uploads := by
  have hlookup (key : String) (hpath : key ≠ "path") (hstaged : key ≠ "staged") :
      (JobsService.scrubbedPayload payload runStatus).lookup key = none := by
    have hpath' : (key == "path") = false := beq_eq_false_iff_ne.mpr hpath
    have hstaged' : (key == "staged") = false := beq_eq_false_iff_ne.mpr hstaged
    unfold JobsService.scrubbedPayload JsonObject.prop
    cases (payload.getD []).lookup "path" with
    | none => simp [List.lookup, hstaged']
    | some v => simp [List.lookup, hpath', hstaged']
  refine ⟨fun _ => hlookup "contentBase64" (by decide) (by decide), fun _ u hu => ?_⟩
  unfold Job.uploadId at hu
  rw [show (j.withPayload (JobsService.scrubbedPayload payload runStatus)).payload.getD [] =
    JobsService.scrubbedPayload payload runStatus from rfl,
    hlookup "uploadId" (by decide) (by decide)] at hu
  cases hu

/-- Scrubbing a payload. -/
theorem Kept.updateJob (h : Kept uploads w) (id : Id) (payload : Option JsonObject)
    (runStatus : JobRunStatus) :
    Kept uploads (w.updateJob id (JobsService.scrubbedPayload payload runStatus)) := by
  refine ⟨h.jobs, fun j hj hbatch => ?_, fun run hrun hended j hj => ?_⟩
  · obtain ⟨j₀, hj₀, rfl⟩ := (Table.mem_update (Job.key_withPayload _)).mp hj
    split_ifs at hbatch ⊢
    · exact h.batched j₀ hj₀ hbatch
    · exact h.batched j₀ hj₀ hbatch
  · unfold World.updateJob at hj
    rw [Table.get_update] at hj
    split_ifs at hj with hid
    · obtain ⟨j₀, -, rfl⟩ := Option.map_eq_some_iff.mp hj
      exact j₀.clear_withPayload payload runStatus
    · exact h.clear run hrun hended j hj

/-- The runs of a host go with it. -/
theorem Kept.removeHost (h : Kept uploads w) (id : Id) (audit : AuditLog) :
    Kept uploads (w.removeHost id audit) := by
  refine ⟨fun run hrun => ?_, h.batched, fun run hrun hended j hj => ?_⟩
  · exact h.jobs run (Table.mem_erase.mp hrun).1
  · exact h.clear run (Table.mem_erase.mp hrun).1 hended j hj

/-- The jobs of a server instance stay without it. -/
theorem Kept.removeServerInstance (h : Kept uploads w) (id : Id) :
    Kept uploads (w.removeServerInstance id) := by
  refine ⟨h.jobs, fun j hj hbatch => ?_, fun run hrun hended j hj => ?_⟩
  · obtain ⟨j₀, hj₀, rfl⟩ := List.mem_map.mp hj
    split_ifs at hbatch ⊢
    · exact h.batched j₀ hj₀ hbatch
    · exact h.batched j₀ hj₀ hbatch
  · unfold World.removeServerInstance at hj
    rw [Table.get_modify] at hj
    obtain ⟨j₀, hj₀, rfl⟩ := Option.map_eq_some_iff.mp hj
    have hclear := h.clear run hrun hended j₀ hj₀
    split_ifs
    · exact hclear
    · exact hclear

/-- No batch is of jobs with an attachment. -/
theorem BatchType.jobType_ne (t : BatchType) :
    t.jobType ≠ "PROFILE_STAGE" ∧ t.jobType ≠ "MOD_UPLOAD_QUARANTINE" := by
  cases t <;> decide

/-- The operation ends no run. -/
def Op.EndsNone : Op → Prop
  | .cancelBatch _ _ _ | .reportResult _ _ _ _ | .failStaleRunningJobs => False
  | _ => True

/-- A move of an operation that ends no run keeps what is attached to those that have ended. -/
theorem Move.kept {o : Op} (hm : Move env may o w w') (ho : o.EndsNone) (h : Kept uploads w) :
    Kept uploads w' := by
  cases hm with
  | create _ creates ends =>
    obtain ⟨server, -, -, -⟩ := creates
    exact h.ends (.inl rfl) ends
  | moderate enqueues ends =>
    obtain ⟨server, -⟩ := enqueues
    exact h.ends (.inl rfl) ends
  | fire fires ends =>
    obtain ⟨schedule, -, server, -⟩ := fires
    exact h.ends (.inl rfl) ends
  | book rescheduled =>
    obtain ⟨_, _, rfl, -⟩ := rescheduled
    exact h.frame rfl rfl
  | batchJob si _ _ ends =>
    exact h.ends (.inr (BatchType.jobType_ne _)) ends
  | schedule _ _ _ _ retimed =>
    obtain ⟨_, rfl⟩ := retimed
    exact h.frame rfl rfl
  | edit _ _ _ _ _ _ retimed =>
    obtain ⟨_, rfl⟩ := retimed
    exact h.frame rfl rfl
  | promote hp =>
    obtain ⟨_, rfl, -⟩ := hp
    exact h.frame rfl rfl
  | claim host e _ _ _ _ _ _ _ =>
    have hdequeued : Kept uploads (w.dequeue host.orgId e.id) := h.frame rfl rfl
    exact hdequeued.updateJobRun_alive _ (.inl rfl)
  | progress message' => exact h.updateJobRun_alive _ (.inr ⟨_, _, rfl⟩)
  | removeHost audit _ => exact h.removeHost _ audit
  | removeServer => exact h.removeServerInstance _
  | batch _ => exact h.frame rfl rfl
  | drop _ _ _ _ => exact h.frame rfl rfl
  | bookStart _ => exact h.frame rfl rfl
  | tidy _ _ _ => exact h.frame rfl rfl
  | enforce _ _ _ => exact ho.elim
  | cancelRun _ _ => exact ho.elim
  | cancel _ => exact ho.elim
  | finish _ _ _ _ => exact ho.elim
  | scrub _ _ => exact ho.elim
  | bookEnd _ _ => exact ho.elim
  | release _ _ _ => exact ho.elim

theorem Moves.kept {o : Op} (hm : Moves env may o w w') (ho : o.EndsNone) (h : Kept uploads w) :
    Kept uploads w' :=
  hm.keep (fun _ _ hI hmove => hmove.kept ho hI) h

/-- Cancelling a batch ends runs of the batch, whose jobs have no attachment. -/
theorem cancelBatch_kept (orgId batchId : Id) (h : Kept uploads w) :
    (BatchesService.cancelBatch orgId batchId).wp (alone env may) (fun _ w' => Kept uploads w')
      w := by
  let I (rest : List (Job × Option JobRun)) (_ : ℕ) (w₁ : World) : Prop :=
    Kept uploads w₁ ∧ w₁.db.jobs = w.db.jobs ∧ ∀ j r, (j, some r) ∈ rest →
      ∀ r', w₁.db.jobRuns.get r.id = some r' → ∀ j', w.db.jobs.get r'.jobId = some j' →
        j'.batchId.isSome = true
  apply BatchesService.cancelBatch_rule orgId batchId I
  · exact fun _ => h
  · intro x _ _ _
    refine ⟨h, rfl, fun j r hmem r' hr' j' hj' => ?_⟩
    obtain ⟨hget, hbatch⟩ := Database.mem_batchRuns hmem rfl
    obtain rfl := Option.some.inj (hget.symm.trans hr')
    unfold Database.batchOf at hbatch
    rw [hj', Option.bind_some] at hbatch
    rw [hbatch, Option.isSome_some]
  · rintro j run rest n w₁ ⟨hkept, hjobs, hrest⟩ _
    exact ⟨hkept, hjobs, fun j' r' hmem => hrest j' r' (List.mem_cons_of_mem _ hmem)⟩
  · rintro j r rest n w₁ w₂ ⟨hkept, hjobs, hrest⟩ _ _ hw₂
    have hcancelled : Kept uploads (w₁.updateJobRun r.id .cancel) := by
      refine hkept.updateJobRun r.id .cancel fun run hrun _ j' hj' => ?_
      have hbatch := hrest j r List.mem_cons_self run hrun j' (hjobs ▸ hj')
      exact Job.clear_of_not_attaches
        (hkept.batched j' (Table.get_eq_some.mp hj').1 hbatch)
    have hruns (i : Id) (r' : JobRun) (hr' : (w₁.updateJobRun r.id .cancel).db.jobRuns.get i =
        some r') : ∃ r₀, w₁.db.jobRuns.get i = some r₀ ∧ r'.jobId = r₀.jobId := by
      unfold World.updateJobRun at hr'
      rw [Table.get_update] at hr'
      split_ifs at hr'
      · obtain ⟨r₀, hr₀, rfl⟩ := Option.map_eq_some_iff.mp hr'
        exact ⟨r₀, hr₀, rfl⟩
      · exact ⟨r', hr', rfl⟩
    have hI : I rest (n + 1) (w₁.updateJobRun r.id .cancel) := by
      refine ⟨hcancelled, hjobs, fun j' r' hmem r'' hr'' j'' hj'' => ?_⟩
      obtain ⟨r₀, hr₀, hid⟩ := hruns _ _ hr''
      exact hrest j' r' (List.mem_cons_of_mem _ hmem) r₀ hr₀ j'' (hid ▸ hj'')
    rcases hw₂ with rfl | rfl
    · exact hI
    · exact ⟨hI.1.frame rfl rfl, hI.2⟩
  · exact fun _ _ _ _ _ _ hI _ _ => hI.1
  · exact fun _ _ _ hI _ => hI.1
  · exact fun _ _ _ _ _ hI => hI.1.frame rfl rfl

/-- A sweep ends runs that are running and silent. -/
theorem failStaleRunningJobs_kept (h : Kept uploads w)
    (hclear : ∀ run ∈ w.db.jobRuns.rows, run.status = .running →
      JobsService.heartbeat run + JobsService.staleAfter < w.now →
        ∀ j, w.db.jobs.get run.jobId = some j → j.Clear uploads) :
    JobsService.failStaleRunningJobs.wp (alone env may) (fun _ w' => Kept uploads w') w := by
  let I (rest : List JobRun) (w₁ : World) : Prop :=
    Kept uploads w₁ ∧ w₁.db.jobs = w.db.jobs ∧
      (∀ run ∈ rest, run ∈ w.db.jobRuns.rows ∧ run.status = .running) ∧
        ∀ i r', w₁.db.jobRuns.get i = some r' →
          ∃ r₀, w.db.jobRuns.get i = some r₀ ∧ r'.jobId = r₀.jobId
  apply JobsService.failStaleRunningJobs_rule I
  · exact fun _ => h
  · refine ⟨h, rfl, fun run hrun => ?_, fun i r' hr' => ⟨r', hr', rfl⟩⟩
    obtain ⟨hmem, hrunning⟩ := List.mem_filter.mp hrun
    exact ⟨hmem, by simpa using hrunning⟩
  · rintro run rest w₁ ⟨hkept, hjobs, hrest, hruns⟩ _
    exact ⟨hkept, hjobs, fun r hr => hrest r (List.mem_cons_of_mem _ hr), hruns⟩
  · rintro run rest w₁ ⟨hkept, hjobs, hrest, hruns⟩ hsilent _
    obtain ⟨hmem, hrunning⟩ := hrest run List.mem_cons_self
    have hget : w.db.jobRuns.get run.id = some run := Table.get_key hmem
    refine ⟨hkept.updateJobRun run.id _ fun r' hr' _ j hj => ?_, hjobs,
      fun r hr => hrest r (List.mem_cons_of_mem _ hr), fun i r' hr' => ?_⟩
    · obtain ⟨r₀, hr₀, hid⟩ := hruns _ _ hr'
      obtain rfl := Option.some.inj (hget.symm.trans hr₀)
      rw [hid, hjobs] at hj
      exact hclear run hmem hrunning hsilent j hj
    · unfold World.updateJobRun at hr'
      rw [Table.get_update] at hr'
      split_ifs at hr'
      · obtain ⟨r₁, hr₁, rfl⟩ := Option.map_eq_some_iff.mp hr'
        exact hruns i r₁ hr₁
      · exact hruns i r' hr'
  · exact fun _ _ _ hI => hI.1
  · exact fun _ hI => hI.1

/-- The runs that have ended have nothing attached, given the archives in the directory. -/
abbrev KeptHere (w : World) : Prop := Kept w.uploads w

/-- Every archive in the directory has the name of an upload. -/
def World.Staged (w : World) : Prop :=
  ∀ name ∈ w.uploads, ∃ u, isUploadId u = true ∧ name = u ++ ".zip"

/-- The names of two archives are the same if their ids are. -/
theorem archive_inj {u u' : String} (h : u ++ ".zip" = u' ++ ".zip") : u = u' := by
  have hlist := congrArg String.toList h
  rw [String.toList_append, String.toList_append] at hlist
  exact String.ext (List.append_cancel_right hlist)

variable {runId : Id} {run : JobRun} {j : Job}

/-- Deleting the archive of an upload that ends. A deletion that fails, or that is not tried, has no
archive to delete. -/
theorem discardUpload_clears (h : KeptHere w) (hstaged : w.Staged)
    (hrun : w.db.jobRuns.get runId = some run) (hj : w.db.jobs.get run.jobId = some j)
    (htype : j.type = "MOD_UPLOAD_QUARANTINE") (p : RunPatch) :
    (JobsService.discardUpload j).wp (alone env fun s w₁ => ¬s.Removes w₁)
      (fun _ w' => KeptHere w') (w.updateJobRun runId p) := by
  -- the run may end once the archive of the job is not in the directory
  have hend (uploads : List String) (hfewer : uploads ⊆ w.uploads)
      (hgone : ∀ u, j.uploadId = some u → u ++ ".zip" ∉ uploads) :
      Kept uploads (w.updateJobRun runId p) := by
    refine (h.mono hfewer).updateJobRun runId p fun run' hrun' _ j' hj' => ?_
    obtain rfl := Option.some.inj (hrun.symm.trans hrun')
    obtain rfl := Option.some.inj (hj.symm.trans hj')
    exact ⟨fun hprofile => absurd (htype.symm.trans hprofile) (by decide), fun _ => hgone⟩
  have hid : (((j.payload.getD []).lookup "uploadId").bind Json.str?).getD "" =
      j.uploadId.getD "" := rfl
  unfold JobsService.discardUpload
  dsimp only
  rw [hid]
  split_ifs with hvalid
  · rw [wp_tryCatch, wp_request, alone_apply]
    refine ⟨?_, fun _ habsent => ?_⟩
    · rw [exec, orElse_ok]
      refine (hend (w.uploads.filter fun n => n != j.uploadId.getD "" ++ ".zip")
        (List.filter_subset_self _) ?_).frame rfl rfl
      intro u hu hmem
      have hne := (List.mem_filter.mp hmem).2
      rw [hu, Option.getD_some] at hne
      simp at hne
    · rw [orElse_error, wp_pure]
      refine hend w.uploads (fun _ hmem => hmem) fun u hu hmem => habsent ?_
      rw [hu, Option.getD_some]
      exact hmem
  · refine (wp_pure _ _ _).mpr (hend w.uploads (fun _ hmem => hmem) fun u hu hmem => hvalid ?_)
    obtain ⟨u', hu', hname⟩ := hstaged _ hmem
    rw [hu, Option.getD_some, archive_inj hname]
    exact hu'

/-- Scrubbing the payload of a profile's job that ends. A scrub that fails has nothing to scrub. -/
theorem scrubProfile_clears (h : KeptHere w) (hrun : w.db.jobRuns.get runId = some run)
    (hj : w.db.jobs.get run.jobId = some j) (htype : j.type = "PROFILE_STAGE") (p : RunPatch)
    (runStatus : JobRunStatus) :
    (JobsService.scrubProfile j runStatus).wp (alone env fun s w₁ => ¬s.Removes w₁)
      (fun _ w' => KeptHere w') (w.updateJobRun runId p) := by
  have hid : run.jobId = j.id := ((Table.get_eq_some.mp hj).2).symm
  have hpresent : ¬((w.updateJobRun runId p).db.jobs.get j.id).isNone = true := by
    rw [← hid]
    simp [World.updateJobRun, hj]
  rw [JobsService.scrubProfile, wp_request, alone_apply]
  refine ⟨?_, fun _ hempty => ?_⟩
  · rw [exec, if_neg hpresent]
    -- the two updates can be made in either order
    have hscrubbed := h.updateJob j.id j.payload runStatus
    refine hscrubbed.updateJobRun runId p fun run' hrun' _ j' hj' => ?_
    obtain rfl := Option.some.inj (hrun.symm.trans hrun')
    have hupdated := Table.get_update_self (i := run.jobId)
      (Job.key_withPayload (JobsService.scrubbedPayload j.payload runStatus)) hj
    unfold World.updateJob at hj'
    rw [← hid, hupdated] at hj'
    obtain rfl := Option.some.inj hj'
    exact j.clear_withPayload j.payload runStatus
  · refine h.updateJobRun runId p fun run' hrun' _ j' hj' => ?_
    obtain rfl := Option.some.inj (hrun.symm.trans hrun')
    obtain rfl := Option.some.inj (hj.symm.trans hj')
    refine ⟨fun _ => ?_, fun hupload => absurd (htype.symm.trans hupload) (by decide)⟩
    by_contra hcontent
    exact hempty ⟨j, hid ▸ hj, hcontent⟩

/-- What follows the end of a run leaves nothing attached to its job. -/
theorem afterResult_clears (h : KeptHere w) (hstaged : w.Staged)
    (hrun : w.db.jobRuns.get runId = some run) (hj : w.db.jobs.get run.jobId = some j)
    (p : RunPatch) (runStatus : JobRunStatus) (output : Option String)
    (tools : List ConnectionTool) :
    (JobsService.afterResult env j runStatus output tools).wp
      (alone env fun s w₁ => ¬s.Removes w₁) (fun _ w' => KeptHere w')
      (w.updateJobRun runId p) := by
  unfold JobsService.afterResult
  split_ifs with hupload hprofile _
  · exact discardUpload_clears h hstaged hrun hj hupload p
  · exact scrubProfile_clears h hrun hj hprofile p runStatus
  all_goals
    have hended : KeptHere (w.updateJobRun runId p) := by
      refine h.updateJobRun runId p fun run' hrun' _ j' hj' => ?_
      obtain rfl := Option.some.inj (hrun.symm.trans hrun')
      obtain rfl := Option.some.inj (hj.symm.trans hj')
      exact Job.clear_of_not_attaches fun hor => hor.elim hprofile hupload
  · apply JobsService.playerListReceived_keeps (I := KeptHere) output tools _ hended
    rintro w₁ w₂ _ tool c hw₁ ⟨server, -, -, -⟩ hends
    have hsame : w₂.uploads = w₁.uploads := by cases hends <;> rfl
    show Kept w₂.uploads w₂
    rw [hsame]
    exact Kept.ends hw₁ (.inl rfl) hends
  · exact (wp_pure _ _ _).mpr hended

/-- A report in which no call fails that removes an attachment. -/
theorem reportResult_kept (h : KeptHere w) (hstaged : w.Staged) (hostId jobRunId : Id)
    (dto : ReportResultDto) (tools : List ConnectionTool) :
    (AgentJobsController.reportResult env hostId jobRunId dto tools).wp
      (alone env fun s w₁ => ¬s.Removes w₁) (fun _ w' => KeptHere w') w := by
  unfold AgentJobsController.reportResult
  split_ifs
  swap
  · exact (wp_throw _ _ _).mpr h
  apply JobsService.reportJobResult_rule
  · exact fun _ => h
  intro run j hrun hj _ _
  refine wp_bind_of alone_monotone
    (afterResult_clears h hstaged hrun hj _ dto.runStatus dto.output tools) ?_ fun _ _ hw => hw
  intro _ w₁ hw₁
  rw [wp_ite]
  split_ifs
  · exact Op.wp_of_books (Op.recordJobRunCompleted_books j.orgId j.id dto.runStatus .running)
      (fun _ _ _ _ hw₂ => hw₂.frame rfl rfl) (fun _ _ hw₂ => hw₂.frame rfl rfl) hw₁
  · exact (wp_pure _ _ _).mpr hw₁

end Kept

section Requests

variable {env : Env} {w w' : World}

/-- No statement writes an archive. -/
theorem uploads_exec (s : Stmt) (w : World) : (exec env s w).2.uploads ⊆ w.uploads := by
  have hsame : w.uploads ⊆ w.uploads := fun _ h => h
  cases s with
  | unlinkUpload name => exact List.filter_subset_self _
  | jobBatchUpdate id patch =>
    cases hx : w.db.jobBatches.get id with
    | none =>
      simp only [exec, hx]
      exact hsame
    | some _ =>
      simp only [exec, hx]
      exact hsame
  | scheduleUpdate id patch =>
    rw [exec.eq_def]
    dsimp only
    split <;> exact hsame
  | hostRemoveTransaction _ _ =>
    rw [exec]
    split_ifs <;> exact hsame
  | serverInstanceDelete _ =>
    rw [exec]
    split_ifs <;> exact hsame
  | jobCreate _ =>
    rw [exec]
    split_ifs <;> exact hsame
  | jobUpdate _ _ =>
    rw [exec]
    split_ifs <;> exact hsame
  | jobRunCreate _ _ =>
    rw [exec]
    split_ifs <;> exact hsame
  | jobRunUpdate _ _ =>
    rw [exec]
    split_ifs <;> exact hsame
  | jobRunUpdateManyRunning _ _ =>
    rw [exec]
    split_ifs <;> exact hsame
  | scheduleCreate _ =>
    rw [exec]
    split_ifs <;> exact hsame
  | _ => exact hsame

/-- No program writes an archive. -/
theorem uploads_run {α : Type} (p : Service α) (plan : List Bool) (w : World) :
    (p.run (machine env) plan w).2.2.uploads ⊆ w.uploads := by
  let I (w' : World) : Prop := w'.uploads ⊆ w.uploads
  have hstep (s : Stmt) (w₁ : World) (hw₁ : I w₁) : I (exec env s w₁).2 :=
    List.Subset.trans (uploads_exec s w₁) hw₁
  have hspec : p.wp (alone env fun _ _ => True) (fun _ w' => I w') w :=
    wp_of_invariant (I := I) hstep p fun _ h => h
  exact run_of_wp hspec fun _ _ => trivial

/-- The upload of a mod creates a job, or deletes the archive again. -/
theorem uploadMod_kept {uploads : List String} (h : Kept uploads w)
    (orgId userId serverInstanceId : Id) (uploadId originalName : String) (sizeBytes : ℕ) :
    ((Request.uploadMod orgId userId serverInstanceId uploadId originalName sizeBytes).prog env).wp
      (alone env fun _ _ => True) (fun _ w' => Kept uploads w') w := by
  unfold Request.prog
  refine wp_bind_of alone_monotone (orgMemberGuard_spec userId orgId) ?_ ?_
  swap
  · rintro e w' ⟨rfl, -⟩
    exact h
  rintro role w' ⟨rfl, -⟩
  have hcreated : ∀ w₁, (w₁ = w' ∨ ∃ c, JobsService.Creates env w' orgId userId serverInstanceId
      "MOD_UPLOAD_QUARANTINE" (some [("uploadId", .str uploadId),
        ("originalName", .str originalName), ("sizeBytes", .num sizeBytes)]) c ∧
        c.Ends (fun _ _ => True) w' w₁) → Kept uploads w₁ := by
    rintro w₁ (rfl | ⟨c, ⟨server, -, -, -⟩, hends⟩)
    · exact h
    · exact h.ends (.inl rfl) hends
  refine wp_tryCatch_of (R := fun _ w₁ => Kept uploads w₁) alone_monotone ?_ (fun _ _ hw => hw) ?_
  · apply wp_handsOutNothing
    exact wp_mono alone_monotone (fun _ w₁ hw => hcreated w₁ hw)
      (JobsService.createJob_spec _ _ _ _ _)
  · intro e w₁ hw₁
    rw [wp_bind, wp_tryCatch, wp_request, alone_apply]
    refine ⟨?_, fun _ _ => ?_⟩
    · rw [exec, orElse_ok, andThen_ok, wp_throw]
      exact hw₁.frame rfl rfl
    · rw [orElse_error, wp_pure, andThen_ok, wp_throw]
      exact hw₁

/-- A request that leaves nothing attached keeps what is not attached. -/
theorem Request.kept {r : Request} {plan : List Bool} (htidy : r.Tidies env plan w)
    (h : KeptHere w) (hstaged : w.Staged) : KeptHere ((uploadPlane env).turn r plan w).after := by
  have hfewer : ((uploadPlane env).turn r plan w).after.uploads ⊆ w.uploads :=
    uploads_run (r.prog env) plan w
  have hall : ∀ f ∈ (r.prog env).faults (machine env) plan w,
      (fun (_ : Stmt) (_ : World) => True) f.1 f.2 := fun _ _ => trivial
  cases r with
  | uploadMod orgId userId serverInstanceId uploadId originalName sizeBytes =>
    exact Kept.mono (run_of_wp (uploadMod_kept h _ _ _ _ _ _) hall) hfewer
  | op o =>
    have hmoves : Moves env (fun _ _ => True) o w ((uploadPlane env).turn (.op o) plan w).after :=
      run_of_wp (o.moves w) hall
    cases o with
    | reportResult hostId jobRunId dto tools =>
      have hspec : ((Op.reportResult hostId jobRunId dto tools).prog env).wp
          (alone env fun s w₁ => ¬s.Removes w₁) (fun _ w' => KeptHere w') w :=
        wp_handsOutNothing (reportResult_kept h hstaged hostId jobRunId dto tools)
      exact run_of_wp hspec htidy
    | failStaleRunningJobs =>
      have hspec : (Op.failStaleRunningJobs.prog env).wp (alone env fun _ _ => True)
          (fun _ w' => Kept w.uploads w') w :=
        wp_handsOutNothing (failStaleRunningJobs_kept h htidy)
      exact Kept.mono (run_of_wp hspec hall) hfewer
    | cancelBatch orgId userId batchId =>
      have hspec : ((Op.cancelBatch orgId userId batchId).prog env).wp (alone env fun _ _ => True)
          (fun _ w' => Kept w.uploads w') w := by
        apply wp_handsOutNothing
        refine wp_orgRoleGuard userId orgId _ (fun _ => h) fun _ => ?_
        refine wp_bind_of alone_monotone (cancelBatch_kept orgId batchId h) ?_ fun _ _ hw => hw
        exact fun _ _ hw => (wp_pure _ _ _).mpr hw
      exact Kept.mono (run_of_wp hspec hall) hfewer
    | _ =>
      have hkept : Kept w.uploads _ := Moves.kept hmoves trivial h
      exact hkept.mono hfewer

/-- What happens elsewhere, or the writing of an archive, keeps it. -/
theorem Kept.environment (h : KeptHere w) (he : Elsewhere w w' ∨ Stages w w') : KeptHere w' := by
  rcases he with he | he
  · cases he <;> exact h.frame rfl rfl
  · obtain ⟨_, hvalid, hnew⟩ := he
    refine ⟨h.jobs, h.batched, fun run hrun hended j hj => ?_⟩
    obtain ⟨hprofile, hupload⟩ := h.clear run hrun hended j hj
    refine ⟨hprofile, fun htype u hu hmem => ?_⟩
    rcases List.mem_append.mp hmem with hmem | hmem
    · exact hupload htype u hu hmem
    · have hsame := archive_inj (List.mem_singleton.mp hmem)
      exact hnew j (Table.get_eq_some.mp hj).1 (hsame ▸ hu)

/-- In a run in which no sweep releases a run whose job still has its attachment, and no call of a
report fails that removes one, nothing is attached to the job of any run that has ended. -/
theorem ended_runs_clean {h : List (Turn Request Err (Option QueueJobData) World)}
    (hr : Runs (uploadPlane env) (Request.Tidies env) World.initial h w) : w.Clean := by
  have hboth : KeptHere w ∧ w.Staged := by
    refine Runs.invariant (J := fun _ w => KeptHere w ∧ w.Staged) ?_ ?_ ?_ hr
    · refine ⟨⟨?_, ?_, ?_⟩, ?_⟩
      · exact fun _ hrun => absurd hrun List.not_mem_nil
      · exact fun _ hj => absurd hj List.not_mem_nil
      · exact fun _ hrun => absurd hrun List.not_mem_nil
      · exact fun _ hname => absurd hname List.not_mem_nil
    · rintro _ w r plan ⟨hkept, hstaged⟩ htidy
      refine ⟨Request.kept htidy hkept hstaged, fun name hname => ?_⟩
      exact hstaged name (uploads_run (r.prog env) plan w hname)
    · rintro _ w w' ⟨hkept, hstaged⟩ he
      refine ⟨Kept.environment hkept he, fun name hname => ?_⟩
      rcases he with he | ⟨u, hvalid, -⟩
      · cases he <;> exact hstaged name hname
      · rcases List.mem_append.mp hname with hname | hname
        · exact hstaged name hname
        · exact ⟨u, hvalid, List.mem_singleton.mp hname⟩
  exact hboth.1.clear

end Requests

/-- The small installation with its environment and its upload directory. -/
abbrev smallUploads : System Request Stmt.Resp Err (Option QueueJobData) World :=
  uploadPlane Env.everyMinute

/-- The small installation after its admin has staged a profile. -/
def World.staged : World :=
  (smallUploads.turn (.op (.createJob 0 0 ⟨"PROFILE_STAGE", 0,
    some [("path", .str "Player/1.ttp"), ("contentBase64", .str "dHRw")]⟩)) [] .small).after

/-- The same after the agent has claimed the job. -/
def World.stagedClaimed : World := (smallUploads.turn (.op (.poll 0 false)) [] .staged).after

theorem Runs.stagedClaimed (cond : Request → List Bool → World → Prop)
    (hcreate : ∀ dto, cond (.op (.createJob 0 0 dto)) [] .small)
    (hpoll : cond (.op (.poll 0 false)) [] .staged) :
    ∃ h, Runs smallUploads cond World.initial h .stagedClaimed := by
  have hsmall : Runs smallUploads cond World.initial [] .small :=
    .environment
      (.environment
        (.environment
          (.environment
            (.environment .init (.inl (.setMembers _ smallUserOrg)))
            (.inl (.pairHost _ 0 "alpha")))
          (.inl (.pairHost _ 1 "beta")))
        (.inl (.createServerInstance _ (smallServer 0 0 "alpha-pw") (fun _ => rfl) ⟨_, rfl, rfl⟩)))
      (.inl (.createServerInstance _ (smallServer 1 1 "beta-pw") (fun _ => rfl) ⟨_, rfl, rfl⟩))
  exact ⟨_, .turn _ [] (.turn _ [] hsmall (hcreate _)) hpoll⟩

/-- The agent reports that the profile is staged. -/
def stagedReport : Request := .op (.reportResult 0 0 ⟨"success", none, none, none, none⟩ [])

theorem ended_runs_clean_staged :
    (smallUploads.turn stagedReport [] World.stagedClaimed).after.Clean := by
  obtain ⟨h, hr⟩ := Runs.stagedClaimed (Request.Tidies Env.everyMinute)
    (fun _ => trivial) trivial
  refine ended_runs_clean (.turn stagedReport [] hr fun f hf => ?_)
  rw [faults_nil] at hf
  exact absurd hf List.not_mem_nil

/-- A profile whose agent stops reporting keeps its content when the sweep has released its run. -/
theorem swept_run_keeps_content :
    ∃ h w, Runs smallUploads (fun _ _ _ => True) World.initial h w ∧ ¬w.Clean := by
  obtain ⟨h, hr⟩ := Runs.stagedClaimed (fun _ _ _ => True) (fun _ => trivial) trivial
  let later : World := { World.stagedClaimed with now := World.stagedClaimed.now + 200000 }
  let swept : World := (smallUploads.turn (.op .failStaleRunningJobs) [] later).after
  refine ⟨_, swept, .turn _ [] (.environment hr (.inl (.tick _ 200000))) trivial, fun hclean => ?_⟩
  have hrun : (swept.db.jobRuns.get 0).any (fun run => run.status == .failed && run.jobId == 0) =
      true := by
    decide
  have hjob : (swept.db.jobs.get 0).any (fun j => j.type == "PROFILE_STAGE" &&
      ((j.payload.getD []).lookup "contentBase64").isSome) = true := by
    decide
  obtain ⟨run, hget, hfailed⟩ := (Option.any_eq_true _ _).mp hrun
  obtain ⟨j, hj, hcontent⟩ := (Option.any_eq_true _ _).mp hjob
  simp only [Bool.and_eq_true, beq_iff_eq] at hfailed hcontent
  have hclear := hclean run (Table.get_eq_some.mp hget).1
    ⟨by simp [hfailed.1], by simp [hfailed.1]⟩ j (hfailed.2 ▸ hj)
  rw [hclear.1 hcontent.1] at hcontent
  exact absurd hcontent.2 (by simp)

end Mastermind
