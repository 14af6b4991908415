import Mastermind.Dispatch.Rules

/-!
# Referential integrity

What the foreign keys of the schema promise, as an invariant of the database: a server instance's
host is one of its organization, a job's batch exists, and so do a run's job and host. Every
statement keeps it whatever its arguments are (`Integrity.exec`), because the statements check what
the database checks; so every program does, in any interleaving, and so does everything else that
changes the stores (`Integrity.elsewhere`).
-/

namespace Mastermind

open Effect

/-- The references of the records. -/
structure Integrity (db : Database) : Prop where
  hostOfServer : ∀ s ∈ db.serverInstances.rows, db.hostInOrg s
  batchOfJob : ∀ j ∈ db.jobs.rows, ∀ b, j.batchId = some b → ∃ x, db.jobBatches.get b = some x
  jobOfRun : ∀ r ∈ db.jobRuns.rows, ∃ j, db.jobs.get r.jobId = some j
  hostOfRun : ∀ r ∈ db.jobRuns.rows, ∃ h, db.hosts.get r.hostId = some h

namespace Integrity

variable {env : Env} {w : World}

/-- The invariant looks at five tables. -/
theorem congr {db db' : Database} (h : Integrity db) (hh : db'.hosts = db.hosts)
    (hs : db'.serverInstances = db.serverInstances) (hj : db'.jobs = db.jobs)
    (hr : db'.jobRuns = db.jobRuns) (hb : db'.jobBatches = db.jobBatches) : Integrity db' := by
  obtain ⟨h₁, h₂, h₃, h₄⟩ := h
  refine ⟨fun s hmem => ?_, ?_, ?_, ?_⟩
  · rw [hs] at hmem
    unfold Database.hostInOrg
    rw [hh]
    exact h₁ s hmem
  · rw [hj, hb]
    exact h₂
  · rw [hr, hj]
    exact h₃
  · rw [hr, hh]
    exact h₄

/-- The host of a server instance exists. -/
theorem host_of_server (h : Integrity w.db) {id : Id} {s : ServerInstance}
    (hs : w.db.serverInstances.get id = some s) : ∃ x, w.db.hosts.get s.hostId = some x := by
  obtain ⟨x, hx, -⟩ := h.hostOfServer s (Table.get_eq_some.mp hs).1
  exact ⟨x, hx⟩

theorem insertJob (h : Integrity w.db) {d : JobData} (hd : w.db.refersToRecords d = true) :
    Integrity (w.insertJob d).db where
  hostOfServer := h.hostOfServer
  batchOfJob j hj b hb := by
    rcases World.mem_insertJob.mp hj with hj | rfl
    · exact h.batchOfJob j hj b hb
    · -- the new job's batch was looked up
      have hfound := (Bool.and_eq_true _ _ ▸ hd : _ ∧ _).2
      rw [show d.batchId = some b from hb] at hfound
      exact Option.isSome_iff_exists.mp hfound
  jobOfRun r hr := by
    obtain ⟨j, hj⟩ := h.jobOfRun r hr
    exact ⟨j, World.get_insertJob hj⟩
  hostOfRun := h.hostOfRun

theorem insertJobRun (h : Integrity w.db) {jobId hostId : Id}
    (hj : (w.db.jobs.get jobId).isSome = true) (hh : (w.db.hosts.get hostId).isSome = true) :
    Integrity (w.insertJobRun jobId hostId).db where
  hostOfServer := h.hostOfServer
  batchOfJob := h.batchOfJob
  jobOfRun r hr := by
    rcases World.mem_insertJobRun.mp hr with hr | rfl
    · exact h.jobOfRun r hr
    · exact Option.isSome_iff_exists.mp hj
  hostOfRun r hr := by
    rcases World.mem_insertJobRun.mp hr with hr | rfl
    · exact h.hostOfRun r hr
    · exact Option.isSome_iff_exists.mp hh

theorem insertJobBatch (h : Integrity w.db) (d : BatchData) :
    Integrity (w.insertJobBatch d).db where
  hostOfServer := h.hostOfServer
  batchOfJob j hj b hb := by
    obtain ⟨x, hx⟩ := h.batchOfJob j hj b hb
    exact ⟨x, World.get_insertJobBatch hx⟩
  jobOfRun := h.jobOfRun
  hostOfRun := h.hostOfRun

theorem updateJobRun (h : Integrity w.db) (id : Id) (p : RunPatch) :
    Integrity (w.updateJobRun id p).db := by
  -- an update changes neither the job nor the host of a run
  have same (r' : JobRun) (hr' : r' ∈ (w.updateJobRun id p).db.jobRuns.rows) :
      ∃ r ∈ w.db.jobRuns.rows, r'.jobId = r.jobId ∧ r'.hostId = r.hostId := by
    obtain ⟨r, hr, rfl⟩ := World.mem_updateJobRun.mp hr'
    refine ⟨r, hr, ?_⟩
    split_ifs
    · cases p <;> exact ⟨rfl, rfl⟩
    · exact ⟨rfl, rfl⟩
  refine ⟨h.hostOfServer, h.batchOfJob, fun r' hr' => ?_, fun r' hr' => ?_⟩
  · obtain ⟨r, hr, hjob, -⟩ := same r' hr'
    rw [hjob]
    exact h.jobOfRun r hr
  · obtain ⟨r, hr, -, hhost⟩ := same r' hr'
    rw [hhost]
    exact h.hostOfRun r hr

theorem updateJobBatch (h : Integrity w.db) (id : Id) (p : BatchPatch) :
    Integrity (w.updateJobBatch id p).db where
  hostOfServer := h.hostOfServer
  batchOfJob j hj b hb := by
    obtain ⟨x, hx⟩ := h.batchOfJob j hj b hb
    unfold World.updateJobBatch
    rw [Table.get_update]
    split_ifs
    · exact ⟨_, by rw [hx]; rfl⟩
    · exact ⟨x, hx⟩
  jobOfRun := h.jobOfRun
  hostOfRun := h.hostOfRun

theorem updateJob (h : Integrity w.db) (id : Id) (payload : JsonObject) :
    Integrity (w.updateJob id payload).db where
  hostOfServer := h.hostOfServer
  batchOfJob j' hj' b hb := by
    obtain ⟨j, hj, rfl⟩ := World.mem_updateJob.mp hj'
    refine h.batchOfJob j hj b ?_
    split_ifs at hb <;> exact hb
  jobOfRun r hr := by
    obtain ⟨j, hj⟩ := h.jobOfRun r hr
    unfold World.updateJob
    rw [Table.get_update]
    split_ifs
    · exact ⟨_, by rw [hj]; rfl⟩
    · exact ⟨j, hj⟩
  hostOfRun := h.hostOfRun

theorem removeServerInstance (h : Integrity w.db) (id : Id) :
    Integrity (w.removeServerInstance id).db where
  hostOfServer s hs := h.hostOfServer s (Table.mem_erase.mp hs).1
  batchOfJob j' hj' b hb := by
    obtain ⟨j, hj, rfl⟩ := List.mem_map.mp hj'
    refine h.batchOfJob j hj b ?_
    split_ifs at hb <;> exact hb
  jobOfRun r hr := by
    obtain ⟨j, hj⟩ := h.jobOfRun r hr
    unfold World.removeServerInstance
    rw [Table.get_modify, hj]
    exact ⟨_, rfl⟩
  hostOfRun := h.hostOfRun

theorem removeHost (h : Integrity w.db) {id : Id} (audit : AuditLog)
    (hs : (w.db.serverInstances.rows.any fun s => s.hostId == id) = false) :
    Integrity (w.removeHost id audit).db := by
  -- what refers to another host still finds it
  have keep (i : Id) (hi : i ≠ id) (x : Host) (hx : w.db.hosts.get i = some x) :
      (w.removeHost id audit).db.hosts.get i = some x := by
    unfold World.removeHost
    rw [Table.get_erase, hx]
    have hxi : x.id = i := (Table.get_eq_some.mp hx).2
    simp [hxi, hi]
  refine ⟨fun s hmem => ?_, h.batchOfJob, fun r hr => ?_, fun r hr => ?_⟩
  · obtain ⟨x, hx, horg⟩ := h.hostOfServer s hmem
    have hne : s.hostId ≠ id := by simpa using List.any_eq_false.mp hs s hmem
    exact ⟨x, keep _ hne x hx, horg⟩
  · exact h.jobOfRun r (Table.mem_erase.mp hr).1
  · obtain ⟨hr, hid⟩ := Table.mem_erase.mp hr
    obtain ⟨x, hx⟩ := h.hostOfRun r hr
    exact ⟨x, keep _ (by simpa using hid) x hx⟩

/-- Every statement keeps the references. -/
theorem exec (s : Stmt) (w : World) (h : Integrity w.db) : Integrity (exec env s w).2.db := by
  cases s with
  | hostRemoveTransaction id audit =>
    rw [Mastermind.exec]
    split_ifs with _ hs
    · exact h
    · exact h
    · exact h.removeHost audit (by simpa using hs)
  | serverInstanceDelete id =>
    rw [Mastermind.exec]
    split_ifs
    · exact h
    · exact h.removeServerInstance id
  | jobCreate d =>
    rw [Mastermind.exec]
    split_ifs with hd
    · exact h.insertJob hd
    · exact h
  | jobUpdate id payload =>
    rw [Mastermind.exec]
    split_ifs
    · exact h
    · exact h.updateJob id payload
  | jobRunCreate jobId hostId =>
    rw [Mastermind.exec]
    split_ifs with hfound
    · obtain ⟨hj, hh⟩ := (Bool.and_eq_true _ _ ▸ hfound : _ ∧ _)
      exact h.insertJobRun hj hh
    · exact h
  | jobRunUpdate id patch =>
    rw [Mastermind.exec]
    split_ifs
    · exact h
    · exact h.updateJobRun id patch
  | jobRunUpdateManyRunning id patch =>
    rw [Mastermind.exec]
    split_ifs
    · exact h.updateJobRun id patch
    · exact h
  | jobBatchCreate d => exact h.insertJobBatch d
  | jobBatchUpdate id patch =>
    cases hb : w.db.jobBatches.get id with
    | none =>
      simp only [Mastermind.exec, hb]
      exact h
    | some b =>
      simp only [Mastermind.exec, hb]
      exact h.updateJobBatch id patch
  | scheduleCreate d =>
    rw [Mastermind.exec]
    split_ifs <;> exact ⟨h.hostOfServer, h.batchOfJob, h.jobOfRun, h.hostOfRun⟩
  | scheduleUpdate id patch =>
    simp only [Mastermind.exec]
    split <;> exact ⟨h.hostOfServer, h.batchOfJob, h.jobOfRun, h.hostOfRun⟩
  | auditLogCreate audit => exact ⟨h.hostOfServer, h.batchOfJob, h.jobOfRun, h.hostOfRun⟩
  | _ => exact h

/-- What happens elsewhere keeps the references. -/
theorem elsewhere {w w' : World} (he : Elsewhere w w') (h : Integrity w.db) : Integrity w'.db := by
  cases he with
  | tick ms => exact h
  | pairHost orgId name =>
    refine ⟨fun s hs => ?_, h.batchOfJob, h.jobOfRun, fun r hr => ?_⟩
    · obtain ⟨x, hx, horg⟩ := h.hostOfServer s hs
      exact ⟨x, Table.get_insert_of_get _ hx, horg⟩
    · obtain ⟨x, hx⟩ := h.hostOfRun r hr
      exact ⟨x, Table.get_insert_of_get _ hx⟩
  | createServerInstance mk hk hhost =>
    refine ⟨fun s hs => ?_, h.batchOfJob, h.jobOfRun, h.hostOfRun⟩
    rcases (Table.mem_insert hk).mp hs with hs | rfl
    · exact h.hostOfServer s hs
    · exact hhost
  | updateServerInstance id f hk hf =>
    refine ⟨fun s' hs' => ?_, h.batchOfJob, h.jobOfRun, h.hostOfRun⟩
    obtain ⟨s, hs, rfl⟩ := (Table.mem_update hk).mp hs'
    split_ifs with hid
    · exact (hf s (Table.get_eq_some.mpr ⟨hs, hid⟩)).2
    · exact h.hostOfServer s hs
  | deleteSchedule id => exact ⟨h.hostOfServer, h.batchOfJob, h.jobOfRun, h.hostOfRun⟩
  | setMembers userOrg => exact ⟨h.hostOfServer, h.batchOfJob, h.jobOfRun, h.hostOfRun⟩
  | setAvoidBloodMoonRestart f => exact ⟨h.hostOfServer, h.batchOfJob, h.jobOfRun, h.hostOfRun⟩

theorem initial : Integrity World.initial.db where
  hostOfServer _ hs := nomatch hs
  batchOfJob _ hj := nomatch hj
  jobOfRun _ hr := nomatch hr
  hostOfRun _ hr := nomatch hr

/-- An operation keeps the references, whichever of its calls fail. -/
theorem turn (h : Integrity w.db) (op : Op) (plan : List Bool) :
    Integrity ((controlPlane env).turn op plan w).after.db := by
  have hwp : (op.prog env).wp (alone env fun _ _ => True) (fun _ w' => Integrity w'.db) w :=
    Program.wp_of_invariant (fun s w hw => exec s w hw) (op.prog env) h
  exact Program.run_of_wp hwp fun _ _ => trivial

/-- The references hold after any operations, whichever of their calls fail. -/
theorem of_runs {cond : Op → List Bool → World → Prop}
    {h : List (Turn Op Err (Option QueueJobData) World)}
    (hr : Runs (controlPlane env) cond World.initial h w) : Integrity w.db :=
  Runs.invariant (J := fun _ w => Integrity w.db) initial
    (fun _ _ op plan hw _ => hw.turn op plan) (fun _ _ _ hw he => elsewhere he hw) hr

end Integrity

end Mastermind
