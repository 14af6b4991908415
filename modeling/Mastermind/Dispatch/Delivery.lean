import Mastermind.Dispatch.Integrity
import Mastermind.Dispatch.Moves

/-!
# Every pending run can be received

A run is created pending, and its host learns of it through the queue of its organization only. The
run and its entry are in two stores, which the services change one after the other, so a call that
fails between the two strands the run: the entry was not added yet, or an agent's poll has already
taken it out. Nothing puts it back, and the sweep looks at running runs only. A schedule whose
server instance belongs to another organization strands its runs as well, because it puts their
entries into a queue that the host does not poll.

`Delivered` is the invariant that excludes this. It holds after every operation in which no call
fails that is about a pending run without an entry (`Strands`), whichever other calls fail, if the
schedules that fire are for server instances of their own organization (`Op.Local`).
-/

namespace Mastermind

open Effect Effect.Program

variable {env : Env} {may : Stmt → World → Prop}

/-- The run can be received: its entry is in the queue that its host polls, which is that of its
job's organization. -/
def World.Receivable (w : World) (r : JobRun) : Prop :=
  ∃ j h e, w.db.jobs.get r.jobId = some j ∧ w.db.hosts.get r.hostId = some h ∧ h.orgId = j.orgId ∧
    e ∈ w.queues j.orgId ∧ e.id = r.id ∧ e.data.jobRunId = r.id ∧ e.data.hostId = r.hostId

/-- Every pending run can be received, and every entry is that of its run. -/
structure Delivered (w : World) : Prop where
  integrity : Integrity w.db
  own : ∀ org, ∀ e ∈ w.queues org, e.data.jobRunId = e.id ∧ e.id < w.db.jobRuns.next ∧
    ∀ r, w.db.jobRuns.get e.id = some r → r.hostId = e.data.hostId
  pending : ∀ r ∈ w.db.jobRuns.rows, r.status = .pending → w.Receivable r

/-- The run that a call is about, if it is one that a failure can strand: its entry is about to be
added, or was taken out and the run is about to be started. -/
def Stmt.aboutRun : Stmt → Option Id
  | queueAdd _ entry => some entry.id
  | jobRunFindUnique id => some id
  | jobRunUpdate id .start => some id
  | _ => none

/-- A failure of the call would strand a run: it is about a pending run that has no entry. -/
def Strands (s : Stmt) (w : World) : Prop :=
  ∃ id r, s.aboutRun = some id ∧ w.db.jobRuns.get id = some r ∧ r.status = .pending ∧
    ¬w.Receivable r

/-- The operation is not the fire of an enabled schedule for a server instance of another
organization. -/
def Op.Local : Op → World → Prop
  | fire scheduleId, w => ∀ s si, w.db.schedules.get scheduleId = some s → s.enabled = true →
      w.db.serverInstances.get s.serverInstanceId = some si → si.orgId = s.orgId
  | _, _ => True

/-- What is dispatched reaches its host: the host is one of the job's organization, and the entry is
that of the run. -/
structure Creation.Reaches (c : Creation) (w : World) : Prop where
  host : ∃ h, w.db.hosts.get c.hostId = some h ∧ h.orgId = c.data.orgId
  entry : ∀ jobId runId, (c.entry jobId runId).id = runId ∧
    (c.entry jobId runId).data.jobRunId = runId ∧ (c.entry jobId runId).data.hostId = c.hostId

namespace Delivered

variable {w : World}

/-- The invariant looks at the five tables and the queues. -/
theorem frame (h : Delivered w) {w' : World} (hq : w'.queues = w.queues)
    (hh : w'.db.hosts = w.db.hosts) (hs : w'.db.serverInstances = w.db.serverInstances)
    (hj : w'.db.jobs = w.db.jobs) (hr : w'.db.jobRuns = w.db.jobRuns)
    (hb : w'.db.jobBatches = w.db.jobBatches) : Delivered w' := by
  refine ⟨h.integrity.congr hh hs hj hr hb, ?_, ?_⟩
  · rw [hq, hr]
    exact h.own
  · unfold World.Receivable
    rw [hq, hh, hj, hr]
    exact h.pending

/-- No entry has the id of a run that does not exist yet. -/
theorem fresh (h : Delivered w) (org : Id) : ∀ e ∈ w.queues org, e.id ≠ w.db.jobRuns.next :=
  fun e he => Nat.ne_of_lt (h.own org e he).2.1

section Creating

theorem insertJob (h : Delivered w) {d : JobData} (hd : w.db.refersToRecords d = true) :
    Delivered (w.insertJob d) := by
  refine ⟨h.integrity.insertJob hd, h.own, fun r hr hpending => ?_⟩
  obtain ⟨j, x, e, hj, hrest⟩ := h.pending r hr hpending
  exact ⟨j, x, e, World.get_insertJob hj, hrest⟩

/-- A run and its entry together keep the invariant. -/
theorem queued (h : Delivered w) (c : Creation) (hc : c.Refers w) (hreach : c.Reaches w) :
    Delivered (c.queued w) := by
  obtain ⟨hjobs, hown, hpending⟩ := h.insertJob hc.1
  have hjob : (c.job w).db.jobs.get w.db.jobs.next = some (c.data.row w.db.jobs.next) :=
    Table.get_insert_next w.db.jobs c.data.row c.data.key_row
  have hsome : ((c.job w).db.jobs.get w.db.jobs.next).isSome = true := by rw [hjob]; rfl
  have hinserted : Integrity (c.run w).db := Integrity.insertJobRun hjobs hsome hc.2
  obtain ⟨hid, hrunId, hhostId⟩ := hreach.entry w.db.jobs.next w.db.jobRuns.next
  -- a run of the tables is an older one, or the new one
  have hrow {i : Id} {r : JobRun} (hr : (c.run w).db.jobRuns.get i = some r) :
      w.db.jobRuns.get i = some r ∨
        i = w.db.jobRuns.next ∧ r = pendingRun w.db.jobs.next c.hostId w.db.jobRuns.next := by
    by_cases hi : i = w.db.jobRuns.next
    · subst hi
      have hnew := Table.get_insert_next w.db.jobRuns (pendingRun w.db.jobs.next c.hostId)
        fun _ => rfl
      exact .inr ⟨rfl, Option.some.inj (hr.symm.trans hnew)⟩
    · have hold := Table.get_insert_of_ne (t := w.db.jobRuns)
        (key_pendingRun w.db.jobs.next c.hostId) hi
      exact .inl (hold.symm.trans hr)
  refine ⟨hinserted.congr rfl rfl rfl rfl rfl, fun org e he => ?_, fun r hr hstatus => ?_⟩
  · show e.data.jobRunId = e.id ∧ e.id < w.db.jobRuns.next + 1 ∧ _
    rcases World.mem_enqueue he with he | ⟨rfl, rfl⟩
    · obtain ⟨hdata, hlt, hhost⟩ := hown org e he
      refine ⟨hdata, Nat.lt_succ_of_lt hlt, fun r hr => ?_⟩
      rcases hrow hr with hr | ⟨hnew, -⟩
      · exact hhost r hr
      · exact absurd hnew (Nat.ne_of_lt hlt)
    · have hentry : (c.queueEntry w).id = w.db.jobRuns.next := hid
      refine ⟨hrunId.trans hid.symm, hentry ▸ Nat.lt_succ_self _, fun r hr => ?_⟩
      rcases hrow hr with hr | ⟨-, rfl⟩
      · rw [hentry, Table.get_eq_none_of_le le_rfl] at hr
        cases hr
      · exact hhostId.symm
  · rcases World.mem_insertJobRun.mp hr with hr | rfl
    · obtain ⟨j, x, e, hj, hx, horg, he, hrest⟩ := hpending r hr hstatus
      exact ⟨j, x, e, hj, hx, horg, World.mem_enqueue_of_mem he, hrest⟩
    · -- the new run
      obtain ⟨x, hx, horg⟩ := hreach.host
      refine ⟨c.data.row w.db.jobs.next, x, c.queueEntry w, hjob, hx, horg, ?_, hid, hrunId, hhostId⟩
      refine World.mem_enqueue_self fun e he => ?_
      rw [show (c.queueEntry w).id = w.db.jobRuns.next from hid]
      exact h.fresh _ e he

/-- A failure to add the entry of a new run strands the run. -/
theorem strands_of_run (h : Delivered w) (c : Creation) (hreach : c.Reaches w) :
    Strands (.queueAdd c.data.orgId (c.queueEntry w)) (c.run w) := by
  have hid : (c.queueEntry w).id = w.db.jobRuns.next := (hreach.entry _ _).1
  have hnew : (c.run w).db.jobRuns.get w.db.jobRuns.next =
      some (pendingRun w.db.jobs.next c.hostId w.db.jobRuns.next) :=
    Table.get_insert_next w.db.jobRuns (pendingRun w.db.jobs.next c.hostId) fun _ => rfl
  refine ⟨_, _, by rw [Stmt.aboutRun, hid], hnew, rfl, ?_⟩
  rintro ⟨j, x, e, -, -, -, he, hentry, -⟩
  exact h.fresh _ e he hentry

/-- Dispatching keeps the invariant, if no failure strands the run. -/
theorem ends (h : Delivered w) {c : Creation} (hreach : c.Reaches w) {w' : World}
    (he : c.Ends (fun s w => ¬Strands s w) w w') : Delivered w' := by
  cases he with
  | job hd => exact h.insertJob hd
  | run _ hm => exact absurd (h.strands_of_run c hreach) hm
  | queued hc => exact h.queued c hc hreach

end Creating

section Moving

/-- An update that leaves no run pending that was not keeps the invariant. -/
theorem updateJobRun (h : Delivered w) (id : Id) (p : RunPatch)
    (hp : p.status? ≠ some .pending) : Delivered (w.updateJobRun id p) := by
  refine ⟨h.integrity.updateJobRun id p, fun org e he => ?_, fun r' hr' hstatus => ?_⟩
  · obtain ⟨hdata, hlt, hhost⟩ := h.own org e he
    refine ⟨hdata, hlt, fun r' hr' => ?_⟩
    unfold World.updateJobRun at hr'
    rw [Table.get_update] at hr'
    split_ifs at hr' with hid
    · obtain ⟨r, hr, rfl⟩ := Option.map_eq_some_iff.mp hr'
      rw [← hhost r hr]
      cases p <;> rfl
    · exact hhost r' hr'
  · obtain ⟨r, hr, rfl⟩ := World.mem_updateJobRun.mp hr'
    split_ifs at hstatus ⊢ with hid
    · -- only a patch without a status leaves the run pending
      cases p with
      | progress phase message => exact h.pending r hr hstatus
      | start => cases hstatus
      | cancel => cases hstatus
      | release prior => cases hstatus
      | finish status result => exact absurd (congrArg some hstatus) hp
    · exact h.pending r hr hstatus

/-- An entry whose run is not pending can be taken out of the queue. -/
theorem dequeue (h : Delivered w) (orgId id : Id)
    (hid : ∀ r, w.db.jobRuns.get id = some r → r.status ≠ .pending) :
    Delivered (w.dequeue orgId id) := by
  refine ⟨h.integrity.congr rfl rfl rfl rfl rfl, fun org e he => ?_, fun r hr hstatus => ?_⟩
  · exact h.own org e (World.mem_dequeue.mp he).1
  · obtain ⟨j, x, e, hj, hx, horg, he, hentry, hrest⟩ := h.pending r hr hstatus
    refine ⟨j, x, e, hj, hx, horg, World.mem_dequeue.mpr ⟨he, fun _ heq => ?_⟩, hentry, hrest⟩
    have hr' : w.db.jobRuns.get id = some r :=
      Table.get_eq_some.mpr ⟨hr, hentry.symm.trans heq⟩
    exact hid r hr' hstatus

/-- After an update that ends or starts a run, its entry can be taken out of the queue. -/
theorem updateJobRun_dequeue (h : Delivered w) (orgId id : Id) {p : RunPatch} {st : JobRunStatus}
    (hp : p.status? = some st) (hst : st ≠ .pending) :
    Delivered ((w.updateJobRun id p).dequeue orgId id) := by
  refine (h.updateJobRun id p fun h => hst ?_).dequeue orgId id fun r' hr' => ?_
  · exact Option.some.inj (hp.symm.trans h)
  · unfold World.updateJobRun at hr'
    rw [Table.get_update, if_pos rfl] at hr'
    obtain ⟨r, hr, rfl⟩ := Option.map_eq_some_iff.mp hr'
    have hstatus : (p.apply w.now r).status = st := by
      cases p with
      | progress _ _ => cases hp
      | start => exact Option.some.inj hp
      | cancel => exact Option.some.inj hp
      | release _ => exact Option.some.inj hp
      | finish _ _ => exact Option.some.inj hp
    rwa [hstatus]

/-- An entry may be taken out for nothing only if its run is not pending: a failure in between
would strand it. -/
theorem drop (h : Delivered w) {hostId : Id} {host : Host} {e : QueueEntry}
    (hc : Claimable w hostId host e)
    (kept : ∀ run, w.db.jobRuns.get e.data.jobRunId = some run → run.status = .pending →
      run.hostId = hostId → (w.db.jobs.get run.jobId).isSome = true →
        ¬Strands (.jobRunFindUnique e.data.jobRunId) (w.dequeue host.orgId e.id) ∨
          ¬Strands (.jobRunUpdate e.data.jobRunId .start) (w.dequeue host.orgId e.id)) :
    Delivered (w.dequeue host.orgId e.id) := by
  obtain ⟨hdata, -, hhost⟩ := h.own _ e hc.queued
  refine h.dequeue host.orgId e.id fun r hr hstatus => ?_
  have hmine : r.hostId = hostId := (hhost r hr).trans hc.mine
  obtain ⟨j, hj⟩ := h.integrity.jobOfRun r (Table.get_eq_some.mp hr).1
  -- without its entry the run cannot be received, for it has only the one
  have hlost : ¬(w.dequeue host.orgId e.id).Receivable r := by
    rintro ⟨j', x, e', hj', hx, horg, he', hentry, -⟩
    have hhost' : x = host := Option.some.inj (hx.symm.trans (hmine ▸ hc.paired))
    subst hhost'
    obtain ⟨-, hne⟩ := World.mem_dequeue.mp he'
    have hid : r.id = e.id := (Table.get_eq_some.mp hr).2
    exact hne horg.symm (hentry.trans hid)
  have hget : (w.dequeue host.orgId e.id).db.jobRuns.get e.data.jobRunId = some r := by
    rw [hdata]
    exact hr
  have hstrands (s : Stmt) (hs : s.aboutRun = some e.data.jobRunId) :
      Strands s (w.dequeue host.orgId e.id) := ⟨_, r, hs, hget, hstatus, hlost⟩
  rcases kept r (hdata ▸ hr) hstatus hmine (by rw [hj]; rfl) with hk | hk
  · exact hk (hstrands _ rfl)
  · exact hk (hstrands _ rfl)

end Moving

section Removing

theorem updateJob (h : Delivered w) (id : Id) (payload : JsonObject) :
    Delivered (w.updateJob id payload) := by
  refine ⟨h.integrity.updateJob id payload, h.own, fun r hr hstatus => ?_⟩
  obtain ⟨j, x, e, hj, hrest⟩ := h.pending r hr hstatus
  by_cases hid : r.jobId = id
  · subst hid
    exact ⟨j.withPayload payload, x, e,
      Table.get_update_self (Job.key_withPayload payload) hj, hrest⟩
  · exact ⟨j, x, e, (Table.get_update_of_ne (Job.key_withPayload payload) hid).trans hj, hrest⟩

theorem removeServerInstance (h : Delivered w) (id : Id) :
    Delivered (w.removeServerInstance id) := by
  refine ⟨h.integrity.removeServerInstance id, h.own, fun r hr hstatus => ?_⟩
  obtain ⟨j, x, e, hj, hx, horg, he, hrest⟩ := h.pending r hr hstatus
  have hget : (w.removeServerInstance id).db.jobs.get r.jobId =
      some (if j.serverInstanceId == some id then { j with serverInstanceId := none } else j) := by
    unfold World.removeServerInstance
    rw [Table.get_modify, hj, Option.map_some]
  have hsame : (if j.serverInstanceId == some id then { j with serverInstanceId := none }
      else j).orgId = j.orgId := by
    split_ifs <;> rfl
  refine ⟨_, x, e, hget, hx, ?_, ?_, hrest⟩
  · rw [hsame, horg]
  · rw [hsame]
    exact he

theorem removeHost (h : Delivered w) {id : Id} (audit : AuditLog)
    (hs : (w.db.serverInstances.rows.any fun s => s.hostId == id) = false) :
    Delivered (w.removeHost id audit) := by
  refine ⟨h.integrity.removeHost audit hs, fun org e he => ?_, fun r hr hstatus => ?_⟩
  · obtain ⟨hdata, hlt, hhost⟩ := h.own org e he
    refine ⟨hdata, hlt, fun r hr => hhost r ?_⟩
    obtain ⟨hmem, hid⟩ := Table.get_eq_some.mp hr
    exact Table.get_eq_some.mpr ⟨(Table.mem_erase.mp hmem).1, hid⟩
  · obtain ⟨hmem, hother⟩ := Table.mem_erase.mp hr
    obtain ⟨j, x, e, hj, hx, hrest⟩ := h.pending r hmem hstatus
    have hhost : (w.removeHost id audit).db.hosts.get r.hostId = some x := by
      obtain ⟨hx', hxid⟩ := Table.get_eq_some.mp hx
      refine Table.get_eq_some.mpr ⟨Table.mem_erase.mpr ⟨hx', ?_⟩, hxid⟩
      rw [show x.id = r.hostId from hxid]
      exact hother
    exact ⟨j, x, e, hj, hhost, hrest⟩

/-- Making entries due keeps every entry in its queue. -/
theorem promoted (h : Delivered w) {w' : World} (hp : Promoted w w') : Delivered w' := by
  have hdb : w'.db = w.db := by
    obtain ⟨q, rfl, -⟩ := hp
    rfl
  refine ⟨hdb ▸ h.integrity, fun org e' he' => ?_, fun r hr hstatus => ?_⟩
  · obtain ⟨e, he, hdue⟩ := hp.mem_due he'
    have hown := h.own org e he
    rw [hdb, ← show e.id = e'.id from congrArg (fun x => x.id) hdue,
      ← show e.data = e'.data from congrArg (fun x => x.data) hdue]
    exact hown
  · rw [hdb] at hr
    obtain ⟨j, x, e, hj, hx, horg, he, hrest⟩ := h.pending r hr hstatus
    obtain ⟨e', he', hdue⟩ := hp.symm_mem_due he
    refine ⟨j, x, e', by rw [hdb]; exact hj, by rw [hdb]; exact hx, horg, he', ?_⟩
    rw [show e'.id = e.id from congrArg (fun x => x.id) hdue,
      show e'.data = e.data from congrArg (fun x => x.data) hdue]
    exact hrest

end Removing

/-- What happens elsewhere keeps the invariant. -/
theorem elsewhere (h : Delivered w) {w' : World} (he : Elsewhere w w') : Delivered w' := by
  refine ⟨h.integrity.elsewhere he, ?_, ?_⟩
  · cases he <;> exact h.own
  · intro r hr hstatus
    cases he with
    | pairHost orgId name =>
      obtain ⟨j, x, e, hj, hx, hrest⟩ := h.pending r hr hstatus
      exact ⟨j, x, e, hj, Table.get_insert_of_get (fun _ => rfl) hx, hrest⟩
    | _ => exact h.pending r hr hstatus

/-- Nothing is pending at first. -/
theorem initial : Delivered World.initial where
  integrity := Integrity.initial
  own _ _ he := nomatch he
  pending _ hr := nomatch hr

/-- What a path dispatches for a server instance reaches its host, if the job is the instance's
organization's. -/
theorem reaches (h : Delivered w) {c : Creation} {id : Id} {si : ServerInstance}
    (hs : w.db.serverInstances.get id = some si) (horg : si.orgId = c.data.orgId)
    (hhost : c.hostId = si.hostId)
    (hentry : ∀ jobId runId, (c.entry jobId runId).id = runId ∧
      (c.entry jobId runId).data.jobRunId = runId ∧ (c.entry jobId runId).data.hostId = c.hostId) :
    c.Reaches w := by
  obtain ⟨x, hx, hxorg⟩ := h.integrity.hostOfServer si (Table.get_eq_some.mp hs).1
  exact ⟨⟨x, hhost ▸ hx, hxorg.trans horg⟩, hentry⟩

end Delivered

/-- The moves of an operation do not make its schedule's server instance another organization's. -/
theorem Move.isLocal {o : Op} {w w' : World} (hm : Move env may o w w') (h : o.Local w) :
    o.Local w' := by
  cases hm with
  | fire _ ends => cases ends <;> exact h
  | book rescheduled =>
    obtain ⟨_, _, rfl, hsame⟩ := rescheduled
    intro s' si hs' henabled' hsi
    obtain ⟨hmem, hid'⟩ := Table.get_eq_some.mp hs'
    obtain ⟨s, hs, hid, horg, hserver, -, -, henabled⟩ := hsame s' hmem
    rw [horg]
    rw [hserver] at hsi
    rw [henabled] at henabled'
    exact h s si (Table.get_eq_some.mpr ⟨hs, hid.symm.trans hid'⟩) henabled' hsi
  | @tidy o w _ _ _ => cases o <;> exact h
  | _ => trivial

/-- A move keeps every pending run receivable, unless a call fails that strands one. -/
theorem Move.delivered {o : Op} {w w' : World} (hm : Move env (fun s w => ¬Strands s w) o w w')
    (hlocal : o.Local w) (h : Delivered w) : Delivered w' := by
  cases hm with
  | create _ creates ends =>
    obtain ⟨server, org, -, -⟩ := creates
    exact h.ends (h.reaches server org rfl fun _ _ => ⟨rfl, rfl, rfl⟩) ends
  | enforce _ creates ends =>
    obtain ⟨server, org, -, -⟩ := creates
    exact h.ends (h.reaches server org rfl fun _ _ => ⟨rfl, rfl, rfl⟩) ends
  | moderate enqueues ends =>
    obtain ⟨server, org⟩ := enqueues
    exact h.ends (h.reaches server org rfl fun _ _ => ⟨rfl, rfl, rfl⟩) ends
  | fire fires ends =>
    obtain ⟨schedule, enabled, server, -⟩ := fires
    exact h.ends (h.reaches server (hlocal _ _ schedule enabled server) rfl
      fun _ _ => ⟨rfl, rfl, rfl⟩) ends
  | book rescheduled =>
    obtain ⟨_, _, rfl, -⟩ := rescheduled
    exact h.frame rfl rfl rfl rfl rfl rfl
  | batch _ => exact ⟨h.integrity.insertJobBatch _, h.own, h.pending⟩
  | batchJob si server org ends =>
    exact h.ends (h.reaches server org rfl fun _ _ => ⟨rfl, rfl, rfl⟩) ends
  | cancelRun runId cancelled =>
    rcases cancelled with rfl | rfl
    · exact h.updateJobRun runId .cancel (by simp [RunPatch.status?])
    · exact h.updateJobRun_dequeue _ runId (rfl : RunPatch.cancel.status? = _) (by simp)
  | cancel _ => exact ⟨h.integrity.updateJobBatch _ _, h.own, h.pending⟩
  | schedule _ _ _ _ retimed =>
    obtain ⟨_, rfl⟩ := retimed
    exact h.frame rfl rfl rfl rfl rfl rfl
  | edit _ _ _ _ _ _ retimed =>
    obtain ⟨_, rfl⟩ := retimed
    exact h.frame rfl rfl rfl rfl rfl rfl
  | promote hp => exact h.promoted hp
  | claim host e run j claimable _ _ _ _ =>
    -- the two stores can be changed in either order
    obtain ⟨hdata, -, -⟩ := h.own _ e claimable.queued
    have hstarted := h.updateJobRun_dequeue host.orgId e.id
      (rfl : RunPatch.start.status? = _) (by simp)
    rw [hdata]
    exact hstarted
  | drop host e claimable kept => exact h.drop claimable kept
  | bookStart _ => exact ⟨h.integrity.updateJobBatch _ _, h.own, h.pending⟩
  | @finish _ jobRunId dto _ _ _ _ _ _ =>
    refine h.updateJobRun jobRunId _ fun hpending => ?_
    have hstatus : dto.runStatus = .pending := Option.some.inj hpending
    unfold ReportResultDto.runStatus at hstatus
    split_ifs at hstatus
  | scrub j _ => exact h.updateJob j.id _
  | bookEnd _ _ => exact ⟨h.integrity.updateJobBatch _ _, h.own, h.pending⟩
  | progress _ => exact h.updateJobRun _ _ (by simp [RunPatch.status?])
  | release runId prior _ => exact h.updateJobRun runId (.release prior) (by simp [RunPatch.status?])
  | removeHost audit unused => exact h.removeHost audit unused
  | removeServer => exact h.removeServerInstance _
  | tidy _ _ _ => exact h.frame rfl rfl rfl rfl rfl rfl

/-- In a run in which no call fails that strands a run, and the schedules that fire are for server
instances of their own organization, every pending run can be received in every state reached. -/
theorem pending_receivable {w : World} {h : List (Turn Op Err (Option QueueJobData) World)}
    (hr : Runs (controlPlane env) (fun op plan w => op.Local w ∧
      ∀ f ∈ (op.prog env).faults (machine env) plan w, ¬Strands f.1 f.2) World.initial h w)
    {r : JobRun} (hmem : r ∈ w.db.jobRuns.rows) (hpending : r.status = .pending) :
    w.Receivable r := by
  have hdelivered : Delivered w := by
    refine runs_of_moves (fun s w => ¬Strands s w) Delivered.initial
      (fun o plan w hcond => hcond.2) ?_ (fun w w' hw he => hw.elsewhere he) hr
    intro o plan w w₁ w₂ _ hcond hmoves hw₁ hmove
    have hlocal : o.Local w₁ := hmoves.keep (fun _ _ hl hm => hm.isLocal hl) hcond.1
    exact hmove.delivered hlocal hw₁
  exact hdelivered.pending r hmem hpending

section Examples

/-- The turn in which a poll lists the queue in vain. -/
def waveUnlisted : Turn Op Err (Option QueueJobData) World :=
  smallPlane.turn (.poll 0 false) (failAt 1) .wave

/-- After a poll whose listing of the queue fails, the run of the wave can still be received. -/
theorem pending_receivable_unlisted : waveUnlisted.result.isOk = false ∧
    waveUnlisted.after.Receivable (pendingRun 0 0 0) := by
  have hfault : (((Op.poll 0 false).prog Env.everyMinute).faults (machine Env.everyMinute)
      (failAt 1) .wave).all (fun f => f.1.aboutRun.isNone) = true := by decide +kernel
  have hrun : ∃ h, Runs smallPlane (fun op plan w => op.Local w ∧
      ∀ f ∈ (op.prog Env.everyMinute).faults (machine Env.everyMinute) plan w, ¬Strands f.1 f.2)
      World.initial h World.wave := by
    refine Runs.wave ⟨trivial, fun f hf => ?_⟩
    rw [Program.faults_nil] at hf
    cases hf
  obtain ⟨_, hr⟩ := hrun
  have hpolled : Runs smallPlane _ World.initial _ waveUnlisted.after :=
    .turn (Op.poll 0 false) (failAt 1) hr ⟨trivial, fun f hf => ?_⟩
  · exact ⟨by decide +kernel, pending_receivable hpolled List.mem_cons_self rfl⟩
  · rintro ⟨id, r, habout, -⟩
    have hnone := List.all_eq_true.mp hfault f hf
    rw [habout] at hnone
    cases hnone
/-- The small installation with a schedule for its first server instance. -/
def World.scheduled : World :=
  (smallPlane.turn
    (.createSchedule 0 0 ⟨"nightly", 0, "* * * * *", "SERVER_RESTART", none, none⟩) [] .small).after

set_option maxRecDepth 100000 in
/-- A fire whose entry cannot be added leaves a pending run without an entry. -/
theorem pending_not_queued :
    ¬ ∀ h w, Runs smallPlane (fun _ plan _ => plan.count true ≤ 1) World.initial h w →
      ∀ r ∈ w.db.jobRuns.rows, r.status = .pending → ∀ j, w.db.jobs.get r.jobId = some j →
        ∃ e ∈ w.queues j.orgId, e.data.jobRunId = r.id := by
  intro hall
  have hscheduled : Runs smallPlane (fun _ plan _ => plan.count true ≤ 1) World.initial _
      World.scheduled := .turn _ [] Runs.small (by decide)
  have hfired := Runs.turn (.fire 0) [false, false, false, false, true] hscheduled (by decide)
  obtain ⟨e, he, -⟩ := hall _ _ hfired (pendingRun 0 0 0) List.mem_cons_self rfl _ rfl
  exact nomatch he

end Examples

end Mastermind
