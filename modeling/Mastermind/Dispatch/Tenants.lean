import Mastermind.Dispatch.Configuration

/-!
# The organizations of dispatched work

Schedules, jobs and runs name their organization and, apart from it, a server instance and a host.
`Isolated` says that these belong to the same organization. Every path looks the server instance up
in the organization of the request, except `createSchedule`, which takes the id as it comes; a
schedule for a server instance of another organization then dispatches jobs with that instance's
configuration. `isolated_of_runs` is about every run without such a request (`Op.Domestic`).

`Owned` and `OwnedHost` also say that the id was assigned before, so that a record created later
cannot turn up under it.
-/

namespace Mastermind

open Effect Effect.Program

/-- The server instance `i` was created and is, if it still exists, the organization's. -/
def Database.Owned (db : Database) (i orgId : Id) : Prop :=
  i < db.serverInstances.next ∧ ∀ si, db.serverInstances.get i = some si → si.orgId = orgId

/-- The host `i` was created and is, if it still exists, the organization's. -/
def Database.OwnedHost (db : Database) (i orgId : Id) : Prop :=
  i < db.hosts.next ∧ ∀ h, db.hosts.get i = some h → h.orgId = orgId

/-- The host that a server instance names is one of its organization. -/
theorem ownedHost_of_hostInOrg {db : Database} {si : ServerInstance} (h : db.hostInOrg si) :
    db.OwnedHost si.hostId si.orgId := by
  obtain ⟨x, hx, horg⟩ := h
  refine ⟨Table.lt_of_get hx, fun y hy => ?_⟩
  obtain rfl := Option.some.inj (hx.symm.trans hy)
  exact horg

/-- What schedules, jobs, runs and queue entries refer to belongs to their organization. -/
structure World.Isolated (w : World) : Prop where
  server : ∀ si ∈ w.db.serverInstances.rows, w.db.OwnedHost si.hostId si.orgId
  schedule : ∀ s ∈ w.db.schedules.rows, w.db.Owned s.serverInstanceId s.orgId
  job : ∀ j ∈ w.db.jobs.rows, ∀ i, j.serverInstanceId = some i → w.db.Owned i j.orgId
  run : ∀ r ∈ w.db.jobRuns.rows, ∃ j, w.db.jobs.get r.jobId = some j ∧
    w.db.OwnedHost r.hostId j.orgId
  entry : ∀ orgId, ∀ e ∈ w.queues orgId, w.db.OwnedHost e.data.hostId orgId ∧
    ∀ i, e.data.serverInstanceId = some i → w.db.Owned i orgId

namespace World.Isolated

variable {env : Env} {may : Stmt → World → Prop} {w w' : World}

/-- A change that keeps what is owned, and under which every record and entry comes of one with the
same organization and the same references. -/
theorem transfer (h : w.Isolated)
    (howned : ∀ i orgId, w.db.Owned i orgId → w'.db.Owned i orgId)
    (hhost : ∀ i orgId, w.db.OwnedHost i orgId → w'.db.OwnedHost i orgId)
    (hserver : ∀ si ∈ w'.db.serverInstances.rows, w'.db.OwnedHost si.hostId si.orgId)
    (hschedule : ∀ s' ∈ w'.db.schedules.rows, ∃ s ∈ w.db.schedules.rows,
      s'.orgId = s.orgId ∧ s'.serverInstanceId = s.serverInstanceId)
    (hjob : ∀ j' ∈ w'.db.jobs.rows, ∃ j ∈ w.db.jobs.rows, j'.orgId = j.orgId ∧
      ∀ i, j'.serverInstanceId = some i → j.serverInstanceId = some i)
    (hget : ∀ i j, w.db.jobs.get i = some j →
      ∃ j', w'.db.jobs.get i = some j' ∧ j'.orgId = j.orgId)
    (hrun : ∀ r' ∈ w'.db.jobRuns.rows, ∃ r ∈ w.db.jobRuns.rows,
      r'.jobId = r.jobId ∧ r'.hostId = r.hostId)
    (hentry : ∀ orgId, ∀ e' ∈ w'.queues orgId, ∃ e ∈ w.queues orgId, e'.data = e.data) :
    w'.Isolated := by
  refine ⟨hserver, fun s' hs' => ?_, fun j' hj' i hi => ?_, fun r' hr' => ?_,
    fun orgId e' he' => ?_⟩
  · obtain ⟨s, hs, horg, hid⟩ := hschedule s' hs'
    rw [horg, hid]
    exact howned _ _ (h.schedule s hs)
  · obtain ⟨j, hj, horg, hid⟩ := hjob j' hj'
    rw [horg]
    exact howned _ _ (h.job j hj i (hid i hi))
  · obtain ⟨r, hr, hjobId, hhostId⟩ := hrun r' hr'
    obtain ⟨j, hj, howner⟩ := h.run r hr
    obtain ⟨j', hj', horg⟩ := hget _ j hj
    rw [hjobId, hhostId]
    exact ⟨j', hj', horg ▸ hhost _ _ howner⟩
  · obtain ⟨e, he, hdata⟩ := hentry orgId e' he'
    obtain ⟨howner, hserver⟩ := h.entry orgId e he
    rw [hdata]
    exact ⟨hhost _ _ howner, fun i hi => howned _ _ (hserver i hi)⟩

/-- A change that leaves hosts, server instances, schedules and jobs alone. -/
theorem frame (h : w.Isolated) (hhosts : w'.db.hosts = w.db.hosts)
    (hservers : w'.db.serverInstances = w.db.serverInstances)
    (hschedules : w'.db.schedules = w.db.schedules) (hjobs : w'.db.jobs = w.db.jobs)
    (hrun : ∀ r' ∈ w'.db.jobRuns.rows, ∃ r ∈ w.db.jobRuns.rows,
      r'.jobId = r.jobId ∧ r'.hostId = r.hostId)
    (hentry : ∀ orgId, ∀ e' ∈ w'.queues orgId, ∃ e ∈ w.queues orgId, e'.data = e.data) :
    w'.Isolated := by
  have howned : ∀ i orgId, w.db.Owned i orgId → w'.db.Owned i orgId := fun i orgId ho => by
    unfold Database.Owned
    rw [hservers]
    exact ho
  have hhost : ∀ i orgId, w.db.OwnedHost i orgId → w'.db.OwnedHost i orgId := fun i orgId ho => by
    unfold Database.OwnedHost
    rw [hhosts]
    exact ho
  refine h.transfer howned hhost (fun si hsi => hhost _ _ (h.server si (hservers ▸ hsi)))
    (fun s hs => ⟨s, hschedules ▸ hs, rfl, rfl⟩)
    (fun j hj => ⟨j, hjobs ▸ hj, rfl, fun _ hi => hi⟩) (fun i j hj => ⟨j, hjobs ▸ hj, rfl⟩) hrun
    hentry

/-- An update of a run. -/
theorem updateJobRun (h : w.Isolated) (id : Id) (p : RunPatch) : (w.updateJobRun id p).Isolated := by
  refine h.frame rfl rfl rfl rfl (fun r' hr' => ?_) fun _ e he => ⟨e, he, rfl⟩
  obtain ⟨r, hr, rfl⟩ := World.mem_updateJobRun.mp hr'
  refine ⟨r, hr, ?_⟩
  split_ifs
  · cases p <;> exact ⟨rfl, rfl⟩
  · exact ⟨rfl, rfl⟩

/-- An entry taken out of a queue. -/
theorem dequeue (h : w.Isolated) (orgId id : Id) : (w.dequeue orgId id).Isolated :=
  h.frame rfl rfl rfl rfl (fun r hr => ⟨r, hr, rfl, rfl⟩)
    fun _ e he => ⟨e, (World.mem_dequeue.mp he).1, rfl⟩

/-- A change of batches and of what stands outside of these records. -/
theorem batches (h : w.Isolated) (hhosts : w'.db.hosts = w.db.hosts)
    (hservers : w'.db.serverInstances = w.db.serverInstances)
    (hschedules : w'.db.schedules = w.db.schedules) (hjobs : w'.db.jobs = w.db.jobs)
    (hruns : w'.db.jobRuns = w.db.jobRuns) (hqueues : w'.queues = w.queues) : w'.Isolated :=
  h.frame hhosts hservers hschedules hjobs (fun r hr => ⟨r, hruns ▸ hr, rfl, rfl⟩)
    fun _ e he => ⟨e, hqueues ▸ he, rfl⟩

/-- What is dispatched for a server instance of the organization, on the instance's host. -/
theorem ends (h : w.Isolated) {c : Creation} {id : Id} {si : ServerInstance}
    (hserver : w.db.serverInstances.get id = some si) (horg : si.orgId = c.data.orgId)
    (hdata : c.data.serverInstanceId = some si.id) (hhost : c.hostId = si.hostId)
    (hentry : ∀ jobId runId, (c.entry jobId runId).data.hostId = si.hostId ∧
      (c.entry jobId runId).data.serverInstanceId = some si.id)
    (he : c.Ends may w w') : w'.Isolated := by
  obtain ⟨hmem, -⟩ := Table.get_eq_some.mp hserver
  have hsi : w.db.serverInstances.get si.id = some si := Table.get_key hmem
  have howned : w.db.Owned si.id c.data.orgId := by
    refine ⟨Table.lt_of_get hsi, fun other hother => ?_⟩
    obtain rfl := Option.some.inj (hsi.symm.trans hother)
    exact horg
  have hhostOwned : w.db.OwnedHost si.hostId c.data.orgId := horg ▸ h.server si hmem
  have hnew : (c.job w).db.jobs.get w.db.jobs.next = some (c.data.row w.db.jobs.next) :=
    Table.get_insert_next w.db.jobs c.data.row c.data.key_row
  have hjob : (c.job w).Isolated := by
    refine ⟨h.server, h.schedule, fun j hj i hi => ?_, fun r hr => ?_, h.entry⟩
    · rcases World.mem_insertJob.mp hj with hj | rfl
      · exact h.job j hj i hi
      · obtain rfl : si.id = i := Option.some.inj (hdata.symm.trans hi)
        exact howned
    · obtain ⟨j, hj, howner⟩ := h.run r hr
      exact ⟨j, World.get_insertJob hj, howner⟩
  have hrun : (c.run w).Isolated := by
    refine ⟨hjob.server, hjob.schedule, hjob.job, fun r hr => ?_, hjob.entry⟩
    rcases World.mem_insertJobRun.mp hr with hr | rfl
    · exact hjob.run r hr
    · refine ⟨_, hnew, ?_⟩
      show w.db.OwnedHost c.hostId c.data.orgId
      rw [hhost]
      exact hhostOwned
  cases he with
  | job _ => exact hjob
  | run _ _ => exact hrun
  | queued _ =>
    refine ⟨hrun.server, hrun.schedule, hrun.job, hrun.run, fun orgId e he => ?_⟩
    rcases World.mem_enqueue he with he | ⟨rfl, rfl⟩
    · exact hrun.entry orgId e he
    · obtain ⟨hentryHost, hentryServer⟩ := hentry w.db.jobs.next w.db.jobRuns.next
      unfold Creation.queueEntry
      rw [hentryHost, hentryServer]
      refine ⟨hhostOwned, fun i hi => ?_⟩
      obtain rfl : si.id = i := Option.some.inj hi
      exact howned

/-- A change of schedules that keeps their organizations and server instances. -/
theorem reschedule (h : w.Isolated) {schedules : Table Schedule}
    (scheduler : List SchedulerEntry)
    (hs : ∀ s' ∈ schedules.rows, ∃ s ∈ w.db.schedules.rows,
      s'.orgId = s.orgId ∧ s'.serverInstanceId = s.serverInstanceId) :
    World.Isolated { w with db.schedules := schedules, scheduler := scheduler } :=
  h.transfer (fun _ _ h => h) (fun _ _ h => h) h.server hs (fun j hj => ⟨j, hj, rfl, fun _ hi => hi⟩)
    (fun _ j hj => ⟨j, hj, rfl⟩) (fun r hr => ⟨r, hr, rfl, rfl⟩) fun _ e he => ⟨e, he, rfl⟩

/-- The deletion of a host without server instances. -/
theorem removeHost (h : w.Isolated) (id : Id) (audit : AuditLog) : (w.removeHost id audit).Isolated := by
  have hhost : ∀ i orgId, w.db.OwnedHost i orgId → (w.removeHost id audit).db.OwnedHost i orgId := by
    rintro i orgId ⟨hlt, hi⟩
    refine ⟨hlt, fun x hx => hi x ?_⟩
    have hx : (w.db.hosts.erase fun h => h.id == id).get i = some x := hx
    rw [Table.get_erase] at hx
    exact (Option.filter_eq_some_iff.mp hx).1
  exact h.transfer (fun _ _ h => h) hhost (fun si hsi => hhost _ _ (h.server si hsi))
    (fun s hs => ⟨s, hs, rfl, rfl⟩) (fun j hj => ⟨j, hj, rfl, fun _ hi => hi⟩)
    (fun _ j hj => ⟨j, hj, rfl⟩) (fun r hr => ⟨r, (Table.mem_erase.mp hr).1, rfl, rfl⟩)
    fun _ e he => ⟨e, he, rfl⟩

/-- The deletion of a server instance. -/
theorem removeServerInstance (h : w.Isolated) (id : Id) : (w.removeServerInstance id).Isolated := by
  have howned : ∀ i orgId, w.db.Owned i orgId → (w.removeServerInstance id).db.Owned i orgId := by
    rintro i orgId ⟨hlt, hi⟩
    refine ⟨hlt, fun x hx => hi x ?_⟩
    have hx : (w.db.serverInstances.erase fun s => s.id == id).get i = some x := hx
    rw [Table.get_erase] at hx
    exact (Option.filter_eq_some_iff.mp hx).1
  refine h.transfer howned (fun _ _ h => h) (fun si hsi => h.server si (Table.mem_erase.mp hsi).1)
    (fun s hs => ⟨s, (Table.mem_erase.mp hs).1, rfl, rfl⟩) (fun j' hj' => ?_) (fun i j hj => ?_)
    (fun r hr => ⟨r, hr, rfl, rfl⟩) fun _ e he => ⟨e, he, rfl⟩
  · obtain ⟨j, hj, rfl⟩ := List.mem_map.mp hj'
    refine ⟨j, hj, ?_⟩
    split_ifs
    · exact ⟨rfl, fun i hi => nomatch hi⟩
    · exact ⟨rfl, fun i hi => hi⟩
  · have hget : (w.removeServerInstance id).db.jobs.get i = (w.db.jobs.get i).map fun j =>
        if j.serverInstanceId == some id then { j with serverInstanceId := none } else j := by
      unfold World.removeServerInstance
      exact Table.get_modify (f := fun j : Job => { j with serverInstanceId := none }) fun _ => rfl
    rw [hj] at hget
    refine ⟨_, hget, ?_⟩
    show (if j.serverInstanceId == some id then { j with serverInstanceId := none } else j).orgId =
      j.orgId
    split_ifs <;> rfl

/-- What happens elsewhere keeps the isolation. -/
theorem elsewhere (h : w.Isolated) (he : Elsewhere w w') : w'.Isolated := by
  cases he with
  | tick ms => exact h.batches rfl rfl rfl rfl rfl rfl
  | pairHost orgId name =>
    have hhost : ∀ i org, w.db.OwnedHost i org → Database.OwnedHost { w.db with
        hosts := w.db.hosts.insert (fun i => ⟨i, orgId, name⟩) fun _ => rfl } i org := by
      rintro i org ⟨hlt, hi⟩
      refine ⟨Nat.lt_succ_of_lt hlt, fun x hx => hi x ?_⟩
      rwa [Table.get_insert_of_ne (fun _ => rfl) (Nat.ne_of_lt hlt)] at hx
    exact h.transfer (fun _ _ h => h) hhost (fun si hsi => hhost _ _ (h.server si hsi))
      (fun s hs => ⟨s, hs, rfl, rfl⟩) (fun j hj => ⟨j, hj, rfl, fun _ hi => hi⟩)
      (fun _ j hj => ⟨j, hj, rfl⟩) (fun r hr => ⟨r, hr, rfl, rfl⟩) fun _ e he => ⟨e, he, rfl⟩
  | createServerInstance mk hk hin =>
    have howned : ∀ i org, w.db.Owned i org → Database.Owned { w.db with
        serverInstances := w.db.serverInstances.insert mk hk } i org := by
      rintro i org ⟨hlt, hi⟩
      refine ⟨Nat.lt_succ_of_lt hlt, fun x hx => hi x ?_⟩
      rwa [Table.get_insert_of_ne hk (Nat.ne_of_lt hlt)] at hx
    refine h.transfer howned (fun _ _ h => h) (fun si hsi => ?_) (fun s hs => ⟨s, hs, rfl, rfl⟩)
      (fun j hj => ⟨j, hj, rfl, fun _ hi => hi⟩) (fun _ j hj => ⟨j, hj, rfl⟩)
      (fun r hr => ⟨r, hr, rfl, rfl⟩) fun _ e he => ⟨e, he, rfl⟩
    rcases (Table.mem_insert hk).mp hsi with hsi | rfl
    · exact h.server si hsi
    · exact ownedHost_of_hostInOrg hin
  | updateServerInstance id f hk hsame =>
    have howned : ∀ i org, w.db.Owned i org → Database.Owned { w.db with
        serverInstances := w.db.serverInstances.update id f hk } i org := by
      rintro i org ⟨hlt, hi⟩
      refine ⟨hlt, fun x hx => ?_⟩
      have hx : (w.db.serverInstances.update id f hk).get i = some x := hx
      rw [Table.get_update hk] at hx
      split_ifs at hx with hid
      · obtain ⟨y, hy, rfl⟩ := Option.map_eq_some_iff.mp hx
        rw [(hsame y (hid ▸ hy)).1]
        exact hi y hy
      · exact hi x hx
    refine h.transfer howned (fun _ _ h => h) (fun si' hsi' => ?_) (fun s hs => ⟨s, hs, rfl, rfl⟩)
      (fun j hj => ⟨j, hj, rfl, fun _ hi => hi⟩) (fun _ j hj => ⟨j, hj, rfl⟩)
      (fun r hr => ⟨r, hr, rfl, rfl⟩) fun _ e he => ⟨e, he, rfl⟩
    obtain ⟨si, hsi, rfl⟩ := (Table.mem_update hk).mp hsi'
    split_ifs with hid
    · exact ownedHost_of_hostInOrg (hsame si (hid ▸ Table.get_key hsi)).2
    · exact h.server si hsi
  | deleteSchedule id =>
    exact h.reschedule w.scheduler fun s hs =>
      ⟨s, (Table.mem_erase.mp hs).1, rfl, rfl⟩
  | setMembers _ => exact h.batches rfl rfl rfl rfl rfl rfl
  | setAvoidBloodMoonRestart _ => exact h.batches rfl rfl rfl rfl rfl rfl

/-- There is nothing to keep apart at first. -/
theorem initial : World.initial.Isolated where
  server _ hs := nomatch hs
  schedule _ hs := nomatch hs
  job _ hj := nomatch hj
  run _ hr := nomatch hr
  entry _ _ he := nomatch he

end World.Isolated

/-- A member who creates a schedule names a server instance of the organization. -/
def Op.Domestic (w : World) : Op → Prop
  | .createSchedule orgId userId body => (w.db.userOrg userId orgId).isSome →
    ∀ si, w.db.serverInstances.get body.serverInstanceId = some si → si.orgId = orgId
  | _ => True

/-- A move keeps the isolation, unless it creates a schedule for another organization's server
instance. -/
theorem Move.isolated {env : Env} {may : Stmt → World → Prop} {o : Op} {w w' : World}
    (hm : Move env may o w w') (hdomestic : o.Domestic w) (h : w.Isolated) : w'.Isolated := by
  cases hm with
  | create _ creates ends =>
    obtain ⟨server, org, -, -⟩ := creates
    exact h.ends server org rfl rfl (fun _ _ => ⟨rfl, rfl⟩) ends
  | enforce _ creates ends =>
    obtain ⟨server, org, -, -⟩ := creates
    exact h.ends server org rfl rfl (fun _ _ => ⟨rfl, rfl⟩) ends
  | moderate enqueues ends =>
    obtain ⟨server, org⟩ := enqueues
    exact h.ends server org rfl rfl (fun _ _ => ⟨rfl, rfl⟩) ends
  | fire fires ends =>
    obtain ⟨schedule, -, server, -⟩ := fires
    have hid := (Table.get_eq_some.mp server).2
    have howned := h.schedule _ (Table.get_eq_some.mp schedule).1
    have hsame := congrArg some hid.symm
    exact h.ends server (howned.2 _ server) hsame rfl (fun _ _ => ⟨rfl, hsame⟩) ends
  | book rescheduled =>
    obtain ⟨_, _, rfl, hsame⟩ := rescheduled
    refine h.reschedule _ fun s' hs' => ?_
    obtain ⟨s, hs, -, horg, hserver, -⟩ := hsame s' hs'
    exact ⟨s, hs, horg, hserver⟩
  | batch _ => exact h.batches rfl rfl rfl rfl rfl rfl
  | batchJob si server org ends =>
    exact h.ends server org rfl rfl (fun _ _ => ⟨rfl, rfl⟩) ends
  | cancelRun runId cancelled =>
    rcases cancelled with rfl | rfl
    · exact h.updateJobRun runId .cancel
    · exact (h.updateJobRun runId .cancel).dequeue _ _
  | cancel _ => exact h.batches rfl rfl rfl rfl rfl rfl
  | @schedule orgId userId body _ _ nextRunAt member _ server retimed =>
    obtain ⟨_, rfl⟩ := retimed
    obtain ⟨si, hsi⟩ := Option.isSome_iff_exists.mp server
    have howned : w.db.Owned body.serverInstanceId orgId :=
      ⟨Table.lt_of_get hsi, hdomestic member⟩
    refine ⟨h.server, fun s hs => ?_, h.job, h.run, h.entry⟩
    rcases World.mem_insertSchedule.mp hs with hs | rfl
    · exact h.schedule s hs
    · exact howned
  | edit _ _ _ _ _ _ retimed =>
    obtain ⟨_, rfl⟩ := retimed
    refine h.reschedule _ fun s' hs' => ?_
    obtain ⟨s, hs, rfl⟩ := World.mem_updateSchedule.mp hs'
    refine ⟨s, hs, ?_⟩
    split_ifs <;> exact ⟨rfl, rfl⟩
  | promote hp =>
    obtain ⟨queues, rfl, hdue⟩ := hp
    refine h.frame rfl rfl rfl rfl (fun r hr => ⟨r, hr, rfl, rfl⟩) fun orgId e he => ?_
    obtain ⟨e', he', hsame⟩ := Promoted.mem_due ⟨queues, rfl, hdue⟩ he
    exact ⟨e', he', (congrArg QueueEntry.data hsame).symm⟩
  | claim host e _ _ _ _ _ _ _ => exact (h.dequeue _ _).updateJobRun _ _
  | drop host e _ _ => exact h.dequeue _ _
  | bookStart _ => exact h.batches rfl rfl rfl rfl rfl rfl
  | finish _ _ _ _ => exact h.updateJobRun _ _
  | @scrub _ _ dto _ _ j found =>
    refine h.transfer (fun _ _ h => h) (fun _ _ h => h) h.server (fun s hs => ⟨s, hs, rfl, rfl⟩)
      (fun j' hj' => ?_) (fun i j' hj' => ?_) (fun r hr => ⟨r, hr, rfl, rfl⟩)
      fun _ e he => ⟨e, he, rfl⟩
    · obtain ⟨j₀, hj₀, rfl⟩ := World.mem_updateJob.mp hj'
      refine ⟨j₀, hj₀, ?_⟩
      split_ifs <;> exact ⟨rfl, fun _ hi => hi⟩
    · have hget := Table.get_update (t := w.db.jobs) (i := j.id) (j := i)
        (Job.key_withPayload (JobsService.scrubbedPayload j.payload dto.runStatus))
      rw [hj'] at hget
      by_cases hi : i = j.id
      · exact ⟨_, hget.trans (if_pos hi), rfl⟩
      · exact ⟨j', hget.trans (if_neg hi), rfl⟩
  | bookEnd _ _ => exact h.batches rfl rfl rfl rfl rfl rfl
  | progress _ => exact h.updateJobRun _ _
  | release _ _ _ => exact h.updateJobRun _ _
  | removeHost audit _ => exact h.removeHost _ audit
  | removeServer => exact h.removeServerInstance _
  | tidy _ _ _ => exact h.batches rfl rfl rfl rfl rfl rfl

/-- The moves of creating a schedule do not change whose server instance it names. -/
theorem Move.domestic {env : Env} {may : Stmt → World → Prop} {o : Op} {w w' : World}
    (hm : Move env may o w w') (h : o.Domestic w) : o.Domestic w' := by
  cases hm with
  | schedule _ _ _ _ retimed =>
    obtain ⟨_, rfl⟩ := retimed
    exact h
  | @tidy o _ _ _ _ => cases o <;> exact h
  | _ => trivial

/-! ## Whose configuration is copied -/

/-- The requests of members, and the fires of schedules. -/
def Op.IsRequest : Op → Bool
  | .createJob .. => true
  | .createBatch .. => true
  | .createSchedule .. => true
  | .updateSchedule .. => true
  | .fire _ => true
  | _ => false

/-- Between two stores, the payload came into the organization's queue or into one of its jobs. -/
def World.Adds (w w' : World) (orgId : Id) (payload : JsonObject) : Prop :=
  (∃ e ∈ w'.queues orgId, e ∉ w.queues orgId ∧ e.data.payload = payload) ∨
    ∃ j ∈ w'.db.jobs.rows, j ∉ w.db.jobs.rows ∧ j.orgId = orgId ∧ j.payload = some payload

/-- A payload that an operation dispatches for an organization: it copies the stored configuration
of a server instance of the organization, under what the caller or the schedule gives, or it is
the caller's. -/
inductive Configures (env : Env) (w : World) : Op → Id → JsonObject → Prop where
  | createJob {orgId userId dto si own}
      (server : w.db.serverInstances.get dto.serverInstanceId = some si) (org : si.orgId = orgId)
      (checked : JobsService.Checked dto.payload own) :
      Configures env w (.createJob orgId userId dto) orgId (JsonObject.spread
        (serverPayload si (w.db.avoidBloodMoonRestart si.orgId)) (own.getD []))
  | fire {scheduleId orgId s si} (schedule : w.db.schedules.get scheduleId = some s)
      (own : s.orgId = orgId) (server : w.db.serverInstances.get s.serverInstanceId = some si)
      (org : si.orgId = orgId) :
      Configures env w (.fire scheduleId) orgId
        (SchedulerService.firePayload s si (w.db.avoidBloodMoonRestart si.orgId))
  | createBatch {orgId userId dto} :
      Configures env w (.createBatch orgId userId dto) orgId (dto.payload.getD [])

/-- What dispatching adds: the payload of the creation, for its organization. -/
theorem Creation.Ends.adds {c : Creation} {may : Stmt → World → Prop} {w w' : World}
    {payload own : JsonObject} (h : c.Ends may w w') {orgId : Id}
    (hadds : w.Adds w' orgId payload) (hdata : ∀ p, c.data.payload = some p → p = own)
    (hentry : ∀ jobId runId, (c.entry jobId runId).data.payload = own) :
    orgId = c.data.orgId ∧ payload = own := by
  have hjobs : w'.db.jobs = (c.job w).db.jobs := by cases h <;> rfl
  rcases hadds with ⟨e, he, hnew, rfl⟩ | ⟨j, hj, hnew, rfl, hpay⟩
  · obtain ⟨rfl, rfl⟩ := (h.mem_queues he).resolve_left hnew
    exact ⟨rfl, hentry _ _⟩
  · rw [hjobs] at hj
    obtain rfl := (World.mem_insertJob.mp hj).resolve_left hnew
    exact ⟨rfl, hdata payload hpay⟩

/-- Nothing is added between stores with the same queues and jobs. -/
theorem World.not_adds {w w' : World} (hq : w'.queues = w.queues) (hj : w'.db.jobs = w.db.jobs)
    {orgId : Id} {payload : JsonObject} : ¬w.Adds w' orgId payload := by
  rintro (⟨e, he, hnew, -⟩ | ⟨j, hmem, hnew, -⟩)
  · exact hnew (hq ▸ he)
  · exact hnew (hj ▸ hmem)

/-- What creating a batch leaves in the queues and among the jobs: what was there, and entries and
jobs of the organization with the caller's payload. -/
theorem batch_adds {env : Env} {may : Stmt → World → Prop} {w w' : World} {orgId userId : Id}
    {dto : CreateBatchDto} (hm : Moves env may (.createBatch orgId userId dto) w w') :
    (∀ org, ∀ e ∈ w'.queues org, e ∈ w.queues org ∨
      org = orgId ∧ e.data.payload = dto.payload.getD []) ∧
    ∀ j ∈ w'.db.jobs.rows, j ∈ w.db.jobs.rows ∨ j.orgId = orgId ∧ j.payload = dto.payload := by
  refine hm.keep (I := fun w' => (∀ org, ∀ e ∈ w'.queues org, e ∈ w.queues org ∨
      org = orgId ∧ e.data.payload = dto.payload.getD []) ∧
    ∀ j ∈ w'.db.jobs.rows, j ∈ w.db.jobs.rows ∨ j.orgId = orgId ∧ j.payload = dto.payload)
    (fun w₁ w₂ hI hmove => ?_) ⟨fun _ _ he => .inl he, fun _ hj => .inl hj⟩
  obtain ⟨hqueues, hjobs⟩ := hI
  cases hmove with
  | batch _ => exact ⟨hqueues, hjobs⟩
  | @batchJob _ _ _ batchId _ _ si _ _ ends =>
    refine ⟨fun org e he => ?_, fun j hj => ?_⟩
    · rcases ends.mem_queues he with he | ⟨rfl, rfl⟩
      · exact hqueues org e he
      · exact .inr ⟨rfl, rfl⟩
    · have hsame : w₂.db.jobs =
          ((BatchesService.creation orgId (some userId) dto batchId si).job w₁).db.jobs := by
        cases ends <;> rfl
      rw [hsame] at hj
      rcases World.mem_insertJob.mp hj with hj | rfl
      · exact hjobs j hj
      · exact .inr ⟨rfl, rfl⟩
  | tidy _ _ _ => exact ⟨hqueues, hjobs⟩

/-- From an isolated state, a request or a fire copies only configurations of the organization. -/
theorem configures_of_adds (env : Env) {op : Op} (hop : op.IsRequest) (plan : List Bool) {w : World}
    (h : w.Isolated) {orgId : Id} {payload : JsonObject}
    (hadds : w.Adds ((controlPlane env).turn op plan w).after orgId payload) :
    Configures env w op orgId payload := by
  have hmay : ∀ f ∈ (op.prog env).faults (machine env) plan w, (fun _ _ => True) f.1 f.2 :=
    fun _ _ => trivial
  cases op with
  | createJob org userId dto =>
    have hspec : (Op.prog env (.createJob org userId dto)).wp (alone env fun _ _ => True)
        (fun _ w' => w' = w ∨ ∃ c, dto.type ∈ jobTypes ∧
          JobsService.Creates env w org userId dto.serverInstanceId dto.type dto.payload c ∧
            c.Ends (fun _ _ => True) w w') w :=
      wp_handsOutNothing (JobsController.create_spec org userId dto)
    rcases run_of_wp hspec hmay with hw | ⟨c, -, hc, hends⟩
    · have hsame : ((controlPlane env).turn (.createJob org userId dto) plan w).after = w := hw
      rw [hsame] at hadds
      exact absurd hadds (World.not_adds rfl rfl)
    · obtain ⟨hserver, horg, hchecked, -⟩ := hc
      obtain ⟨rfl, rfl⟩ := hends.adds hadds (fun p hp => (Option.some.inj hp).symm) fun _ _ => rfl
      exact .createJob hserver horg hchecked
  | createBatch org userId dto =>
    have hmoves : Moves env (fun _ _ => True) (.createBatch org userId dto) w
        ((controlPlane env).turn (.createBatch org userId dto) plan w).after :=
      run_of_wp (Op.moves _ w) hmay
    obtain ⟨hqueues, hjobs⟩ := batch_adds hmoves
    rcases hadds with ⟨e, he, hnew, rfl⟩ | ⟨j, hj, hnew, rfl, hpay⟩
    · obtain ⟨rfl, hpay⟩ := (hqueues _ e he).resolve_left hnew
      rw [hpay]
      exact .createBatch
    · obtain ⟨horg, hown⟩ := (hjobs j hj).resolve_left hnew
      have hpayload : payload = dto.payload.getD [] := by rw [← hown, hpay]; rfl
      rw [horg, hpayload]
      exact .createBatch
  | createSchedule org userId body =>
    have hspec : (Op.prog env (.createSchedule org userId body)).wp (alone env fun _ _ => True)
        _ w := wp_handsOutNothing (SchedulerController.create_spec org userId body)
    rcases run_of_wp hspec hmay with hw | ⟨_, -, -, -, _, hw⟩
    · exact absurd hadds (World.not_adds (congrArg World.queues hw)
        (congrArg (fun w => w.db.jobs) hw))
    · exact absurd hadds (World.not_adds (congrArg World.queues hw)
        (congrArg (fun w => w.db.jobs) hw))
  | updateSchedule org userId scheduleId body =>
    have hspec : (Op.prog env (.updateSchedule org userId scheduleId body)).wp
        (alone env fun _ _ => True) _ w :=
      wp_handsOutNothing (SchedulerController.update_spec org userId scheduleId body)
    rcases run_of_wp hspec hmay with hw | ⟨_, _, -, -, -, -, _, hw⟩
    · exact absurd hadds (World.not_adds (congrArg World.queues hw)
        (congrArg (fun w => w.db.jobs) hw))
    · exact absurd hadds (World.not_adds (congrArg World.queues hw)
        (congrArg (fun w => w.db.jobs) hw))
  | fire scheduleId =>
    have hspec : (Op.prog env (.fire scheduleId)).wp (alone env fun _ _ => True)
        (fun _ w' => SchedulerService.Fired env (fun _ _ => True) scheduleId w w') w :=
      wp_handsOutNothing (SchedulerService.fire_spec scheduleId)
    obtain ⟨w₁, ⟨schedules, scheduler, hw, -⟩, hends⟩ := run_of_wp hspec hmay
    have hw : ((controlPlane env).turn (.fire scheduleId) plan w).after = _ := hw
    have hadds : w.Adds w₁ orgId payload := by
      rw [hw] at hadds
      exact hadds
    rcases hends with rfl | ⟨c, hc, hends⟩
    · exact absurd hadds (World.not_adds rfl rfl)
    · obtain ⟨hschedule, -, hserver, -⟩ := hc
      obtain ⟨rfl, rfl⟩ := hends.adds hadds (fun p hp => (Option.some.inj hp).symm) fun _ _ => rfl
      exact .fire hschedule rfl hserver
        ((h.schedule _ (Table.get_eq_some.mp hschedule).1).2 _ hserver)
  | _ => cases hop

/-- In every run in which each schedule is created for a server instance of its organization, and
in every state reached: schedules, jobs, runs and queue entries refer to server instances and hosts
of their organization. No request and no fire has put a configuration into a job or a queue but
that of a server instance of the organization. -/
theorem isolated_of_runs (env : Env) {h : List (Turn Op Err (Option QueueJobData) World)} {w : World}
    (hr : Runs (controlPlane env) (fun op _ w => op.Domestic w) World.initial h w) :
    w.Isolated ∧ ∀ t ∈ h, t.op.IsRequest → ∀ orgId payload,
      t.before.Adds t.after orgId payload → Configures env t.before t.op orgId payload := by
  refine Runs.invariant (J := fun h w => w.Isolated ∧ ∀ t ∈ h, t.op.IsRequest → ∀ orgId payload,
      t.before.Adds t.after orgId payload → Configures env t.before t.op orgId payload)
    ⟨World.Isolated.initial, fun _ ht => nomatch ht⟩ ?_ ?_ hr
  swap
  · rintro h w w' ⟨hw, hturns⟩ he
    exact ⟨hw.elsewhere he, hturns⟩
  rintro h w op plan ⟨hw, hturns⟩ hdomestic
  refine ⟨?_, fun t ht hop orgId payload hadds => ?_⟩
  · have hmoves : Moves env (fun _ _ => True) op w ((controlPlane env).turn op plan w).after :=
      run_of_wp (op.moves w) fun _ _ => trivial
    have hboth := hmoves.keep (I := fun w' => w'.Isolated ∧ op.Domestic w') ?_ ⟨hw, hdomestic⟩
    · exact hboth.1
    · rintro w₁ w₂ ⟨hw₁, hdom⟩ hmove
      exact ⟨hmove.isolated hdom hw₁, hmove.domestic hdom⟩
  · rcases List.mem_cons.mp ht with rfl | ht
    · exact configures_of_adds env hop plan hw hadds
    · exact hturns t ht hop orgId payload hadds

section Examples

theorem isolated_of_runs_wave : World.wave.Isolated := by
  have hrun : ∃ h, Runs smallPlane (fun op _ w => op.Domestic w) World.initial h World.wave :=
    Runs.wave trivial
  obtain ⟨_, hr⟩ := hrun
  exact (isolated_of_runs Env.everyMinute hr).1

/-- The admin of the organization 0 creates a schedule for the server instance 1, which is the
organization 1's. -/
def foreignSchedule : Op :=
  .createSchedule 0 0 ⟨"nightly", 1, "* * * * *", "SERVER_RESTART", none, none⟩

/-- The small installation after that schedule has fired. -/
def World.leaked : World :=
  (smallPlane.turn (.fire 0) [] (smallPlane.turn foreignSchedule [] .small).after).after

/-- A job of the organization 0 is for the server instance of the organization 1, and its entry has
that instance's telnet password. -/
theorem foreign_configuration_copied :
    (¬∀ h w, Runs smallPlane (fun _ _ _ => True) World.initial h w → w.Isolated) ∧
      ∃ e ∈ World.leaked.queues 0,
        (e.data.payload.lookup "telnet_password").bind Json.str? = some "beta-pw" := by
  refine ⟨fun hall => ?_, ?_⟩
  · have hscheduled : Runs smallPlane (fun _ _ _ => True) World.initial _ _ :=
      .turn foreignSchedule [] Runs.small trivial
    have hfired : Runs smallPlane (fun _ _ _ => True) World.initial _ World.leaked :=
      .turn (.fire 0) [] hscheduled trivial
    have hserver : (World.leaked.db.serverInstances.get 1).map ServerInstance.orgId = some 1 := by
      decide +kernel
    have hjob : ∃ j ∈ World.leaked.db.jobs.rows, j.orgId = 0 ∧ j.serverInstanceId = some 1 := by
      decide +kernel
    obtain ⟨j, hj, horg, hi⟩ := hjob
    obtain ⟨si, hsi, hother⟩ := Option.map_eq_some_iff.mp hserver
    have howned := ((hall _ _ hfired).job j hj 1 hi).2 si hsi
    rw [hother, horg] at howned
    exact absurd howned one_ne_zero
  · decide +kernel

end Examples

end Mastermind
