import Mastermind.Dispatch.HalfMade

/-!
# The counters of a schedule

A fire that fails in its `try` books the failure in the `catch` and throws again, and the worker's
handler books it a second time; one that fails after its job is in the queue is a failure all the
same. `counters_of_runs` is about the runs in which no fire fails there (`Outside`): then `runCount`
is the number of fires that put a job on the queue, `failureCount` the number of fires that failed,
and no fire is both.

`Tallied` says how far a state is from the one before the fire in these counters; `fire_tallied`
follows a fire, and every other operation leaves the counters alone (`SameCounts`).
-/

namespace Mastermind

open Effect Effect.Program

variable {env : Env} {w w₁ w₂ : World}

/-- The failures of a fire that are outside of its `try` and of the worker's handler: the two lookups,
and the booking of a skip with the next fire after it. -/
def Outside : Stmt → World → Prop
  | .scheduleFindUnique _, _ => True
  | .jobRunFindActive _ _ _, _ => True
  | .scheduleUpdate _ (.fired .skippedBusy _ _ _ _), _ => True
  | .schedulerAdd entry, w =>
    ∃ s, w.db.schedules.get entry.scheduleId = some s ∧ s.lastRunStatus = some .skippedBusy
  | _, _ => False

/-- `w₁` is `w` after so many more runs and failures of the schedule `id`; every other schedule has
the counters that it had. -/
structure Tallied (id : Id) (runs failures : ℕ) (w w₁ : World) : Prop where
  next : w₁.db.schedules.next = w.db.schedules.next
  rows : ∀ s' ∈ w₁.db.schedules.rows, ∃ s ∈ w.db.schedules.rows, s'.id = s.id ∧
    s'.runCount = s.runCount + (if s.id = id then runs else 0) ∧
    s'.failureCount = s.failureCount + (if s.id = id then failures else 0)

namespace Tallied

variable {id : Id} {runs failures runs' failures' : ℕ}

theorem refl (w : World) : Tallied id 0 0 w w := ⟨rfl, fun s hs => ⟨s, hs, rfl, by simp, by simp⟩⟩

/-- Only the schedules count. -/
theorem congr (h : Tallied id runs failures w w₁) (hs : w₂.db.schedules = w₁.db.schedules) :
    Tallied id runs failures w w₂ :=
  ⟨hs ▸ h.next, fun s' hs' => h.rows s' (hs ▸ hs')⟩

theorem trans (h : Tallied id runs failures w w₁) (h' : Tallied id runs' failures' w₁ w₂) :
    Tallied id (runs + runs') (failures + failures') w w₂ := by
  refine ⟨h'.next.trans h.next, fun s' hs' => ?_⟩
  obtain ⟨s₁, hs₁, hid₁, hruns₁, hfail₁⟩ := h'.rows s' hs'
  obtain ⟨s, hs, hid, hruns, hfail⟩ := h.rows s₁ hs₁
  refine ⟨s, hs, hid₁.trans hid, ?_, ?_⟩
  · rw [hruns₁, hruns, hid]
    split_ifs <;> omega
  · rw [hfail₁, hfail, hid]
    split_ifs <;> omega

/-- More runs and failures after none. -/
theorem after_none (h : Tallied id 0 0 w w₁) (h' : Tallied id runs failures w₁ w₂) :
    Tallied id runs failures w w₂ := by
  simpa using h.trans h'

/-- The counters of a schedule that is not there are of no consequence. -/
theorem of_get_none (h : w.db.schedules.get id = none) : Tallied id runs failures w w := by
  refine ⟨rfl, fun s hs => ⟨s, hs, rfl, ?_⟩⟩
  have hne : s.id ≠ id := by
    rintro rfl
    rw [show w.db.schedules.get s.id = some s from Table.get_key hs] at h
    exact absurd h (by simp)
  simp [hne]

/-- The outcome of a fire is booked. -/
theorem fired (w : World) (status : FireStatus) (jobId : Option (Option Id)) (nextRun : Option ℕ) :
    Tallied id runs failures w
      (w.updateSchedule id (.fired status jobId runs failures nextRun)) := by
  refine ⟨rfl, fun s' hs' => ?_⟩
  obtain ⟨s, hs, rfl⟩ := World.mem_updateSchedule.mp hs'
  refine ⟨s, hs, ?_⟩
  split_ifs
  · exact ⟨rfl, rfl, rfl⟩
  · exact ⟨rfl, rfl, rfl⟩

/-- The worker books a failure. -/
theorem workerFailed (w : World) : Tallied id 0 1 w (w.updateSchedule id .workerFailed) := by
  refine ⟨rfl, fun s' hs' => ?_⟩
  obtain ⟨s, hs, rfl⟩ := World.mem_updateSchedule.mp hs'
  refine ⟨s, hs, ?_⟩
  split_ifs
  · exact ⟨rfl, rfl, rfl⟩
  · exact ⟨rfl, rfl, rfl⟩

end Tallied

/-- The queue of the schedule's organization is longer than it was. -/
def queuedBy (id : Id) (w w₁ : World) : Bool :=
  (w.db.schedules.get id).any fun s =>
    decide ((w.queues s.orgId).length < (w₁.queues s.orgId).length)

theorem queuedBy_eq_false {id : Id} (h : w₁.queues = w.queues) : queuedBy id w w₁ = false := by
  unfold queuedBy
  rw [h]
  cases w.db.schedules.get id with
  | none => rfl
  | some s => simp

/-- How a fire of the schedule `id` may end: it has put a job on the queue or not, and its counters
say so and whether it failed, but not both. -/
def Settled (id : Id) (w : World) (r : Except Err Unit) (w₁ : World) : Prop :=
  Tallied id (if queuedBy id w w₁ then 1 else 0) (if r.isOk then 0 else 1) w w₁ ∧
    ¬ (queuedBy id w w₁ = true ∧ r.isOk = false)

/-- A fire that has not put a job on the queue, and booked nothing. -/
theorem settled_ok {id : Id} (h : Tallied id 0 0 w w₁) (hq : w₁.queues = w.queues) :
    Settled id w (.ok ()) w₁ := by
  unfold Settled
  rw [queuedBy_eq_false hq]
  exact ⟨h, by simp⟩

/-- A fire that has, and booked a run. -/
theorem settled_queued {id : Id} (hq : queuedBy id w w₁ = true) (h : Tallied id 1 0 w w₁) :
    Settled id w (.ok ()) w₁ := by
  unfold Settled
  rw [hq]
  exact ⟨h, fun hboth => absurd hboth.2 (by decide)⟩

/-- A new entry makes the queue longer. -/
theorem World.length_enqueue {orgId : Id} {entry : QueueEntry}
    (h : ∀ e ∈ w.queues orgId, e.id ≠ entry.id) :
    ((w.enqueue orgId entry).queues orgId).length = (w.queues orgId).length + 1 := by
  rw [enqueue, queues_setQueue, Function.update_self]
  have hfresh : ¬ ((w.queues orgId).any fun e => e.id == entry.id) = true := by simpa using h
  rw [if_neg hfresh, List.length_append]
  rfl

/-- The two records that a path creates, where what they refer to exists and neither call fails. -/
theorem Creation.wp_create_total {α : Type} {may : Stmt → World → Prop} (c : Creation)
    (rest : Id → Id → Service α) {Q : Except Err α → World → Prop} (hrefers : c.Refers w)
    (hjob : ¬ may (.jobCreate c.data) w)
    (hrun : ¬ may (.jobRunCreate w.db.jobs.next c.hostId) (c.job w))
    (run : (rest w.db.jobs.next w.db.jobRuns.next).wp (alone env may) Q (c.run w)) :
    (do
      let job ← query (.jobCreate c.data)
      let run ← query (.jobRunCreate job.id c.hostId)
      rest job.id run.id : Service α).wp (alone env may) Q w := by
  rw [wp_bind, wp_request, alone_apply]
  refine ⟨?_, fun _ hm => absurd hm hjob⟩
  rw [exec, if_pos hrefers.1, andThen_ok, wp_bind, wp_request, alone_apply]
  refine ⟨?_, fun _ hm => absurd hm hrun⟩
  have hjob' : ((w.insertJob c.data).db.jobs.get (c.data.row w.db.jobs.next).id).isSome = true :=
    congrArg Option.isSome (Table.get_insert_next w.db.jobs c.data.row fun _ => rfl)
  have hboth : (((w.insertJob c.data).db.jobs.get (c.data.row w.db.jobs.next).id).isSome &&
      ((w.insertJob c.data).db.hosts.get c.hostId).isSome) = true := by
    rw [hjob', Bool.true_and]
    exact hrefers.2
  rw [exec, if_pos hboth]
  exact run

namespace SchedulerService

section Fire

/-- Puts the next fire into the queue where that cannot fail. -/
theorem scheduleNext_total {scheduleId : Id} {nextRun : Option ℕ}
    {Q : Except Err Unit → World → Prop}
    (hfail : ∀ entry : SchedulerEntry, entry.scheduleId = scheduleId →
      Outside (.schedulerAdd entry) w → Q (.error .fault) w)
    (hok : ∀ scheduler, Q (.ok ()) { w with scheduler := scheduler }) :
    (scheduleNext scheduleId nextRun).wp (alone env Outside) Q w := by
  unfold scheduleNext
  cases nextRun with
  | none => exact (wp_pure _ _ _).mpr (hok w.scheduler)
  | some t =>
    rw [wp_bind, wp_request, alone_apply]
    refine ⟨?_, fun hf => absurd hf (by decide)⟩
    rw [exec, andThen_ok, wp_request, alone_apply]
    exact ⟨hok _, fun _ hm => hfail _ rfl hm⟩

/-- The worker's handler after a failure that has booked nothing. -/
theorem handleWorkerFailure_settled {id : Id} (e : Err) (h : Tallied id 0 0 w w₁)
    (hq : w₁.queues = w.queues) :
    (do handleWorkerFailure id; throw e : Service Unit).wp (alone env Outside) (Settled id w) w₁ := by
  have hsettled {w₂ : World} (hw₂ : Tallied id 0 1 w w₂) (hq₂ : w₂.queues = w.queues) (e : Err) :
      Settled id w (.error e) w₂ := by
    unfold Settled
    rw [queuedBy_eq_false hq₂]
    exact ⟨hw₂, by simp⟩
  rw [wp_bind, handleWorkerFailure, wp_bind, wp_request, alone_apply]
  refine ⟨?_, fun _ hm => hm.elim⟩
  cases hs : w₁.db.schedules.get id with
  | none =>
    simp only [exec, hs, andThen_error]
    exact hsettled (h.after_none (.of_get_none hs)) hq _
  | some s =>
    simp only [exec, hs, andThen_ok]
    refine (wp_pure _ _ _).mpr ((wp_throw _ _ _).mpr ?_)
    exact hsettled (h.after_none (.workerFailed w₁)) hq e

/-- What a fire may leave before the worker's handler: an error has booked nothing. -/
def Pending (id : Id) (w : World) : Except Err Unit → World → Prop
  | .ok _, w₁ => Settled id w (.ok ()) w₁
  | .error _, w₁ => Tallied id 0 0 w w₁ ∧ w₁.queues = w.queues

/-- A fire that finds a job of its schedule active skips, and books the skip. -/
theorem skip_settled {scheduleId : Id} {s : Schedule} (hs : w.db.schedules.get scheduleId = some s) :
    (do
      let now ← query .dateNow
      let nextRun := computeNextRun env s now
      let _ ← query <| .scheduleUpdate scheduleId (.fired .skippedBusy none 0 0 nextRun)
      scheduleNext scheduleId nextRun : Service Unit).wp (alone env Outside)
      (Pending scheduleId w) w := by
  rw [wp_bind, wp_request, alone_apply]
  refine ⟨?_, fun hf => absurd hf (by decide)⟩
  rw [exec, andThen_ok, wp_bind, wp_request, alone_apply]
  refine ⟨?_, fun _ _ => ⟨.refl w, rfl⟩⟩
  simp only [exec, hs, andThen_ok]
  have htallied {scheduler : List SchedulerEntry} (nextRun : Option ℕ) :
      Tallied scheduleId 0 0 w
        { w.updateSchedule scheduleId (.fired .skippedBusy none 0 0 nextRun) with
          scheduler := scheduler } :=
    (Tallied.fired w .skippedBusy none nextRun).congr rfl
  apply scheduleNext_total
  · exact fun entry _ _ => ⟨.fired w .skippedBusy none _, rfl⟩
  · exact fun scheduler => settled_ok (htallied _) rfl

/-- The host and the server of a schedule exist, so that its job and run can be created. -/
theorem creation_refers {s : Schedule} {si : ServerInstance} {b : Bool}
    (h : Integrity w.db) (hsi : w.db.serverInstances.get s.serverInstanceId = some si) :
    (creation env s si b).Refers w := by
  obtain ⟨host, hhost⟩ := h.host_of_server hsi
  refine ⟨?_, ?_⟩
  · simp [Database.refersToRecords, creation, hsi]
  · show (w.db.hosts.get si.hostId).isSome = true
    rw [hhost]
    rfl

/-- A fire that puts its job on the queue. -/
theorem dispatch_settled {scheduleId : Id} {s : Schedule} {si : ServerInstance} {b : Bool}
    (h : Integrity w.db) (hfresh : w.Fresh) (hs : w.db.schedules.get scheduleId = some s)
    (hsi : w.db.serverInstances.get s.serverInstanceId = some si) :
    (do
      let (jobId, runId) ← tryCatch
        (dispatch s si.hostId (effectiveJobType env s si) (firePayload s si b))
        (fireFailed env s none)
      tryCatch
        (fireDispatched env s si.hostId (effectiveJobType env s si) (firePayload s si b) jobId runId)
        (fireFailed env s (some jobId)) : Service Unit).wp (alone env Outside)
      (Pending scheduleId w) w := by
  let c := creation env s si b
  have hid : s.id = scheduleId := (Table.get_eq_some.mp hs).2
  have hdispatch : (dispatch s si.hostId (effectiveJobType env s si) (firePayload s si b)).wp
      (alone env Outside)
      (fun r w' => r = .ok (w.db.jobs.next, w.db.jobRuns.next) ∧ w' = c.run w) w := by
    unfold dispatch
    exact c.wp_create_total (fun jobId runId => pure (jobId, runId)) (creation_refers h hsi)
      (fun hm => hm) (fun hm => hm) ((wp_pure _ _ _).mpr ⟨rfl, rfl⟩)
  have htry : (tryCatch (dispatch s si.hostId (effectiveJobType env s si) (firePayload s si b))
      (fireFailed env s none)).wp (alone env Outside)
      (fun r w' => r = .ok (w.db.jobs.next, w.db.jobRuns.next) ∧ w' = c.run w) w :=
    wp_tryCatch_of alone_monotone hdispatch (fun _ _ h => h) fun e w' h => absurd h.1 (by simp)
  refine wp_bind_of alone_monotone htry ?_ fun e w' h => absurd h.1 (by simp)
  rintro ⟨jobId, runId⟩ w' ⟨hids, rfl⟩
  obtain ⟨rfl, rfl⟩ := Prod.mk.inj (Except.ok.inj hids)
  -- the entry is new to the queue
  have hlen : (w.queues s.orgId).length < ((c.queued w).queues s.orgId).length := by
    have hnew : ∀ e ∈ (c.run w).queues s.orgId, e.id ≠ (c.queueEntry w).id :=
      fun e he => Nat.ne_of_lt (hfresh s.orgId e he).1
    show _ < (((c.run w).enqueue s.orgId (c.queueEntry w)).queues s.orgId).length
    rw [World.length_enqueue hnew]
    exact Nat.lt_succ_self _
  have hqueued {w₁ : World} (hw₁ : w₁.queues = (c.queued w).queues) :
      queuedBy scheduleId w w₁ = true := by
    unfold queuedBy
    rw [hs, hw₁]
    exact decide_eq_true hlen
  refine wp_tryCatch_of alone_monotone (?_ : Program.wp (alone env Outside) _
    (fun r w' => r = .ok () ∧ Settled scheduleId w (.ok ()) w') (c.run w)) ?_ ?_
  · unfold fireDispatched
    rw [wp_bind, wp_request, alone_apply]
    refine ⟨?_, fun _ hm => hm.elim⟩
    rw [exec, andThen_ok, wp_bind, wp_request, alone_apply]
    refine ⟨?_, fun hf => absurd hf (by decide)⟩
    rw [exec, andThen_ok, wp_bind, wp_request, alone_apply]
    refine ⟨?_, fun _ hm => hm.elim⟩
    -- the schedule has just been read
    have hs' : (c.queued w).db.schedules.get s.id = some s := by
      rw [hid]
      exact hs
    show andThen _ _ _ (exec env (.scheduleUpdate s.id _) (c.queued w)).1
      (exec env (.scheduleUpdate s.id _) (c.queued w)).2
    simp only [exec, hs', andThen_ok]
    apply scheduleNext_total
    · -- after a success the next fire is not put into the queue as after a skip
      rintro entry hentry ⟨s', hget, hstatus⟩
      rw [hentry, World.updateSchedule, Table.get_update_self _ hs'] at hget
      obtain rfl := Option.some.inj hget
      exact absurd hstatus (by simp [SchedulePatch.apply])
    · intro scheduler
      have hstart : Tallied scheduleId 0 0 w (c.queued w) := (Tallied.refl w).congr rfl
      refine ⟨rfl, settled_queued (hqueued rfl) ?_⟩
      rw [hid]
      exact (hstart.after_none (.fired _ .success _ _)).congr rfl
  · rintro _ w' ⟨hok, hsettled⟩
    exact hsettled
  · exact fun e w' h => absurd h.1 (by simp)

/-- A fire that fails at most outside of its `try` is counted once, as what it was. -/
theorem fire_settled (scheduleId : Id) (h : Integrity w.db) (hfresh : w.Fresh) :
    (fire env scheduleId).wp (alone env Outside) (Settled scheduleId w) w := by
  have hnothing : Pending scheduleId w (.ok ()) w := settled_ok (.refl w) rfl
  suffices hpending : (processScheduleFire env scheduleId).wp (alone env Outside)
      (Pending scheduleId w) w by
    refine wp_tryCatch_of alone_monotone hpending (fun _ _ h => h) ?_
    rintro e w₁ ⟨htallied, hq⟩
    exact handleWorkerFailure_settled e htallied hq
  unfold processScheduleFire
  rw [wp_bind, wp_request, alone_apply]
  refine ⟨?_, fun _ _ => ⟨.refl w, rfl⟩⟩
  rw [exec, andThen_ok]
  cases hs : w.db.schedules.get scheduleId with
  | none => exact (wp_pure _ _ _).mpr hnothing
  | some s =>
    cases hsi : w.db.serverInstances.get s.serverInstanceId with
    | none =>
      simp only [Option.bind_some, hsi, Option.map_none]
      exact (wp_pure _ _ _).mpr hnothing
    | some si =>
      simp only [Option.bind_some, hsi, Option.map_some]
      rw [wp_ite]
      split_ifs
      · exact (wp_pure _ _ _).mpr hnothing
      rw [wp_bind, wp_request, alone_apply]
      refine ⟨?_, fun _ _ => ⟨.refl w, rfl⟩⟩
      rw [exec, andThen_ok]
      split
      · exact skip_settled hs
      · exact dispatch_settled h hfresh hs hsi

end Fire

end SchedulerService

/-! ## Runs -/

section Runs

/-- `w₁` has the schedules of `w` with the counters that they had, and new ones that count nothing
yet. -/
def SameCounts (w w₁ : World) : Prop :=
  w.db.schedules.next ≤ w₁.db.schedules.next ∧
    ∀ s' ∈ w₁.db.schedules.rows,
      (∃ s ∈ w.db.schedules.rows, s'.id = s.id ∧ s'.runCount = s.runCount ∧
        s'.failureCount = s.failureCount) ∨
      (w.db.schedules.next ≤ s'.id ∧ s'.runCount = 0 ∧ s'.failureCount = 0)

namespace SameCounts

theorem of_eq (h : w₁.db.schedules = w.db.schedules) : SameCounts w w₁ := by
  refine ⟨by rw [h], fun s hs => .inl ⟨s, ?_, rfl, rfl, rfl⟩⟩
  rw [h] at hs
  exact hs

theorem trans (h : SameCounts w w₁) (h' : SameCounts w₁ w₂) : SameCounts w w₂ := by
  refine ⟨h.1.trans h'.1, fun s₂ hs₂ => ?_⟩
  rcases h'.2 s₂ hs₂ with ⟨s₁, hs₁, hid, hruns, hfail⟩ | ⟨hid, hzero⟩
  · rcases h.2 s₁ hs₁ with ⟨s, hs, hid', hruns', hfail'⟩ | ⟨hid', hruns', hfail'⟩
    · exact .inl ⟨s, hs, hid.trans hid', hruns.trans hruns', hfail.trans hfail'⟩
    · exact .inr ⟨hid ▸ hid', hruns.trans hruns', hfail.trans hfail'⟩
  · exact .inr ⟨h.1.trans hid, hzero⟩

/-- Some schedules are gone. -/
theorem of_subset (hnext : w₁.db.schedules.next = w.db.schedules.next)
    (h : ∀ s ∈ w₁.db.schedules.rows, s ∈ w.db.schedules.rows) : SameCounts w w₁ :=
  ⟨hnext ▸ le_rfl, fun s hs => .inl ⟨s, h s hs, rfl, rfl, rfl⟩⟩

theorem edit {id : Id} {name : Option String} {cron : Option (String × Option ℕ)}
    {jobType : Option String} {payload : Option Json} {enabled : Option Bool} :
    SameCounts w (w.updateSchedule id (.edit name cron jobType payload enabled)) := by
  refine ⟨le_rfl, fun s' hs' => .inl ?_⟩
  obtain ⟨s, hs, rfl⟩ := World.mem_updateSchedule.mp hs'
  refine ⟨s, hs, ?_⟩
  split_ifs
  · exact ⟨rfl, rfl, rfl⟩
  · exact ⟨rfl, rfl, rfl⟩

/-- A move of an operation that is no fire. -/
theorem move {may : Stmt → World → Prop} {o : Op} (ho : ∀ id, o ≠ .fire id)
    (hm : Move env may o w w₁) : SameCounts w w₁ := by
  have ends {c : Creation} {w w₁ : World} (he : c.Ends may w w₁) : SameCounts w w₁ := by
    cases he <;> exact of_eq rfl
  cases hm with
  | fire _ _ => exact absurd rfl (ho _)
  | book _ => exact absurd rfl (ho _)
  | create _ _ he => exact ends he
  | enforce _ _ he => exact ends he
  | moderate _ he => exact ends he
  | batchJob _ _ _ he => exact ends he
  | cancelRun _ cancelled => rcases cancelled with rfl | rfl <;> exact of_eq rfl
  | schedule _ _ _ _ retimed =>
    obtain ⟨_, rfl⟩ := retimed
    refine ⟨Nat.le_succ _, fun s hs => ?_⟩
    rcases World.mem_insertSchedule.mp hs with hs | rfl
    · exact .inl ⟨s, hs, rfl, rfl, rfl⟩
    · exact .inr ⟨le_rfl, rfl, rfl⟩
  | edit _ _ _ _ _ _ retimed =>
    obtain ⟨_, rfl⟩ := retimed
    exact edit.trans (of_eq rfl)
  | promote promoted =>
    obtain ⟨_, rfl, -⟩ := promoted
    exact of_eq rfl
  | removeServer => exact of_subset rfl fun s hs => (Table.mem_erase.mp hs).1
  | _ => exact of_eq rfl

theorem turn {o : Op} (ho : ∀ id, o ≠ .fire id) (plan : List Bool) (w : World) :
    SameCounts w ((controlPlane env).turn o plan w).after := by
  have hmoves : Moves env (fun _ _ => True) o w ((controlPlane env).turn o plan w).after :=
    Program.run_of_wp (o.moves w) fun _ _ => trivial
  exact hmoves.keep (fun _ _ h hm => h.trans (move ho hm)) (of_eq rfl)

theorem elsewhere (he : Elsewhere w w₁) : SameCounts w w₁ := by
  cases he with
  | deleteSchedule id => exact of_subset rfl fun s hs => (Table.mem_erase.mp hs).1
  | _ => exact of_eq rfl

end SameCounts

/-- The turn is a fire of the schedule `id`, which exists. -/
def Fire.of (id : Id) (t : Turn Op Err (Option QueueJobData) World) : Bool :=
  match t.op with
  | .fire i => i == id && (t.before.db.schedules.get id).isSome
  | _ => false

/-- The turn is a fire of the schedule that puts a job on the queue. -/
def Fire.queues (id : Id) (t : Turn Op Err (Option QueueJobData) World) : Bool :=
  Fire.of id t && queuedBy id t.before t.after

/-- The turn is a fire of the schedule that fails. -/
def Fire.fails (id : Id) (t : Turn Op Err (Option QueueJobData) World) : Bool :=
  Fire.of id t && !t.result.isOk

/-- The turn is a fire of the schedule that skips: it neither puts a job on the queue nor fails. -/
def Fire.skips (id : Id) (t : Turn Op Err (Option QueueJobData) World) : Bool :=
  Fire.of id t && !queuedBy id t.before t.after && t.result.isOk

/-- The condition on a turn: if it is a fire, its calls fail at most outside of the `try` and of the
worker's handler. -/
def FailsOutside (env : Env) (op : Op) (plan : List Bool) (w : World) : Prop :=
  ∀ id, op = .fire id → ∀ f ∈ (op.prog env).faults (machine env) plan w, Outside f.1 f.2

/-- The counters of every schedule are the numbers of its fires. -/
structure Counts (h : List (Turn Op Err (Option QueueJobData) World)) (w : World) : Prop where
  runCount : ∀ s ∈ w.db.schedules.rows, s.runCount = h.countP (Fire.queues s.id)
  failureCount : ∀ s ∈ w.db.schedules.rows, s.failureCount = h.countP (Fire.fails s.id)
  once : ∀ id, h.countP (Fire.of id) =
    h.countP (Fire.queues id) + h.countP (Fire.fails id) + h.countP (Fire.skips id)
  known : ∀ id, w.db.schedules.next ≤ id → ∀ t ∈ h, Fire.of id t = false

theorem Counts.initial : Counts [] World.initial :=
  ⟨fun _ h => (nomatch h), fun _ h => (nomatch h), fun _ => rfl, fun _ _ _ h => (nomatch h)⟩

/-- Counters that a change does not touch stay right. -/
theorem Counts.same {h : List (Turn Op Err (Option QueueJobData) World)} (hc : Counts h w)
    (hs : SameCounts w w₁) : Counts h w₁ := by
  have hzero {p : Turn Op Err (Option QueueJobData) World → Bool} {id : Id}
      (hid : w.db.schedules.next ≤ id) (hp : ∀ t, p t = true → Fire.of id t = true) :
      h.countP p = 0 := by
    refine List.countP_eq_zero.mpr fun t ht hpt => ?_
    have hof := hp t hpt
    rw [hc.known id hid t ht] at hof
    exact absurd hof (by decide)
  refine ⟨fun s' hs' => ?_, fun s' hs' => ?_, hc.once, fun id hid => hc.known id (hs.1.trans hid)⟩
  · rcases hs.2 s' hs' with ⟨s, hmem, hid, hruns, -⟩ | ⟨hid, hruns, -⟩
    · rw [hruns, hid]
      exact hc.runCount s hmem
    · rw [hruns, hzero hid fun t ht => (Bool.and_eq_true _ _ ▸ ht : _ ∧ _).1]
  · rcases hs.2 s' hs' with ⟨s, hmem, hid, -, hfail⟩ | ⟨hid, -, hfail⟩
    · rw [hfail, hid]
      exact hc.failureCount s hmem
    · rw [hfail, hzero hid fun t ht => (Bool.and_eq_true _ _ ▸ ht : _ ∧ _).1]

/-- A turn that is no fire. -/
theorem Counts.cons {h : List (Turn Op Err (Option QueueJobData) World)} (hc : Counts h w)
    {t : Turn Op Err (Option QueueJobData) World} (ht : ∀ id, t.op ≠ .fire id) : Counts (t :: h) w := by
  have hof (id : Id) : Fire.of id t = false := by
    unfold Fire.of
    split
    · rename_i i hi
      exact absurd hi (ht i)
    · rfl
  have hcount (id : Id) {p : Turn Op Err (Option QueueJobData) World → Bool} (hp : p t = false) :
      (t :: h).countP p = h.countP p := by
    rw [List.countP_cons, hp]
    rfl
  have hq (id : Id) : Fire.queues id t = false := by simp [Fire.queues, hof]
  have hf (id : Id) : Fire.fails id t = false := by simp [Fire.fails, hof]
  have hk (id : Id) : Fire.skips id t = false := by simp [Fire.skips, hof]
  refine ⟨fun s hs => ?_, fun s hs => ?_, fun id => ?_, fun id hid t' ht' => ?_⟩
  · rw [hcount s.id (hq _)]
    exact hc.runCount s hs
  · rw [hcount s.id (hf _)]
    exact hc.failureCount s hs
  · rw [hcount id (hof _), hcount id (hq _), hcount id (hf _), hcount id (hk _)]
    exact hc.once id
  · rcases List.mem_cons.mp ht' with rfl | ht'
    · exact hof id
    · exact hc.known id hid t' ht'

/-- A turn that is a fire and fails at most outside. -/
theorem settled_turn {id : Id} {plan : List Bool} (h : Integrity w.db) (hfresh : w.Fresh)
    (hf : FailsOutside env (.fire id) plan w) :
    Settled id w (((controlPlane env).turn (.fire id) plan w).result.map fun _ => ())
      ((controlPlane env).turn (.fire id) plan w).after := by
  have hwp : ((Op.fire id).prog env).wp (alone env Outside)
      (fun r w' => Settled id w (r.map fun _ => ()) w') w := by
    refine wp_bind_of alone_monotone (SchedulerService.fire_settled id h hfresh) ?_ ?_
    · exact fun _ w' hw' => (wp_pure _ _ _).mpr hw'
    · exact fun e w' hw' => hw'
  exact Program.run_of_wp hwp (hf id rfl)

theorem isOk_map {ε α β : Type} (r : Except ε α) (f : α → β) : (r.map f).isOk = r.isOk := by
  cases r <;> rfl

/-- Such a turn counts once. -/
theorem Counts.fire {h : List (Turn Op Err (Option QueueJobData) World)} (hc : Counts h w) {id : Id}
    {t : Turn Op Err (Option QueueJobData) World} (hop : t.op = .fire id) (hbefore : t.before = w)
    (hs : Settled id w (t.result.map fun _ => ()) t.after) : Counts (t :: h) t.after := by
  obtain ⟨htallied, hnot⟩ := hs
  rw [isOk_map] at htallied hnot
  have hof (i : Id) : Fire.of i t = (id == i && (w.db.schedules.get i).isSome) := by
    unfold Fire.of
    rw [hop, hbefore]
  -- a fire of a schedule in the table
  have hself {s : Schedule} (hmem : s ∈ w.db.schedules.rows) (i : Id) (hi : i = s.id) :
      Fire.of i t = decide (s.id = id) := by
    subst hi
    rw [hof, show w.db.schedules.get s.id = some s from Table.get_key hmem]
    by_cases hid : s.id = id
    · simp [hid]
    · simp [hid, Ne.symm hid]
  refine ⟨fun s' hs' => ?_, fun s' hs' => ?_, fun i => ?_, fun i hi t' ht' => ?_⟩
  · obtain ⟨s, hmem, hid, hruns, -⟩ := htallied.rows s' hs'
    rw [hruns, hc.runCount s hmem, ← hid, List.countP_cons, Fire.queues, hself hmem _ hid, hbefore]
    by_cases heq : s.id = id
    · subst heq
      simp [hid]
    · simp [hid, heq]
  · obtain ⟨s, hmem, hid, -, hfail⟩ := htallied.rows s' hs'
    rw [hfail, hc.failureCount s hmem, ← hid, List.countP_cons, Fire.fails, hself hmem _ hid]
    by_cases heq : s.id = id
    · subst heq
      cases t.result.isOk <;> simp [hid]
    · simp [hid, heq]
  · have hone := hc.once i
    simp only [List.countP_cons, Fire.queues, Fire.fails, Fire.skips, hbefore] at hone ⊢
    have hsplit : Fire.of i t = true → i = id := by
      intro h
      rw [hof] at h
      simp at h
      exact h.1.symm
    by_cases hi : Fire.of i t = true
    · obtain rfl := hsplit hi
      by_cases hq : queuedBy i w t.after = true
      · have hok : t.result.isOk = true := by
          by_contra hok
          exact hnot ⟨hq, Bool.not_eq_true _ ▸ hok⟩
        simp only [hi, hq, hok, Bool.and_true, Bool.not_true, Bool.and_false, Bool.false_eq_true,
          if_true, if_false]
        omega
      · rw [Bool.not_eq_true] at hq
        by_cases hok : t.result.isOk = true
        · simp only [hi, hq, hok, Bool.and_true, Bool.not_true, Bool.not_false, Bool.and_false,
            Bool.false_eq_true, if_true, if_false]
          omega
        · rw [Bool.not_eq_true] at hok
          simp only [hi, hq, hok, Bool.and_true, Bool.not_false, Bool.and_false,
            Bool.false_eq_true, if_true, if_false]
          omega
    · simp only [Bool.not_eq_true] at hi
      simp [hi, hone]
  · rcases List.mem_cons.mp ht' with rfl | ht'
    · rw [hof, Table.get_eq_none_of_le (htallied.next ▸ hi)]
      simp
    · exact hc.known i (htallied.next ▸ hi) t' ht'

/-- In every run in which the calls of the fires fail at most outside of the `try` and of the worker's
handler, the counters of every schedule are the numbers of its fires that put a job on the queue and
of those that failed, and every fire is one of these or a skip. -/
theorem counters_of_runs (env : Env) {h : List (Turn Op Err (Option QueueJobData) World)}
    (hr : Runs (controlPlane env) (FailsOutside env) World.initial h w) :
    (∀ s ∈ w.db.schedules.rows, s.runCount = h.countP (Fire.queues s.id) ∧
      s.failureCount = h.countP (Fire.fails s.id)) ∧
    ∀ id, h.countP (Fire.of id) =
      h.countP (Fire.queues id) + h.countP (Fire.fails id) + h.countP (Fire.skips id) := by
  suffices hc : Counts h w from ⟨fun s hs => ⟨hc.runCount s hs, hc.failureCount s hs⟩, hc.once⟩
  induction hr with
  | init => exact .initial
  | @turn h w op plan hr hcond ih =>
    by_cases hop : ∃ id, op = .fire id
    · obtain ⟨id, rfl⟩ := hop
      exact ih.fire rfl rfl (settled_turn (Integrity.of_runs hr) (World.fresh_of_runs hr) hcond)
    · have hno : ∀ id, op ≠ .fire id := fun id h => hop ⟨id, h⟩
      exact (Counts.cons ih (t := (controlPlane env).turn op plan w) hno).same (SameCounts.turn hno plan w)
  | environment _ he ih => exact ih.same (SameCounts.elsewhere he)

/-- The request that creates the schedule of the examples. -/
def nightlyRestart : Op := .createSchedule 0 0 ⟨"nightly", 0, "* * * * *", "SERVER_RESTART", none, none⟩

/-- The turn that creates it. -/
def nightlyCreated : Turn Op Err (Option QueueJobData) World := smallPlane.turn nightlyRestart [] .small

/-- The turn in which it fires, under a plan of failures. -/
def nightlyFired (plan : List Bool) : Turn Op Err (Option QueueJobData) World :=
  smallPlane.turn (.fire 0) plan nightlyCreated.after

theorem Runs.nightly {cond : Op → List Bool → World → Prop} (plan : List Bool)
    (hcreate : cond nightlyRestart [] .small) (hfire : cond (.fire 0) plan nightlyCreated.after) :
    Runs smallPlane cond World.initial [nightlyFired plan, nightlyCreated] (nightlyFired plan).after :=
  .turn _ plan (.turn nightlyRestart [] Runs.small hcreate) hfire

/-- The turn in which it fires after a fire that failed. -/
def nightlyDispatched : Turn Op Err (Option QueueJobData) World :=
  smallPlane.turn (.fire 0) [] (nightlyFired (failAt 0)).after

/-- The turn in which it fires once more, while the run of the fire before is pending. -/
def nightlySkipped : Turn Op Err (Option QueueJobData) World :=
  smallPlane.turn (.fire 0) [] nightlyDispatched.after

/-- A fire that fails at once, one that dispatches and one that is skipped count once each. -/
theorem counters_of_runs_thrice :
    let h := [nightlySkipped, nightlyDispatched, nightlyFired (failAt 0), nightlyCreated]
    (h.countP (Fire.queues 0) = 1 ∧ h.countP (Fire.fails 0) = 1 ∧ h.countP (Fire.skips 0) = 1) ∧
      ∀ s ∈ nightlySkipped.after.db.schedules.rows, s.runCount = h.countP (Fire.queues s.id) ∧
        s.failureCount = h.countP (Fire.fails s.id) := by
  intro h
  have hcalm (w : World) : FailsOutside Env.everyMinute (.fire 0) [] w := by
    intro id _ f hf
    rw [faults_nil] at hf
    cases hf
  have hfailed : FailsOutside Env.everyMinute (.fire 0) (failAt 0) nightlyCreated.after := by
    intro id _ f hf
    obtain rfl : f = (.scheduleFindUnique 0, nightlyCreated.after) := List.mem_singleton.mp hf
    trivial
  have hfirst : Runs smallPlane (FailsOutside Env.everyMinute) World.initial _ _ :=
    Runs.nightly (failAt 0) (fun id h => absurd h (by simp [nightlyRestart])) hfailed
  have hr : Runs smallPlane (FailsOutside Env.everyMinute) World.initial h nightlySkipped.after :=
    .turn (Op.fire 0) [] (.turn (Op.fire 0) [] hfirst (hcalm _)) (hcalm _)
  exact ⟨by decide +kernel, (counters_of_runs Env.everyMinute hr).1⟩
/-- The creation of the job fails, and nothing else: one fire fails, and two failures are counted. -/
theorem failure_counted_twice :
    ¬ ∀ h w, Runs smallPlane (fun _ plan _ => plan.count true ≤ 1) World.initial h w →
      ∀ s ∈ w.db.schedules.rows, s.runCount = h.countP (Fire.queues s.id) ∧
        s.failureCount = h.countP (Fire.fails s.id) := by
  intro hall
  have hright := hall _ _ (Runs.nightly (failAt 2) (by decide) (by decide))
  have hbad : ((nightlyFired (failAt 2)).after.db.schedules.rows.any fun s =>
      decide (s.failureCount ≠
        [nightlyFired (failAt 2), nightlyCreated].countP (Fire.fails s.id))) = true := by
    decide +kernel
  obtain ⟨s, hs, hne⟩ := List.any_eq_true.mp hbad
  exact of_decide_eq_true hne (hright s hs).2

end Runs

end Mastermind
