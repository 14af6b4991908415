import Mastermind.Agent.Loop
import Mastermind.Dispatch.Moves

/-!
# Heartbeats and the stale sweep

`runOne` of `internal/jobs/loop.go`, as the sweep of the control plane sees it. A job that the
agent has claimed waits for a slot of the limiter, downloads its archive if it is an upload of a
mod, and executes. `Work` is where it is, with the times that matter: the ticker that reports a
heartbeat runs beside `Execute` only, so a claimed job is silent while it waits, while it downloads
and until the ticker first fires. `runOne` does announce the download, but with a phase that
`ReportProgressDto` does not know: the post is refused and the agent drops the error.

`Step` is one step of the agent, of the clock, which both components share, or of the rest of the
control plane; a progress post arrives when it is sent. Claims, posts and sweeps are the control
plane's own `markJobRunStarted`, `reportJobProgress` and `failStaleRunningJobs`. `Attended` says
what the heartbeat of the stored run is in each phase of the work. Every step keeps it
(`Step.attended`), and so the sweep spares every claimed run exactly when no silence has been
longer than the sweep allows.
-/

namespace Mastermind.Agent.Heartbeats

open Effect Effect.Program

/-- `maxDuration` of `runOne`, in milliseconds. -/
def maxDuration (jobType : String) : ℕ :=
  if jobType = "SERVER_SAFE_RESTART" ∨ jobType = "SERVER_RESTART" then 24 * 3600000
  else if isReadOnly jobType = true then 3 * 60000
  else 15 * 60000

/-- The time limit of `DownloadJobFile`. -/
def downloadTimeout : ℕ := 10 * 60000

/-- The period of the ticker. -/
def tickPeriod : ℕ := 30000

/-- Where the agent is with a job that it has claimed: it waits for a slot since it claimed the
job, it downloads the archive, it executes the job and the ticker has not fired yet, or it has.
`silent` is the time of the last sign of the job before the ticker's, and `tick` is when the ticker
fires next. -/
inductive Work where
  | waiting (claimed : ℕ)
  | downloading (claimed began : ℕ)
  | warming (silent tick : ℕ)
  | beating (tick : ℕ)

/-- A job that the agent has claimed and is still processing. `started` is when `runOne` began. -/
structure Task where
  hostId : Id
  type : String
  started : ℕ
  work : Work

/-- The time limits: of the whole of `runOne`, of the download, and of the ticker, which is on
time. Waiting for a slot has none. -/
def Task.OnTime (task : Task) (now : ℕ) : Prop :=
  match task.work with
  | .waiting _ => True
  | .downloading _ began => now ≤ began + downloadTimeout ∧ now ≤ task.started + maxDuration task.type
  | .warming _ tick | .beating tick => now ≤ tick ∧ now ≤ task.started + maxDuration task.type

/-- The control plane, and the jobs that agents process, by their runs. -/
structure State where
  world : World
  tasks : Id → Option Task

/-- A run is as it was, and no job has gone. -/
def Untouched (w w' : World) (id : Id) : Prop :=
  w'.db.jobRuns.get id = w.db.jobRuns.get id ∧
    ∀ j, (w.db.jobs.get j).isSome = true → (w'.db.jobs.get j).isSome = true

/-- What the validation of `ReportProgressDto` accepts. -/
def ReportProgressDto.accepts (phase : String) (message : Option String) : Bool :=
  (phase = "queued" ∨ phase = "running") ∧ message.all fun m => m.length ≤ 500

/-- A progress post for the run `id`. One that is not accepted stores nothing. -/
def State.post (env : Env) (s : State) (hostId id : Id) (phase : String)
    (message : Option String) : World :=
  if ReportProgressDto.accepts phase message then
    (JobsService.reportJobProgress hostId id phase message).after (machine env) s.world
  else s.world

/-- The state in which the run `id` is at another task, or at none. -/
def State.put (s : State) (w : World) (id : Id) (task : Option Task) : State :=
  ⟨w, Function.update s.tasks id task⟩

/-- One step of an agent, of the clock, or of the rest of the control plane. -/
inductive Step (env : Env) : State → State → Prop where
  /-- Time passes. -/
  | pass {s} (d : ℕ) : (∀ id task, s.tasks id = some task → task.OnTime (s.world.now + d)) →
      Step env s { s with world := { s.world with now := s.world.now + d } }
  /-- The control plane does anything that leaves the runs in hand alone. -/
  | elsewhere {s} (w : World) : w.now = s.world.now →
      (∀ id task, s.tasks id = some task → Untouched s.world w id) →
      Step env s { s with world := w }
  /-- A poll hands out a job, and its run is marked as running. -/
  | claim {s} (hostId id : Id) (job : Mastermind.Job) :
      s.world.db.jobRuns.get id = some (pendingRun job.id hostId id) →
      s.world.db.jobs.get job.id = some job →
      Step env s (s.put
        ((JobsService.markJobRunStarted hostId id).after (machine env) s.world) id
        (some ⟨hostId, job.type, 0, .waiting s.world.now⟩))
  /-- The job has its slot, and `runOne` goes on to `Execute`. -/
  | start {s id task claimed} : s.tasks id = some task → task.work = .waiting claimed →
      task.type ≠ "MOD_UPLOAD_QUARANTINE" →
      Step env s (s.put s.world id (some
        ⟨task.hostId, task.type, s.world.now, .warming claimed (s.world.now + tickPeriod)⟩))
  /-- The job has its slot, and `runOne` posts that it downloads the archive. -/
  | download {s id task claimed} : s.tasks id = some task → task.work = .waiting claimed →
      task.type = "MOD_UPLOAD_QUARANTINE" →
      Step env s (s.put
        (s.post env task.hostId id "downloading" (some "Downloading uploaded mod archive")) id
        (some ⟨task.hostId, task.type, s.world.now, .downloading claimed s.world.now⟩))
  /-- The archive is there, and `runOne` goes on to `Execute`. -/
  | execute {s id task claimed began} : s.tasks id = some task →
      task.work = .downloading claimed began →
      Step env s (s.put s.world id (some
        { task with work := .warming claimed (s.world.now + tickPeriod) }))
  /-- The ticker fires. -/
  | tick {s id task} : s.tasks id = some task →
      (task.work = .beating s.world.now ∨ ∃ silent, task.work = .warming silent s.world.now) →
      Step env s (s.put
        (s.post env task.hostId id "running" (some "Agent is executing this job")) id
        (some { task with work := .beating (s.world.now + tickPeriod) }))
  /-- `Execute` reports progress of its own. -/
  | report {s id task silent tick} (phase : String) (message : Option String) :
      s.tasks id = some task → task.work = .warming silent tick →
      Step env s (s.put (s.post env task.hostId id phase message) id
        (some ⟨task.hostId, task.type, task.started, .warming
          (if ReportProgressDto.accepts phase message then s.world.now else silent) tick⟩))
  | reportBeating {s id task tick} (phase : String) (message : Option String) :
      s.tasks id = some task → task.work = .beating tick →
      Step env s (s.put (s.post env task.hostId id phase message) id (some task))
  /-- The job is over, or the agent is: what becomes of its run is up to the rest. -/
  | finish {s} (id : Id) : Step env s (s.put s.world id none)

/-- The sweep, some of whose calls may fail. -/
def State.sweep (env : Env) (plan : List Bool) (s : State) : State :=
  { s with world := (JobsService.failStaleRunningJobs.run (machine env) plan s.world).2.2 }

/-- The states that are reached, from any store without a claimed run, with a sweep only in states
that meet the condition. -/
inductive Reaches (env : Env) (cond : State → Prop) : State → Prop where
  | init (w : World) : Reaches env cond ⟨w, fun _ => none⟩
  | step {s s'} : Reaches env cond s → Step env s s' → Reaches env cond s'
  | sweep {s} (plan : List Bool) : Reaches env cond s → cond s →
      Reaches env cond (s.sweep env plan)

/-- Every run that an agent processes is running. -/
def State.Live (s : State) : Prop :=
  ∀ id task, s.tasks id = some task →
    ∃ run, s.world.db.jobRuns.get id = some run ∧ run.status = .running

/-- No wait for a slot, download or start of an execution has been silent for longer than the
sweep allows. -/
def Work.Brief (now : ℕ) : Work → Prop
  | .waiting t | .downloading t _ | .warming t _ => now ≤ t + JobsService.staleAfter
  | .beating _ => True

/-- Every silence has been brief. -/
def State.Brief (s : State) : Prop :=
  ∀ id task, s.tasks id = some task → task.work.Brief s.world.now

section Invariant

/-- What the heartbeat of the run is. -/
def Work.Heard (heartbeat : ℕ) : Work → Prop
  | .waiting t | .downloading t _ | .warming t _ => heartbeat = t
  | .beating tick => tick ≤ heartbeat + tickPeriod

/-- The stored run of a task is running, is the host's, and has the heartbeat of the work, which
like its start is past. -/
def Attended (w : World) (id : Id) (task : Task) : Prop :=
  ∃ run, w.db.jobRuns.get id = some run ∧ run.status = .running ∧ run.hostId = task.hostId ∧
    (w.db.jobs.get run.jobId).isSome = true ∧ run.startedAt.getD 0 ≤ w.now ∧
    JobsService.heartbeat run ≤ w.now ∧ task.work.Heard (JobsService.heartbeat run)

/-- Every task is attended and on time. -/
def State.Attended (s : State) : Prop :=
  ∀ id task, s.tasks id = some task → Heartbeats.Attended s.world id task ∧
    task.OnTime s.world.now

variable {env : Env} {cond : State → Prop} {s s' : State} {w w' : World} {id : Id} {task : Task}

/-- A run that is as it was is attended as it was. -/
theorem Attended.of_untouched (h : Heartbeats.Attended w id task) (hw : Untouched w w' id)
    (hnow : w.now ≤ w'.now) : Heartbeats.Attended w' id task := by
  obtain ⟨run, hrun, hstatus, hhost, hjob, hstarted, hseen, hheard⟩ := h
  exact ⟨run, hw.1.trans hrun, hstatus, hhost, hw.2 _ hjob, hstarted.trans hnow, hseen.trans hnow,
    hheard⟩

/-- A progress post is the last sign of life of its run. -/
theorem heartbeat_progress {now : ℕ} {run : JobRun} (phase : String) (message : Option String)
    (h : run.startedAt.getD 0 ≤ now) :
    JobsService.heartbeat ((RunPatch.progress phase message).apply now run) = now := by
  by_cases hnow : now = 0
  · subst hnow
    have hstart : run.startedAt.getD 0 = 0 := Nat.le_zero.mp h
    simp only [JobsService.heartbeat, RunPatch.apply, Option.bind_some, Option.filter_some]
    simpa using hstart
  · simp [JobsService.heartbeat, RunPatch.apply, Option.filter_some, hnow]

/-- A progress post for a running run of the host is stored. -/
theorem after_reportJobProgress {run : JobRun} {job : Mastermind.Job} {hostId : Id}
    (hrun : w.db.jobRuns.get id = some run) (hjob : w.db.jobs.get run.jobId = some job)
    (hhost : run.hostId = hostId) (hstatus : run.status = .running) (phase : String)
    (message : Option String) :
    (JobsService.reportJobProgress hostId id phase message).after (machine env) w =
      w.updateJobRun id (.progress phase (message.filter fun m => m ≠ "")) := by
  have hspec : (JobsService.reportJobProgress hostId id phase message).wp
      (alone env fun _ _ => False)
      (fun _ w' => w' = w.updateJobRun id (.progress phase (message.filter fun m => m ≠ ""))) w := by
    unfold JobsService.reportJobProgress
    rw [wp_bind, wp_request, alone_apply]
    refine ⟨?_, fun _ hm => hm.elim⟩
    have hfound : ((w.db.jobRuns.get id).bind fun r =>
        (w.db.jobs.get r.jobId).map fun j => (r, j)) = some (run, job) := by
      rw [hrun, Option.bind_some, hjob, Option.map_some]
    rw [exec, andThen_ok, hfound, JobsService.checkRunning, if_neg (not_not.mpr hhost),
      if_neg (not_not.mpr hstatus), wp_bind, wp_pure, andThen_ok, wp_request, alone_apply]
    refine ⟨?_, fun _ hm => hm.elim⟩
    have hpresent : ¬(w.db.jobRuns.get id).isNone = true := by simp [hrun]
    rw [exec, if_neg hpresent]
  exact after_of_wp hspec

/-- What an accepted post leaves: the run has a fresh heartbeat, and the others are as they
were. -/
theorem post_spec (env : Env) (h : Heartbeats.Attended s.world id task) {phase : String}
    {message : Option String} (hdto : ReportProgressDto.accepts phase message = true) :
    (s.post env task.hostId id phase message).now = s.world.now ∧
      (∀ i, i ≠ id → Untouched s.world (s.post env task.hostId id phase message) i) ∧
      ∀ task', task'.hostId = task.hostId → task'.work.Heard s.world.now →
        Heartbeats.Attended (s.post env task.hostId id phase message) id task' := by
  obtain ⟨run, hrun, hstatus, hhost, hjob, hstarted, -, -⟩ := h
  obtain ⟨job, hget⟩ := Option.isSome_iff_exists.mp hjob
  have hpost : s.post env task.hostId id phase message =
      s.world.updateJobRun id (.progress phase (message.filter fun m => m ≠ "")) :=
    (if_pos hdto).trans (after_reportJobProgress hrun hget hhost hstatus phase message)
  rw [hpost]
  refine ⟨rfl, fun i hi => ⟨Table.get_update_of_ne (RunPatch.key_apply _ _) hi, fun _ hj => hj⟩, ?_⟩
  intro task' htask hheard
  refine ⟨_, Table.get_update_self (RunPatch.key_apply _ _) hrun, hstatus,
    hhost.trans htask.symm, hjob, hstarted, ?_⟩
  rw [heartbeat_progress phase _ hstarted]
  exact ⟨le_rfl, hheard⟩

/-- What a claim leaves: the run is running since now, and the others are as they were. -/
theorem claim_spec (env : Env) {hostId : Id} {job : Mastermind.Job}
    (hrun : w.db.jobRuns.get id = some (pendingRun job.id hostId id))
    (hjob : w.db.jobs.get job.id = some job) :
    ((JobsService.markJobRunStarted hostId id).after (machine env) w).now = w.now ∧
      ((JobsService.markJobRunStarted hostId id).after (machine env) w).db.jobRuns =
        (w.updateJobRun id .start).db.jobRuns ∧
      ((JobsService.markJobRunStarted hostId id).after (machine env) w).db.jobs = w.db.jobs := by
  let I (w' : World) : Prop := w'.now = w.now ∧
    w'.db.jobRuns = (w.updateJobRun id .start).db.jobRuns ∧ w'.db.jobs = w.db.jobs
  have hspec : (JobsService.markJobRunStarted hostId id).wp (alone env fun _ _ => False)
      (fun _ w' => I w') w := by
    apply JobsService.markJobRunStarted_rule
    · intro _ hkept
      have hsome : (w.db.jobs.get (pendingRun job.id hostId id).jobId).isSome = true := by
        show (w.db.jobs.get job.id).isSome = true
        rw [hjob, Option.isSome_some]
      rcases hkept _ hrun rfl rfl hsome with hm | hm
      · exact hm.elim
      · exact hm.elim
    · intro run j _ _ _ _
      have hstarted : I (w.updateJobRun id .start) := ⟨rfl, rfl, rfl⟩
      rw [wp_ite]
      split_ifs
      · exact Op.wp_of_books (Op.recordJobRunStarted_books j.orgId j.id) (fun _ _ _ _ h => h)
          (fun _ _ h => h) hstarted
      · exact (wp_pure _ _ _).mpr hstarted
  exact after_of_wp hspec

/-- A step for one run keeps every task attended, if it does so for that run. -/
theorem State.Attended.put (h : s.Attended) (hnow : w.now = s.world.now)
    (hothers : ∀ i, i ≠ id → Untouched s.world w i) (hnew : Heartbeats.Attended w id task)
    (hlimits : task.OnTime s.world.now) : (s.put w id (some task)).Attended := by
  intro i t ht
  by_cases hi : i = id
  · subst hi
    obtain rfl : task = t := by simpa [State.put] using ht
    refine ⟨hnew, ?_⟩
    show task.OnTime w.now
    rw [hnow]
    exact hlimits
  · have hold : s.tasks i = some t := by simpa [State.put, hi] using ht
    obtain ⟨hattended, htime⟩ := h i t hold
    refine ⟨hattended.of_untouched (hothers i hi) hnow.ge, ?_⟩
    show t.OnTime w.now
    rw [hnow]
    exact htime

/-- A step that posts progress for a run keeps every task attended. -/
theorem State.Attended.put_post {task' : Task} (h : s.Attended) (ht : s.tasks id = some task)
    {phase : String} {message : Option String}
    (hdto : ReportProgressDto.accepts phase message = true) (hhost : task'.hostId = task.hostId)
    (hheard : task'.work.Heard s.world.now) (hlimits : task'.OnTime s.world.now) :
    (s.put (s.post env task.hostId id phase message) id (some task')).Attended := by
  obtain ⟨hnow, hothers, hnew⟩ := post_spec env (h id task ht).1 hdto
  exact h.put hnow hothers (hnew task' hhost hheard) hlimits

/-- So does a step whose post is refused, if the heartbeat is still that of the work. -/
theorem State.Attended.put_refused {task' : Task} (h : s.Attended) (ht : s.tasks id = some task)
    {phase : String} {message : Option String}
    (hdto : ¬ReportProgressDto.accepts phase message = true) (hhost : task'.hostId = task.hostId)
    (hheard : ∀ heartbeat, task.work.Heard heartbeat → task'.work.Heard heartbeat)
    (hlimits : task'.OnTime s.world.now) :
    (s.put (s.post env task.hostId id phase message) id (some task')).Attended := by
  obtain ⟨run, hrun, hstatus, hmine, hjob, hstarted, hseen, hlast⟩ := (h id task ht).1
  have hpost : s.post env task.hostId id phase message = s.world := if_neg hdto
  rw [hpost]
  exact h.put rfl (fun _ _ => ⟨rfl, fun _ hj => hj⟩)
    ⟨run, hrun, hstatus, hmine.trans hhost.symm, hjob, hstarted, hseen, hheard _ hlast⟩ hlimits

/-- Every step keeps every task attended. -/
theorem Step.attended (hs : Step env s s') (h : s.Attended) : s'.Attended := by
  cases hs with
  | pass d htime =>
    intro id task ht
    obtain ⟨run, hrun, hstatus, hhost, hjob, hstarted, hseen, hheard⟩ := (h id task ht).1
    have hlater : s.world.now ≤ s.world.now + d := Nat.le_add_right _ _
    exact ⟨⟨run, hrun, hstatus, hhost, hjob, hstarted.trans hlater, hseen.trans hlater, hheard⟩,
      htime id task ht⟩
  | elsewhere w hnow hw =>
    intro id task ht
    obtain ⟨hattended, htime⟩ := h id task ht
    refine ⟨hattended.of_untouched (hw id task ht) hnow.ge, ?_⟩
    show task.OnTime w.now
    rw [hnow]
    exact htime
  | claim hostId id job hrun hjob =>
    obtain ⟨hnow, hruns, hjobs⟩ := claim_spec env hrun hjob
    refine h.put hnow ?_ ?_ trivial
    · intro i hi
      refine ⟨?_, fun j hj => by rwa [hjobs]⟩
      rw [hruns]
      exact Table.get_update_of_ne (RunPatch.key_apply _ _) hi
    · refine ⟨RunPatch.start.apply s.world.now (pendingRun job.id hostId id), ?_, rfl, rfl, ?_, ?_,
        ?_, rfl⟩
      · rw [hruns]
        exact Table.get_update_self (RunPatch.key_apply _ _) hrun
      · rw [hjobs]
        exact Option.isSome_iff_exists.mpr ⟨job, hjob⟩
      · rw [hnow]
        exact le_rfl
      · rw [hnow]
        exact le_rfl
  | @start id task claimed ht hwork _ =>
    obtain ⟨run, hrun, hstatus, hhost, hjob, hstarted, hseen, hheard⟩ := (h id task ht).1
    rw [hwork] at hheard
    exact h.put rfl (fun _ _ => ⟨rfl, fun _ hj => hj⟩)
      ⟨run, hrun, hstatus, hhost, hjob, hstarted, hseen, hheard⟩
      ⟨Nat.le_add_right _ _, Nat.le_add_right _ _⟩
  | @download id task claimed ht hwork _ =>
    -- the phase is none of those that the validation knows
    refine h.put_refused ht (by decide) rfl (fun heartbeat hheard => ?_)
      ⟨Nat.le_add_right _ _, Nat.le_add_right _ _⟩
    rw [hwork] at hheard
    exact hheard
  | @execute id task claimed began ht hwork =>
    obtain ⟨⟨run, hrun, hstatus, hhost, hjob, hstarted, hseen, hheard⟩, htime⟩ := h id task ht
    unfold Task.OnTime at htime
    rw [hwork] at hheard htime
    exact h.put rfl (fun _ _ => ⟨rfl, fun _ hj => hj⟩)
      ⟨run, hrun, hstatus, hhost, hjob, hstarted, hseen, hheard⟩ ⟨Nat.le_add_right _ _, htime.2⟩
  | @tick id task ht hwork =>
    have htime := (h id task ht).2
    have hlimit : s.world.now ≤ task.started + maxDuration task.type := by
      unfold Task.OnTime at htime
      rcases hwork with hwork | ⟨silent, hwork⟩
      · rw [hwork] at htime
        exact htime.2
      · rw [hwork] at htime
        exact htime.2
    exact h.put_post ht (by decide) rfl le_rfl ⟨Nat.le_add_right _ _, hlimit⟩
  | @report id task silent tick phase message ht hwork =>
    have htime := (h id task ht).2
    unfold Task.OnTime at htime
    rw [hwork] at htime
    by_cases hdto : ReportProgressDto.accepts phase message = true
    · rw [if_pos hdto]
      exact h.put_post ht hdto rfl rfl htime
    · rw [if_neg hdto]
      refine h.put_refused ht hdto rfl (fun heartbeat hheard => ?_) htime
      rw [hwork] at hheard
      exact hheard
  | @reportBeating id task tick phase message ht hwork =>
    obtain ⟨⟨run, _, _, _, _, _, hseen, hheard⟩, htime⟩ := h id task ht
    by_cases hdto : ReportProgressDto.accepts phase message = true
    · have hfired : task.work.Heard s.world.now := by
        rw [hwork] at hheard ⊢
        exact Nat.le_trans hheard (Nat.add_le_add_right hseen _)
      exact h.put_post ht hdto rfl hfired htime
    · exact h.put_refused ht hdto rfl (fun _ hheard => hheard) htime
  | finish id =>
    intro i task ht
    have hne : i ≠ id := by
      rintro rfl
      simp [State.put] at ht
    have hold : s.tasks i = some task := by simpa [State.put, hne] using ht
    exact h i task hold

/-- For a task in hand, a brief silence is a heartbeat that the sweep accepts. The ticker's
heartbeats always are. -/
theorem Attended.brief_iff {run : JobRun} (h : Heartbeats.Attended w id task)
    (htime : task.OnTime w.now) (hrun : w.db.jobRuns.get id = some run) :
    task.work.Brief w.now ↔ w.now ≤ JobsService.heartbeat run + JobsService.staleAfter := by
  obtain ⟨run', hrun', -, -, -, -, -, hheard⟩ := h
  obtain rfl := Option.some.inj (hrun'.symm.trans hrun)
  unfold Task.OnTime at htime
  cases hwork : task.work with
  | waiting claimed =>
    rw [hwork] at hheard
    rw [show JobsService.heartbeat run' = claimed from hheard]
    exact Iff.rfl
  | downloading claimed _ =>
    rw [hwork] at hheard
    rw [show JobsService.heartbeat run' = claimed from hheard]
    exact Iff.rfl
  | warming silent tick =>
    rw [hwork] at hheard
    rw [show JobsService.heartbeat run' = silent from hheard]
    exact Iff.rfl
  | beating tick =>
    rw [hwork] at hheard htime
    have htick : tick ≤ JobsService.heartbeat run' + 30000 := hheard
    have hnow : w.now ≤ tick := htime.1
    have hstale : JobsService.staleAfter = 180000 := rfl
    have hfresh : w.now ≤ JobsService.heartbeat run' + JobsService.staleAfter := by omega
    exact iff_of_true trivial hfresh

/-- A sweep after brief silences leaves every run in hand as it is. -/
theorem sweep_spec (env : Env) (h : s.Attended) (hb : s.Brief) (plan : List Bool) :
    (s.sweep env plan).world.now = s.world.now ∧
      ∀ id task, s.tasks id = some task → Untouched s.world (s.sweep env plan).world id := by
  let I (w' : World) : Prop := w'.now = s.world.now ∧
    ∀ id task, s.tasks id = some task → Untouched s.world w' id
  have hspec : JobsService.failStaleRunningJobs.wp (alone env fun _ _ => True)
      (fun _ w' => I w') s.world := by
    have hstart : I s.world := ⟨rfl, fun _ _ _ => ⟨rfl, fun _ hj => hj⟩⟩
    apply JobsService.failStaleRunningJobs_rule fun rest w' =>
      (∀ run ∈ rest, run ∈ s.world.db.jobRuns.rows) ∧ I w'
    · exact fun _ => hstart
    · exact ⟨fun run hrun => List.mem_of_mem_filter hrun, hstart⟩
    · exact fun run rest w' hI _ => ⟨fun r hr => hI.1 r (List.mem_cons_of_mem _ hr), hI.2⟩
    · rintro run rest w' ⟨hrest, hnow, hsame⟩ hsilent -
      have hrun : s.world.db.jobRuns.get run.id = some run :=
        Table.get_key (hrest run List.mem_cons_self)
      refine ⟨fun r hr => hrest r (List.mem_cons_of_mem _ hr), hnow, fun id task ht => ?_⟩
      -- a run in hand is not silent, so the released one is another
      have hne : id ≠ run.id := by
        rintro rfl
        have hfresh := ((h _ task ht).1.brief_iff (h _ task ht).2 hrun).mp (hb _ task ht)
        omega
      obtain ⟨hget, hjobs⟩ := hsame id task ht
      exact ⟨(Table.get_update_of_ne (RunPatch.key_apply _ _) hne).trans hget, hjobs⟩
    · exact fun _ _ _ hI => hI.2
    · exact fun _ hI => hI.2
  exact run_of_wp hspec fun _ _ => trivial

/-- A sweep that completes ends every run that has been silent for too long. -/
theorem sweep_ends {run : JobRun} (hrun : s.world.db.jobRuns.get id = some run)
    (hrunning : run.status = .running)
    (hsilent : JobsService.heartbeat run + JobsService.staleAfter < s.world.now) (run' : JobRun)
    (hrun' : (s.sweep env []).world.db.jobRuns.get id = some run') : run'.status ≠ .running := by
  let Ended (w' : World) : Prop :=
    ∀ r, w'.db.jobRuns.get id = some r → r.status ≠ .running
  have hspec : JobsService.failStaleRunningJobs.wp (alone env fun _ _ => False)
      (fun _ w' => Ended w') s.world := by
    apply JobsService.failStaleRunningJobs_rule fun rest w' => run ∈ rest ∨ Ended w'
    · rintro ⟨_, _, hm⟩
      exact hm.elim
    · have hmem : run ∈ s.world.db.jobRuns.rows := (Table.get_eq_some.mp hrun).1
      exact .inl (List.mem_filter.mpr ⟨hmem, by simp [hrunning]⟩)
    · rintro r rest w' hI hskip
      rcases hI with hI | hI
      · rcases List.mem_cons.mp hI with rfl | hI
        · -- the sweep passes over the run: it has ended meanwhile
          right
          intro r' hr' hr'running
          rcases hskip with hfresh | hended
          · omega
          · have hid : run.id = id := (Table.get_eq_some.mp hrun).2
            rw [hid, hr'] at hended
            exact hended (by simp [hr'running])
        · exact .inl hI
      · exact .inr hI
    · rintro r rest w' hI _ _
      have hkeeps : Ended w' ∨ r.id = id →
          Ended (w'.updateJobRun r.id (.release (r.result.getD RunResult.none))) := by
        intro hor r' hr'
        unfold World.updateJobRun at hr'
        rw [Table.get_update] at hr'
        split_ifs at hr' with hid
        · obtain ⟨r₀, _, rfl⟩ := Option.map_eq_some_iff.mp hr'
          exact fun hstatus => absurd hstatus (by simp [RunPatch.apply])
        · rcases hor with hended | hrid
          · exact hended r' hr'
          · exact absurd hrid.symm hid
      rcases hI with hI | hI
      · rcases List.mem_cons.mp hI with rfl | hI
        · exact .inr (hkeeps (.inr (Table.get_eq_some.mp hrun).2))
        · exact .inl hI
      · exact .inr (hkeeps (.inl hI))
    · rintro _ _ ⟨_, _, hm⟩
      exact hm.elim
    · rintro w' (hI | hI)
      · exact absurd hI List.not_mem_nil
      · exact hI
  exact after_of_wp hspec run' hrun'

/-- In every state that is reached with sweeps after brief silences only, every task is
attended. -/
theorem Reaches.attended (h : Reaches env State.Brief s) : s.Attended := by
  induction h with
  | init w => exact fun _ _ ht => absurd ht (by simp)
  | step _ hs ih => exact hs.attended ih
  | sweep plan _ hb ih =>
    obtain ⟨hnow, hsame⟩ := sweep_spec env ih hb plan
    intro id task ht
    obtain ⟨hattended, htime⟩ := ih id task ht
    refine ⟨hattended.of_untouched (hsame id task ht) hnow.ge, ?_⟩
    rw [hnow]
    exact htime

/-- What is attended is live. -/
theorem State.Attended.live (h : s.Attended) : s.Live := by
  intro id task ht
  obtain ⟨run, hrun, hstatus, -⟩ := (h id task ht).1
  exact ⟨run, hrun, hstatus⟩

end Invariant

/-- As long as every sweep comes after brief silences, every run that an agent processes stays
running; and a sweep that completes leaves them running exactly when the silences have been
brief. -/
theorem live_runs_kept_iff {env : Env} {s : State} (h : Reaches env State.Brief s) :
    s.Live ∧ ((s.sweep env []).Live ↔ s.Brief) := by
  have hattended := h.attended
  refine ⟨hattended.live, fun hlive id task ht => ?_, fun hb => (h.sweep [] hb).attended.live⟩
  obtain ⟨hmine, htime⟩ := hattended id task ht
  have ⟨run, hrun, hrunning, _⟩ := hmine
  rw [hmine.brief_iff htime hrun]
  by_contra hsilent
  obtain ⟨run', hrun', hrunning'⟩ := hlive id task ht
  exact sweep_ends hrun hrunning (not_le.mp hsilent) run' hrun' hrunning'

/-- A host whose queue has handed out the upload of a mod. -/
def uploading : World :=
  { World.initial with
    now := 1000
    db.jobs := Table.empty.insert (fun i => ⟨i, 0, none, some 0, "MOD_UPLOAD_QUARANTINE", none, none⟩)
      fun _ => rfl
    db.jobRuns := Table.empty.insert (pendingRun 0 0) fun _ => rfl }

/-- The upload after the agent has claimed it. -/
def claimed : State :=
  State.put ⟨uploading, fun _ => none⟩
    ((JobsService.markJobRunStarted 0 0).after (machine .everyMinute) uploading) 0
    (some ⟨0, "MOD_UPLOAD_QUARANTINE", 0, .waiting 1000⟩)

/-- The upload after the agent has posted that it downloads the archive. -/
def fetching : State :=
  claimed.put
    (claimed.post .everyMinute 0 0 "downloading" (some "Downloading uploaded mod archive")) 0
    (some ⟨0, "MOD_UPLOAD_QUARANTINE", 1000, .downloading 1000 1000⟩)

/-- The upload after the download has gone on for `d` milliseconds. -/
def fetchingFor (d : ℕ) : State :=
  { fetching with world := { fetching.world with now := 1000 + d } }

/-- The download may take up to ten minutes. -/
theorem Reaches.fetchingFor {cond : State → Prop} {d : ℕ} (hd : d ≤ downloadTimeout) :
    Reaches .everyMinute cond (fetchingFor d) := by
  have hclaim : Step .everyMinute ⟨uploading, fun _ => none⟩ claimed :=
    .claim 0 0 ⟨0, 0, none, some 0, "MOD_UPLOAD_QUARANTINE", none, none⟩ rfl rfl
  have hdownload : Step .everyMinute claimed fetching :=
    @Step.download _ claimed 0 ⟨0, "MOD_UPLOAD_QUARANTINE", 0, .waiting 1000⟩ 1000 rfl rfl rfl
  have hfetch : Reaches .everyMinute cond fetching :=
    ((Reaches.init uploading).step hclaim).step hdownload
  refine hfetch.step (.pass d fun id task ht => ?_)
  by_cases hid : id = 0
  · subst hid
    obtain rfl : (⟨0, "MOD_UPLOAD_QUARANTINE", 1000, .downloading 1000 1000⟩ : Task) = task :=
      Option.some.inj ht
    have hlimit : downloadTimeout ≤ maxDuration "MOD_UPLOAD_QUARANTINE" := by decide
    exact ⟨Nat.add_le_add_left hd 1000, Nat.add_le_add_left (hd.trans hlimit) 1000⟩
  · simp [fetching, claimed, State.put, hid] at ht

theorem live_runs_kept_iff_fetching :
    (fetchingFor 180000).Live ∧
      (((fetchingFor 180000).sweep .everyMinute []).Live ↔ (fetchingFor 180000).Brief) :=
  live_runs_kept_iff (Reaches.fetchingFor (by decide))

/-- A download that is still within its ten minutes is failed by the sweep. -/
theorem fetching_run_failed :
    ∃ s, Reaches .everyMinute (fun _ => True) s ∧ ¬s.Live := by
  refine ⟨(fetchingFor 180001).sweep .everyMinute [],
    (Reaches.fetchingFor (by decide)).sweep [] trivial, fun hlive => ?_⟩
  obtain ⟨run, hrun, hrunning⟩ := hlive 0 _ rfl
  have hfailed : (((fetchingFor 180001).sweep .everyMinute []).world.db.jobRuns.get 0).any
      (fun run => run.status == .running) = false := by
    decide
  rw [hrun] at hfailed
  simp [hrunning] at hfailed

end Mastermind.Agent.Heartbeats
