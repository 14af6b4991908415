import Mastermind.Dispatch.FireCounts

/-!
# Overlapping runs of a schedule

A fire looks for a run of its schedule that has not ended by the job type that the schedule now has
and by a `schedule_id` in the job's payload, which the schedule's own payload may overwrite. So an
edit hides an active run from it. `single_of_runs` says that this is the only way: where every fire
sees the active runs that the schedule has dispatched (`Seen`), no schedule has two of them.

A run that has ended stays so, and a run is dispatched by a fire in which it is created: `RunsFrom`
says what any operation leaves of that, and `fire_spec` what a fire adds.
-/

namespace Mastermind

open Effect Effect.Program

/-- The run is pending or running. -/
def JobRun.Active (r : JobRun) : Prop := r.status = .pending ∨ r.status = .running

/-- A fire of the schedule has created the run. -/
def Dispatched (id : Id) (h : List (Turn Op Err (Option QueueJobData) World)) (r : JobRun) : Prop :=
  ∃ t ∈ h, t.op = .fire id ∧ r.id = t.before.db.jobRuns.next ∧
    t.before.db.jobRuns.next < t.after.db.jobRuns.next

/-- The busy check of a fire sees the run: its job is one of the schedule's server, of the type that
the schedule dispatches, with the schedule's id in its payload. -/
def Seen (env : Env) (w : World) (id : Id) (r : JobRun) : Prop :=
  ∀ s si, w.db.schedules.get id = some s → w.db.serverInstances.get s.serverInstanceId = some si →
    w.db.isActive s.serverInstanceId (SchedulerService.effectiveJobType env s si) s.id r = true

/-- Every active run of `w₁` was one of `w`, or is new. -/
def RunsFrom (w w₁ : World) : Prop :=
  w.db.jobRuns.next ≤ w₁.db.jobRuns.next ∧
    ∀ r₁ ∈ w₁.db.jobRuns.rows, r₁.Active →
      (∃ r ∈ w.db.jobRuns.rows, r.id = r₁.id ∧ r.Active) ∨ w.db.jobRuns.next ≤ r₁.id

namespace RunsFrom

variable {env : Env} {w w₁ w₂ : World}

theorem of_eq (h : w₁.db.jobRuns = w.db.jobRuns) : RunsFrom w w₁ := by
  refine ⟨by rw [h], fun r hr hactive => .inl ⟨r, ?_, rfl, hactive⟩⟩
  rw [h] at hr
  exact hr

theorem trans (h : RunsFrom w w₁) (h' : RunsFrom w₁ w₂) : RunsFrom w w₂ := by
  refine ⟨h.1.trans h'.1, fun r₂ hr₂ hactive => ?_⟩
  rcases h'.2 r₂ hr₂ hactive with ⟨r₁, hr₁, hid, hactive₁⟩ | hnew
  · rcases h.2 r₁ hr₁ hactive₁ with ⟨r, hr, hid', hactive'⟩ | hnew
    · exact .inl ⟨r, hr, hid'.trans hid, hactive'⟩
    · exact .inr (hid ▸ hnew)
  · exact .inr (h.1.trans hnew)

theorem insertJobRun (jobId hostId : Id) : RunsFrom w (w.insertJobRun jobId hostId) := by
  refine ⟨Nat.le_succ _, fun r hr hactive => ?_⟩
  rcases World.mem_insertJobRun.mp hr with hr | rfl
  · exact .inl ⟨r, hr, rfl, hactive⟩
  · exact .inr le_rfl

/-- An update of a run that is active afterwards only if it was before. -/
theorem updateJobRun {id : Id} {p : RunPatch}
    (h : ∀ r ∈ w.db.jobRuns.rows, r.id = id → (p.apply w.now r).Active → r.Active) :
    RunsFrom w (w.updateJobRun id p) := by
  refine ⟨le_rfl, fun r' hr' hactive => .inl ?_⟩
  obtain ⟨r, hr, rfl⟩ := World.mem_updateJobRun.mp hr'
  refine ⟨r, hr, ?_⟩
  split_ifs at hactive ⊢ with hid
  · exact ⟨(p.key_apply w.now r).symm, h r hr hid hactive⟩
  · exact ⟨rfl, hactive⟩

theorem ends {may : Stmt → World → Prop} {c : Creation} (he : c.Ends may w w₁) : RunsFrom w w₁ := by
  cases he with
  | job _ => exact of_eq rfl
  | run _ _ => exact (of_eq rfl : RunsFrom w (c.job w)).trans (insertJobRun _ _)
  | queued _ =>
    exact ((of_eq rfl : RunsFrom w (c.job w)).trans (insertJobRun _ _)).trans (of_eq rfl)

/-- A report ends its run. -/
theorem finish_not_active (dto : ReportResultDto) (now : ℕ) (r : JobRun) :
    ¬ ((RunPatch.finish dto.runStatus dto.runResult).apply now r).Active := by
  have hstatus : dto.runStatus = .success ∨ dto.runStatus = .failed := by
    unfold ReportResultDto.runStatus
    split_ifs
    · exact .inl rfl
    · exact .inr rfl
  rintro (h | h) <;> rcases hstatus with hst | hst <;> exact absurd (hst.symm.trans h) (by decide)

theorem move {may : Stmt → World → Prop} {o : Op} (hm : Move env may o w w₁) : RunsFrom w w₁ := by
  cases hm with
  | create _ _ he => exact ends he
  | enforce _ _ he => exact ends he
  | moderate _ he => exact ends he
  | fire _ he => exact ends he
  | batchJob _ _ _ he => exact ends he
  | book rescheduled =>
    obtain ⟨_, _, rfl, -⟩ := rescheduled
    exact of_eq rfl
  | cancelRun runId cancelled =>
    have hcancel : RunsFrom w (w.updateJobRun runId .cancel) :=
      updateJobRun fun r _ _ hactive => by
        rcases hactive with h | h <;> exact absurd h (by simp [RunPatch.apply])
    rcases cancelled with rfl | rfl
    · exact hcancel
    · exact hcancel.trans (of_eq rfl)
  | schedule _ _ _ _ retimed =>
    obtain ⟨_, rfl⟩ := retimed
    exact of_eq rfl
  | edit _ _ _ _ _ _ retimed =>
    obtain ⟨_, rfl⟩ := retimed
    exact of_eq rfl
  | promote promoted =>
    obtain ⟨_, rfl, -⟩ := promoted
    exact of_eq rfl
  | claim host e run j _ found _ _ pending =>
    -- a run that is started was pending
    refine (of_eq rfl : RunsFrom w (w.dequeue host.orgId e.id)).trans (updateJobRun ?_)
    intro r hr hid _
    obtain ⟨hmem, hkey⟩ := Table.get_eq_some.mp found
    obtain rfl := Table.eq_of_key_eq w.db.jobRuns hmem hr (hkey.trans hid.symm)
    exact .inl pending
  | finish run _ _ _ => exact updateJobRun fun r _ _ hactive => absurd hactive (finish_not_active _ _ r)
  | progress _ => exact updateJobRun fun r _ _ hactive => hactive
  | release _ _ _ =>
    exact updateJobRun fun r _ _ hactive => by
      rcases hactive with h | h <;> exact absurd h (by simp [RunPatch.apply])
  | removeHost _ _ =>
    exact ⟨le_rfl, fun r hr hactive => .inl ⟨r, (Table.mem_erase.mp hr).1, rfl, hactive⟩⟩
  | _ => exact of_eq rfl

theorem turn (o : Op) (plan : List Bool) (w : World) :
    RunsFrom w ((controlPlane env).turn o plan w).after := by
  have hmoves : Moves env (fun _ _ => True) o w ((controlPlane env).turn o plan w).after :=
    Program.run_of_wp (o.moves w) fun _ _ => trivial
  exact hmoves.keep (fun _ _ h hm => h.trans (move hm)) (of_eq rfl)

theorem elsewhere (he : Elsewhere w w₁) : RunsFrom w w₁ := by
  cases he <;> exact of_eq rfl

end RunsFrom

/-! ## Runs -/

section Runs

variable {env : Env} {id : Id} {w w₁ : World} {h : List (Turn Op Err (Option QueueJobData) World)}

/-- Every fire of the schedule in the history saw the active runs that earlier fires of it had
created. -/
def FiresSee (env : Env) (id : Id) : List (Turn Op Err (Option QueueJobData) World) → Prop
  | [] => True
  | t :: h => FiresSee env id h ∧ (t.op = .fire id →
      ∀ r ∈ t.before.db.jobRuns.rows, Dispatched id h r → r.Active → Seen env t.before id r)

/-- Of the runs that the schedule has dispatched at most one is active, and the runs created are
those up to now. -/
structure Single (id : Id) (h : List (Turn Op Err (Option QueueJobData) World)) (w : World) : Prop
    where
  one : ∀ r₁ ∈ w.db.jobRuns.rows, ∀ r₂ ∈ w.db.jobRuns.rows, Dispatched id h r₁ →
    Dispatched id h r₂ → r₁.Active → r₂.Active → r₁.id = r₂.id
  past : ∀ t ∈ h, t.after.db.jobRuns.next ≤ w.db.jobRuns.next

theorem Single.initial : Single id [] World.initial :=
  ⟨fun _ hr => (nomatch hr), fun _ ht => (nomatch ht)⟩

/-- A run that the schedule has dispatched is not new. -/
theorem Single.lt_next (hs : Single id h w) {r : JobRun} (hr : Dispatched id h r) :
    r.id < w.db.jobRuns.next := by
  obtain ⟨t, ht, -, hid, hlt⟩ := hr
  calc r.id = t.before.db.jobRuns.next := hid
    _ < t.after.db.jobRuns.next := hlt
    _ ≤ w.db.jobRuns.next := hs.past t ht

/-- A change that activates no run. -/
theorem Single.from (hs : Single id h w) (hw : RunsFrom w w₁) : Single id h w₁ := by
  have hold {r₁ : JobRun} (hr₁ : r₁ ∈ w₁.db.jobRuns.rows) (hd : Dispatched id h r₁)
      (hactive : r₁.Active) :
      ∃ r ∈ w.db.jobRuns.rows, r.id = r₁.id ∧ Dispatched id h r ∧ r.Active := by
    rcases hw.2 r₁ hr₁ hactive with ⟨r, hr, hid, hactive'⟩ | hnew
    · obtain ⟨t, ht, hop, hnext⟩ := hd
      exact ⟨r, hr, hid, ⟨t, ht, hop, hid ▸ hnext⟩, hactive'⟩
    · exact absurd hnew (Nat.not_le.mpr (hs.lt_next hd))
  refine ⟨fun r₁ hr₁ r₂ hr₂ hd₁ hd₂ ha₁ ha₂ => ?_, fun t ht => (hs.past t ht).trans hw.1⟩
  obtain ⟨r₁', hr₁', hid₁, hd₁', ha₁'⟩ := hold hr₁ hd₁ ha₁
  obtain ⟨r₂', hr₂', hid₂, hd₂', ha₂'⟩ := hold hr₂ hd₂ ha₂
  rw [← hid₁, ← hid₂]
  exact hs.one r₁' hr₁' r₂' hr₂' hd₁' hd₂' ha₁' ha₂'

/-- A turn that creates no run for the schedule. -/
theorem Single.cons (hs : Single id h w) {t : Turn Op Err (Option QueueJobData) World}
    (hno : t.op = .fire id → t.after.db.jobRuns.next ≤ t.before.db.jobRuns.next)
    (hafter : t.after.db.jobRuns.next ≤ w.db.jobRuns.next) : Single id (t :: h) w := by
  have hold {r : JobRun} (hd : Dispatched id (t :: h) r) : Dispatched id h r := by
    obtain ⟨t', ht', hop, hid, hlt⟩ := hd
    rcases List.mem_cons.mp ht' with rfl | ht'
    · exact absurd (hno hop) (Nat.not_le.mpr hlt)
    · exact ⟨t', ht', hop, hid, hlt⟩
  refine ⟨fun r₁ hr₁ r₂ hr₂ hd₁ hd₂ => hs.one r₁ hr₁ r₂ hr₂ (hold hd₁) (hold hd₂), fun t' ht' => ?_⟩
  rcases List.mem_cons.mp ht' with rfl | ht'
  · exact hafter
  · exact hs.past t' ht'

/-- A fire that creates a run does so where it sees none that is active. -/
theorem Single.dispatch (hs : Single id h w) {t : Turn Op Err (Option QueueJobData) World}
    (hbefore : t.before = w)
    (hidle : ∀ r ∈ w.db.jobRuns.rows, Dispatched id h r → ¬ r.Active) {jobId hostId : Id}
    (hafter : t.after.db.jobRuns = (w.insertJobRun jobId hostId).db.jobRuns) :
    Single id (t :: h) t.after := by
  have hnext : t.after.db.jobRuns.next = w.db.jobRuns.next + 1 := by
    rw [hafter]
    rfl
  -- an active run that the schedule has dispatched is the new one
  have hnew {r : JobRun} (hr : r ∈ t.after.db.jobRuns.rows) (hd : Dispatched id (t :: h) r)
      (hactive : r.Active) : r.id = w.db.jobRuns.next := by
    rw [hafter] at hr
    rcases World.mem_insertJobRun.mp hr with hr | rfl
    · obtain ⟨t', ht', hop, hid, hlt⟩ := hd
      rcases List.mem_cons.mp ht' with rfl | ht'
      · exact hid.trans (by rw [hbefore])
      · exact absurd hactive (hidle r hr ⟨t', ht', hop, hid, hlt⟩)
    · rfl
  refine ⟨fun r₁ hr₁ r₂ hr₂ hd₁ hd₂ ha₁ ha₂ => ?_, fun t' ht' => ?_⟩
  · rw [hnew hr₁ hd₁ ha₁, hnew hr₂ hd₂ ha₂]
  · rcases List.mem_cons.mp ht' with rfl | ht'
    · exact le_rfl
    · rw [hnext]
      exact (hs.past t' ht').trans (Nat.le_succ _)

/-- A fire that finds no active run, where it sees those that the schedule has dispatched. -/
theorem SchedulerService.Fires.idle_of_seen {c : Creation} (hf : Fires env w id c)
    (hseen : ∀ r ∈ w.db.jobRuns.rows, Dispatched id h r → r.Active → Seen env w id r) :
    ∀ r ∈ w.db.jobRuns.rows, Dispatched id h r → ¬ r.Active := by
  intro r hr hd hactive
  cases hf with
  | @mk s si hs _ hsi hidle =>
    have hsees := hseen r hr hd hactive s si hs hsi
    exact List.find?_eq_none.mp hidle r hr hsees

/-- A fire of the schedule. -/
theorem Single.fire (hs : Single id h w) {t : Turn Op Err (Option QueueJobData) World}
    (hbefore : t.before = w) (hf : SchedulerService.Fired env (fun _ _ => True) id w t.after)
    (hseen : ∀ r ∈ w.db.jobRuns.rows, Dispatched id h r → r.Active → Seen env w id r) :
    Single id (t :: h) t.after := by
  obtain ⟨w₁, ⟨schedules, scheduler, hafter, -⟩, hends⟩ := hf
  have hruns : t.after.db.jobRuns = w₁.db.jobRuns := by rw [hafter]
  have hsame (heq : w₁.db.jobRuns = w.db.jobRuns) : Single id (t :: h) t.after := by
    have hfrom : RunsFrom w t.after := .of_eq (hruns.trans heq)
    refine (hs.from hfrom).cons (fun _ => ?_) le_rfl
    rw [hruns, heq, hbefore]
  rcases hends with rfl | ⟨c, hfires, hends⟩
  · exact hsame rfl
  · have hidle := hfires.idle_of_seen hseen
    cases hends with
    | job _ => exact hsame rfl
    | run _ _ => exact hs.dispatch hbefore hidle hruns
    | queued _ => exact hs.dispatch hbefore hidle hruns

/-- In every run in which the fires of a schedule see the active runs that the schedule has
dispatched, at most one of these is active. -/
theorem single_of_runs (env : Env) (id : Id)
    (hr : Runs (controlPlane env) (fun _ _ _ => True) World.initial h w)
    (hsee : FiresSee env id h) :
    ∀ r₁ ∈ w.db.jobRuns.rows, ∀ r₂ ∈ w.db.jobRuns.rows, Dispatched id h r₁ → Dispatched id h r₂ →
      r₁.Active → r₂.Active → r₁ = r₂ := by
  suffices hs : Single id h w from fun r₁ hr₁ r₂ hr₂ hd₁ hd₂ ha₁ ha₂ =>
    Table.eq_of_key_eq w.db.jobRuns hr₁ hr₂ (hs.one r₁ hr₁ r₂ hr₂ hd₁ hd₂ ha₁ ha₂)
  induction hr with
  | init => exact .initial
  | @turn h w op plan hr _ ih =>
    have hs := ih hsee.1
    by_cases hop : op = .fire id
    · subst hop
      have hfired : SchedulerService.Fired env (fun _ _ => True) id w
          ((controlPlane env).turn (.fire id) plan w).after := by
        have hspec : ((Op.fire id).prog env).wp (alone env fun _ _ => True)
            (fun _ w' => SchedulerService.Fired env (fun _ _ => True) id w w') w :=
          wp_bind_of alone_monotone (SchedulerService.fire_spec id)
            (fun _ w' hw' => (wp_pure _ _ _).mpr hw') fun _ _ hw' => hw'
        exact Program.run_of_wp hspec fun _ _ => trivial
      exact hs.fire rfl hfired (hsee.2 rfl)
    · exact (hs.from (RunsFrom.turn op plan w)).cons (fun h => absurd h hop) le_rfl
  | environment _ he ih => exact (ih hsee).from (RunsFrom.elsewhere he)

/-- The turn in which the schedule fires once more. -/
def nightlyAgain : Turn Op Err (Option QueueJobData) World :=
  smallPlane.turn (.fire 0) [] (nightlyFired []).after

/-- A schedule that fires twice, while its first run is pending, has one run. -/
theorem single_of_runs_again :
    nightlyAgain.after.db.jobRuns.rows.length = 1 ∧
      ∀ r₁ ∈ nightlyAgain.after.db.jobRuns.rows, ∀ r₂ ∈ nightlyAgain.after.db.jobRuns.rows,
        Dispatched 0 [nightlyAgain, nightlyFired [], nightlyCreated] r₁ →
        Dispatched 0 [nightlyAgain, nightlyFired [], nightlyCreated] r₂ →
          r₁.Active → r₂.Active → r₁ = r₂ := by
  have hcreated : nightlyCreated.op ≠ .fire 0 := by
    simp [nightlyCreated, smallPlane, System.turn, nightlyRestart]
  refine ⟨by decide +kernel, single_of_runs Env.everyMinute 0
    (.turn (.fire 0) [] (Runs.nightly [] trivial trivial) trivial) ⟨⟨⟨trivial, ?_⟩, ?_⟩, ?_⟩⟩
  · exact fun hop => absurd hop hcreated
  · -- there was no fire before
    rintro - r - ⟨t, ht, hop, -⟩
    rw [List.mem_singleton.mp ht] at hop
    exact absurd hop hcreated
  · -- the second fire sees the run of the first
    rintro - r hr - - s si hs hsi
    have hall : ((nightlyFired []).after.db.jobRuns.rows.all fun r =>
        (nightlyFired []).after.db.schedules.rows.all fun s =>
          (nightlyFired []).after.db.serverInstances.rows.all fun si =>
            !decide (si.id = s.serverInstanceId) ||
            (nightlyFired []).after.db.isActive s.serverInstanceId
              (SchedulerService.effectiveJobType Env.everyMinute s si) s.id r) = true := by
      decide +kernel
    simp only [List.all_eq_true] at hall
    obtain ⟨hmem, hid⟩ := Table.get_eq_some.mp hsi
    have hseen := hall r hr s (Table.get_eq_some.mp hs).1 si hmem
    rwa [decide_eq_true (show si.id = s.serverInstanceId from hid), Bool.not_true,
      Bool.false_or] at hseen
/-- The request for the schedule of the examples with a payload that names another schedule. -/
def disguisedRestart : Op :=
  .createSchedule 0 0
    ⟨"nightly", 0, "* * * * *", "SERVER_RESTART", some (.obj [("schedule_id", .str "other")]), none⟩

/-- The turn that creates that schedule. -/
def disguisedCreated : Turn Op Err (Option QueueJobData) World :=
  smallPlane.turn disguisedRestart [] .small

/-- A turn in which it fires. -/
def disguisedFired (w : World) : Turn Op Err (Option QueueJobData) World :=
  smallPlane.turn (.fire 0) [] w

/-- Two fires of that schedule leave it with two pending runs. -/
theorem two_runs_of_disguised :
    ¬ ∀ h w, Runs smallPlane (fun _ _ _ => True) World.initial h w → ∀ id,
      ∀ r₁ ∈ w.db.jobRuns.rows, ∀ r₂ ∈ w.db.jobRuns.rows, Dispatched id h r₁ →
        Dispatched id h r₂ → r₁.Active → r₂.Active → r₁ = r₂ := by
  intro hall
  let first := disguisedFired disguisedCreated.after
  let second := disguisedFired first.after
  have hr : Runs smallPlane (fun _ _ _ => True) World.initial [second, first, disguisedCreated]
      second.after :=
    .turn _ [] (.turn _ [] (.turn disguisedRestart [] Runs.small trivial) trivial) trivial
  have hids : second.after.db.jobRuns.rows.map (fun r => (r.id, r.status)) =
      [(first.before.db.jobRuns.next, .pending), (second.before.db.jobRuns.next, .pending)] := by
    decide +kernel
  have hfirst : first.before.db.jobRuns.next < first.after.db.jobRuns.next := by decide +kernel
  have hsecond : second.before.db.jobRuns.next < second.after.db.jobRuns.next := by decide +kernel
  obtain ⟨r₁, rest, hrows, hr₁, hrest⟩ := List.map_eq_cons_iff.mp hids
  obtain ⟨r₂, rest', hrest', hr₂, -⟩ := List.map_eq_cons_iff.mp hrest
  obtain ⟨hid₁, hstatus₁⟩ := Prod.mk.inj hr₁
  obtain ⟨hid₂, hstatus₂⟩ := Prod.mk.inj hr₂
  have hmem₁ : r₁ ∈ second.after.db.jobRuns.rows := by rw [hrows]; exact List.mem_cons_self
  have hmem₂ : r₂ ∈ second.after.db.jobRuns.rows := by
    rw [hrows, hrest']
    exact List.mem_cons_of_mem _ List.mem_cons_self
  have hsame : r₁ = r₂ := hall _ _ hr 0 r₁ hmem₁ r₂ hmem₂
    ⟨first, List.mem_cons_of_mem _ List.mem_cons_self, rfl, hid₁, hfirst⟩
    ⟨second, List.mem_cons_self, rfl, hid₂, hsecond⟩ (.inl hstatus₁) (.inl hstatus₂)
  have hne : first.before.db.jobRuns.next ≠ second.before.db.jobRuns.next := by decide +kernel
  exact hne (hid₁.symm.trans ((congrArg JobRun.id hsame).trans hid₂))

end Runs

end Mastermind
