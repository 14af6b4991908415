import Mastermind.Dispatch.Tenants

/-!
# The roles behind dispatched jobs

`createJob` keeps some job types for admins, or for admins and operators. The agent upper-cases the
type that it is handed, so a job is privileged (`Privileged`) if its type is one of these once Go
has upper-cased it. A schedule dispatches the type that it has, and the requests that create it or
change anything about it only check that there is a membership. `originated_of_runs` is about every
run in which the members who make these requests hold a role for the type that the schedule then
has (`Op.Entitled`): whatever privileged job is enqueued then comes of a member whom `createJob`
would have accepted, and in the case of a fire that is the last one who changed the schedule
(`Originated`).
-/

namespace Mastermind

open Effect Effect.Program

namespace JobsService

/-- The job types that `createJob` keeps for some roles. -/
def privilegedTypes : List String := adminTypes ++ operatorTypes

/-- The job type is, as the agent compares it, one that `createJob` keeps for some roles. -/
def Privileged (env : Env) (type : String) : Prop :=
  env.cases.goToUpper type ∈ privilegedTypes

variable {env : Env}

/-- The privileged types are ASCII. -/
theorem isAscii_of_privileged {p : String} (hp : p ∈ privilegedTypes) : isAscii p = true := by
  have hall : privilegedTypes.all isAscii = true := by decide
  exact List.all_eq_true.mp hall p hp

/-- A job type in ASCII is privileged if its upper case is. -/
theorem privileged_iff_of_ascii {type : String} (h : isAscii type = true) :
    Privileged env type ↔ String.ofList (type.toList.map Char.toUpper) ∈ privilegedTypes := by
  rw [Privileged, env.cases.goToUpper_of_ascii h]

/-- The type of a schedule's safe restart is not privileged. -/
theorem not_privileged_safeRestart : ¬Privileged env "SERVER_SAFE_RESTART" := by
  rw [privileged_iff_of_ascii (by decide)]
  decide

/-- The type of a moderation rule's job is not privileged. -/
theorem not_privileged_rcon : ¬Privileged env "RCON" := by
  rw [privileged_iff_of_ascii (by decide)]
  decide

/-- No batch dispatches a privileged type. -/
theorem not_privileged_batch (type : BatchType) : ¬Privileged env type.jobType := by
  rw [privileged_iff_of_ascii (by cases type <;> decide)]
  cases type <;> decide

/-- A normalized type that is privileged is the upper-cased request's, and Go's upper-casing does
not change it any more. -/
theorem normalizeJobType_of_privileged {jobType : String}
    (h : Privileged env (normalizeJobType env jobType)) :
    normalizeJobType env jobType = env.cases.toUpperCase jobType ∧
      env.cases.goToUpper (normalizeJobType env jobType) = normalizeJobType env jobType := by
  have hupper : normalizeJobType env jobType = env.cases.toUpperCase jobType := by
    revert h
    unfold normalizeJobType
    -- the four short names stand for types that are not privileged
    split
    · intro h
      rw [privileged_iff_of_ascii (by decide)] at h
      exact absurd h (by decide)
    · intro h
      rw [privileged_iff_of_ascii (by decide)] at h
      exact absurd h (by decide)
    · intro h
      rw [privileged_iff_of_ascii (by decide)] at h
      exact absurd h (by decide)
    · exact fun h => absurd h not_privileged_rcon
    · exact fun _ => rfl
  refine ⟨hupper, ?_⟩
  have hascii := val_lt_of_isAscii (isAscii_of_privileged h)
  rw [hupper] at hascii ⊢
  exact (env.cases.toUpperCase_eq_of_goToUpper hascii rfl).symm

/-- What a player list leads to is not privileged. -/
theorem not_privileged_tool (tool : ConnectionTool) :
    ¬Privileged env (normalizeJobType env tool.type) := by
  intro h
  have hascii : isAscii tool.type = true := by
    unfold ConnectionTool.type
    split_ifs <;> decide
  obtain ⟨hupper, hfix⟩ := normalizeJobType_of_privileged h
  rw [Privileged, hfix, hupper, env.cases.toUpperCase_of_ascii hascii] at h
  revert h
  unfold ConnectionTool.type
  split_ifs <;> decide

end JobsService

open JobsService

/-! ## Where dispatched types come from -/

/-- The requests that give a member's job type to a job or a schedule, and the fires. -/
def Op.Dispatches : Op → Bool
  | .createJob .. => true
  | .fire _ => true
  | _ => false

/-- The requests that give a schedule its job type. -/
def Op.Schedules : Op → Bool
  | .createSchedule .. => true
  | .updateSchedule .. => true
  | _ => false

/-- Dispatching adds an entry with the type of the creation. -/
theorem Creation.Ends.mem_queues_data {c : Creation} {may : Stmt → World → Prop} {w w' : World}
    (h : c.Ends may w w') {orgId : Id} {e : QueueEntry} (he : e ∈ w'.queues orgId) :
    (∃ e' ∈ w.queues orgId, e'.data = e.data) ∨ e = c.queueEntry w := by
  rcases h.mem_queues he with he | ⟨-, he⟩
  · exact .inl ⟨e, he, rfl⟩
  · exact .inr he

/-- An operation that neither is `createJob` nor a fire enqueues nothing privileged. -/
theorem Move.unprivileged {env : Env} {may : Stmt → World → Prop} {o : Op} {w w' : World}
    (hm : Move env may o w w') (ho : o.Dispatches = false) {orgId : Id} {e : QueueEntry}
    (he : e ∈ w'.queues orgId) (hp : Privileged env e.data.type) :
    ∃ e' ∈ w.queues orgId, e'.data = e.data := by
  cases hm with
  | create _ _ _ => cases ho
  | fire _ _ => cases ho
  | book _ => cases ho
  | enforce tool creates ends =>
    refine (ends.mem_queues_data he).resolve_right fun hnew => ?_
    obtain ⟨-, -, -, -⟩ := creates
    rw [hnew] at hp
    exact not_privileged_tool tool hp
  | moderate enqueues ends =>
    refine (ends.mem_queues_data he).resolve_right fun hnew => ?_
    obtain ⟨-, -⟩ := enqueues
    rw [hnew] at hp
    exact not_privileged_rcon hp
  | @batchJob _ _ dto _ _ _ si _ _ ends =>
    refine (ends.mem_queues_data he).resolve_right fun hnew => ?_
    rw [hnew] at hp
    exact not_privileged_batch dto.type hp
  | cancelRun runId cancelled =>
    rcases cancelled with rfl | rfl
    · exact ⟨e, he, rfl⟩
    · exact ⟨e, (World.mem_dequeue.mp he).1, rfl⟩
  | schedule _ _ _ _ retimed =>
    obtain ⟨_, rfl⟩ := retimed
    exact ⟨e, he, rfl⟩
  | edit _ _ _ _ _ _ retimed =>
    obtain ⟨_, rfl⟩ := retimed
    exact ⟨e, he, rfl⟩
  | promote hp =>
    obtain ⟨e', he', hsame⟩ := hp.mem_due he
    have hdata : e'.due.data = e.due.data := congrArg QueueEntry.data hsame
    exact ⟨e', he', hdata⟩
  | claim _ _ _ _ _ _ _ _ _ => exact ⟨e, (World.mem_dequeue.mp he).1, rfl⟩
  | drop _ _ _ _ => exact ⟨e, (World.mem_dequeue.mp he).1, rfl⟩
  | _ => exact ⟨e, he, rfl⟩

/-- An operation that is no request about a schedule keeps the job types of schedules. -/
theorem Move.jobType {env : Env} {may : Stmt → World → Prop} {o : Op} {w w' : World}
    (hm : Move env may o w w') (ho : o.Schedules = false) {s' : Schedule}
    (hs : s' ∈ w'.db.schedules.rows) :
    ∃ s ∈ w.db.schedules.rows, s.id = s'.id ∧ s.jobType = s'.jobType := by
  cases hm with
  | create _ _ ends => exact ⟨s', by cases ends <;> exact hs, rfl, rfl⟩
  | enforce _ _ ends => exact ⟨s', by cases ends <;> exact hs, rfl, rfl⟩
  | moderate _ ends => exact ⟨s', by cases ends <;> exact hs, rfl, rfl⟩
  | fire _ ends => exact ⟨s', by cases ends <;> exact hs, rfl, rfl⟩
  | batchJob _ _ _ ends => exact ⟨s', by cases ends <;> exact hs, rfl, rfl⟩
  | book rescheduled =>
    obtain ⟨_, _, rfl, hsame⟩ := rescheduled
    obtain ⟨s, hs, hid, -, -, htype, -⟩ := hsame s' hs
    exact ⟨s, hs, hid.symm, htype.symm⟩
  | schedule _ _ _ _ _ => cases ho
  | edit _ _ _ _ _ _ _ => cases ho
  | cancelRun _ cancelled => rcases cancelled with rfl | rfl <;> exact ⟨s', hs, rfl, rfl⟩
  | promote promoted =>
    obtain ⟨_, rfl, -⟩ := promoted
    exact ⟨s', hs, rfl, rfl⟩
  | removeServer => exact ⟨s', (Table.mem_erase.mp hs).1, rfl, rfl⟩
  | _ => exact ⟨s', hs, rfl, rfl⟩

/-- A turn of the control plane. -/
abbrev ControlTurn := Turn Op Err (Option QueueJobData) World

namespace ControlTurn

/-- The turn puts the entry into the organization's queue; an entry that was only made due is the
one that was there. -/
def Enqueues (t : ControlTurn) (orgId : Id) (e : QueueEntry) : Prop :=
  e ∈ t.after.queues orgId ∧ ∀ e' ∈ t.before.queues orgId, e'.data ≠ e.data

/-- The turn is a request of a member with the role that passes every check, and leaves the schedule
as it asks for. -/
inductive Changes (env : Env) (t : ControlTurn) (s : Schedule) (role : Role) : Prop where
  | create {orgId userId body} (op : t.op = .createSchedule orgId userId body)
      (member : t.before.db.userOrg userId orgId = some role)
      (acceptable : body.Acceptable env t.before.now)
      (created : s.id = t.before.db.schedules.next ∧ s.jobType = body.jobType)
      (stored : s ∈ t.after.db.schedules.rows)
  | update {orgId userId body existing nextRunAt}
      (op : t.op = .updateSchedule orgId userId s.id body)
      (member : t.before.db.userOrg userId orgId = some role)
      (found : t.before.db.schedules.get s.id = some existing) (org : existing.orgId = orgId)
      (acceptable : body.Acceptable env t.before.now)
      (updated : s = (body.patch nextRunAt).apply t.before.now existing)
      (stored : s ∈ t.after.db.schedules.rows)

/-- The schedule is stored after the turn. -/
theorem Changes.mem {env : Env} {t : ControlTurn} {s : Schedule} {role : Role}
    (h : t.Changes env s role) : s ∈ t.after.db.schedules.rows := by
  cases h with
  | create _ _ _ _ stored => exact stored
  | update _ _ _ _ _ _ stored => exact stored

end ControlTurn

/-- The member whose request was the last to create or change the schedule, when it got the type or
later, has a role that `createJob` accepts for the type. -/
def Vetted (env : Env) (earlier : List ControlTurn) (scheduleId : Id) (type : String) : Prop :=
  ∃ since t before, earlier = since ++ t :: before ∧
    (∀ t' ∈ since, ∀ s role, t'.Changes env s role → s.id ≠ scheduleId) ∧
    ∃ s role, s.id = scheduleId ∧ s.jobType = type ∧ t.Changes env s role ∧
      Accepts (some role) (env.cases.goToUpper type)

/-- A job of the type that the turn enqueues comes of a member with a role that `createJob` accepts
for the type: of the one who makes the request, or of the last one who changed the schedule. -/
inductive Originated (env : Env) (earlier : List ControlTurn) (t : ControlTurn) (type : String) :
    Prop where
  | request {orgId userId dto} (op : t.op = .createJob orgId userId dto)
      (accepted : Accepts (t.before.db.userOrg userId orgId) (env.cases.goToUpper type))
  | fire {scheduleId} (op : t.op = .fire scheduleId)
      (vetted : Vetted env earlier scheduleId type)

/-- A member whose request creates a schedule, or changes whatever it is about one, has a role that
`createJob` accepts for the type that the schedule then has. -/
def Op.Entitled (env : Env) (w : World) : Op → Prop
  | .createSchedule orgId userId body => ∀ role, w.db.userOrg userId orgId = some role →
    body.Acceptable env w.now → Accepts (some role) (env.cases.goToUpper body.jobType)
  | .updateSchedule orgId userId scheduleId body => ∀ role s,
    w.db.userOrg userId orgId = some role → w.db.schedules.get scheduleId = some s →
      s.orgId = orgId → body.Acceptable env w.now →
        Accepts (some role) (env.cases.goToUpper (body.jobType.getD s.jobType))
  | _ => True

section Turn

variable (env : Env) {op : Op} (plan : List Bool) {w : World}

/-- A member who changes a schedule in an entitled turn has a role for its type. -/
theorem accepts_of_changes (hentitled : op.Entitled env w) {s : Schedule} {role : Role}
    (hc : ControlTurn.Changes env ((controlPlane env).turn op plan w) s role) :
    Accepts (some role) (env.cases.goToUpper s.jobType) := by
  cases hc with
  | create hop member acceptable created _ =>
    have hop : op = _ := hop
    subst hop
    rw [created.2]
    exact hentitled role member acceptable
  | @update orgId userId body existing nextRunAt hop member found org acceptable updated _ =>
    have hop : op = _ := hop
    subst hop
    have htype : s.jobType = body.jobType.getD existing.jobType := by rw [updated]; rfl
    rw [htype]
    exact hentitled role existing member found org acceptable

/-- After a turn a schedule has the type that it had before, or the turn changed it. -/
theorem changes_of_turn {s : Schedule}
    (hs : s ∈ ((controlPlane env).turn op plan w).after.db.schedules.rows) :
    (∃ s₀ ∈ w.db.schedules.rows, s₀.id = s.id ∧ s₀.jobType = s.jobType) ∨
      ∃ role, ControlTurn.Changes env ((controlPlane env).turn op plan w) s role := by
  have hmay : ∀ f ∈ (op.prog env).faults (machine env) plan w, (fun _ _ => True) f.1 f.2 :=
    fun _ _ => trivial
  cases ho : op.Schedules with
  | false =>
    have hmoves : Moves env (fun _ _ => True) op w ((controlPlane env).turn op plan w).after :=
      run_of_wp (op.moves w) hmay
    have hkept := hmoves.keep (I := fun w' => ∀ s' ∈ w'.db.schedules.rows,
      ∃ s₀ ∈ w.db.schedules.rows, s₀.id = s'.id ∧ s₀.jobType = s'.jobType) ?_
      fun s' hs' => ⟨s', hs', rfl, rfl⟩
    · exact .inl (hkept s hs)
    · intro w₁ w₂ hI hmove s' hs'
      obtain ⟨s₁, hs₁, hid, htype⟩ := hmove.jobType ho hs'
      obtain ⟨s₀, hs₀, hid₀, htype₀⟩ := hI s₁ hs₁
      exact ⟨s₀, hs₀, hid₀.trans hid, htype₀.trans htype⟩
  | true =>
    cases op with
    | createSchedule orgId userId body =>
      have hspec : (Op.prog env (.createSchedule orgId userId body)).wp (alone env fun _ _ => True)
          _ w := wp_handsOutNothing (SchedulerController.create_spec orgId userId body)
      have hafter := hs
      rcases run_of_wp hspec hmay with hw | ⟨nextRunAt, hmember, hbody, -, scheduler, hw⟩
      · have hw : ((controlPlane env).turn (.createSchedule orgId userId body) plan w).after = w :=
          hw
        rw [hw] at hs
        exact .inl ⟨s, hs, rfl, rfl⟩
      · have hw : ((controlPlane env).turn (.createSchedule orgId userId body) plan w).after = _ :=
          hw
        rw [hw] at hs
        rcases World.mem_insertSchedule.mp hs with hold | rfl
        · exact .inl ⟨s, hold, rfl, rfl⟩
        · obtain ⟨role, hrole⟩ := Option.isSome_iff_exists.mp hmember
          exact .inr ⟨role, .create rfl hrole hbody ⟨rfl, rfl⟩ hafter⟩
    | updateSchedule orgId userId scheduleId body =>
      have hspec : (Op.prog env (.updateSchedule orgId userId scheduleId body)).wp
          (alone env fun _ _ => True) _ w :=
        wp_handsOutNothing (SchedulerController.update_spec orgId userId scheduleId body)
      have hafter := hs
      rcases run_of_wp hspec hmay with
        hw | ⟨existing, nextRunAt, hmember, hfound, horg, hbody, scheduler, hw⟩
      · have hw : ((controlPlane env).turn (.updateSchedule orgId userId scheduleId body) plan
          w).after = w := hw
        rw [hw] at hs
        exact .inl ⟨s, hs, rfl, rfl⟩
      · have hw : ((controlPlane env).turn (.updateSchedule orgId userId scheduleId body) plan
          w).after = _ := hw
        rw [hw] at hs
        obtain ⟨s₀, hs₀, rfl⟩ := World.mem_updateSchedule.mp hs
        split_ifs at hafter ⊢ with hid
        swap
        · exact .inl ⟨s₀, hs₀, rfl, rfl⟩
        obtain ⟨role, hrole⟩ := Option.isSome_iff_exists.mp hmember
        obtain rfl : existing = s₀ := by
          rw [← hid] at hfound
          exact Option.some.inj (hfound.symm.trans (Table.get_key hs₀))
        exact .inr ⟨role, .update (by rw [← hid]; rfl) hrole (by rw [← hid] at hfound; exact hfound)
          horg hbody rfl hafter⟩
    | _ => cases ho

/-- What a turn enqueues is not privileged, or comes of a member with a role for it. -/
theorem originated_of_turn {earlier : List ControlTurn}
    (hschedules : ∀ s ∈ w.db.schedules.rows, Privileged env s.jobType →
      Vetted env earlier s.id s.jobType) {orgId : Id} {e : QueueEntry}
    (he : ControlTurn.Enqueues ((controlPlane env).turn op plan w) orgId e)
    (hp : Privileged env e.data.type) :
    Originated env earlier ((controlPlane env).turn op plan w) e.data.type := by
  have hmay : ∀ f ∈ (op.prog env).faults (machine env) plan w, (fun _ _ => True) f.1 f.2 :=
    fun _ _ => trivial
  obtain ⟨hafter, hnew⟩ := he
  cases ho : op.Dispatches with
  | false =>
    have hmoves : Moves env (fun _ _ => True) op w ((controlPlane env).turn op plan w).after :=
      run_of_wp (op.moves w) hmay
    have hkept := hmoves.keep (I := fun w' => ∀ e' ∈ w'.queues orgId,
      Privileged env e'.data.type → ∃ e₀ ∈ w.queues orgId, e₀.data = e'.data) ?_
      fun e' he' _ => ⟨e', he', rfl⟩
    · obtain ⟨e₀, he₀, hsame⟩ := hkept e hafter hp
      exact absurd hsame (hnew e₀ he₀)
    · intro w₁ w₂ hI hmove e' he' hp'
      obtain ⟨e₁, he₁, hsame₁⟩ := hmove.unprivileged ho he' hp'
      obtain ⟨e₀, he₀, hsame₀⟩ := hI e₁ he₁ (hsame₁ ▸ hp')
      exact ⟨e₀, he₀, hsame₀.trans hsame₁⟩
  | true =>
    cases op with
    | createJob org userId dto =>
      have hspec : (Op.prog env (.createJob org userId dto)).wp (alone env fun _ _ => True)
          (fun _ w' => w' = w ∨ ∃ c, dto.type ∈ jobTypes ∧
            JobsService.Creates env w org userId dto.serverInstanceId dto.type dto.payload c ∧
              c.Ends (fun _ _ => True) w w') w :=
        wp_handsOutNothing (JobsController.create_spec org userId dto)
      rcases run_of_wp hspec hmay with hw | ⟨c, -, hc, hends⟩
      · have hw : ((controlPlane env).turn (.createJob org userId dto) plan w).after = w := hw
        rw [hw] at hafter
        exact absurd rfl (hnew e hafter)
      · rcases hends.mem_queues_data hafter with ⟨e', he', hsame⟩ | rfl
        · exact absurd hsame (hnew e' he')
        · obtain ⟨-, -, -, hrole⟩ := hc
          have hp : Privileged env (normalizeJobType env dto.type) := hp
          refine .request rfl ?_
          show Accepts _ (env.cases.goToUpper (normalizeJobType env dto.type))
          rw [(normalizeJobType_of_privileged hp).2]
          exact hrole
    | fire scheduleId =>
      have hspec : (Op.prog env (.fire scheduleId)).wp (alone env fun _ _ => True)
          (fun _ w' => SchedulerService.Fired env (fun _ _ => True) scheduleId w w') w :=
        wp_handsOutNothing (SchedulerService.fire_spec scheduleId)
      obtain ⟨w₁, ⟨schedules, scheduler, hw, -⟩, hends⟩ := run_of_wp hspec hmay
      have hw : ((controlPlane env).turn (.fire scheduleId) plan w).after = _ := hw
      have hqueued : e ∈ w₁.queues orgId := by
        rw [hw] at hafter
        exact hafter
      rcases hends with rfl | ⟨c, hc, hends⟩
      · exact absurd rfl (hnew e hqueued)
      · rcases hends.mem_queues_data hqueued with ⟨e', he', hsame⟩ | rfl
        · exact absurd hsame (hnew e' he')
        · cases hc with
          | @mk s si hschedule _ _ _ =>
          obtain ⟨hmem, hid⟩ := Table.get_eq_some.mp hschedule
          have hp : Privileged env (SchedulerService.effectiveJobType env s si) := hp
          -- the safe restart is not privileged, so the type is the schedule's own
          have htype : SchedulerService.effectiveJobType env s si = s.jobType := by
            unfold SchedulerService.effectiveJobType at hp ⊢
            split_ifs at hp ⊢
            · exact absurd hp not_privileged_safeRestart
            · rfl
          refine .fire rfl ?_
          show Vetted env earlier scheduleId (SchedulerService.effectiveJobType env s si)
          rw [htype] at hp ⊢
          exact hid ▸ hschedules s hmem hp
    | _ => cases ho

end Turn

/-- In every run in which the members who create or change a schedule have a role for the type that
it then has, every privileged job that was enqueued comes of a member with a role for its type. -/
theorem originated_of_runs (env : Env) {h : List ControlTurn} {w : World}
    (hr : Runs (controlPlane env) (fun op _ w => op.Entitled env w) World.initial h w) :
    ∀ later t earlier, h = later ++ t :: earlier → ∀ orgId e, t.Enqueues orgId e →
      Privileged env e.data.type → Originated env earlier t e.data.type := by
  have hboth : (∀ later t earlier, h = later ++ t :: earlier → ∀ orgId e, t.Enqueues orgId e →
      Privileged env e.data.type → Originated env earlier t e.data.type) ∧
      ∀ s ∈ w.db.schedules.rows, Privileged env s.jobType → Vetted env h s.id s.jobType := by
    refine Runs.invariant (J := fun h w => (∀ later t earlier, h = later ++ t :: earlier →
        ∀ orgId e, t.Enqueues orgId e → Privileged env e.data.type →
          Originated env earlier t e.data.type) ∧
      ∀ s ∈ w.db.schedules.rows, Privileged env s.jobType → Vetted env h s.id s.jobType)
      ?_ ?_ ?_ hr
    · constructor
      · intro later t earlier hnil
        cases later <;> cases hnil
      · exact fun s hs => nomatch hs
    · intro h w op plan hJ hentitled
      obtain ⟨hturns, hschedules⟩ := hJ
      constructor
      · intro later t earlier hsplit orgId e he hp
        cases later with
        | nil =>
          obtain ⟨rfl, rfl⟩ := List.cons.inj hsplit
          exact originated_of_turn env plan hschedules he hp
        | cons _ later =>
          exact hturns later t earlier (List.cons.inj hsplit).2 orgId e he hp
      · intro s hs hp
        by_cases hchanged : ∃ s' role, s'.id = s.id ∧
            ControlTurn.Changes env ((controlPlane env).turn op plan w) s' role
        · -- the turn is the last one that changed the schedule
          obtain ⟨s', role, hid, hc⟩ := hchanged
          obtain rfl : s' = s := Table.eq_of_key_eq _ hc.mem hs hid
          exact ⟨[], _, h, rfl, by simp, s', role, rfl, rfl, hc,
            accepts_of_changes env plan hentitled hc⟩
        · rcases changes_of_turn env plan hs with ⟨s₀, hs₀, hid, htype⟩ | ⟨role, hc⟩
          · obtain ⟨since, t, before, rfl, hsince, hvetted⟩ := hschedules s₀ hs₀ (htype ▸ hp)
            rw [hid, htype] at hvetted
            refine ⟨_ :: since, t, before, rfl, fun t' ht' s' role hc hsame => ?_, hvetted⟩
            rcases List.mem_cons.mp ht' with rfl | ht'
            · exact hchanged ⟨s', role, hsame, hc⟩
            · exact hsince t' ht' s' role hc (hsame.trans hid.symm)
          · exact absurd ⟨s, role, rfl, hc⟩ hchanged
    · intro h w w' hJ he
      refine ⟨hJ.1, fun s hs hp => ?_⟩
      have hold : s ∈ w.db.schedules.rows := by
        cases he with
        | deleteSchedule id => exact (Table.mem_erase.mp hs).1
        | _ => exact hs
      exact hJ.2 s hold hp
  exact hboth.1

section Examples

/-- The admin of the small installation prepares a schedule that kills its server. -/
def preparedSchedule : Op :=
  .createSchedule 0 0 ⟨"nightly", 0, "* * * * *", "SERVER_KILL", none, some false⟩

/-- The admin enables it. -/
def enablingUpdate : Op := .updateSchedule 0 0 0 ⟨some true, none, none, none, none⟩

/-- A viewer of the small installation creates a schedule that does. -/
def killSchedule : Op :=
  .createSchedule 0 1 ⟨"nightly", 0, "* * * * *", "SERVER_KILL", none, none⟩

/-- The small installation after that schedule has been created. -/
def World.killScheduled : World := (smallPlane.turn killSchedule [] .small).after

theorem privileged_kill (env : Env) : Privileged env "SERVER_KILL" := by
  rw [privileged_iff_of_ascii (by decide)]
  decide

/-- The two turns of the admin, the later one first. -/
def adminTurns : List ControlTurn :=
  [smallPlane.turn enablingUpdate [] (smallPlane.turn preparedSchedule [] .small).after,
    smallPlane.turn preparedSchedule [] .small]

/-- The small installation after them. -/
def World.killEnabled : World :=
  (smallPlane.turn enablingUpdate [] (smallPlane.turn preparedSchedule [] .small).after).after

theorem originated_of_runs_kill : ∃ e,
    ControlTurn.Enqueues (smallPlane.turn (.fire 0) [] .killEnabled) 0 e ∧
      e.data.type = "SERVER_KILL" ∧ Originated Env.everyMinute adminTurns
        (smallPlane.turn (.fire 0) [] .killEnabled) e.data.type := by
  have hqueue : ((smallPlane.turn (.fire 0) [] .killEnabled).after.queues 0).any
      (fun e => e.data.type == "SERVER_KILL") = true := by decide +kernel
  obtain ⟨e, he, htype⟩ := List.any_eq_true.mp hqueue
  have htype : e.data.type = "SERVER_KILL" := beq_iff_eq.mp htype
  have hempty : World.killEnabled.queues 0 = [] := by decide +kernel
  have hnew : ControlTurn.Enqueues (smallPlane.turn (.fire 0) [] .killEnabled) 0 e := by
    refine ⟨he, fun e' he' => ?_⟩
    have he' : e' ∈ World.killEnabled.queues 0 := he'
    rw [hempty] at he'
    cases he'
  have hadmin : ∀ (role : Role) (type : String), some role = some Role.admin →
      Accepts (some role) type := by
    rintro role type ⟨⟩
    exact ⟨fun _ => rfl, fun _ => rfl⟩
  have hprepared : Runs smallPlane (fun op _ w => op.Entitled Env.everyMinute w) World.initial
      [smallPlane.turn preparedSchedule [] .small]
      (smallPlane.turn preparedSchedule [] .small).after :=
    .turn preparedSchedule [] Runs.small fun role hrole _ => hadmin role _ hrole.symm
  have henabled : Runs smallPlane (fun op _ w => op.Entitled Env.everyMinute w) World.initial
      adminTurns .killEnabled :=
    .turn enablingUpdate [] hprepared fun role s hrole _ _ _ =>
      hadmin role _ (hrole.symm.trans (by decide +kernel))
  have hr := henabled.turn (.fire 0) []
    (show Op.Entitled Env.everyMinute World.killEnabled (.fire 0) from trivial)
  refine ⟨e, hnew, htype, originated_of_runs Env.everyMinute hr [] _ adminTurns rfl 0 e hnew ?_⟩
  rw [htype]
  exact privileged_kill Env.everyMinute

/-- The viewer's schedule fires, and the server is killed for nobody whom `createJob` would have
accepted. -/
theorem viewer_kills : ¬∀ h w, Runs smallPlane (fun _ _ _ => True) World.initial h w →
    ∀ later t earlier, h = later ++ t :: earlier → ∀ orgId e, ControlTurn.Enqueues t orgId e →
      Privileged Env.everyMinute e.data.type →
        Originated Env.everyMinute earlier t e.data.type := by
  intro hall
  have hscheduled : Runs smallPlane (fun _ _ _ => True) World.initial
      [smallPlane.turn killSchedule [] .small] World.killScheduled :=
    .turn killSchedule [] Runs.small trivial
  have hfired := Runs.turn (.fire 0) [] hscheduled trivial
  have hqueue : ((smallPlane.turn (.fire 0) [] .killScheduled).after.queues 0).any
      (fun e => e.data.type == "SERVER_KILL") = true := by decide +kernel
  obtain ⟨e, he, htype⟩ := List.any_eq_true.mp hqueue
  have htype : e.data.type = "SERVER_KILL" := beq_iff_eq.mp htype
  have hempty : World.killScheduled.queues 0 = [] := by decide +kernel
  have hnew : ControlTurn.Enqueues (smallPlane.turn (.fire 0) [] .killScheduled) 0 e := by
    refine ⟨he, fun e' he' => ?_⟩
    have he' : e' ∈ World.killScheduled.queues 0 := he'
    rw [hempty] at he'
    cases he'
  have horiginated := hall _ _ hfired [] _ _ rfl 0 e hnew (htype ▸ privileged_kill _)
  rw [htype] at horiginated
  cases horiginated with
  | request op _ => cases op
  | fire _ vetted =>
    obtain ⟨since, t, before, hsplit, -, s, role, -, -, hchanges, haccepted⟩ := vetted
    obtain rfl : smallPlane.turn killSchedule [] .small = t := by
      cases since with
      | nil => exact (List.cons.inj hsplit).1
      | cons _ since => simp at hsplit
    cases hchanges with
    | update op _ _ _ _ _ _ => cases op
    | create op member _ _ _ =>
      cases op
      obtain rfl : role = .viewer := (Option.some.inj member).symm
      have hkill : Env.everyMinute.cases.goToUpper "SERVER_KILL" ∈ operatorTypes := by
        rw [Env.everyMinute.cases.goToUpper_of_ascii (by decide +kernel)]
        decide +kernel
      exact absurd (haccepted.2 hkill) (by decide)

end Examples

end Mastermind
