import Mastermind.Dispatch.Moves

/-!
# The configuration that a job carries

The payload of a job holds the stored configuration of its server instance, which the agent trusts.
`createJob` and a fire build it as `{ ...configuration, ...own }`, where `own` is the payload of
the caller or of the schedule, so the properties of `own` win. `trusted_iff` says that a dispatched
payload holds the stored values exactly when `own` gives none of them another value.
-/

namespace Mastermind

open Effect Effect.Program

/-- The properties that the agent takes for the stored configuration. -/
def trustedKeys : List String :=
  ["server_instance_id", "game_type", "install_path", "start_command", "telnet_host", "telnet_port",
    "telnet_password", "avoid_blood_moon_restart"]

/-- The operation dispatches a job for the server instance `si`: with the properties `extra` besides
the configuration, and with `own` from the caller or the schedule. -/
inductive Supplies (w : World) : Op → ServerInstance → JsonObject → JsonObject → Prop where
  | createJob {orgId userId : Id} {dto : CreateJobDto} {si : ServerInstance}
      (server : w.db.serverInstances.get dto.serverInstanceId = some si) :
      Supplies w (.createJob orgId userId dto) si [] (dto.payload.getD [])
  | fire {scheduleId : Id} {s : Schedule} {si : ServerInstance}
      (schedule : w.db.schedules.get scheduleId = some s)
      (server : w.db.serverInstances.get s.serverInstanceId = some si) :
      Supplies w (.fire scheduleId) si [("schedule_id", .str (idText scheduleId))]
        ((s.payload.getD .null).props)

/-- The value that a trusted property should have. -/
def World.trustedValue (w : World) (si : ServerInstance) (extra : JsonObject) (key : String) :
    Option Json :=
  (serverPayload si (w.db.avoidBloodMoonRestart si.orgId) ++ extra).lookup key

/-- The payload holds the stored values of the trusted properties. -/
def World.Trusted (w : World) (si : ServerInstance) (extra payload : JsonObject) : Prop :=
  ∀ key ∈ trustedKeys ++ extra.map Prod.fst,
    payload.lookup key = w.trustedValue si extra key

/-- The payload of the caller or the schedule gives no trusted property another value. -/
def World.Respects (w : World) (si : ServerInstance) (extra own : JsonObject) : Prop :=
  ∀ key ∈ trustedKeys ++ extra.map Prod.fst, ∀ v ∈ own.lookup key,
    w.trustedValue si extra key = some v

/-- A payload laid over the trusted values holds them exactly when it respects them. -/
theorem trusted_spread_iff {w : World} {si : ServerInstance} {extra own : JsonObject} :
    w.Trusted si extra (JsonObject.spread
      (serverPayload si (w.db.avoidBloodMoonRestart si.orgId) ++ extra) own) ↔
        w.Respects si extra own := by
  refine forall_congr' fun key => imp_congr_right fun _ => ?_
  rw [JsonObject.lookup_spread, World.trustedValue]
  cases hown : own.lookup key with
  | none => simp
  | some v =>
    rw [Option.some_or]
    constructor
    · intro h u hu
      obtain rfl : v = u := Option.some.inj hu
      exact h.symm
    · exact fun h => (h v rfl).symm

/-- Checking a console command changes no trusted property. -/
theorem respects_of_checked {w : World} {si : ServerInstance} {payload own : Option JsonObject}
    (h : JobsService.Checked payload own) :
    w.Respects si [] (own.getD []) ↔ w.Respects si [] (payload.getD []) := by
  rcases h with rfl | ⟨command, rfl⟩
  · rfl
  · refine forall_congr' fun key => imp_congr_right fun hkey => ?_
    have hne : (key == "command") = false := by
      simp only [trustedKeys, List.map_nil, List.append_nil, List.mem_cons, List.not_mem_nil,
        or_false] at hkey
      rcases hkey with rfl | rfl | rfl | rfl | rfl | rfl | rfl | rfl <;> decide
    rw [Option.getD_some, JsonObject.lookup_spread]
    simp [List.lookup_cons, hne]

/-- What dispatching puts into the queues. -/
theorem Creation.Ends.mem_queues {c : Creation} {may : Stmt → World → Prop} {w w' : World}
    (h : c.Ends may w w') {orgId : Id} {e : QueueEntry} (he : e ∈ w'.queues orgId) :
    e ∈ w.queues orgId ∨ orgId = c.data.orgId ∧ e = c.queueEntry w := by
  cases h with
  | job _ => exact .inl he
  | run _ _ => exact .inl he
  | queued _ => exact World.mem_enqueue he

/-- For every job that `createJob` or a fire dispatches, from every state and whatever calls fail:
the payload holds the stored configuration, and the id of the schedule, if and only if the payload
of the caller or the schedule gives none of these another value. -/
theorem trusted_iff (env : Env) (op : Op) (plan : List Bool) (w : World) {si : ServerInstance}
    {extra own : JsonObject} (h : Supplies w op si extra own) (orgId : Id) (e : QueueEntry)
    (hafter : e ∈ ((controlPlane env).turn op plan w).after.queues orgId)
    (hbefore : e ∉ w.queues orgId) :
    w.Trusted si extra e.data.payload ↔ w.Respects si extra own := by
  have hmay : ∀ f ∈ (op.prog env).faults (machine env) plan w, (fun _ _ => True) f.1 f.2 :=
    fun _ _ => trivial
  cases h with
  | @createJob userOrg userId dto si server =>
    have hspec : (Op.prog env (.createJob userOrg userId dto)).wp (alone env fun _ _ => True)
        (fun _ w' => w' = w ∨ ∃ c, dto.type ∈ jobTypes ∧
          JobsService.Creates env w userOrg userId dto.serverInstanceId dto.type dto.payload c ∧
            c.Ends (fun _ _ => True) w w') w :=
      wp_handsOutNothing (JobsController.create_spec userOrg userId dto)
    rcases run_of_wp hspec hmay with hw | ⟨c, -, hc, hends⟩
    · have hw : ((controlPlane env).turn (.createJob userOrg userId dto) plan w).after = w := hw
      rw [hw] at hafter
      exact absurd hafter hbefore
    · obtain ⟨-, he⟩ := (hends.mem_queues hafter).resolve_left hbefore
      obtain ⟨hs, -, hchecked, -⟩ := hc
      obtain rfl := Option.some.inj (server.symm.trans hs)
      rw [he, ← respects_of_checked hchecked, ← trusted_spread_iff, List.append_nil]
      rfl
  | @fire scheduleId s si schedule server =>
    have hspec : (Op.prog env (.fire scheduleId)).wp (alone env fun _ _ => True)
        (fun _ w' => SchedulerService.Fired env (fun _ _ => True) scheduleId w w') w :=
      wp_handsOutNothing (SchedulerService.fire_spec scheduleId)
    obtain ⟨w₁, ⟨schedules, scheduler, hw', -⟩, hends⟩ := run_of_wp hspec hmay
    have hw' : ((controlPlane env).turn (.fire scheduleId) plan w).after = _ := hw'
    have hqueues : e ∈ w₁.queues orgId := by
      rw [hw'] at hafter
      exact hafter
    rcases hends with rfl | ⟨c, hc, hends⟩
    · exact absurd hqueues hbefore
    · obtain ⟨-, he⟩ := (hends.mem_queues hqueues).resolve_left hbefore
      obtain ⟨hs, -, hserver, -⟩ := hc
      obtain rfl := Option.some.inj (schedule.symm.trans hs)
      obtain rfl := Option.some.inj (server.symm.trans hserver)
      have hid : s.id = scheduleId := (Table.get_eq_some.mp schedule).2
      rw [he, ← trusted_spread_iff, ← hid]
      rfl

/-- The admin of the small installation starts its server. -/
theorem trusted_iff_start : ∃ e ∈ (smallPlane.turn (.createJob 0 0 ⟨"SERVER_START", 0, none⟩) []
      .small).after.queues 0,
    World.small.Trusted (smallServer 0 0 "alpha-pw" 0) [] e.data.payload ↔
      World.small.Respects (smallServer 0 0 "alpha-pw" 0) [] [] := by
  obtain ⟨e, he⟩ := List.length_eq_one_iff.mp (show ((smallPlane.turn
    (.createJob 0 0 ⟨"SERVER_START", 0, none⟩) [] .small).after.queues 0).length = 1 by
      decide +kernel)
  have hmem : e ∈ (smallPlane.turn (.createJob 0 0 ⟨"SERVER_START", 0, none⟩) []
      .small).after.queues 0 := by
    rw [he]
    exact List.mem_singleton_self e
  exact ⟨e, hmem, trusted_iff _ _ _ _ (.createJob rfl) 0 e hmem List.not_mem_nil⟩

/-- A job with an install path of the caller's. -/
def pathJob : Op := .createJob 0 0 ⟨"SERVER_START", 0, some [("install_path", .str "/tmp")]⟩

/-- The caller's install path reaches the agent. -/
theorem install_path_overridden :
    ¬∀ (env : Env) (op : Op) (plan : List Bool) (w : World) (si : ServerInstance)
      (extra own : JsonObject), Supplies w op si extra own → ∀ orgId,
        ∀ e ∈ ((controlPlane env).turn op plan w).after.queues orgId, e ∉ w.queues orgId →
          w.Trusted si extra e.data.payload := by
  intro h
  obtain ⟨e, he⟩ := List.length_eq_one_iff.mp
    (show ((smallPlane.turn pathJob [] .small).after.queues 0).length = 1 by decide +kernel)
  have hmem : e ∈ (smallPlane.turn pathJob [] .small).after.queues 0 := by
    rw [he]
    exact List.mem_singleton_self e
  have hpath : ∀ e ∈ (smallPlane.turn pathJob [] .small).after.queues 0,
      (e.data.payload.lookup "install_path").bind Json.str? = some "/tmp" := by
    decide +kernel
  have hsupplies : Supplies .small pathJob (smallServer 0 0 "alpha-pw" 0) []
      [("install_path", .str "/tmp")] := .createJob rfl
  have htrusted := h _ _ [] _ _ _ _ hsupplies 0 e hmem List.not_mem_nil "install_path" (by decide)
  have hstored := hpath e hmem
  rw [htrusted] at hstored
  revert hstored
  decide +kernel

end Mastermind
