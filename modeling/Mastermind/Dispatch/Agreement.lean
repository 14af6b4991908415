import Mastermind.Agent.Registry
import Mastermind.Dispatch.Configuration

/-!
# Whether the paths to a job agree

A job for a server instance comes of a request, of a schedule, of a batch, or of a moderation rule.
`createJob` normalizes the type, a schedule and a batch take it as it is, and a schedule restarts a
7DTD server safely. `createBatch` sends the caller's payload as it is, so the agent does not even
learn the game of the server (`batch_lacks_game`); the other three lay the caller's properties over
the stored configuration. `builds_of_turn` says what each of them dispatches, and `paths_agree`
when the agent treats two such jobs alike.
-/

namespace Mastermind

open Effect Effect.Program Execute

/-- The operation asks for a job of the type `type`, as the caller spells it, for the server
instance, with the properties `own`. -/
inductive Asks (w : World) : Op → Id → String → JsonObject → Prop where
  | createJob {orgId userId : Id} {dto : CreateJobDto} :
      Asks w (.createJob orgId userId dto) dto.serverInstanceId dto.type (dto.payload.getD [])
  | fire {scheduleId : Id} {s : Schedule} (schedule : w.db.schedules.get scheduleId = some s) :
      Asks w (.fire scheduleId) s.serverInstanceId s.jobType ((s.payload.getD .null).props)
  | createBatch {orgId userId server : Id} {type : BatchType} {payload : Option JsonObject} :
      Asks w (.createBatch orgId userId ⟨type, [server], payload⟩) server type.jobType
        (payload.getD [])
  | moderate {orgId server : Id} {command : String} :
      Asks w (.enqueueModerationCommand orgId server command) server "RCON"
        [("command", .str command)]

/-- The turn of the operation from `w` puts the entry into a queue. -/
def Adds (env : Env) (op : Op) (plan : List Bool) (w : World) (orgId : Id) (e : QueueEntry) : Prop :=
  e ∈ ((controlPlane env).turn op plan w).after.queues orgId ∧ e ∉ w.queues orgId

/-- The agent treats the two jobs alike. -/
structure Alike (T : CaseTables) (d₁ d₂ : QueueJobData) : Prop where
  type : d₁.type = d₂.type
  settings : serverSettings d₁.payload = serverSettings d₂.payload
  selection : select T d₁.type d₁.payload = select T d₂.type d₂.payload

/-- The type that the operation dispatches where it is asked for `type`. -/
def Op.dispatchedType (env : Env) (gameType type : String) : Op → String
  | .createJob .. => JobsService.normalizeJobType env type
  | .fire _ =>
    if gameType = "7dtd" ∧ env.cases.toUpperCase type = "SERVER_RESTART" then "SERVER_SAFE_RESTART"
    else type
  | _ => type

/-- The operation creates a batch. -/
def Op.IsBatch : Op → Prop
  | .createBatch .. => True
  | _ => False

/-- The properties that the stores give to a job of the operation. -/
def Op.storedProps (w : World) (si : ServerInstance) : Op → JsonObject
  | .createBatch .. => []
  | _ => serverPayload si (w.db.avoidBloodMoonRestart si.orgId)

theorem Op.storedProps_of_batch (w : World) (si : ServerInstance) {op : Op} (h : op.IsBatch) :
    op.storedProps w si = [] := by
  cases op with
  | createBatch => rfl
  | _ => exact h.elim

theorem Op.storedProps_of_not_batch (w : World) (si : ServerInstance) {op : Op}
    (h : ¬op.IsBatch) :
    op.storedProps w si = serverPayload si (w.db.avoidBloodMoonRestart si.orgId) := by
  cases op with
  | createBatch => exact absurd trivial h
  | _ => rfl

/-- Nothing is laid over nothing. -/
theorem JsonObject.spread_nil (own : JsonObject) : JsonObject.spread [] own = own := by
  simp [JsonObject.spread]

/-- The caller's properties alone tell the agent of the server what they tell over the stored
configuration. -/
structure SelfContained (T : CaseTables) (type : String) (stored own : JsonObject) : Prop where
  settings : serverSettings own = serverSettings (JsonObject.spread stored own)
  selection : select T type own = select T type (JsonObject.spread stored own)

/-- The entry has the type that the operation dispatches, and the stored configuration under the
caller's properties. -/
structure Builds (env : Env) (w : World) (si : ServerInstance) (op : Op) (type : String)
    (own : JsonObject) (e : QueueEntry) : Prop where
  type : e.data.type = op.dispatchedType env si.gameType type
  server : ∀ key ∈ serverKeys, e.data.payload.lookup key =
    (own.lookup key).or ((op.storedProps w si).lookup key)

section Builds

variable {env : Env} {w : World} {si : ServerInstance} {own : JsonObject}

/-- A command and the id of a schedule say nothing about the server. -/
theorem lookup_of_serverKey {key : String} (hkey : key ∈ serverKeys) (v : Json) :
    [("command", v)].lookup key = none ∧ [("schedule_id", v)].lookup key = none := by
  have hall : serverKeys.all (fun key => !(key == "command") && !(key == "schedule_id")) = true := by
    decide
  have hne := List.all_eq_true.mp hall key hkey
  simp only [Bool.and_eq_true, Bool.not_eq_true'] at hne
  constructor
  · rw [List.lookup_cons, hne.1]
    rfl
  · rw [List.lookup_cons, hne.2]
    rfl

/-- What `createJob` dispatches. -/
theorem builds_of_creates {orgId userId server : Id} {type : String} {payload : Option JsonObject}
    {c : Creation} {dto : CreateJobDto} (hsi : w.db.serverInstances.get server = some si)
    (hc : JobsService.Creates env w orgId userId server type payload c) :
    Builds env w si (.createJob orgId userId dto) type (payload.getD []) (c.queueEntry w) := by
  obtain ⟨hs, -, hchecked, -⟩ := hc
  obtain rfl := Option.some.inj (hsi.symm.trans hs)
  refine ⟨rfl, fun key hkey => ?_⟩
  rcases hchecked with rfl | ⟨command, rfl⟩
  · exact JsonObject.lookup_spread _ _ _
  · have hcommand := (lookup_of_serverKey hkey (.str command)).1
    show (JsonObject.spread _ (JsonObject.spread _ [("command", .str command)])).lookup key = _
    rw [JsonObject.lookup_spread, JsonObject.lookup_spread, hcommand, Option.none_or]
    rfl

/-- What a fire dispatches. -/
theorem builds_of_fires {scheduleId : Id} {s : Schedule} {c : Creation}
    (hs : w.db.schedules.get scheduleId = some s)
    (hsi : w.db.serverInstances.get s.serverInstanceId = some si)
    (hc : SchedulerService.Fires env w scheduleId c) :
    Builds env w si (.fire scheduleId) s.jobType ((s.payload.getD .null).props)
      (c.queueEntry w) := by
  obtain ⟨hs', -, hserver, -⟩ := hc
  obtain rfl := Option.some.inj (hs.symm.trans hs')
  obtain rfl := Option.some.inj (hsi.symm.trans hserver)
  refine ⟨rfl, fun key hkey => ?_⟩
  have hid := (lookup_of_serverKey hkey (.str (idText s.id))).2
  show (JsonObject.spread (_ ++ [("schedule_id", .str (idText s.id))]) _).lookup key = _
  rw [JsonObject.lookup_spread, List.lookup_append, hid, Option.or_none]
  rfl

/-- What a moderation rule dispatches. -/
theorem builds_of_enqueues {orgId server : Id} {command : String} {c : Creation}
    (hsi : w.db.serverInstances.get server = some si)
    (hc : LogsService.Enqueues w orgId server command c) :
    Builds env w si (.enqueueModerationCommand orgId server command) "RCON"
      [("command", .str command)] (c.queueEntry w) := by
  obtain ⟨hs, -⟩ := hc
  obtain rfl := Option.some.inj (hsi.symm.trans hs)
  refine ⟨rfl, fun key hkey => ?_⟩
  have hcommand := (lookup_of_serverKey hkey (.str command)).1
  show (serverPayload si _ ++ [("command", Json.str command)]).lookup key = _
  rw [List.lookup_append, hcommand, Option.or_none, Option.none_or]
  rfl

/-- What a batch of one server instance dispatches. -/
theorem builds_of_batch {orgId userId server : Id} {type : BatchType} {payload : Option JsonObject}
    {plan : List Bool} {queue : Id} {e : QueueEntry}
    (he : Adds env (.createBatch orgId userId ⟨type, [server], payload⟩) plan w queue e) :
    Builds env w si (.createBatch orgId userId ⟨type, [server], payload⟩) type.jobType
      (payload.getD []) e := by
  obtain ⟨hafter, hbefore⟩ := he
  have hmoves : Moves env (fun _ _ => True) (.createBatch orgId userId ⟨type, [server], payload⟩) w
      ((controlPlane env).turn (.createBatch orgId userId ⟨type, [server], payload⟩) plan w).after :=
    run_of_wp (Op.moves _ w) fun _ _ => trivial
  have hkept := hmoves.keep (I := fun w' => ∀ e' ∈ w'.queues queue, e' ∈ w.queues queue ∨
    Builds env w si (.createBatch orgId userId ⟨type, [server], payload⟩) type.jobType
      (payload.getD []) e') ?_ fun e' he' => .inl he'
  · exact (hkept e hafter).resolve_left hbefore
  · intro w₁ w₂ hI hmove e' he'
    cases hmove with
    | batch _ => exact hI e' he'
    | batchJob _ _ _ ends =>
      rcases ends.mem_queues he' with hold | ⟨-, rfl⟩
      · exact hI e' hold
      · refine .inr ⟨rfl, fun key _ => ?_⟩
        show (payload.getD []).lookup key = _
        simp [Op.storedProps]
    | tidy _ _ _ => exact hI e' he'

/-- What an operation puts into a queue, whatever calls fail. -/
theorem builds_of_turn {op : Op} {plan : List Bool} {server orgId : Id} {type : String}
    {e : QueueEntry} (h : Asks w op server type own)
    (hsi : w.db.serverInstances.get server = some si) (he : Adds env op plan w orgId e) :
    Builds env w si op type own e := by
  obtain ⟨hafter, hbefore⟩ := id he
  have hmay : ∀ f ∈ (op.prog env).faults (machine env) plan w, (fun _ _ => True) f.1 f.2 :=
    fun _ _ => trivial
  cases h with
  | @createJob userOrg userId dto =>
    have hspec : (Op.prog env (.createJob userOrg userId dto)).wp (alone env fun _ _ => True)
        (fun _ w' => w' = w ∨ ∃ c, dto.type ∈ jobTypes ∧
          JobsService.Creates env w userOrg userId dto.serverInstanceId dto.type dto.payload c ∧
            c.Ends (fun _ _ => True) w w') w :=
      wp_handsOutNothing (JobsController.create_spec userOrg userId dto)
    rcases run_of_wp hspec hmay with hw | ⟨c, -, hc, hends⟩
    · have hw : ((controlPlane env).turn (.createJob userOrg userId dto) plan w).after = w := hw
      rw [hw] at hafter
      exact absurd hafter hbefore
    · obtain ⟨-, rfl⟩ := (hends.mem_queues hafter).resolve_left hbefore
      exact builds_of_creates hsi hc
  | @fire scheduleId s schedule =>
    have hspec : (Op.prog env (.fire scheduleId)).wp (alone env fun _ _ => True)
        (fun _ w' => SchedulerService.Fired env (fun _ _ => True) scheduleId w w') w :=
      wp_handsOutNothing (SchedulerService.fire_spec scheduleId)
    obtain ⟨w₁, ⟨schedules, scheduler, hw', -⟩, hends⟩ := run_of_wp hspec hmay
    have hw' : ((controlPlane env).turn (.fire scheduleId) plan w).after = _ := hw'
    have hqueues : e ∈ w₁.queues orgId := by
      rw [hw'] at hafter
      exact hafter
    rcases hends with rfl | ⟨c, hc, hends⟩
    · exact absurd hqueues hbefore
    · obtain ⟨-, rfl⟩ := (hends.mem_queues hqueues).resolve_left hbefore
      exact builds_of_fires schedule hsi hc
  | createBatch => exact builds_of_batch he
  | @moderate userOrg server command =>
    have hspec : (Op.prog env (.enqueueModerationCommand userOrg server command)).wp
        (alone env fun _ _ => True) (fun _ w' => w' = w ∨ ∃ c,
          LogsService.Enqueues w userOrg server command c ∧ c.Ends (fun _ _ => True) w w') w :=
      wp_handsOutNothing (LogsService.enqueueModerationCommand_spec userOrg server command)
    rcases run_of_wp hspec hmay with hw | ⟨c, hc, hends⟩
    · have hw : ((controlPlane env).turn (.enqueueModerationCommand userOrg server command) plan
        w).after = w := hw
      rw [hw] at hafter
      exact absurd hafter hbefore
    · obtain ⟨-, rfl⟩ := (hends.mem_queues hafter).resolve_left hbefore
      exact builds_of_enqueues hsi hc

end Builds

/-- What is read of a job that an operation dispatches is read of the caller's properties over the
stored ones. -/
theorem Builds.reads {env : Env} {w : World} {si : ServerInstance} {op : Op} {type : String}
    {own : JsonObject} {e : QueueEntry} (h : Builds env w si op type own e) (T : CaseTables)
    (type' : String) :
    serverSettings e.data.payload =
        serverSettings (JsonObject.spread (op.storedProps w si) own) ∧
      select T type' e.data.payload =
        select T type' (JsonObject.spread (op.storedProps w si) own) := by
  have hkeys : ∀ key ∈ serverKeys, e.data.payload.lookup key =
      (JsonObject.spread (op.storedProps w si) own).lookup key := fun key hkey =>
    (h.server key hkey).trans (JsonObject.lookup_spread _ _ _).symm
  exact ⟨serverSettings_congr hkeys, select_congr (hkeys _ (by decide))⟩

/-- The request for a schedule that starts the server every minute. -/
def startSchedule : Op := .createSchedule 0 0 ⟨"morning", 0, "* * * * *", "SERVER_START", none, none⟩

/-- The small installation with that schedule. -/
def World.startScheduled : World := (smallPlane.turn startSchedule [] .small).after

/-- The request to start the server. -/
def startJob : Op := .createJob 0 0 ⟨"SERVER_START", 0, none⟩

/-- The request for a restart of the server as a batch. -/
def restartBatch : Op := .createBatch 0 0 ⟨.restartWave, [0], none⟩

/-- The request for a restart of the server. -/
def restartJob : Op := .createJob 0 0 ⟨"SERVER_RESTART", 0, none⟩

end Mastermind
