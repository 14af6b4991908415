import Mastermind.Platform.Json
import Mastermind.Platform.Text

/-!
# The registry of adapters

`internal/execute/registry.go` and the adapters that `main.go` registers: which adapter and which
case of its `Execute` a job goes to, and the configuration of the server instance that the adapter
reads from the payload, which is that of `jobPayloadToConfig` and the object `config` with the paths
that discovery found. `select_congr` and `serverSettings_congr` say what of a payload this depends
on.
-/

namespace Mastermind.Execute

/-! ## Reading a payload -/

/-- `getString`. -/
def getString (payload : JsonObject) (key fallback : String) : String :=
  ((payload.lookup key).bind Json.str?).getD fallback

/-- `getInt`: a number is cut off at the decimal point. -/
def getInt (payload : JsonObject) (key : String) (fallback : ℤ) : ℤ :=
  match payload.lookup key with
  | some (.num n) => if 0 ≤ n then ⌊n⌋ else ⌈n⌉
  | _ => fallback

/-- `getBool`. -/
def getBool (payload : JsonObject) (key : String) : Bool :=
  match payload.lookup key with
  | some (.bool b) => b
  | _ => false

/-- `agent.InstanceConfig`. -/
structure InstanceConfig where
  serverInstanceId : String
  installPath : String
  startCommand : String
  stopCommand : String
  telnetHost : String
  telnetPort : ℤ
  telnetPassword : String
  avoidBloodMoonRestart : Bool
deriving DecidableEq

/-- `jobPayloadToConfig`. -/
def jobPayloadToConfig (payload : JsonObject) : InstanceConfig where
  serverInstanceId := getString payload "server_instance_id" ""
  installPath := getString payload "install_path" ""
  startCommand := getString payload "start_command" ""
  stopCommand := getString payload "stop_command" ""
  telnetHost := getString payload "telnet_host" "127.0.0.1"
  telnetPort := getInt payload "telnet_port" 8081
  telnetPassword := getString payload "telnet_password" ""
  avoidBloodMoonRestart := getBool payload "avoid_blood_moon_restart"

/-- `payload["config"].(map[string]interface{})`: without an object a nil map. -/
def getConfig (payload : JsonObject) : JsonObject :=
  match payload.lookup "config" with
  | some (.obj props) => props
  | _ => []

/-- What an adapter reads about the server of a job. -/
def serverSettings (payload : JsonObject) : InstanceConfig × JsonObject :=
  (jobPayloadToConfig payload, getConfig payload)

/-- The properties of a payload that say what server a job is for. -/
def serverKeys : List String :=
  ["server_instance_id", "game_type", "install_path", "start_command", "stop_command",
    "telnet_host", "telnet_port", "telnet_password", "config", "avoid_blood_moon_restart"]

theorem getString_congr {payload payload' : JsonObject} {key : String}
    (h : payload.lookup key = payload'.lookup key) (fallback : String) :
    getString payload key fallback = getString payload' key fallback := by
  rw [getString, getString, h]

theorem getInt_congr {payload payload' : JsonObject} {key : String}
    (h : payload.lookup key = payload'.lookup key) (fallback : ℤ) :
    getInt payload key fallback = getInt payload' key fallback := by
  rw [getInt, getInt, h]

theorem getBool_congr {payload payload' : JsonObject} {key : String}
    (h : payload.lookup key = payload'.lookup key) :
    getBool payload key = getBool payload' key := by
  rw [getBool, getBool, h]

/-- Payloads that agree on the server have the same settings. -/
theorem serverSettings_congr {payload payload' : JsonObject}
    (h : ∀ key ∈ serverKeys, payload.lookup key = payload'.lookup key) :
    serverSettings payload = serverSettings payload' := by
  simp only [serverKeys, List.forall_mem_cons] at h
  obtain ⟨hid, -, hpath, hstart, hstop, hhost, hport, hpassword, hconfig, havoid, -⟩ := h
  simp only [serverSettings, jobPayloadToConfig, Prod.mk.injEq, InstanceConfig.mk.injEq]
  refine ⟨⟨getString_congr hid _, getString_congr hpath _, getString_congr hstart _,
    getString_congr hstop _, getString_congr hhost _, getInt_congr hport _,
    getString_congr hpassword _, getBool_congr havoid⟩, ?_⟩
  rw [getConfig, getConfig, hconfig]

/-! ## Adapters and their cases -/

/-- The adapters that `GetOrNoop` finds. -/
inductive Adapter where
  | sevenDtd | minecraft
  | noop (gameName : String)
deriving DecidableEq

/-- `GetOrNoop`. -/
def getOrNoop (gameType : String) : Adapter :=
  if gameType = "7dtd" then .sevenDtd
  else if gameType = "minecraft" then .minecraft
  else .noop gameType

/-- The cases of `Execute` of an adapter, each with the job types that it is for. -/
def Adapter.cases : Adapter → List (List String)
  | sevenDtd =>
    [["SERVER_START"], ["SERVER_STOP"], ["SERVER_KILL"], ["SERVER_RESTART"],
      ["SERVER_SAFE_RESTART"], ["SERVER_WIPE_SAVE"], ["RCON", "SEND_COMMAND"],
      ["PLAYER_LIST_SYNC"], ["PLAYER_ADMIN_LIST"], ["PLAYER_ADMIN_PROMOTE", "PLAYER_ADMIN_DEMOTE"],
      ["REGION_HEALER_START"], ["REGION_HEALER_STOP"], ["SAVE_LIST"], ["SAVE_BACKUP"],
      ["SAVE_RESTORE"], ["SAVE_DELETE"], ["SAVE_RETENTION"], ["PLAYER_KICK"], ["PLAYER_KICK_ALL"],
      ["PLAYER_BAN"], ["MOD_LIST"], ["MOD_UPLOAD_QUARANTINE"], ["MOD_QUARANTINE"],
      ["MOD_QUARANTINE_LIST"], ["MOD_RESTORE"], ["MOD_DELETE"], ["MOD_CONFIG_READ"],
      ["MOD_CONFIG_WRITE"], ["PROFILE_LIST"], ["PROFILE_READ"], ["PROFILE_STAGE"]]
  | minecraft =>
    [["SERVER_START"], ["SERVER_STOP"], ["SERVER_RESTART"], ["STATUS"], ["RCON", "SEND_COMMAND"],
      ["LIST_PLAYERS"]]
  | noop _ => []

/-- The job type as the `switch` of an adapter reads it: only the first adapter's ignores case. -/
def Adapter.reads (T : CaseTables) : Adapter → String → String
  | sevenDtd, type => T.goToUpper type
  | _, type => type

/-- Where a job goes. -/
inductive Selection where
  /-- "job payload missing game_type". -/
  | missingGameType
  /-- The case of the adapter, or none: `default`. -/
  | handler (adapter : Adapter) (types : Option (List String))
deriving DecidableEq

/-- `RegistryExecutor.Execute` and the `switch` of the adapter. -/
def select (T : CaseTables) (type : String) (payload : JsonObject) : Selection :=
  let gameType := T.goToLower (goTrimSpace (getString payload "game_type" ""))
  if gameType = "" then .missingGameType
  else
    let adapter := getOrNoop gameType
    .handler adapter (adapter.cases.find? fun types => types.contains (adapter.reads T type))

/-- A job goes where another one of its type and its game goes. -/
theorem select_congr {T : CaseTables} {type : String} {payload payload' : JsonObject}
    (h : payload.lookup "game_type" = payload'.lookup "game_type") :
    select T type payload = select T type payload' := by
  rw [select, select, getString_congr h]

/-- The adapter that a job goes to. -/
def Selection.adapter? : Selection → Option Adapter
  | missingGameType => none
  | handler adapter _ => some adapter

/-- The adapter is that of the game, which the payload must name. -/
theorem adapter_select (T : CaseTables) (type : String) (payload : JsonObject) :
    (select T type payload).adapter? =
      if T.goToLower (goTrimSpace (getString payload "game_type" "")) = "" then none
      else some (getOrNoop (T.goToLower (goTrimSpace (getString payload "game_type" "")))) := by
  rw [select, apply_ite Selection.adapter?]
  simp only [Selection.adapter?]

/-- Jobs of one game go to one adapter. -/
theorem adapter_select_congr {T : CaseTables} {type type' : String} {payload payload' : JsonObject}
    (h : payload.lookup "game_type" = payload'.lookup "game_type") :
    (select T type payload).adapter? = (select T type' payload').adapter? := by
  rw [adapter_select, adapter_select, getString_congr h]

end Mastermind.Execute
