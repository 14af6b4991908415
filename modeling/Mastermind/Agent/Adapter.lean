import Mastermind.Effect.Trace
import Mastermind.Platform.Path
import Mastermind.Platform.Regex
import Mastermind.Platform.Text

/-!
# The adapter of the game server

`internal/games/7dtd/adapter.go`: how the agent restarts the server, backs its save up, kills it and
wipes its save. A procedure is a program over what it asks of its surroundings: the console, the
service manager, the clock, the context, and the file system. A `Command` that can fail answers
with a value or the text of the error, as a Go function does, and nothing is assumed of an answer.
`Stop` and `Start` of the adapter are one command each.

The waiting loops of the source have no bound on their rounds: here they take one, and a procedure
that runs out of it ends with `Unfinished`.
-/

namespace Mastermind.Agent

open Effect Effect.Program

/-- What a Go function returns: a value, or the text of an error. -/
abbrev Fallible (α : Type) := Except String α

/-- The units of the service manager. -/
inductive Service where
  | sevenDtd | regionHealer
deriving DecidableEq

/-- What `systemctlService` does with a unit. -/
inductive Action where
  | start | stop
deriving DecidableEq

/-- `"start"` or `"stop"`. -/
def Action.text : Action → String
  | .start => "start"
  | .stop => "stop"

/-- What `os.Lstat` finds. -/
inductive Lookup where
  | found | missing
  | failed (err : String)
deriving DecidableEq

/-- `agent.InstanceConfig`, as far as the procedures read it. -/
structure InstanceConfig where
  installPath : String
  avoidBloodMoonRestart : Bool
deriving DecidableEq

/-- `saveMetadata`. The times of this module are in milliseconds. -/
structure SaveMetadata where
  createdAt : ℤ
  gameDay : ℤ
  kind : String
deriving DecidableEq

/-- `SaveRecord`. -/
structure SaveRecord where
  id : String
  createdAt : ℤ
  gameDay : ℤ
  kind : String
  sizeBytes : ℕ
deriving DecidableEq

/-- The answer of the clock: the time, and how `Format` writes it in a backup's id. -/
structure Moment where
  ms : ℤ
  stamp : String
deriving DecidableEq

/-- What a procedure asks of its surroundings. -/
inductive Command where
  | sendCommand (command : String)
  | serviceActive (service : Service)
  | systemctl (action : Action) (service : Service)
  /-- `systemctl show --property=MainPID --value 7dtd.service`. -/
  | mainPid
  /-- `systemctl kill --kill-who=main --signal=SIGKILL 7dtd.service`. -/
  | kill
  | resetFailed
  /-- `mastermind-wipe-7dtd-save`. -/
  | wipe (configPath target : String)
  | now
  /-- A `select` on the context's end and a timer. -/
  | wait (ms : ℕ)
  | sleep (ms : ℕ)
  | reportProgress (status message : String)
  | stop (cfg : InstanceConfig)
  | start (cfg : InstanceConfig)
  /-- `os.ReadFile` and `xml.Unmarshal`: the properties of the server's configuration. -/
  | readConfiguration (path : String)
  /-- `os.Stat` and `IsDir`. -/
  | isDir (path : String)
  | stat (path : String)
  | lstat (path : String)
  | mkdirAll (path : String)
  | copySaveTree (source destination : String) (skipMetadata : Bool)
  | writeMetadata (path : String) (metadata : SaveMetadata)
  | removeAll (path : String)
  | directorySize (path : String)
  | pruneFullSaveBackups (retention : ℤ)
deriving DecidableEq

/-- What a command answers with. -/
abbrev Command.Answer : Command → Type
  | sendCommand _ => Fallible String
  | serviceActive _ => Bool
  | systemctl _ _ => Fallible Unit
  | mainPid => Fallible String
  | kill => Fallible Unit
  | resetFailed => Fallible Unit
  | wipe _ _ => Fallible Unit
  | now => Moment
  | wait _ => Fallible Unit
  | sleep _ => Unit
  | reportProgress _ _ => Unit
  | stop _ => Fallible Unit
  | start _ => Fallible Unit
  | readConfiguration _ => Fallible (List (String × String))
  | isDir _ => Bool
  | stat _ => Bool
  | lstat _ => Lookup
  | mkdirAll _ => Fallible Unit
  | copySaveTree _ _ _ => Fallible Unit
  | writeMetadata _ _ => Fallible Unit
  | removeAll _ => Fallible Unit
  | directorySize _ => ℕ
  | pruneFullSaveBackups _ => Fallible Unit

/-- The procedure has not ended within the rounds that its loops were given. -/
inductive Unfinished where
  | unfinished
deriving DecidableEq

/-- A procedure of the adapter. -/
abbrev Procedure := Program Command.Answer Unfinished

/-- One command. -/
abbrev send (c : Command) : Procedure c.Answer := request c

/-- `a, err := p`, then `fail err` if there is an error and `k a` if not. -/
def attempt {α β : Type} (p : Procedure (Fallible α)) (fail : String → Procedure β)
    (k : α → Procedure β) : Procedure β :=
  p >>= fun r => match r with
    | .ok a => k a
    | .error err => fail err

/-- `a, err := p` where an error is returned in some words. -/
def orReturn {α β : Type} (p : Procedure (Fallible α)) (words : String → String)
    (k : α → Procedure (Fallible β)) : Procedure (Fallible β) :=
  attempt p (fun err => pure (.error (words err))) k

/-! ## Numbers and texts -/

/-- Why `strconv.Atoi` fails. -/
inductive NumError where
  | invalidSyntax | outOfRange
deriving DecidableEq

/-- The text of the error about a number without a letter that would be escaped. -/
def NumError.text (number : String) : NumError → String
  | invalidSyntax => "strconv.Atoi: parsing \"" ++ number ++ "\": invalid syntax"
  | outOfRange => "strconv.Atoi: parsing \"" ++ number ++ "\": value out of range"

/-- The number that decimal digits write. -/
def decimal (digits : List Char) : ℕ := digits.foldl (fun n c => 10 * n + (c.toNat - 48)) 0

/-- `strconv.Atoi`, of 64 bits. -/
def atoi (s : String) : Except NumError ℤ :=
  let (negative, digits) := match s.toList with
    | '-' :: ds => (true, ds)
    | '+' :: ds => (false, ds)
    | ds => (false, ds)
  if digits = [] ∨ ¬ digits.all Char.isDigit then .error .invalidSyntax
  else if decimal digits ≥ (if negative then 2 ^ 63 + 1 else 2 ^ 63) then .error .outOfRange
  else .ok (if negative then -(decimal digits : ℤ) else decimal digits)

/-- A letter, in either case. -/
def letter (c : Char) : Regex Char := .one fun d => d = c || d = c.toUpper

/-- A text, in either case. -/
def letters (s : String) : Regex Char := .all (s.toList.map letter)

/-- `\s` of Go. -/
def isSpace (c : Char) : Bool := c = ' ' || c = '\t' || c = '\n' || c = '\r' || c.toNat = 12

/-- `\w` of Go, which `\b` goes by. -/
def isWord (c : Char) : Bool := c.isAlphanum || c = '_'

/-- `(?i)\bday\s+(\d+)\b`. -/
def gameDayPattern : Regex Char :=
  .all [.boundary isWord, letters "day", .many isSpace 1 none, .group (.many Char.isDigit 1 none),
    .boundary isWord]

/-- `(?i)total of\s+(\d+)\s+in the game`. -/
def playerCountPattern : Regex Char :=
  .all [letters "total of", .many isSpace 1 none, .group (.many Char.isDigit 1 none),
    .many isSpace 1 none, letters "in the game"]

/-- `pattern.FindStringSubmatch(output)[1]`. -/
def submatch (pattern : Regex Char) (output : String) : Option String :=
  (pattern.capture output.toList).map String.ofList

/-- `playerCountFromList`. -/
def playerCountFromList (output : String) : Fallible ℤ :=
  match submatch playerCountPattern output with
  | none => .error "could not parse lp response"
  | some digits =>
    match atoi digits with
    | .ok count => .ok count
    | .error e => .error (e.text digits)

/-- `consoleRejected`. -/
def consoleRejected (T : CaseTables) (output : String) : Bool :=
  decide (" is not a valid ".toList <:+: (T.goToLower output).toList) ||
    decide ("error executing command".toList <:+: (T.goToLower output).toList)

/-! ## The service -/

/-- `serviceHasMainPID`. -/
def serviceHasMainPID : Procedure Bool := do
  match ← send .mainPid with
  | .error _ => pure false
  | .ok output =>
    match atoi (goTrimSpace output) with
    | .error _ => pure false
    | .ok pid => pure (decide (pid > 0))

/-- The rounds of `waitFor7DTDState`. -/
def pollState (active : Bool) (deadline : ℤ) : ℕ → Procedure (Fallible Unit)
  | 0 => throw .unfinished
  | fuel + 1 => do
    let up : Bool ← send (.serviceActive .sevenDtd)
    if up = active then pure (.ok ())
    else
      let time ← send .now
      if time.ms > deadline then pure (.error ("timed out waiting for active=" ++ toString active))
      else
        orReturn (send (.wait 1000)) id fun _ => pollState active deadline fuel

/-- `waitFor7DTDState`. -/
def waitFor7DTDState (fuel : ℕ) (active : Bool) (timeout : ℤ) : Procedure (Fallible Unit) := do
  let time ← send .now
  pollState active (time.ms + timeout) fuel

/-- `systemctlService`. -/
def systemctlService (action : Action) (service : Service) : Procedure (Fallible Unit) :=
  orReturn (send (.systemctl action service)) (fun err => "systemctl " ++ action.text ++ ": " ++ err)
    fun _ => pure (.ok ())

/-- What `Kill` does to a process. -/
def killProcess (fuel : ℕ) : Procedure (Fallible Unit) :=
  orReturn (send .kill) ("kill 7DTD process: " ++ ·) fun _ =>
  orReturn (systemctlService .stop .sevenDtd) ("prevent 7DTD restart after kill: " ++ ·) fun _ =>
  orReturn (send .resetFailed) ("clear killed 7DTD service state: " ++ ·) fun _ =>
  orReturn (waitFor7DTDState fuel false 15000) ("7DTD process remained active after kill: " ++ ·)
    fun _ => pure (.ok ())

/-- `Kill`. -/
def kill (fuel : ℕ) : Procedure (Fallible Unit) := do
  if ← serviceHasMainPID then killProcess fuel else pure (.ok ())

/-! ## Saves -/

/-- The value of a property: the last one of that name counts, and a missing one is empty. -/
def property (properties : List (String × String)) (name : String) : String :=
  ((properties.filter (·.1 = name)).getLast?.map (goTrimSpace ·.2)).getD ""

/-- The directory of the save that the properties name. -/
def savePath (cfg : InstanceConfig) (properties : List (String × String)) : Fallible String :=
  let world := property properties "GameWorld"
  let game := property properties "GameName"
  let userData :=
    if property properties "UserDataFolder" = "" then
      Path.join [Path.dir cfg.installPath, "userdata"]
    else property properties "UserDataFolder"
  if world = "" ∨ game = "" ∨ Path.base world ≠ world ∨ Path.base game ≠ game then
    .error "safe GameWorld and GameName are required"
  else
    let savesRoot := Path.clean (Path.join [userData, "Saves"])
    let target := Path.clean (Path.join [savesRoot, world, game])
    match Path.rel savesRoot target with
    | none => .error "resolved save path is outside Saves"
    | some rel =>
      if rel = "." ∨ "../".toList.isPrefixOf rel.toList ∨ Path.isAbs rel then
        .error "resolved save path is outside Saves"
      else .ok target

/-- Where the server's configuration is. -/
def configPath (cfg : InstanceConfig) (configOverride : String) : String :=
  if configOverride = "" then Path.join [Path.dir cfg.installPath, "serverconfig.xml"]
  else configOverride

/-- `resolveLiveSave`. -/
def resolveLiveSave (cfg : InstanceConfig) (configOverride : String) : Procedure (Fallible String) :=
  orReturn (send (.readConfiguration (configPath cfg configOverride)))
    (fun err => err) fun properties => pure (savePath cfg properties)

/-- Where backups are kept. -/
def saveBackupRoot : String := "/opt/regionhealer/RegionAutoFix/Saves"

/-- The directory of a backup. -/
def saveBackupPath (id : String) : String := Path.join [saveBackupRoot, id]

/-- The bounds of `retention`. -/
def clampRetention (retention : ℤ) : ℤ := if retention < 1 then 1 else min retention 100

/-- The day that `BackupSave` notes: zero where it cannot be read. -/
def notedDay (output : String) : ℤ :=
  match submatch gameDayPattern output with
  | none => 0
  | some digits =>
    match atoi digits with
    | .ok day => day
    -- out of range, `Atoi` returns the largest number as well as the error
    | .error _ => 2 ^ 63 - 1

/-- What `BackupSave` does before it copies: a running server writes its world, and tells the
day. -/
def flushWorld : Procedure (Fallible ℤ) := do
  let active : Bool ← send (.serviceActive .sevenDtd)
  if active then
    orReturn (send (.sendCommand "saveworld")) ("flush world before backup: " ++ ·) fun _ => do
      send (.sleep 2000)
      match ← send (.sendCommand "gettime") with
      | .ok output => pure (.ok (notedDay output))
      | .error _ => pure (.ok 0)
  else pure (.ok 0)

/-- The end of an attempt to write a backup: what there is of it is removed. -/
def discardBackup (destination err : String) : Procedure (Fallible SaveRecord) := do
  let _ ← send (.removeAll destination)
  pure (.error err)

/-- What `BackupSave` writes. -/
def writeBackup (live : String) (gameDay retention : ℤ) (created : Moment) :
    Procedure (Fallible SaveRecord) := do
  let id := "mastermind_" ++ created.stamp
  let destination := saveBackupPath id
  let metadata : SaveMetadata := ⟨created.ms, gameDay, "full-world"⟩
  attempt (send (.copySaveTree live destination false))
    (fun err => discardBackup destination ("copy world save: " ++ err)) fun _ =>
  attempt (send (.writeMetadata (Path.join [destination, ".mastermind-save.json"]) metadata))
    (fun err => discardBackup destination ("write backup metadata: " ++ err)) fun _ => do
    let size : ℕ ← send (.directorySize destination)
    let _ ← send (.pruneFullSaveBackups (clampRetention retention))
    pure (.ok ⟨id, created.ms, gameDay, metadata.kind, size⟩)

/-- `BackupSave`. -/
def backupSave (cfg : InstanceConfig) (configOverride : String) (retention : ℤ) :
    Procedure (Fallible SaveRecord) :=
  orReturn (resolveLiveSave cfg configOverride) id fun live => do
    let available : Bool ← send (.isDir live)
    if available then
      orReturn flushWorld id fun gameDay => do
        let created ← send .now
        orReturn (send (.mkdirAll saveBackupRoot)) ("create backup root: " ++ ·) fun _ => do
          let taken ← send (.lstat (saveBackupPath ("mastermind_" ++ created.stamp)))
          if taken = Lookup.missing then writeBackup live gameDay retention created
          else pure (.error "backup ID already exists; try again in one second")
    else pure (.error "live save is unavailable")

/-! ## Restarting -/

/-- Whether the day is a Blood Moon, for `day <= 0 || day%7 != 0`. -/
def isBloodMoon (day : ℤ) : Bool := !(decide (day ≤ 0) || decide (day % 7 ≠ 0))

/-- The day that the protection reads from the answer to `gettime`. -/
def restartDay (output : String) : Fallible ℤ :=
  match submatch gameDayPattern output with
  | none => .error "check game day before restart: could not parse gettime response"
  | some digits =>
    match atoi digits with
    | .ok day => .ok day
    | .error e => .error ("check game day before restart: " ++ e.text digits)

/-- The report while the protection waits. -/
def bloodMoonReport (words : String) (day : ℤ) : Command :=
  .reportProgress "queued" ("Blood Moon protection: " ++ words ++ " for Day " ++ toString (day + 1) ++
    " (currently Day " ++ toString day ++ ")")

/-- What one round of the protection does about a Blood Moon, before it waits. -/
def announceWait (notifyPlayers queued : Bool) (day : ℤ) : Procedure (Fallible Unit) :=
  if queued then do
    send (bloodMoonReport "still waiting" day)
    pure (.ok ())
  else if notifyPlayers then
    orReturn (send (.sendCommand "say \"The server will be restarting after bloodmoon\""))
      ("send Blood Moon restart notice: " ++ ·) fun _ => do
      send (bloodMoonReport "waiting" day)
      pure (.ok ())
  else do
    send (bloodMoonReport "waiting" day)
    pure (.ok ())

/-- The rounds of `waitUntilRestartDayWithNotice`: whether the restart was deferred. -/
def waitUntilRestartDayWithNotice (notifyPlayers : Bool) :
    ℕ → Bool → Procedure (Fallible Bool)
  | 0, _ => throw .unfinished
  | fuel + 1, queued =>
    orReturn (send (.sendCommand "gettime")) ("check game day before restart: " ++ ·) fun output =>
    orReturn (pure (restartDay output)) id fun day =>
      if isBloodMoon day then
        orReturn (announceWait notifyPlayers queued day) id fun _ =>
        orReturn (send (.wait 30000)) id fun _ =>
          waitUntilRestartDayWithNotice notifyPlayers fuel true
      else if queued then do
        send (.reportProgress "running"
          ("Day " ++ toString day ++ " started; beginning safe restart"))
        pure (.ok true)
      else pure (.ok false)

/-- The part of `Restart` after the protection. -/
def restartNow (fuel : ℕ) (cfg : InstanceConfig) : Procedure (Fallible Unit) :=
  orReturn (send (.stop cfg)) id fun _ =>
  orReturn (waitFor7DTDState fuel false 120000) ("server did not stop before restart: " ++ ·) fun _ =>
  orReturn (send (.start cfg)) id fun _ =>
  orReturn (waitFor7DTDState fuel true 30000) ("server did not become active after restart: " ++ ·)
    fun _ => pure (.ok ())

/-- `Restart`. -/
def restart (fuel : ℕ) (cfg : InstanceConfig) : Procedure (Fallible Unit) :=
  if cfg.avoidBloodMoonRestart then
    orReturn (waitUntilRestartDayWithNotice false fuel false) id fun _ => restartNow fuel cfg
  else restartNow fuel cfg

/-- `agent.JobResult`. The result of a job is the backup that it made. -/
structure JobResult where
  status : String
  error : String
  output : String
  backup : Option SaveRecord
deriving DecidableEq

/-- The result of a job that failed. -/
def JobResult.failed (error output : String) : JobResult := ⟨"failed", error, output, none⟩

/-- The warnings of `SafeRestart`. -/
def warnings : List String :=
  ["Server will be rebooting in 1 minute", "Server will be rebooting in 50 seconds",
    "Server will be rebooting in 40 seconds", "Server will be rebooting in 30 seconds",
    "Server will be rebooting in 20 seconds", "Server will be rebooting in 10 seconds"]

/-- The countdown. Its error is the text of the job's. -/
def countdown : List String → Procedure (Fallible Unit)
  | [] => pure (.ok ())
  | warning :: rest =>
    orReturn (send (.sendCommand ("say \"" ++ warning ++ "\""))) ("send restart warning: " ++ ·)
      fun _ => orReturn (send (.wait 10000)) id fun _ => countdown rest

/-- `kickall` and its verification: what the console printed, or the job's result. -/
def kickPlayers (T : CaseTables) (k : String → Procedure JobResult) : Procedure JobResult :=
  attempt (send (.sendCommand "kickall \"Server is Restarting\""))
    (fun err => pure (.failed ("safe restart kickall: " ++ err) "")) fun kickOutput =>
  if consoleRejected T kickOutput then
    pure (.failed "7DTD rejected safe restart kickall command" kickOutput)
  else
    attempt (send (.wait 2000)) (fun err => pure (.failed err "")) fun _ =>
    attempt (send (.sendCommand "lp"))
      (fun err => pure (.failed ("safe restart kick verification: " ++ err) kickOutput))
      fun verification =>
    match playerCountFromList verification with
    | .error err => pure (.failed ("safe restart kick verification: " ++ err)
        (kickOutput ++ "\n" ++ verification))
    | .ok remaining =>
      if remaining = 0 then k kickOutput
      else pure (.failed
        ("safe restart found " ++ toString remaining ++ " player(s) still online")
        (kickOutput ++ "\n" ++ verification))

/-- The end of `SafeRestart`, when no player is left. -/
def finishRestart (fuel : ℕ) (cfg : InstanceConfig) (backup : SaveRecord) (kickOutput : String) :
    Procedure JobResult :=
  attempt (restart fuel { cfg with avoidBloodMoonRestart := false })
    (fun err => pure (.failed ("safe restart: " ++ err) kickOutput)) fun _ =>
    pure ⟨"success", "", kickOutput ++ "\nVerification: 0 players online", some backup⟩

/-- `SafeRestart` after the protection. The payload is its `server_config_path` and its
`retention_count`, or what they default to. -/
def safeRestartNow (T : CaseTables) (fuel : ℕ) (cfg : InstanceConfig) (serverConfigPath : String)
    (retentionCount : ℤ) (deferredForBloodMoon : Bool) : Procedure JobResult :=
  attempt (countdown (if deferredForBloodMoon then [] else warnings))
    (fun err => pure (.failed err "")) fun _ =>
  attempt (backupSave cfg serverConfigPath retentionCount)
    (fun err => pure (.failed ("safe restart backup: " ++ err) "")) fun backup =>
  kickPlayers T (finishRestart fuel cfg backup)

/-- `SafeRestart`. -/
def safeRestart (T : CaseTables) (fuel : ℕ) (cfg : InstanceConfig) (serverConfigPath : String)
    (retentionCount : ℤ) : Procedure JobResult :=
  if cfg.avoidBloodMoonRestart then
    attempt (waitUntilRestartDayWithNotice true fuel false) (fun err => pure (.failed err ""))
      (safeRestartNow T fuel cfg serverConfigPath retentionCount)
  else safeRestartNow T fuel cfg serverConfigPath retentionCount false

end Mastermind.Agent
