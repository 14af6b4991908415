import Mastermind.Effect.Table
import Mastermind.Effect.Uses
import Mastermind.Platform.Utf16

/-!
# The chat moderation of a server

`LogsService.getChatModeration`, `updateChatModeration` and `setPlayerMuted`. The settings of a
server, with its muted players, are one document in an alert rule. Both operations read the document,
build a new one and write it back whole, in calls of their own: a player is muted by an update with
the settings that were read before.

The statements that write carry the call that sends them, as a mark for the trace. Rules of other
types are kept as they are, and the extra properties that a request may carry are left out.
-/

namespace Mastermind.Moderation

open Effect Effect.Program

/-- The id of a record. -/
abbrev Id := ℕ

/-- `ModerationAction`. -/
inductive ModerationAction where
  | log | warn | kick
  deriving DecidableEq

/-- `BadWordRule`. -/
structure BadWordRule where
  word : Text
  action : ModerationAction
  deriving DecidableEq

/-- An element of `mutedPlayers`. -/
structure MutedPlayer where
  playerId : Text
  playerName : Text
  createdAt : ℕ
  deriving DecidableEq

/-- `ChatModeration`. Its `badWords` are the words of the rules. -/
structure ChatModeration where
  enabled : Bool
  badWordRules : List BadWordRule
  badWordAction : ModerationAction
  floodEnabled : Bool
  floodMessages : ℕ
  floodWindowSeconds : ℕ
  floodAction : ModerationAction
  mutedPlayers : List MutedPlayer
  deriving DecidableEq

/-- A rule that a request asks for: a word, and an action if it is one of the three. -/
structure RequestedRule where
  word : Text
  action : Option ModerationAction

/-- `Partial<ChatModeration>`. -/
structure Patch where
  enabled : Option Bool
  badWordRules : Option (List RequestedRule)
  badWords : Option (List Text)
  badWordAction : Option ModerationAction
  floodEnabled : Option Bool
  floodMessages : Option ℕ
  floodWindowSeconds : Option ℕ
  floodAction : Option ModerationAction
  mutedPlayers : Option (List MutedPlayer)

/-- `condition` of an alert rule: the settings of a server, or something else. -/
inductive Condition where
  | chatModeration (serverInstanceId : Id) (settings : ChatModeration)
  | other (type : Text)
  deriving DecidableEq

/-- `model AlertRule`. -/
structure AlertRule where
  id : Id
  orgId : Id
  name : Text
  enabled : Bool
  condition : Condition
  deriving DecidableEq

instance : Keyed AlertRule := ⟨AlertRule.id⟩

/-- The data of the write: the settings of a server, under a name. -/
structure RuleData where
  name : Text
  serverInstanceId : Id
  settings : ChatModeration

/-- The rule that `alertRule.create` makes. -/
def RuleData.row (d : RuleData) (orgId i : Id) : AlertRule :=
  ⟨i, orgId, d.name, d.settings.enabled, .chatModeration d.serverInstanceId d.settings⟩

theorem RuleData.key_row (d : RuleData) (orgId : Id) (i : ℕ) : Keyed.key (d.row orgId i) = i := rfl

/-- The rule that `alertRule.update` leaves. -/
def RuleData.apply (d : RuleData) (r : AlertRule) : AlertRule := d.row r.orgId r.id

theorem RuleData.key_apply (d : RuleData) (r : AlertRule) : Keyed.key (d.apply r) = Keyed.key r :=
  rfl

/-- The two operations. `now` is the time at which a player is muted. -/
inductive Call where
  | setPlayerMuted (orgId serverInstanceId : Id) (playerId playerName : Text) (muted : Bool)
      (now : ℕ)
  | updateChatModeration (orgId serverInstanceId : Id) (input : Patch)

namespace Call

/-- The organization that the call names. -/
def orgId : Call → Id
  | setPlayerMuted orgId _ _ _ _ _ => orgId
  | updateChatModeration orgId _ _ => orgId

/-- The server that the call names. -/
def server : Call → Id
  | setPlayerMuted _ server _ _ _ _ => server
  | updateChatModeration _ server _ => server

end Call

/-- The statements. The moderation rules are those with the type `chat_moderation`. -/
inductive Stmt where
  | alertRuleFindMany (orgId : Id)
  | moderationFindMany (orgId : Id)
  | serverInstanceFindFirst (id orgId : Id)
  | alertRuleUpdate (caller : Call) (id : Id) (data : RuleData)
  | alertRuleCreate (caller : Call) (orgId : Id) (data : RuleData)

/-- The response of a statement. -/
@[reducible] def Stmt.Resp : Stmt → Type
  | alertRuleFindMany _ => List AlertRule
  | moderationFindMany _ => List AlertRule
  | serverInstanceFindFirst _ _ => Option Text
  | alertRuleUpdate _ _ _ => Unit
  | alertRuleCreate _ _ _ => Unit

/-- The errors: of the service, of a write to a missing record, and of a failed call. -/
inductive Err where
  | notFound (message : Text)
  | badRequest (message : Text)
  | recordNotFound
  | fault

/-- The alert rules and the servers with their organizations and names. -/
structure Store where
  rules : Table AlertRule
  servers : List (Id × Id × Text)

namespace Store

variable (w : Store)

/-- The rules of an organization. -/
def rulesOf (orgId : Id) : List AlertRule := w.rules.rows.filter fun r => r.orgId == orgId

end Store

/-- The rule is about chat moderation. -/
def AlertRule.moderates (r : AlertRule) : Bool :=
  match r.condition with
  | .chatModeration _ _ => true
  | .other _ => false

/-- The rule is about the chat moderation of a server. -/
def AlertRule.about (server : Id) (r : AlertRule) : Bool :=
  match r.condition with
  | .chatModeration serverInstanceId _ => serverInstanceId == server
  | .other _ => false

/-- What a statement does. -/
def exec : (s : Stmt) → Store → Except Err s.Resp × Store
  | .alertRuleFindMany orgId, w => (.ok (w.rulesOf orgId), w)
  | .moderationFindMany orgId, w => (.ok ((w.rulesOf orgId).filter AlertRule.moderates), w)
  | .serverInstanceFindFirst id orgId, w =>
    (.ok ((w.servers.find? fun s => s.1 == id && s.2.1 == orgId).map fun s => s.2.2), w)
  | .alertRuleUpdate _ id d, w =>
    if (w.rules.get id).isNone then (.error .recordNotFound, w)
    else (.ok (), { w with rules := w.rules.update id d.apply d.key_apply })
  | .alertRuleCreate _ orgId d, w =>
    (.ok (), { w with rules := w.rules.insert (d.row orgId) (d.key_row orgId) })

/-- The database as a machine, all of whose calls can fail. -/
def machine : Machine Stmt.Resp Err Store := ⟨exec, fun _ => true, .fault⟩

/-- A program of the service. -/
abbrev Service (α : Type) := Program Stmt.Resp Err α

/-- Sends a statement. -/
abbrev query (s : Stmt) : Service s.Resp := Program.request s

/-- What the service uses of its runtime. -/
structure Env where
  toLowerCase : Text → Text

/-- `moderationDefaults`. -/
def moderationDefaults : ChatModeration :=
  ⟨false, [], .warn, true, 5, 10, .kick, []⟩

/-- `cleanBadWordRules`: words trimmed and in lower case, without empty or long ones and without
repetitions, 200 at most. -/
def cleanBadWordRules (env : Env) (value : List RequestedRule) (fallback : ModerationAction) :
    List BadWordRule :=
  (value.foldl (fun result item =>
    let word := env.toLowerCase item.word.trim
    if word = [] ∨ 80 < word.length ∨ result.any (fun r => r.word == word) then result
    else result ++ [⟨word, item.action.getD fallback⟩]) []).take 200

/-- Stored rules as requested ones. -/
def asRequested (rules : List BadWordRule) : List RequestedRule :=
  rules.map fun r => ⟨r.word, some r.action⟩

/-- The settings that a rule holds. -/
def settingsOf (env : Env) (rule : Option AlertRule) : ChatModeration :=
  match rule with
  | none => moderationDefaults
  | some r =>
    match r.condition with
    | .chatModeration _ settings => { settings with
        enabled := r.enabled
        badWordRules :=
          cleanBadWordRules env (asRequested settings.badWordRules) settings.badWordAction }
    | .other _ => { moderationDefaults with enabled := r.enabled }

/-- A number between two bounds. -/
def clamp (least most n : ℕ) : ℕ := min most (max least n)

/-- The settings that an update writes. -/
def merge (env : Env) (current : ChatModeration) (input : Patch) : ChatModeration :=
  let legacyAction := input.badWordAction.getD current.badWordAction
  let requestedRules :=
    match input.badWordRules, input.badWords with
    | some rules, _ => rules
    | none, some words => words.map fun word => ⟨word, none⟩
    | none, none => asRequested current.badWordRules
  { enabled := input.enabled.getD current.enabled
    badWordRules := cleanBadWordRules env requestedRules legacyAction
    badWordAction := legacyAction
    floodEnabled := input.floodEnabled.getD current.floodEnabled
    floodMessages := clamp 2 30 (input.floodMessages.getD current.floodMessages)
    floodWindowSeconds := clamp 2 300 (input.floodWindowSeconds.getD current.floodWindowSeconds)
    floodAction := input.floodAction.getD current.floodAction
    mutedPlayers := input.mutedPlayers.getD current.mutedPlayers }

/-- Whole settings as the input of an update. -/
def ChatModeration.asPatch (c : ChatModeration) : Patch :=
  ⟨some c.enabled, some (asRequested c.badWordRules), some (c.badWordRules.map BadWordRule.word),
    some c.badWordAction, some c.floodEnabled, some c.floodMessages, some c.floodWindowSeconds,
    some c.floodAction, some c.mutedPlayers⟩

/-- `playerId.trim().slice(0, 128)`. -/
def cleanId (playerId : Text) : Text := playerId.trim.take 128

/-- The entry of a muted player. -/
def muteEntry (playerId playerName : Text) (now : ℕ) : MutedPlayer :=
  let name := playerName.trim.take 128
  ⟨cleanId playerId, if name = [] then cleanId playerId else name, now⟩

/-- The muted players after one is muted or unmuted. -/
def setMuted (players : List MutedPlayer) (playerId playerName : Text) (muted : Bool) (now : ℕ) :
    List MutedPlayer :=
  players.filter (fun p => p.playerId != cleanId playerId) ++
    if muted then [muteEntry playerId playerName now] else []

namespace LogsService

/-- `getChatModeration`. -/
def getChatModeration (env : Env) (orgId server : Id) : Service ChatModeration := do
  let rules ← query (.moderationFindMany orgId)
  return settingsOf env (rules.find? (AlertRule.about server))

/-- `updateChatModeration`. -/
def updateChatModeration (env : Env) (caller : Call) (orgId server : Id) (input : Patch) :
    Service Unit := do
  let found ← query (.serverInstanceFindFirst server orgId)
  match found with
  | none => throw (.notFound (Text.of "Server instance not found"))
  | some name => do
    let current ← getChatModeration env orgId server
    let rules ← query (.alertRuleFindMany orgId)
    let data : RuleData := ⟨Text.of "Chat moderation: " ++ name, server, merge env current input⟩
    match rules.find? (AlertRule.about server) with
    | some existing => query (.alertRuleUpdate caller existing.id data)
    | none => query (.alertRuleCreate caller orgId data)

/-- `setPlayerMuted`. -/
def setPlayerMuted (env : Env) (caller : Call) (orgId server : Id) (playerId playerName : Text)
    (muted : Bool) (now : ℕ) : Service Unit := do
  let current ← getChatModeration env orgId server
  if cleanId playerId = [] then throw (.badRequest (Text.of "Player ID required"))
  else
    updateChatModeration env caller orgId server { current with
      mutedPlayers := setMuted current.mutedPlayers playerId playerName muted now }.asPatch

end LogsService

/-- The program of a call. -/
def Call.prog (env : Env) (call : Call) : Service Unit :=
  match call with
  | setPlayerMuted orgId server playerId playerName muted now =>
    LogsService.setPlayerMuted env call orgId server playerId playerName muted now
  | updateChatModeration orgId server input =>
    LogsService.updateChatModeration env call orgId server input

/-- What the rest of the control plane does: it keeps the settings of every server. -/
def SettingsKept (w w' : Store) : Prop :=
  ∀ orgId server, (w'.rulesOf orgId).find? (AlertRule.about server) =
    (w.rulesOf orgId).find? (AlertRule.about server)

/-- The two operations, and everything else around them. -/
def moderators (env : Env) : System Call Stmt.Resp Err Unit Store :=
  ⟨machine, Call.prog env, SettingsKept⟩

end Mastermind.Moderation
