import Mastermind.Platform.Throttle
import Mastermind.Platform.Utf16

/-!
# The alerts of an organization

`AlertsService.sendMatchingRules` posts an alert to the webhook of each rule of the organization
that asks for its type. A player who connects or disconnects is reported by several lines of a log,
which may come in any chunks, so that an alert of these two types is dropped if there was one for
the same player on the same server within the last 15 seconds. The service remembers when each of
them was let through, and forgets old ones when it remembers too many. It decides as if it forgot
none of them (`dropped_iff`), and what it remembers is bounded (`remembered_bounded`).

A key is the text of its parts with colons between them; the ids of organizations and servers have
no colons, so that the parts are those of the text. The ids of rules, organizations and servers are
numbers here. `upper` and `lower` are `toUpperCase` and `toLowerCase`, `lower` also for
`toLocaleLowerCase`. Where the database does not give the rules, there are none; where it refuses
the entry of the audit log after a post, the rules that come later get nothing.
-/

namespace Mastermind.Alerts

open Throttle

/-- The id of a record. -/
abbrev Id := ℕ

/-- `ALERT_TYPES`. -/
inductive AlertType where
  | serverDown
  | serverRestart
  | agentOffline
  | frigateDetection
  | playerConnected
  | playerDisconnected
  deriving DecidableEq

/-- The text of a type. -/
def AlertType.text : AlertType → Text
  | serverDown => Text.of "SERVER_DOWN"
  | serverRestart => Text.of "SERVER_RESTART"
  | agentOffline => Text.of "AGENT_OFFLINE"
  | frigateDetection => Text.of "FRIGATE_DETECTION"
  | playerConnected => Text.of "PLAYER_CONNECTED"
  | playerDisconnected => Text.of "PLAYER_DISCONNECTED"

/-- `model AlertRule`, with `condition.type`, `channel.type` and `channel.webhookUrl` as strings. -/
structure AlertRule where
  id : Id
  orgId : Id
  enabled : Bool
  conditionType : Text
  channelType : Text
  webhookUrl : Text

/-- `AlertContext`, but for what the message is made of. -/
structure AlertContext where
  orgId : Id
  serverInstanceId : Option Id
  playerName : Option Text
  steamId : Option Text
  eosId : Option Text

/-- What makes two alerts the same. -/
structure Key where
  orgId : Id
  serverInstanceId : Option Id
  type : AlertType
  player : Text
  deriving DecidableEq

/-- A call of `sendMatchingRules` at a time, with the rules as they are then. `audited` says of a
rule whether `auditAlert` writes its entry after the post. -/
structure Request where
  type : AlertType
  context : AlertContext
  now : ℤ
  rules : List AlertRule
  audited : Id → Bool

/-- A call of `DiscordService.send`, without its message. -/
structure Post where
  webhookUrl : Text
  rateLimitKey : Id × Id
  deriving DecidableEq

/-- How long the same alert is dropped. -/
def repeatMs : ℤ := 15000

/-- How many alerts are remembered before old ones are forgotten. -/
def remembered : ℕ := 1000

section

variable (upper lower : Text → Text)

/-- The player of an alert: the name, or else an id. -/
def AlertContext.player (context : AlertContext) : Option Text :=
  let names := [context.playerName.map fun name => lower name.trim, context.steamId, context.eosId]
  names.reduceOption.find? (· ≠ [])

/-- The key of an alert that is dropped when it comes again. -/
def Request.key (r : Request) : Option Key :=
  if r.type = .playerConnected ∨ r.type = .playerDisconnected then
    (r.context.player lower).map fun player =>
      ⟨r.context.orgId, r.context.serverInstanceId, r.type, player⟩
  else none

/-- The rule asks for the alert. -/
def AlertRule.Matches (rule : AlertRule) (r : Request) : Prop :=
  rule.orgId = r.context.orgId ∧ rule.enabled = true ∧ upper rule.conditionType = r.type.text ∧
    lower rule.channelType = Text.of "discord" ∧ rule.webhookUrl.trim ≠ []

instance (rule : AlertRule) (r : Request) : Decidable (rule.Matches upper lower r) :=
  inferInstanceAs (Decidable (_ ∧ _))

/-- The loop over the rules: a post, and then its entry in the audit log. -/
def Request.postsTo (r : Request) : List AlertRule → List Post
  | [] => []
  | rule :: rest =>
    if rule.Matches upper lower r then
      ⟨rule.webhookUrl.trim, (r.context.orgId, rule.id)⟩ ::
        if r.audited rule.id then r.postsTo rest else []
    else r.postsTo rest

/-- The posts of an alert. -/
def Request.posts (r : Request) : List Post := r.postsTo upper lower r.rules

/-- `sendMatchingRules`: its posts, or `none` if the alert is dropped, and what is remembered. -/
def sendMatchingRules (recent : Memory Key) (r : Request) : Option (List Post) × Memory Key :=
  match r.key lower with
  | none => (some (r.posts upper lower), recent)
  | some key =>
    match recent.get key with
    | some previous =>
      if r.now - previous < repeatMs then (none, recent)
      else (some (r.posts upper lower), note recent key r.now)
    | none => (some (r.posts upper lower), note recent key r.now)
where
  /-- Remembers an alert. -/
  note (recent : Memory Key) (key : Key) (now : ℤ) : Memory Key :=
    let noted := recent.set key now
    if remembered < noted.keys.card then noted.prune repeatMs now else noted

/-- What is remembered after some requests. -/
def after (requests : List Request) : Memory Key :=
  requests.foldl (fun recent r => (sendMatchingRules upper lower recent r).2) .empty

/-- The request is dropped after others. -/
def Dropped (before : List Request) (r : Request) : Prop :=
  (sendMatchingRules upper lower (after upper lower before) r).1 = none

/-- The attempt of a request. -/
def Request.attempt (r : Request) : Attempt Key := ⟨r.key lower, r.now⟩

variable {upper lower}

/-- A request is a step of the throttle. -/
theorem sendMatchingRules_eq (recent : Memory Key) (r : Request) :
    sendMatchingRules upper lower recent r =
      (if refuses repeatMs recent (r.attempt lower) then none else some (r.posts upper lower),
        step repeatMs remembered recent (r.attempt lower)) := by
  unfold sendMatchingRules step refuses Request.attempt
  cases r.key lower with
  | none => rfl
  | some key =>
    rcases Option.eq_none_or_eq_some (recent.get key) with hget | ⟨previous, hget⟩
    · simp [hget, sendMatchingRules.note]
    · by_cases hrecent : r.now - previous < repeatMs
      · simp [hget, hrecent]
      · simp [hget, hrecent, sendMatchingRules.note]

theorem after_eq (requests : List Request) :
    after upper lower requests =
      memory repeatMs remembered (requests.map (Request.attempt lower)) := by
  unfold after memory
  rw [List.foldl_map]
  congr 1
  funext recent r
  rw [sendMatchingRules_eq]

theorem not_dropped_iff (upper lower : Text → Text) {before : List Request} {r : Request} :
    ¬Dropped upper lower before r ↔
      Admits repeatMs remembered (before.map (Request.attempt lower)) (r.attempt lower) := by
  unfold Dropped Admits
  rw [sendMatchingRules_eq, after_eq]
  dsimp only
  split_ifs with hrefuses
  · simp [hrefuses]
  · simpa using hrefuses

/-- The clock of the requests is that of their attempts. -/
theorem pairwise_attempts {before : List Request} {r : Request}
    (hclock : (before ++ [r]).Pairwise fun a b => a.now ≤ b.now) :
    (before.map (Request.attempt lower) ++ [r.attempt lower]).Pairwise
      fun a b => a.time ≤ b.time := by
  rw [← List.map_singleton, ← List.map_append, List.pairwise_map]
  exact hclock

/-- **An alert is dropped only for a recent one.** Under a clock that does not go back, a request is
dropped if and only if, within the 15 seconds before it, an earlier one with its key was not. -/
theorem dropped_iff {before : List Request} {r : Request}
    (hclock : (before ++ [r]).Pairwise fun a b => a.now ≤ b.now) :
    Dropped upper lower before r ↔ ∃ earlier e later, before = earlier ++ e :: later ∧
      ¬Dropped upper lower earlier e ∧ (r.key lower).isSome ∧ e.key lower = r.key lower ∧
        r.now - e.now < repeatMs := by
  have hadmits := (not_dropped_iff upper lower).trans (admits_iff (pairwise_attempts hclock))
  constructor
  · intro hdropped
    by_contra hnone
    refine hadmits.mpr (fun key hkey t hadmitted => ?_) hdropped
    obtain ⟨earlier, a, later, hsplit, ha, hakey, rfl⟩ := hadmitted
    obtain ⟨earlier, rest, rfl, rfl, hrest⟩ := List.map_eq_append_iff.mp hsplit
    obtain ⟨e, later, rfl, rfl, rfl⟩ := List.map_eq_cons_iff.mp hrest
    by_contra hrecent
    have he := (not_dropped_iff upper lower).mpr ha
    -- an admitted attempt that is not a window old is an alert that was not dropped
    refine hnone ⟨earlier, e, later, rfl, he, ?_, ?_, not_le.mp hrecent⟩
    · exact Option.isSome_iff_exists.mpr ⟨key, hkey⟩
    · exact hakey.trans hkey.symm
  · rintro ⟨earlier, e, later, rfl, he, hsome, hkey, hrecent⟩
    by_contra hdropped
    obtain ⟨key, hrkey⟩ := Option.isSome_iff_exists.mp hsome
    have hold := hadmits.mp hdropped key hrkey e.now
      ⟨earlier.map (Request.attempt lower), e.attempt lower, later.map (Request.attempt lower),
        by simp, (not_dropped_iff upper lower).mp he, hkey.trans hrkey, rfl⟩
    exact absurd hrecent (not_lt.mpr hold)

/-- A rule for the connections of players. -/
def connectionRule : AlertRule :=
  ⟨7, 0, true, Text.of "PLAYER_CONNECTED", Text.of "discord", Text.of "https://discord.test/hook"⟩

/-- Ann connects to a server, at a time. -/
def annConnects (now : ℤ) : Request :=
  ⟨.playerConnected, ⟨0, some 4, some (Text.of " ann"), none, none⟩, now, [connectionRule],
    fun _ => true⟩

/-- The second of two alerts within the 15 seconds is dropped. -/
theorem dropped_iff_twice : Dropped id id [annConnects 0] (annConnects 14999) :=
  (dropped_iff (by simp [annConnects])).mpr
    ⟨[], annConnects 0, [], rfl, by unfold Dropped; decide, by decide, by decide, by decide⟩

/-- What is remembered is bounded: there are at most 1000 keys, or they are all of the 15 seconds
before the alert that was noted last. -/
theorem remembered_bounded (requests : List Request) :
    (after upper lower requests).keys.card ≤ 1000 ∨ ∃ r ∈ requests,
      ∀ k ∈ (after upper lower requests).keys,
        r.now - (after upper lower requests).stamp k < repeatMs := by
  rw [after_eq]
  refine (card_memory_le (requests.map (Request.attempt lower))).imp_right ?_
  rintro ⟨a, ha, hrecent⟩
  obtain ⟨r, hr, rfl⟩ := List.mem_map.mp ha
  exact ⟨r, hr, hrecent⟩

end

end Mastermind.Alerts
