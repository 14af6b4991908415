import Mastermind.Discord.RateLimit
import Mastermind.Players.Chat

/-!
# The relay of the chat to Discord

`AlertsService.relayPlayerChat` posts a player's message to the webhook of each rule that asks for
it, and `LogsService` keeps the message as pending if one of them refuses it. A retry of a pending
message goes to all webhooks again, to those that accepted it as well (`retry_repeats`).

The handlers of uploads run side by side: each parses its chunk and then retries what is pending for
its server, and between two awaited calls of one the others go on. A call may fail, the control
plane may restart, chunks may come twice and the rules may change at any time. `Stage` is the call
that a handler makes next. Two handlers that overlap may find the same pending message, since
neither claims it, and a message whose row is not deleted is tried again after it was accepted;
`Orderly` excludes both, next to the mixed attempts, and in a run of orderly steps no delivery is
repeated (`sent_once`).

The invariant is that a handler which tries an event is the only one that may: what handlers hold is
disjoint (`Settled.apart`), and a webhook that has accepted an event which may be tried again has
done so in the attempt under way (`Settled.accepted`). `answer` is the result of
`DiscordService.send`, which never rejects, and `lower` is `toLowerCase`.
-/

namespace Mastermind.Relay

open Discord Players

/-- The id of a record. -/
abbrev Id := ℕ

/-- `model AlertRule`, as the relay reads it: `condition.type`, `condition.serverInstanceId` unless
it is falsy, and `channel.type` and `channel.webhookUrl` as strings. -/
structure AlertRule where
  id : Id
  orgId : Id
  enabled : Bool
  conditionType : Option Text
  serverInstanceId : Option Id
  channelType : Text
  webhookUrl : Text

/-- The parameter of `relayPlayerChat`. -/
structure Context where
  eventId : Id
  orgId : Id
  serverInstanceId : Id
  serverInstanceName : Text
  playerName : Text
  playerId : Text
  channel : Text
  message : Text

/-- The embed of a post, without its time and color. -/
structure Embed where
  title : Text
  description : Text
  server : Text
  channel : Text
  footer : Text

/-- A call of `DiscordService.send` about an event, with its result. The calls of one
`relayPlayerChat` have the same number. The key of the rate limit is made of the organization, the
rule and the event. -/
structure Send where
  attempt : ℕ
  eventId : Id
  webhookUrl : Text
  embed : Embed
  rateLimitKey : Id × Id × Id
  result : Result

/-- `playerName.replace(/[*_`~|>]/g, '\\$&').slice(0, 80)`. -/
def safeName (playerName : Text) : Text :=
  (playerName.flatMap fun u => if (Text.of "*_`~|>").contains u then [92, u] else [u]).take 80

/-- `message.replace(/@/g, '@\u200b').slice(0, 1800)`. -/
def safeMessage (message : Text) : Text :=
  (message.flatMap fun u => if u = 64 then [64, 0x200b] else [u]).take 1800

/-- The embed of a message. -/
def embedOf (context : Context) : Embed where
  title := [0xd83d, 0xdcac, 32] ++ safeName context.playerName
  description := safeMessage context.message
  server := context.serverInstanceName
  channel := context.channel
  footer := Text.of "7DTD player chat " ++ 0xb7 :: Text.of " " ++ context.playerId

/-- The rules that relay the chat of a server to a webhook of Discord, with the webhooks. -/
def destinations (lower : Text → Text) (rules : List AlertRule) (orgId serverInstanceId : Id) :
    List (Id × Text) :=
  (rules.filter fun rule => rule.orgId = orgId ∧ rule.enabled ∧
    rule.conditionType = some (Text.of "chat_relay") ∧
    rule.serverInstanceId.all (· = serverInstanceId) ∧
    lower rule.channelType = Text.of "discord" ∧ rule.webhookUrl.trim ≠ []).map
      fun rule => (rule.id, rule.webhookUrl.trim)

/-- The error after the sends: that of the last one that failed. -/
def lastError (error : Option Text) : List Result → Option Text
  | [] => error
  | .ok :: results => lastError error results
  | .failed _ message :: results => lastError (some message) results

/-- The error that `relayPlayerChat` returns: an empty one counts as none, and without one the event
counts as sent. -/
def errorOf (results : List Result) : Option Text := (lastError none results).filter (· ≠ [])

/-- An event of the type `player_chat`. -/
structure Event where
  id : Id
  orgId : Id
  sourceId : Id
  serverInstanceName : Text
  payload : ChatLine

/-- An event of the type `player_chat_relay_pending`. -/
structure PendingRelay where
  id : Id
  context : Context
  lastError : Option Text

/-- Who calls `relayPlayerChat`: `parseChat`, with the lines that are left of its chunk, or
`retryChatRelays`, with the rows that are left. -/
inductive Caller where
  | parseChat (context : Context) (lines : List Text)
  | retryChatRelays (row : PendingRelay) (rows : List PendingRelay)

/-- What the caller tells `relayPlayerChat`. -/
def Caller.context : Caller → Context
  | .parseChat context _ => context
  | .retryChatRelays row _ => row.context

/-- The call that the handler of an upload makes next: `parseChat` looks for an event with the token
of a line, stores the event, has it moderated, relays it and keeps it as pending;
`retryChatRelays` reads the pending rows, and relays and deletes one after the other. A
`relayPlayerChat` reads the rules, and then sends to the destinations that are left. -/
inductive Stage where
  | line (lines : List Text)
  | store (c : ChatLine) (lines : List Text)
  | moderate (context : Context) (lines : List Text)
  | rules (caller : Caller)
  | sends (caller : Caller) (attempt : ℕ) (destinations : List (Id × Text)) (results : List Result)
  | keep (context : Context) (error : Option Text) (lines : List Text)
  | pending
  | rows (rows : List PendingRelay)
  | delete (row : PendingRelay) (rows : List PendingRelay) (attempt : ℕ) (results : List Result)

/-- The handler of an upload, by its server. -/
structure Handler where
  server : Id
  stage : Stage

/-- The rules and events, the unfinished line of each server, the handlers under way by the number
of their request, and the calls of `send` so far, newest first. -/
structure Desk where
  rules : List AlertRule
  nextId : Id
  events : List Event
  pending : List PendingRelay
  chatLineBuffers : Id → Text
  nextRequest : ℕ
  handlers : ℕ → Option Handler
  nextAttempt : ℕ
  sends : List Send

/-- The steps: the rules change, a chunk of a server's log comes, the next call of a handler
completes or fails, or the control plane restarts. -/
inductive Action where
  | setRules (rules : List AlertRule)
  | append (server : Id) (content : Text)
  | next (request : ℕ) (moderated : Bool) (answer : Result)
  | fail (request : ℕ)
  | restart

section Operations

variable (lower : Text → Text) (sites : Sites)

namespace Desk

/-- Nothing yet. -/
def empty : Desk := ⟨[], 0, [], [], fun _ => [], 0, fun _ => none, 0, []⟩

/-- A handler goes on to its next call, or is done. -/
def put (s : Desk) (request : ℕ) (t : Option Handler) : Desk :=
  { s with handlers := Function.update s.handlers request t }

/-- A handler goes on to its next call. -/
def goto (s : Desk) (request : ℕ) (server : Id) (stage : Stage) : Desk :=
  s.put request (some ⟨server, stage⟩)

/-- The context of a message. -/
def contextOf (s : Desk) (server : Id) (c : ChatLine) : Context :=
  ⟨s.nextId, sites.orgId server, server, sites.name server, c.playerName, c.playerId, c.channel,
    c.message⟩

/-- The event of a message is stored. -/
def store (s : Desk) (server : Id) (c : ChatLine) : Desk :=
  { s with
    nextId := s.nextId + 1
    events := s.events ++ [⟨s.nextId, sites.orgId server, server, sites.name server, c⟩] }

/-- There is an event of the server with the token of a line. -/
def hasDuplicate (s : Desk) (server : Id) (c : ChatLine) : Bool :=
  s.events.any fun e => e.orgId = sites.orgId server ∧ e.sourceId = server ∧
    e.payload.logTimestamp = c.logTimestamp

/-- A message is kept as pending. -/
def keep (s : Desk) (context : Context) (error : Option Text) : Desk :=
  { s with
    nextId := s.nextId + 1
    pending := s.pending ++ [⟨s.nextId, context, error⟩] }

/-- A message is no longer pending. -/
def discard (s : Desk) (row : PendingRelay) : Desk :=
  { s with pending := s.pending.filter fun other => other.id ≠ row.id }

/-- An event is posted to a destination. -/
def send (s : Desk) (context : Context) (attempt : ℕ) (destination : Id × Text)
    (answer : Result) : Desk :=
  { s with
    sends := ⟨attempt, context.eventId, destination.2, embedOf context,
      (context.orgId, destination.1, context.eventId), answer⟩ :: s.sends }

/-- The pending messages that a retry takes: the ten oldest of the server. -/
def due (s : Desk) (server : Id) : List PendingRelay :=
  (s.pending.filter fun row => row.context.orgId = sites.orgId server ∧
    row.context.serverInstanceId = server).take 10

/-- The next call of a handler completes. -/
def next (s : Desk) (request : ℕ) (server : Id) (moderated : Bool) (answer : Result) :
    Stage → Desk
  | .line [] => s.goto request server .pending
  | .line (line :: lines) =>
    match ChatLine.ofLine line with
    | none => s.goto request server (.line lines)
    | some c =>
      if c.logTimestamp ≠ [] ∧ s.hasDuplicate sites server c then
        s.goto request server (.line lines)
      else s.goto request server (.store c lines)
  | .store c lines =>
    (s.store sites server c).goto request server
      (if c.isServer then .line lines else .moderate (s.contextOf sites server c) lines)
  | .moderate context lines =>
    s.goto request server (if moderated then .line lines else .rules (.parseChat context lines))
  | .rules caller =>
    { s with nextAttempt := s.nextAttempt + 1 }.goto request server
      (.sends caller s.nextAttempt
        (destinations lower s.rules caller.context.orgId caller.context.serverInstanceId) [])
  | .sends caller attempt (destination :: rest) results =>
    (s.send caller.context attempt destination answer).goto request server
      (.sends caller attempt rest (results ++ [answer]))
  | .sends (.parseChat context lines) _ [] results =>
    -- `configured && !sent`: an error comes from a destination
    s.goto request server
      (if (errorOf results).isSome then .keep context (errorOf results) lines else .line lines)
  | .sends (.retryChatRelays row rows) attempt [] results =>
    -- `sent || !configured`
    s.goto request server
      (if (errorOf results).isNone then .delete row rows attempt results else .rows rows)
  | .keep context error lines => (s.keep context error).goto request server (.line lines)
  | .pending => s.goto request server (.rows (s.due sites server))
  | .rows [] => s.put request none
  | .rows (row :: rows) => s.goto request server (.rules (.retryChatRelays row rows))
  | .delete row rows _ _ =>
    -- the deletion of a row that is gone rejects
    if s.pending.any fun other => other.id = row.id then
      (s.discard row).goto request server (.rows rows)
    else s.put request none

/-- The next call of a handler fails: `append` goes on to the retries after `parseChat`, and
nothing comes after those. A message whose moderation fails is relayed, and a send never fails. -/
def fail (s : Desk) (request : ℕ) (server : Id) : Stage → Desk
  | .line _ | .store _ _ | .keep _ _ _ | .rules (.parseChat _ _) => s.goto request server .pending
  | .moderate context lines => s.goto request server (.rules (.parseChat context lines))
  | .sends _ _ _ _ => s
  | .rules (.retryChatRelays _ _) | .pending | .rows _ | .delete _ _ _ _ => s.put request none

/-- A step. A handler that is done has no next call. -/
def step (s : Desk) : Action → Desk
  | .setRules rules => { s with rules }
  | .append server content =>
    let complete := completeLines (s.chatLineBuffers server) content
    { s with
      chatLineBuffers := Function.update s.chatLineBuffers server complete.2
      nextRequest := s.nextRequest + 1 }.goto s.nextRequest server (.line complete.1)
  | .next request moderated answer =>
    match s.handlers request with
    | none => s
    | some t => s.next lower sites request t.server moderated answer t.stage
  | .fail request =>
    match s.handlers request with
    | none => s
    | some t => s.fail request t.server t.stage
  | .restart => { s with chatLineBuffers := fun _ => [], handlers := fun _ => none }

end Desk

/-- The states of the runs in which every step is allowed. -/
inductive Reaches (allowed : Desk → Action → Prop) : Desk → Prop where
  | empty : Reaches allowed .empty
  | step {s : Desk} {a : Action} : Reaches allowed s → allowed s a →
      Reaches allowed (s.step lower sites a)

end Operations

/-- Two events have the token of one line of a server's log. -/
def Event.SameLine (e e' : Event) : Prop :=
  e.orgId = e'.orgId ∧ e.sourceId = e'.sourceId ∧ e.payload.logTimestamp ≠ [] ∧
    e.payload.logTimestamp = e'.payload.logTimestamp

/-- Two ids are of one event, or of events about one line. -/
def SameEvent (s : Desk) (i j : Id) : Prop :=
  i = j ∨ ∃ e ∈ s.events, ∃ e' ∈ s.events, e.id = i ∧ e'.id = j ∧ e.SameLine e'

/-- A webhook that has accepted an event is not sent it again by another attempt. -/
def SentOnce (s : Desk) : Prop :=
  s.sends.Pairwise fun later earlier => later.attempt ≠ earlier.attempt →
    SameEvent s later.eventId earlier.eventId → earlier.result = .ok →
      later.webhookUrl ≠ earlier.webhookUrl

/-! ## Orderly steps -/

/-- Of the results of an attempt one is a success, and the last failure has an error that is not
empty. -/
def Mixed (results : List Result) : Prop :=
  .ok ∈ results ∧ ∃ before statusCode error after,
    results = before ++ .failed statusCode error :: after ∧ error ≠ [] ∧ ∀ r ∈ after, r = .ok

namespace Stage

/-- The rows that a retry has read and not finished. -/
def held : Stage → List PendingRelay
  | .rules (.retryChatRelays row rest) | .sends (.retryChatRelays row rest) _ _ _
  | .delete row rest _ _ => row :: rest
  | .rows rest => rest
  | _ => []

/-- The results, so far, of the attempt of a retry whose row is not deleted yet. -/
def retried : Stage → List Result
  | .sends (.retryChatRelays _ _) _ _ results | .delete _ _ _ results => results
  | _ => []

/-- The token of a line that was found to have no event, and whose event is not stored yet. -/
def unstored : Stage → Option Text
  | .store c _ => if c.logTimestamp = [] then none else some c.logTimestamp
  | _ => none

end Stage

/-- Another handler of the server is about to store an event with the token. -/
def Desk.Storing (s : Desk) (request : ℕ) (server : Id) (token : Text) : Prop :=
  ∃ other < s.nextRequest, other ≠ request ∧ ∃ t ∈ s.handlers other,
    t.server = server ∧ t.stage.unstored = some token

/-- Another retry holds the row. -/
def Desk.Held (s : Desk) (request : ℕ) (row : PendingRelay) : Prop :=
  ∃ other < s.nextRequest, other ≠ request ∧ ∃ t ∈ s.handlers other,
    ∃ row' ∈ t.stage.held, row'.id = row.id

/-- What is asked of the next call of a handler that completes: no attempt ends mixed, no line is
found to have no event while another handler stores one with its token, and no retry reads a row
that another one holds. -/
def Stage.Orderly (sites : Sites) (s : Desk) (request : ℕ) (server : Id) : Stage → Prop
  | .line (head :: _) => ∀ c ∈ ChatLine.ofLine head, c.logTimestamp ≠ [] →
    ¬s.Storing request server c.logTimestamp
  | .sends _ _ [] results => ¬Mixed results
  | .pending => ∀ row ∈ s.due sites server, ¬s.Held request row
  | _ => True

/-- Calls complete in order, and no retry that a webhook has accepted stops before the deletion of
its row. -/
def Orderly (sites : Sites) (s : Desk) : Action → Prop
  | .setRules _ | .append _ _ => True
  | .next request _ _ => ∀ t ∈ s.handlers request, t.stage.Orderly sites s request t.server
  | .fail request => ∀ t ∈ s.handlers request, .ok ∉ t.stage.retried
  | .restart => ∀ request < s.nextRequest, ∀ t ∈ s.handlers request, .ok ∉ t.stage.retried

/-! ## An attempt -/

/-- The error after the sends is that of the last failure, or the one before them. -/
theorem lastError_eq_some {error : Option Text} {results : List Result} {message : Text}
    (h : lastError error results = some message) :
    (∃ before statusCode after, results = before ++ .failed statusCode message :: after ∧
      ∀ r ∈ after, r = .ok) ∨ error = some message ∧ ∀ r ∈ results, r = .ok := by
  induction results generalizing error with
  | nil => exact .inr ⟨h, by simp⟩
  | cons r results ih =>
    cases r with
    | ok =>
      rcases ih h with ⟨before, statusCode, after, hresults, hafter⟩ | ⟨herror, hall⟩
      · exact .inl ⟨.ok :: before, statusCode, after, by simp [hresults], hafter⟩
      · exact .inr ⟨herror, by simpa using hall⟩
    | failed statusCode last =>
      rcases ih h with ⟨before, statusCode', after, hresults, hafter⟩ | ⟨herror, hall⟩
      · exact .inl ⟨.failed statusCode last :: before, statusCode', after, by simp [hresults],
          hafter⟩
      · obtain rfl := Option.some.inj herror
        exact .inl ⟨[], statusCode, results, rfl, hall⟩

/-- An attempt that is not mixed and has an error was accepted nowhere. -/
theorem unaccepted_of_error {results : List Result} (hmixed : ¬Mixed results)
    (herror : (errorOf results).isSome = true) : .ok ∉ results := by
  intro hok
  obtain ⟨message, hmessage⟩ := Option.isSome_iff_exists.mp herror
  obtain ⟨hlast, hne⟩ := Option.filter_eq_some_iff.mp hmessage
  refine hmixed ⟨hok, ?_⟩
  rcases lastError_eq_some hlast with ⟨before, statusCode, after, hresults, hafter⟩ | ⟨hnone, -⟩
  · exact ⟨before, statusCode, message, after, hresults, by simpa using hne, hafter⟩
  · cases hnone

theorem lastError_append (error : Option Text) (before after : List Result) :
    lastError error (before ++ after) = lastError (lastError error before) after := by
  induction before generalizing error with
  | nil => rfl
  | cons r before ih => cases r <;> exact ih _

theorem lastError_of_ok (error : Option Text) {results : List Result}
    (h : ∀ r ∈ results, r = .ok) : lastError error results = error := by
  induction results with
  | nil => rfl
  | cons r results ih =>
    obtain rfl := h r List.mem_cons_self
    exact ih fun r hr => h r (List.mem_cons_of_mem _ hr)

/-- An attempt is mixed if it was accepted somewhere and has an error. -/
theorem mixed_iff (results : List Result) :
    Mixed results ↔ .ok ∈ results ∧ (errorOf results).isSome = true := by
  constructor
  · rintro ⟨hok, before, statusCode, error, after, rfl, hne, hafter⟩
    refine ⟨hok, ?_⟩
    unfold errorOf
    rw [lastError_append, lastError, lastError_of_ok _ hafter]
    simp [Option.filter, hne]
  · rintro ⟨hok, herror⟩
    by_contra hmixed
    exact unaccepted_of_error hmixed herror hok

instance (results : List Result) : Decidable (Mixed results) :=
  decidable_of_iff _ (mixed_iff results).symm

/-! ## What handlers hold -/

namespace Stage

/-- The event that a handler tries for the first time. -/
def first : Stage → List Id
  | .moderate context _ | .rules (.parseChat context _) | .sends (.parseChat context _) _ _ _
  | .keep context _ _ => [context.eventId]
  | _ => []

/-- The events that a handler tries. -/
def claims (t : Stage) : List Id := t.first ++ t.held.map fun row => row.context.eventId

/-- The attempt under way, with its event and its results so far. -/
def trial : Stage → Option (ℕ × Id × List Result)
  | .sends caller attempt _ results => some (attempt, caller.context.eventId, results)
  | .delete row _ attempt results => some (attempt, row.context.eventId, results)
  | _ => none

variable {t : Stage} {n : ℕ} {e : Id} {results : List Result}

/-- An attempt under way is about an event that the handler tries. -/
theorem mem_claims_of_trial (h : t.trial = some (n, e, results)) : e ∈ t.claims := by
  cases t with
  | sends caller _ _ _ =>
    cases caller <;> simp_all [trial, claims, first, held, Caller.context]
  | delete _ _ _ _ => simp_all [trial, claims, held]
  | _ => simp [trial] at h

/-- It is a retry's, or the first one about the event. -/
theorem retried_or_first_of_trial (h : t.trial = some (n, e, results)) :
    t.retried = results ∨ e ∈ t.first := by
  cases t with
  | sends caller _ _ _ =>
    cases caller <;> simp_all [trial, first, retried, Caller.context]
  | delete _ _ _ _ => simp_all [trial, retried]
  | _ => simp [trial] at h

end Stage

/-- What holds of a handler on its own: its ids are old, the token of its line is new, its rows are
pending and its first attempt is about an event that is not. -/
structure Fits (sites : Sites) (s : Desk) (request : ℕ) (t : Handler) : Prop where
  lt : request < s.nextRequest
  claims_lt : ∀ e ∈ t.stage.claims, e < s.nextId
  unstored : ∀ token ∈ t.stage.unstored, ∀ e ∈ s.events,
    ¬(e.orgId = sites.orgId t.server ∧ e.sourceId = t.server ∧ e.payload.logTimestamp = token)
  held : ∀ row ∈ t.stage.held, row ∈ s.pending
  distinct : t.stage.held.Pairwise fun p q => p.id ≠ q.id
  first : ∀ e ∈ t.stage.first, ∀ p ∈ s.pending, p.context.eventId ≠ e

/-- Two handlers try no event both, nor store an event with the same token. -/
structure Apart (t u : Handler) : Prop where
  claims : ∀ e ∈ t.stage.claims, e ∉ u.stage.claims
  unstored : t.server = u.server → ∀ token ∈ t.stage.unstored, token ∉ u.stage.unstored

theorem Apart.symm {t u : Handler} (h : Apart t u) : Apart u t :=
  ⟨fun e he ht => h.claims e ht he, fun hserver token hu ht => h.unstored hserver.symm token ht hu⟩

/-- What holds of the desk whatever was accepted. -/
structure Claimed (sites : Sites) (s : Desk) : Prop where
  fits : ∀ i t, s.handlers i = some t → Fits sites s i t
  apart : ∀ i j t u, i ≠ j → s.handlers i = some t → s.handlers j = some u → Apart t u
  sends_lt : ∀ x ∈ s.sends, x.eventId < s.nextId
  pending_lt : ∀ p ∈ s.pending, p.id < s.nextId ∧ p.context.eventId < s.nextId
  tokens : s.events.Pairwise fun e e' => ¬e.SameLine e'
  distinct : s.pending.Pairwise fun p q => p.id ≠ q.id ∧ p.context.eventId ≠ q.context.eventId

/-- An event may be tried. -/
def Desk.Open (s : Desk) (e : Id) : Prop :=
  (∃ p ∈ s.pending, p.context.eventId = e) ∨ ∃ i, ∃ t ∈ s.handlers i, e ∈ t.stage.first

/-- A handler has an attempt about the event under way that was accepted. -/
def Desk.Trying (s : Desk) (attempt : ℕ) (e : Id) : Prop :=
  ∃ i, ∃ t ∈ s.handlers i, ∃ results, t.stage.trial = some (attempt, e, results) ∧ .ok ∈ results

/-- What holds of the desk: an accepted event that may be tried is just being tried, and no
accepted event was tried again. -/
structure Settled (sites : Sites) (s : Desk) : Prop where
  claimed : Claimed sites s
  accepted : ∀ x ∈ s.sends, x.result = .ok → s.Open x.eventId → s.Trying x.attempt x.eventId
  once : s.sends.Pairwise fun later earlier => later.attempt ≠ earlier.attempt →
    later.eventId = earlier.eventId → earlier.result ≠ .ok

section Moves

variable {sites : Sites} {s : Desk} {i : ℕ} {t : Handler} {t' : Option Handler}

namespace Claimed

/-- Two pending rows with one id, or about one event, are one row. -/
theorem eq_of_pending (h : Claimed sites s) {p q : PendingRelay} (hp : p ∈ s.pending)
    (hq : q ∈ s.pending) (heq : p.id = q.id ∨ p.context.eventId = q.context.eventId) : p = q := by
  have hsymm : Std.Symm fun p q : PendingRelay =>
      p.id ≠ q.id ∧ p.context.eventId ≠ q.context.eventId :=
    ⟨fun a b hab => ⟨hab.1.symm, hab.2.symm⟩⟩
  by_contra hne
  have happart := h.distinct.forall hp hq hne
  exact heq.elim happart.1 happart.2

/-- Events of the same line are one event. -/
theorem sameEvent_iff (h : Claimed sites s) {e e' : Id} : SameEvent s e e' ↔ e = e' := by
  refine ⟨?_, .inl⟩
  rintro (rfl | ⟨x, hx, y, hy, rfl, rfl, hline⟩)
  · rfl
  · have hsymm : Std.Symm fun e e' : Event => ¬e.SameLine e' := by
      refine ⟨fun a b hab ⟨horg, hsource, hne, htoken⟩ => hab ?_⟩
      exact ⟨horg.symm, hsource.symm, htoken ▸ hne, htoken.symm⟩
    by_contra hid
    exact h.tokens.forall hx hy (fun heq => hid (congrArg Event.id heq)) hline

/-- What a handler tries may be tried. -/
theorem open_of_claims (h : Claimed sites s) (ht : s.handlers i = some t) {e : Id}
    (he : e ∈ t.stage.claims) : s.Open e := by
  rcases List.mem_append.mp he with he | he
  · exact .inr ⟨i, t, ht, he⟩
  · obtain ⟨row, hrow, rfl⟩ := List.mem_map.mp he
    exact .inl ⟨row, (h.fits i t ht).held row hrow, rfl⟩

/-- No other handler tries it. -/
theorem owner (h : Claimed sites s) (ht : s.handlers i = some t) {e : Id}
    (he : e ∈ t.stage.claims) {j : ℕ} {u : Handler} (hu : s.handlers j = some u)
    (heu : e ∈ u.stage.claims) : j = i := by
  by_contra hne
  exact (h.apart j i u t hne hu ht).claims e heu he

/-- A handler goes on to another stage. -/
theorem put (h : Claimed sites s) (hfits : ∀ u ∈ t', Fits sites s i u)
    (hapart : ∀ u ∈ t', ∀ j w, j ≠ i → s.handlers j = some w → Apart u w) :
    Claimed sites (s.put i t') where
  fits j u hu := by
    have hfit : Fits sites s j u := by
      by_cases hj : j = i
      · subst hj
        exact hfits u (by simpa [Desk.put] using hu)
      · exact h.fits j u (by simpa [Desk.put, hj] using hu)
    exact ⟨hfit.lt, hfit.claims_lt, hfit.unstored, hfit.held, hfit.distinct, hfit.first⟩
  apart j k u w hne hu hw := by
    by_cases hj : j = i
    · subst hj
      exact hapart u (by simpa [Desk.put] using hu) k w hne.symm
        (by simpa [Desk.put, hne.symm] using hw)
    · by_cases hk : k = i
      · subst hk
        exact (hapart w (by simpa [Desk.put] using hw) j u hne
          (by simpa [Desk.put, hne] using hu)).symm
      · exact h.apart j k u w hne (by simpa [Desk.put, hj] using hu)
          (by simpa [Desk.put, hk] using hw)
  sends_lt := h.sends_lt
  pending_lt := h.pending_lt
  tokens := h.tokens
  distinct := h.distinct

/-- A handler goes on to a stage that holds no more. -/
theorem narrow (h : Claimed sites s) (ht : s.handlers i = some t)
    (hfirst : ∀ u ∈ t', u.stage.first ⊆ t.stage.first)
    (hheld : ∀ u ∈ t', u.stage.held.Sublist t.stage.held)
    (hunstored : ∀ u ∈ t', u.stage.unstored = none) : Claimed sites (s.put i t') := by
  have hfit := h.fits i t ht
  have hclaims : ∀ u ∈ t', u.stage.claims ⊆ t.stage.claims := fun u hu =>
    List.append_subset.mpr ⟨List.subset_append_of_subset_left _ (hfirst u hu),
      List.subset_append_of_subset_right _ ((hheld u hu).map _).subset⟩
  refine h.put (fun u hu => ?_) fun u hu j w hj hw => ?_
  · exact {
      lt := hfit.lt
      claims_lt := fun e he => hfit.claims_lt e (hclaims u hu he)
      unstored := by simp [hunstored u hu]
      held := fun row hrow => hfit.held row ((hheld u hu).subset hrow)
      distinct := hfit.distinct.sublist (hheld u hu)
      first := fun e he => hfit.first e (hfirst u hu he) }
  · have hold := h.apart i j t w hj.symm ht hw
    exact ⟨fun e he => hold.claims e (hclaims u hu he), by simp [hunstored u hu]⟩

end Claimed

/-- A handler goes on to a stage that tries nothing that was sent before and could not be tried,
and keeps an accepted attempt under way unless it was the first about its event. -/
theorem Settled.put (h : Settled sites s) (hclaimed : Claimed sites (s.put i t'))
    (hfirst : ∀ u ∈ t', ∀ e ∈ u.stage.first, s.Open e ∨ ∀ x ∈ s.sends, x.eventId ≠ e)
    (htrial : ∀ t ∈ s.handlers i, ∀ n e results, t.stage.trial = some (n, e, results) →
      .ok ∈ results →
        (∃ u ∈ t', ∃ results', u.stage.trial = some (n, e, results') ∧ .ok ∈ results') ∨
          e ∈ t.stage.first ∧ ∀ u ∈ t', e ∉ u.stage.first) :
    Settled sites (s.put i t') where
  claimed := hclaimed
  accepted x hx hok hopen := by
    have hold : s.Open x.eventId := by
      rcases hopen with hpending | ⟨j, u, hu, he⟩
      · exact .inl hpending
      · by_cases hj : j = i
        · subst hj
          rcases hfirst u (by simpa [Desk.put] using hu) _ he with hold | hnone
          · exact hold
          · exact absurd rfl (hnone x hx)
        · exact .inr ⟨j, u, by simpa [Desk.put, hj] using hu, he⟩
    obtain ⟨j, u, hu, results, hu_trial, hresults⟩ := h.accepted x hx hok hold
    by_cases hj : j = i
    · subst hj
      rcases htrial u hu _ _ _ hu_trial hresults with ⟨w, hw, hkept⟩ | ⟨he, hgone⟩
      · exact ⟨j, w, by simpa [Desk.put] using hw, hkept⟩
      · -- the first attempt is over, and nothing tries its event any more
        exfalso
        rcases hopen with ⟨p, hp, hevent⟩ | ⟨k, w, hw, hew⟩
        · exact (h.claimed.fits j u hu).first _ he p hp hevent
        · by_cases hk : k = j
          · subst hk
            exact hgone w (by simpa [Desk.put] using hw) hew
          · have hw' : s.handlers k = some w := by simpa [Desk.put, hk] using hw
            exact hk (h.claimed.owner hu (List.mem_append_left _ he) hw'
              (List.mem_append_left _ hew))
    · exact ⟨j, u, by simpa [Desk.put, hj] using hu, results, hu_trial, hresults⟩
  once := h.once

/-- A handler goes on to a stage that holds no more. -/
theorem Settled.goto (h : Settled sites s) {server : Id} {stage stage' : Stage}
    (ht : s.handlers i = some ⟨server, stage⟩) (hfirst : stage'.first ⊆ stage.first)
    (hheld : stage'.held.Sublist stage.held) (hunstored : stage'.unstored = none)
    (htrial : ∀ n e results, stage.trial = some (n, e, results) → .ok ∈ results →
      (∃ results', stage'.trial = some (n, e, results') ∧ .ok ∈ results') ∨
        e ∈ stage.first ∧ e ∉ stage'.first) : Settled sites (s.goto i server stage') := by
  refine h.put (h.claimed.narrow ht ?_ ?_ ?_) ?_ ?_
  · simpa using hfirst
  · simpa using hheld
  · simpa using hunstored
  · rintro _ ⟨⟩ e he
    exact .inl (.inr ⟨i, _, ht, hfirst he⟩)
  · intro t ht' n e results hresults hok
    obtain rfl := Option.some.inj (ht.symm.trans ht')
    simpa using htrial n e results hresults hok

/-- A handler stops that has no accepted retry under way. -/
theorem Settled.stop (h : Settled sites s) (ht : s.handlers i = some t)
    (hretried : .ok ∉ t.stage.retried) : Settled sites (s.put i none) := by
  refine h.put (h.claimed.narrow ht ?_ ?_ ?_) ?_ fun t' ht' n e results hresults hok => ?_
  iterate 4 simp
  · obtain rfl := Option.some.inj (ht.symm.trans ht')
    rcases Stage.retried_or_first_of_trial hresults with hretry | hfirst
    · exact absurd (hretry ▸ hok) hretried
    · exact .inr ⟨hfirst, by simp⟩

/-- The rules, the unfinished lines and the counts are changed. -/
theorem Settled.frame (h : Settled sites s) (rules : List AlertRule) (chatLineBuffers : Id → Text)
    {nextRequest : ℕ} (hrequest : s.nextRequest ≤ nextRequest) (nextAttempt : ℕ) :
    Settled sites { s with rules, chatLineBuffers, nextRequest, nextAttempt } where
  claimed := {
    fits := fun i t ht =>
      have hfit := h.claimed.fits i t ht
      ⟨hfit.lt.trans_le hrequest, hfit.claims_lt, hfit.unstored, hfit.held, hfit.distinct,
        hfit.first⟩
    apart := h.claimed.apart
    sends_lt := h.claimed.sends_lt
    pending_lt := h.claimed.pending_lt
    tokens := h.claimed.tokens
    distinct := h.claimed.distinct }
  accepted := h.accepted
  once := h.once

/-! ## What a call changes -/

/-- The event of a line with a new token is stored. -/
theorem Settled.store (h : Settled sites s) {server : Id} {c : ChatLine}
    (hnew : ∀ e ∈ s.events, c.logTimestamp ≠ [] →
      ¬(e.orgId = sites.orgId server ∧ e.sourceId = server ∧
        e.payload.logTimestamp = c.logTimestamp))
    (hothers : ∀ j u, s.handlers j = some u → u.server = server →
      c.logTimestamp ∉ u.stage.unstored) : Settled sites (s.store sites server c) where
  claimed := {
    fits := fun j u hu =>
      have hfit := h.claimed.fits j u hu
      { hfit with
        claims_lt := fun e he => (hfit.claims_lt e he).trans (Nat.lt_succ_self _)
        unstored := by
          intro token htoken e he
          rcases List.mem_append.mp he with he | he
          · exact hfit.unstored token htoken e he
          · obtain rfl := List.mem_singleton.mp he
            rintro ⟨-, hserver, heq⟩
            exact hothers j u hu hserver.symm (heq ▸ htoken) }
    apart := h.claimed.apart
    sends_lt := fun x hx => (h.claimed.sends_lt x hx).trans (Nat.lt_succ_self _)
    pending_lt := fun p hp => ⟨(h.claimed.pending_lt p hp).1.trans (Nat.lt_succ_self _),
      (h.claimed.pending_lt p hp).2.trans (Nat.lt_succ_self _)⟩
    tokens := by
      refine List.pairwise_append.mpr ⟨h.claimed.tokens, List.pairwise_singleton _ _, ?_⟩
      rintro e he e' he' ⟨horg, hsource, hne, htoken⟩
      obtain rfl := List.mem_singleton.mp he'
      exact hnew e he (htoken ▸ hne) ⟨horg, hsource, htoken⟩
    distinct := h.claimed.distinct }
  accepted := h.accepted
  once := h.once

/-- An event is sent that a handler tries. -/
theorem Settled.send (h : Settled sites s) (ht : s.handlers i = some t) {context : Context} {n : ℕ}
    {results : List Result} (htrial : t.stage.trial = some (n, context.eventId, results))
    (destination : Id × Text) {answer : Result} (hanswer : answer = .ok → .ok ∈ results) :
    Settled sites (s.send context n destination answer) := by
  have hclaims := Stage.mem_claims_of_trial htrial
  exact {
    claimed := {
      fits := fun j u hu =>
        have hfit := h.claimed.fits j u hu
        ⟨hfit.lt, hfit.claims_lt, hfit.unstored, hfit.held, hfit.distinct, hfit.first⟩
      apart := h.claimed.apart
      sends_lt := by
        intro x hx
        rcases List.mem_cons.mp hx with rfl | hx
        · exact (h.claimed.fits i t ht).claims_lt _ hclaims
        · exact h.claimed.sends_lt x hx
      pending_lt := h.claimed.pending_lt
      tokens := h.claimed.tokens
      distinct := h.claimed.distinct }
    accepted := by
      intro x hx hok hopen
      rcases List.mem_cons.mp hx with rfl | hx
      · exact ⟨i, t, ht, results, htrial, hanswer hok⟩
      · exact h.accepted x hx hok hopen
    once := by
      refine List.pairwise_cons.mpr ⟨fun x hx hattempt hevent hok => hattempt ?_, h.once⟩
      -- whoever tries the event is this handler
      dsimp only at hevent
      have hopen := h.claimed.open_of_claims ht hclaims
      rw [hevent] at hopen hclaims htrial
      obtain ⟨j, u, hu, results', hu_trial, -⟩ := h.accepted x hx hok hopen
      obtain rfl := h.claimed.owner ht hclaims hu (Stage.mem_claims_of_trial hu_trial)
      obtain rfl := Option.some.inj (ht.symm.trans hu)
      exact (Prod.mk.inj (Option.some.inj (htrial.symm.trans hu_trial))).1 }

/-- A message is kept as pending that no webhook has accepted and no handler tries. -/
theorem Settled.keep (h : Settled sites s) {context : Context} (error : Option Text)
    (hlt : context.eventId < s.nextId)
    (hnew : ∀ p ∈ s.pending, p.context.eventId ≠ context.eventId)
    (hfree : ∀ j u, s.handlers j = some u → context.eventId ∉ u.stage.first)
    (hrefused : ∀ x ∈ s.sends, x.eventId = context.eventId → x.result ≠ .ok) :
    Settled sites (s.keep context error) where
  claimed := {
    fits := fun j u hu =>
      have hfit := h.claimed.fits j u hu
      { lt := hfit.lt
        claims_lt := fun e he => (hfit.claims_lt e he).trans (Nat.lt_succ_self _)
        unstored := hfit.unstored
        held := fun row hrow => List.mem_append_left _ (hfit.held row hrow)
        distinct := hfit.distinct
        first := by
          intro e he p hp
          rcases List.mem_append.mp hp with hp | hp
          · exact hfit.first e he p hp
          · obtain rfl := List.mem_singleton.mp hp
            rintro rfl
            exact hfree j u hu he }
    apart := h.claimed.apart
    sends_lt := fun x hx => (h.claimed.sends_lt x hx).trans (Nat.lt_succ_self _)
    pending_lt := by
      intro p hp
      rcases List.mem_append.mp hp with hp | hp
      · exact ⟨(h.claimed.pending_lt p hp).1.trans (Nat.lt_succ_self _),
          (h.claimed.pending_lt p hp).2.trans (Nat.lt_succ_self _)⟩
      · obtain rfl := List.mem_singleton.mp hp
        exact ⟨Nat.lt_succ_self _, hlt.trans (Nat.lt_succ_self _)⟩
    tokens := h.claimed.tokens
    distinct := by
      refine List.pairwise_append.mpr ⟨h.claimed.distinct, List.pairwise_singleton _ _, ?_⟩
      intro p hp q hq
      obtain rfl := List.mem_singleton.mp hq
      exact ⟨(h.claimed.pending_lt p hp).1.ne, hnew p hp⟩ }
  accepted x hx hok hopen := by
    rcases hopen with ⟨p, hp, hevent⟩ | hfirst
    · rcases List.mem_append.mp hp with hp | hp
      · exact h.accepted x hx hok (.inl ⟨p, hp, hevent⟩)
      · obtain rfl := List.mem_singleton.mp hp
        exact absurd hok (hrefused x hx hevent.symm)
    · exact h.accepted x hx hok (.inr hfirst)
  once := h.once

/-- A row is deleted that no handler holds. -/
theorem Claimed.discard (h : Claimed sites s) {row : PendingRelay}
    (hfree : ∀ j u, s.handlers j = some u → ∀ other ∈ u.stage.held, other.id ≠ row.id) :
    Claimed sites (s.discard row) where
  fits j u hu :=
    have hfit := h.fits j u hu
    { hfit with
      held := fun other hother =>
        List.mem_filter.mpr ⟨hfit.held other hother, by simpa using hfree j u hu other hother⟩
      first := fun e he p hp => hfit.first e he p (List.mem_of_mem_filter hp) }
  apart := h.apart
  sends_lt := h.sends_lt
  pending_lt p hp := h.pending_lt p (List.mem_of_mem_filter hp)
  tokens := h.tokens
  distinct := h.distinct.filter _

end Moves

section Runs

variable {lower : Text → Text} {sites : Sites} {s : Desk} {i : ℕ} {server : Id}

/-- A line is found to have no event. -/
theorem Settled.find (h : Settled sites s) {c : ChatLine} {line : Text} {lines : List Text}
    (ht : s.handlers i = some ⟨server, .line (line :: lines)⟩)
    (hnew : ¬(c.logTimestamp ≠ [] ∧ s.hasDuplicate sites server c = true))
    (hstoring : c.logTimestamp ≠ [] → ¬s.Storing i server c.logTimestamp) :
    Settled sites (s.goto i server (.store c lines)) := by
  have htoken : ∀ token, (Stage.store c lines).unstored = some token →
      c.logTimestamp ≠ [] ∧ c.logTimestamp = token := by
    intro token hmem
    have htoken : (if c.logTimestamp = [] then none else some c.logTimestamp) = some token := hmem
    split_ifs at htoken with hempty
    exact ⟨hempty, Option.some.inj htoken⟩
  refine h.put (h.claimed.put ?_ ?_) ?_ ?_
  · rintro _ ⟨⟩
    refine ⟨(h.claimed.fits i _ ht).lt, by simp [Stage.claims, Stage.first, Stage.held], ?_,
      by simp [Stage.held], by simp [Stage.held], by simp [Stage.first]⟩
    rintro token hmem e he ⟨horg, hserver, hsame⟩
    obtain ⟨hne, rfl⟩ := htoken token hmem
    exact hnew ⟨hne, List.any_eq_true.mpr ⟨e, he, by simpa using ⟨horg, hserver, hsame⟩⟩⟩
  · rintro _ ⟨⟩ j u hj hu
    refine ⟨by simp [Stage.claims, Stage.first, Stage.held], fun hserver token hmem hother => ?_⟩
    obtain ⟨hne, rfl⟩ := htoken token hmem
    exact hstoring hne ⟨j, (h.claimed.fits j u hu).lt, hj, u, hu, hserver.symm, hother⟩
  · rintro _ ⟨⟩
    simp [Stage.first]
  · intro t ht' n e results hresults
    obtain rfl := Option.some.inj (ht.symm.trans ht')
    simp [Stage.trial] at hresults

/-- The event of a line is stored. -/
theorem Settled.store_goto (h : Settled sites s) {c : ChatLine} {lines : List Text}
    (ht : s.handlers i = some ⟨server, .store c lines⟩) :
    Settled sites ((s.store sites server c).goto i server
      (if c.isServer then .line lines else .moderate (s.contextOf sites server c) lines)) := by
  have hunstored : c.logTimestamp ≠ [] →
      (Stage.store c lines).unstored = some c.logTimestamp := fun hne => if_neg hne
  have hdone : Settled sites (s.goto i server (.line lines)) :=
    h.goto ht (by simp [Stage.first]) (by simp [Stage.held]) rfl (by simp [Stage.trial])
  have hstored : Settled sites ((s.goto i server (.line lines)).store sites server c) := by
    refine hdone.store (fun e he hne => ?_) fun j u hu hserver htoken => ?_
    · exact (h.claimed.fits i _ ht).unstored _ (hunstored hne) e he
    · by_cases hj : j = i
      · subst hj
        obtain rfl : (⟨server, .line lines⟩ : Handler) = u := by
          simpa [Desk.goto, Desk.put] using hu
        simp [Stage.unstored] at htoken
      · have hu' : s.handlers j = some u := by simpa [Desk.goto, Desk.put, hj] using hu
        have hne : c.logTimestamp ≠ [] := by
          intro hempty
          cases hstage : u.stage <;> simp [hstage, Stage.unstored] at htoken
          exact htoken.1 (htoken.2.trans hempty)
        exact (h.claimed.apart i j _ u (Ne.symm hj) ht hu').unstored hserver.symm _
          (hunstored hne) htoken
  by_cases hserver : c.isServer = true
  · rw [if_pos hserver]
    exact hstored
  · rw [if_neg hserver]
    have hmoves : (s.store sites server c).goto i server
          (.moderate (s.contextOf sites server c) lines) =
        ((s.goto i server (.line lines)).store sites server c).goto i server
          (.moderate (s.contextOf sites server c) lines) := by
      simp [Desk.goto, Desk.put, Desk.store]
    have hclaims : (Stage.moderate (s.contextOf sites server c) lines).claims = [s.nextId] := rfl
    rw [hmoves]
    -- the id of the event is new
    refine hstored.put (hstored.claimed.put ?_ ?_) ?_ ?_
    · rintro _ ⟨⟩
      refine ⟨(h.claimed.fits i _ ht).lt, ?_, by simp [Stage.unstored], by simp [Stage.held],
        by simp [Stage.held], ?_⟩
      · rw [hclaims]
        rintro e he
        obtain rfl := List.mem_singleton.mp he
        exact Nat.lt_succ_self _
      · rintro e he p hp
        obtain rfl := List.mem_singleton.mp he
        exact (h.claimed.pending_lt p hp).2.ne
    · rintro _ ⟨⟩ j u hj hu
      have hu' : s.handlers j = some u := by
        simpa [Desk.goto, Desk.put, Desk.store, hj] using hu
      refine ⟨fun e he hother => ?_, by simp [Stage.unstored]⟩
      rw [hclaims] at he
      obtain rfl := List.mem_singleton.mp he
      exact absurd ((h.claimed.fits j u hu').claims_lt _ hother) (lt_irrefl _)
    · rintro _ ⟨⟩ e he
      obtain rfl := List.mem_singleton.mp he
      exact .inr fun x hx => (h.claimed.sends_lt x hx).ne
    · intro t ht' n e results hresults
      obtain rfl : (⟨server, .line lines⟩ : Handler) = t := by
        simpa [Desk.goto, Desk.put, Desk.store] using ht'
      simp [Stage.trial] at hresults

/-- A destination is posted to. -/
theorem Settled.send_goto (h : Settled sites s) {caller : Caller} {attempt : ℕ}
    {destination : Id × Text} {rest : List (Id × Text)} {results : List Result}
    (ht : s.handlers i = some ⟨server, .sends caller attempt (destination :: rest) results⟩)
    (answer : Result) :
    Settled sites ((s.send caller.context attempt destination answer).goto i server
      (.sends caller attempt rest (results ++ [answer]))) := by
  have hsent : Settled sites
      (s.goto i server (.sends caller attempt rest (results ++ [answer]))) := by
    refine h.goto ht ?_ ?_ rfl ?_
    · cases caller <;> exact List.Subset.refl _
    · cases caller <;> exact List.Sublist.refl _
    · rintro n e results' hresults hok
      simp only [Stage.trial, Option.some.injEq, Prod.mk.injEq] at hresults
      obtain ⟨rfl, rfl, rfl⟩ := hresults
      exact .inl ⟨_, rfl, List.mem_append_left _ hok⟩
  have hput : (s.goto i server (.sends caller attempt rest (results ++ [answer]))).handlers i =
      some ⟨server, .sends caller attempt rest (results ++ [answer])⟩ := by
    simp [Desk.goto, Desk.put]
  exact hsent.send hput rfl destination fun hok => by simp [hok]

/-- A message is kept as pending. -/
theorem Settled.keep_goto (h : Settled sites s) {context : Context} {error : Option Text}
    {lines : List Text} (ht : s.handlers i = some ⟨server, .keep context error lines⟩) :
    Settled sites ((s.keep context error).goto i server (.line lines)) := by
  have hfit := h.claimed.fits i _ ht
  have hclaims : context.eventId ∈ (Stage.keep context error lines).claims := by
    simp [Stage.claims, Stage.first]
  have hdone : Settled sites (s.goto i server (.line lines)) :=
    h.goto ht (by simp [Stage.first]) (by simp [Stage.held]) rfl (by simp [Stage.trial])
  refine hdone.keep error (hfit.claims_lt _ hclaims) ?_ (fun j u hu => ?_) fun x hx hevent hok => ?_
  · exact hfit.first _ (by simp [Stage.first])
  · by_cases hj : j = i
    · subst hj
      obtain rfl : (⟨server, .line lines⟩ : Handler) = u := by
        simpa [Desk.goto, Desk.put] using hu
      simp [Stage.first]
    · have hu' : s.handlers j = some u := by simpa [Desk.goto, Desk.put, hj] using hu
      exact fun he => hj (h.claimed.owner ht hclaims hu' (List.mem_append_left _ he))
  · -- an accepted event would still be tried, and the attempt is over
    have hopen := h.claimed.open_of_claims ht hclaims
    rw [← hevent] at hopen hclaims
    obtain ⟨j, u, hu, results, hresults, -⟩ := h.accepted x hx hok hopen
    obtain rfl := h.claimed.owner ht hclaims hu (Stage.mem_claims_of_trial hresults)
    obtain rfl := Option.some.inj (ht.symm.trans hu)
    simp [Stage.trial] at hresults

/-- A retry reads rows that no other one holds. -/
theorem Settled.read (h : Settled sites s) (ht : s.handlers i = some ⟨server, .pending⟩)
    (hheld : ∀ row ∈ s.due sites server, ¬s.Held i row) :
    Settled sites (s.goto i server (.rows (s.due sites server))) := by
  have hdue : (s.due sites server).Sublist s.pending :=
    (List.take_sublist _ _).trans List.filter_sublist
  refine h.put (h.claimed.put ?_ ?_) ?_ ?_
  · rintro _ ⟨⟩
    refine ⟨(h.claimed.fits i _ ht).lt, ?_, by simp [Stage.unstored],
      fun row hrow => hdue.subset hrow, (h.claimed.distinct.sublist hdue).imp And.left,
      by simp [Stage.first]⟩
    intro e he
    obtain ⟨row, hrow, rfl⟩ := List.mem_map.mp he
    exact (h.claimed.pending_lt row (hdue.subset hrow)).2
  · rintro _ ⟨⟩ j u hj hu
    refine ⟨fun e he hother => ?_, by simp [Stage.unstored]⟩
    obtain ⟨row, hrow, rfl⟩ := List.mem_map.mp he
    have hpending := hdue.subset hrow
    rcases List.mem_append.mp hother with hfirst | hrows
    · exact (h.claimed.fits j u hu).first _ hfirst row hpending rfl
    · obtain ⟨row', hrow', hevent⟩ := List.mem_map.mp hrows
      obtain rfl := h.claimed.eq_of_pending ((h.claimed.fits j u hu).held row' hrow') hpending
        (.inr hevent)
      exact hheld row' hrow ⟨j, (h.claimed.fits j u hu).lt, hj, u, hu, row', hrow', rfl⟩
  · rintro _ ⟨⟩
    simp [Stage.first]
  · intro t ht' n e results hresults
    obtain rfl := Option.some.inj (ht.symm.trans ht')
    simp [Stage.trial] at hresults

/-- The row of an attempt that is over is deleted. -/
theorem Settled.delete_goto (h : Settled sites s) {row : PendingRelay} {rows : List PendingRelay}
    {attempt : ℕ} {results : List Result}
    (ht : s.handlers i = some ⟨server, .delete row rows attempt results⟩) :
    Settled sites ((s.discard row).goto i server (.rows rows)) := by
  have hfit := h.claimed.fits i _ ht
  have hrow : row ∈ s.pending := hfit.held row List.mem_cons_self
  have hmine : row.context.eventId ∈ (Stage.delete row rows attempt results).claims := by
    simp [Stage.claims, Stage.held]
  have hnarrow : Claimed sites (s.goto i server (.rows rows)) := by
    refine h.claimed.narrow ht ?_ ?_ ?_
    · simp [Stage.first]
    · simp [Stage.held]
    · simp [Stage.unstored]
  refine ⟨hnarrow.discard fun j u hu other hother hid => ?_, ?_, h.once⟩
  · have hpending : other ∈ s.pending := (hnarrow.fits j u hu).held other hother
    obtain rfl := h.claimed.eq_of_pending hpending hrow (.inl hid)
    by_cases hj : j = i
    · subst hj
      obtain rfl : (⟨server, .rows rows⟩ : Handler) = u := by
        simpa [Desk.goto, Desk.put] using hu
      exact (List.pairwise_cons.mp hfit.distinct).1 other hother rfl
    · have hu' : s.handlers j = some u := by simpa [Desk.goto, Desk.put, hj] using hu
      exact hj (h.claimed.owner ht hmine hu'
        (List.mem_append_right _ (List.mem_map_of_mem hother)))
  · intro x hx hok hopen
    have hold : s.Open x.eventId ∧ x.eventId ≠ row.context.eventId := by
      rcases hopen with ⟨p, hp, hevent⟩ | ⟨j, u, hu, he⟩
      · obtain ⟨hp, hne⟩ := List.mem_filter.mp hp
        refine ⟨.inl ⟨p, hp, hevent⟩, fun hsame => ?_⟩
        obtain rfl := h.claimed.eq_of_pending hp hrow (.inr (hevent.trans hsame))
        simp at hne
      · by_cases hj : j = i
        · subst hj
          obtain rfl : (⟨server, .rows rows⟩ : Handler) = u := by
            simpa [Desk.goto, Desk.put, Desk.discard] using hu
          simp [Stage.first] at he
        · have hu' : s.handlers j = some u := by
            simpa [Desk.goto, Desk.put, Desk.discard, hj] using hu
          refine ⟨.inr ⟨j, u, hu', he⟩, fun hsame => ?_⟩
          exact (h.claimed.fits j u hu').first _ he row hrow hsame.symm
    obtain ⟨j, u, hu, results', hresults, hmem⟩ := h.accepted x hx hok hold.1
    have hj : j ≠ i := by
      rintro rfl
      obtain rfl := Option.some.inj (ht.symm.trans hu)
      simp only [Stage.trial, Option.some.injEq, Prod.mk.injEq] at hresults
      exact hold.2 hresults.2.1.symm
    exact ⟨j, u, by simpa [Desk.goto, Desk.put, Desk.discard, hj] using hu, results', hresults,
      hmem⟩

/-- The next call of a handler completes. -/
theorem Settled.next (h : Settled sites s) {stage : Stage}
    (ht : s.handlers i = some ⟨server, stage⟩) (ho : stage.Orderly sites s i server)
    (moderated : Bool) (answer : Result) :
    Settled sites (s.next lower sites i server moderated answer stage) := by
  cases stage with
  | line lines =>
    cases lines with
    | nil =>
      exact h.goto ht (by simp [Stage.first]) (by simp [Stage.held]) rfl (by simp [Stage.trial])
    | cons line lines =>
      have hskip : Settled sites (s.goto i server (.line lines)) :=
        h.goto ht (by simp [Stage.first]) (by simp [Stage.held]) rfl (by simp [Stage.trial])
      rw [Desk.next]
      cases hline : ChatLine.ofLine line with
      | none => exact hskip
      | some c =>
        dsimp only
        split_ifs with hduplicate
        · exact hskip
        · exact h.find ht hduplicate (ho c hline)
  | store c lines => exact h.store_goto ht
  | moderate context lines =>
    rw [Desk.next]
    split_ifs
    · exact h.goto ht (by simp [Stage.first]) (by simp [Stage.held]) rfl (by simp [Stage.trial])
    · exact h.goto ht (List.Subset.refl _) (List.Sublist.refl _) rfl (by simp [Stage.trial])
  | rules caller =>
    have hcounted := h.frame s.rules s.chatLineBuffers le_rfl (s.nextAttempt + 1)
    refine hcounted.goto ht ?_ ?_ rfl (by simp [Stage.trial])
    · cases caller <;> exact List.Subset.refl _
    · cases caller <;> exact List.Sublist.refl _
  | sends caller attempt destinations results =>
    cases destinations with
    | cons destination rest => cases caller <;> exact h.send_goto ht answer
    | nil =>
      cases caller with
      | parseChat context lines =>
        rw [Desk.next]
        split_ifs with herror
        · -- the attempt was accepted nowhere
          refine h.goto ht (List.Subset.refl _) (List.Sublist.refl _) rfl ?_
          rintro n e results' hresults hok
          simp only [Stage.trial, Option.some.injEq, Prod.mk.injEq] at hresults
          obtain ⟨-, -, rfl⟩ := hresults
          exact absurd hok (unaccepted_of_error ho herror)
        · refine h.goto ht (by simp [Stage.first]) (by simp [Stage.held]) rfl ?_
          rintro n e results' hresults -
          simp only [Stage.trial, Option.some.injEq, Prod.mk.injEq] at hresults
          obtain ⟨-, rfl, -⟩ := hresults
          exact .inr ⟨List.mem_singleton_self _, by simp [Stage.first]⟩
      | retryChatRelays row rows =>
        rw [Desk.next]
        split_ifs with herror
        · refine h.goto ht (List.Subset.refl _) (List.Sublist.refl _) rfl ?_
          rintro n e results' hresults hok
          exact .inl ⟨results', hresults, hok⟩
        · refine h.goto ht (List.Subset.refl _) (List.sublist_cons_self _ _) rfl ?_
          rintro n e results' hresults hok
          simp only [Stage.trial, Option.some.injEq, Prod.mk.injEq] at hresults
          obtain ⟨-, -, rfl⟩ := hresults
          have hfailed : (errorOf results).isSome = true := by
            simpa [Option.isSome_iff_ne_none] using herror
          exact absurd hok (unaccepted_of_error ho hfailed)
  | keep context error lines => exact h.keep_goto ht
  | pending => exact h.read ht ho
  | rows rows =>
    cases rows with
    | nil => exact h.stop ht (by simp [Stage.retried])
    | cons row rows =>
      exact h.goto ht (by simp [Stage.first]) (List.Sublist.refl _) rfl (by simp [Stage.trial])
  | delete row rows attempt results =>
    have hrow : row ∈ s.pending := (h.claimed.fits i _ ht).held row List.mem_cons_self
    have hpresent : (s.pending.any fun other => other.id = row.id) = true :=
      List.any_eq_true.mpr ⟨row, hrow, by simp⟩
    rw [Desk.next, if_pos hpresent]
    exact h.delete_goto ht

/-- The next call of a handler fails that has no accepted retry under way. -/
theorem Settled.fail (h : Settled sites s) {stage : Stage}
    (ht : s.handlers i = some ⟨server, stage⟩) (hretried : .ok ∉ stage.retried) :
    Settled sites (s.fail i server stage) := by
  have hretry (hfirst : stage.trial = none) : Settled sites (s.goto i server .pending) :=
    h.goto ht (by simp [Stage.first]) (by simp [Stage.held]) rfl (by simp [hfirst])
  cases stage with
  | line _ | store _ _ | keep _ _ _ => exact hretry rfl
  | moderate context lines =>
    exact h.goto ht (List.Subset.refl _) (List.Sublist.refl _) rfl (by simp [Stage.trial])
  | rules caller =>
    cases caller with
    | parseChat _ _ => exact hretry rfl
    | retryChatRelays _ _ => exact h.stop ht hretried
  | sends _ _ _ _ => exact h
  | pending | rows _ | delete _ _ _ _ => exact h.stop ht hretried

/-- The handlers are gone, and none of them had an accepted retry under way. -/
theorem Settled.restart (h : Settled sites s) (chatLineBuffers : Id → Text)
    (hretried : ∀ i, ∀ t ∈ s.handlers i, .ok ∉ t.stage.retried) :
    Settled sites { s with chatLineBuffers, handlers := fun _ => none } where
  claimed := ⟨by simp, by simp, h.claimed.sends_lt, h.claimed.pending_lt, h.claimed.tokens,
    h.claimed.distinct⟩
  accepted x hx hok hopen := by
    rcases hopen with ⟨p, hp, hevent⟩ | ⟨_, _, ht, _⟩
    · obtain ⟨i, t, ht, results, hresults, hmem⟩ := h.accepted x hx hok (.inl ⟨p, hp, hevent⟩)
      rcases Stage.retried_or_first_of_trial hresults with hretry | hfirst
      · exact absurd (hretry ▸ hmem) (hretried i t ht)
      · exact absurd hevent ((h.claimed.fits i t ht).first _ hfirst p hp)
    · cases ht
  once := h.once

/-- An orderly step keeps the desk settled. -/
theorem Settled.step {a : Action} (h : Settled sites s) (ha : Orderly sites s a) :
    Settled sites (s.step lower sites a) := by
  cases a with
  | setRules rules => exact h.frame rules s.chatLineBuffers le_rfl s.nextAttempt
  | append server content =>
    have hcounted := h.frame s.rules
      (Function.update s.chatLineBuffers server
        (completeLines (s.chatLineBuffers server) content).2) (Nat.le_succ _) s.nextAttempt
    have hnone : s.handlers s.nextRequest = none := by
      by_contra hsome
      obtain ⟨t, ht⟩ := Option.ne_none_iff_exists'.mp hsome
      exact absurd (h.claimed.fits _ t ht).lt (lt_irrefl _)
    refine hcounted.put (hcounted.claimed.put ?_ ?_) ?_ ?_
    · rintro _ ⟨⟩
      exact ⟨Nat.lt_succ_self _, by simp [Stage.claims, Stage.first, Stage.held],
        by simp [Stage.unstored], by simp [Stage.held], by simp [Stage.held], by simp [Stage.first]⟩
    · rintro _ ⟨⟩ j u _ _
      exact ⟨by simp [Stage.claims, Stage.first, Stage.held], by simp [Stage.unstored]⟩
    · rintro _ ⟨⟩
      simp [Stage.first]
    · intro t ht
      exact absurd (hnone.symm.trans ht) (by simp)
  | next request moderated answer =>
    rw [Desk.step]
    cases ht : s.handlers request with
    | none => exact h
    | some t => exact h.next ht (ha t ht) moderated answer
  | fail request =>
    rw [Desk.step]
    cases ht : s.handlers request with
    | none => exact h
    | some t => exact h.fail ht (ha t ht)
  | restart =>
    exact h.restart _ fun i t ht => ha i (h.claimed.fits i t ht).lt t ht

theorem Reaches.settled (h : Reaches lower sites (Orderly sites) s) : Settled sites s := by
  induction h with
  | empty =>
    refine ⟨⟨?_, ?_, ?_, ?_, .nil, .nil⟩, ?_, .nil⟩
    iterate 5 simp [Desk.empty]
  | step _ ha ih => exact ih.step ha

end Runs

/-! ## Runs that are written out -/

instance (s : Desk) (request : ℕ) (server : Id) (token : Text) :
    Decidable (s.Storing request server token) :=
  inferInstanceAs (Decidable (∃ other < s.nextRequest, other ≠ request ∧
    ∃ t ∈ s.handlers other, t.server = server ∧ t.stage.unstored = some token))

instance (s : Desk) (request : ℕ) (row : PendingRelay) : Decidable (s.Held request row) :=
  inferInstanceAs (Decidable (∃ other < s.nextRequest, other ≠ request ∧
    ∃ t ∈ s.handlers other, ∃ row' ∈ t.stage.held, row'.id = row.id))

instance (sites : Sites) (s : Desk) (request : ℕ) (server : Id) (stage : Stage) :
    Decidable (stage.Orderly sites s request server) :=
  match stage with
  | .line (head :: _) => inferInstanceAs (Decidable (∀ c ∈ ChatLine.ofLine head,
      c.logTimestamp ≠ [] → ¬s.Storing request server c.logTimestamp))
  | .sends _ _ [] results => inferInstanceAs (Decidable (¬Mixed results))
  | .pending => inferInstanceAs (Decidable (∀ row ∈ s.due sites server, ¬s.Held request row))
  | .line [] | .store _ _ | .moderate _ _ | .rules _ | .sends _ _ (_ :: _) _ | .keep _ _ _
  | .rows _ | .delete _ _ _ _ => inferInstanceAs (Decidable True)

instance (sites : Sites) (s : Desk) (a : Action) : Decidable (Orderly sites s a) :=
  match a with
  | .setRules _ | .append _ _ => inferInstanceAs (Decidable True)
  | .next request _ _ => inferInstanceAs (Decidable (∀ t ∈ s.handlers request,
      t.stage.Orderly sites s request t.server))
  | .fail request => inferInstanceAs (Decidable (∀ t ∈ s.handlers request, .ok ∉ t.stage.retried))
  | .restart => inferInstanceAs (Decidable (∀ request < s.nextRequest,
      ∀ t ∈ s.handlers request, .ok ∉ t.stage.retried))

section Evaluation

variable (lower : Text → Text) (sites : Sites) (allowed : Desk → Action → Prop)

/-- The state after some steps. -/
def Desk.run (s : Desk) : List Action → Desk
  | [] => s
  | a :: actions => Desk.run (s.step lower sites a) actions

/-- Every one of the steps is allowed. -/
def Desk.Follows (s : Desk) : List Action → Prop
  | [] => True
  | a :: actions => allowed s a ∧ Desk.Follows (s.step lower sites a) actions

instance Desk.decidableFollows [∀ s a, Decidable (allowed s a)] :
    (s : Desk) → (actions : List Action) → Decidable (s.Follows lower sites allowed actions)
  | _, [] => inferInstanceAs (Decidable True)
  | s, a :: actions =>
    have := Desk.decidableFollows (s.step lower sites a) actions
    inferInstanceAs (Decidable (allowed s a ∧ (s.step lower sites a).Follows lower sites allowed
      actions))

variable {lower sites allowed}

theorem Reaches.run {s : Desk} (h : Reaches lower sites allowed s) {actions : List Action}
    (hactions : s.Follows lower sites allowed actions) :
    Reaches lower sites allowed (s.run lower sites actions) := by
  induction actions generalizing s with
  | nil => exact h
  | cons a actions ih => exact ih (h.step hactions.1) hactions.2

end Evaluation

/-! ## Deliveries -/

/-- In a run of orderly steps, however many handlers overlap, a webhook that has accepted an event
is never sent it again by another attempt. -/
theorem sent_once {lower : Text → Text} {sites : Sites} {s : Desk}
    (h : Reaches lower sites (Orderly sites) s) : SentOnce s := by
  have hsettled := h.settled
  refine hsettled.once.imp fun {later earlier} hrefused hattempt hsame hok => ?_
  exact absurd hok (hrefused hattempt (hsettled.claimed.sameEvent_iff.mp hsame))

/-- A rule that relays the chat of all servers to a webhook. -/
def relayRule (id : Id) (webhookUrl : Text) : AlertRule :=
  ⟨id, 0, true, some (Text.of "chat_relay"), none, Text.of "discord", webhookUrl⟩

/-- A chunk with one message. -/
def helloChunk : Text :=
  Text.of "2024-05-01T12:00:00 INF Chat (from 'Steam_1', entity id '1', to 'Global'): 'A': hi" ++
    [10]

/-- A post's attempt and event, and where it ended how. -/
def Send.summary (x : Send) : ℕ × Id × Text × Result :=
  (x.attempt, x.eventId, x.webhookUrl, x.result)

/-- The next calls of some handlers complete; the posts are accepted. -/
def goOn (requests : List ℕ) : List Action := requests.map fun request => .next request false .ok

/-- The chunks of two servers are read side by side. The webhook refuses the first message and
accepts the second one, and then the retry of the first; the first chunk comes again. -/
def refusedRun : List Action :=
  [.setRules [relayRule 1 (Text.of "a")], .append 0 helloChunk, .append 1 helloChunk] ++
    goOn [0, 1, 0, 1, 0, 1, 0, 1] ++ [.next 0 false (.failed (some 500) (Text.of "down"))] ++
      goOn [1, 0, 1, 0, 1, 0, 1, 0, 1, 0, 0, 0, 0, 0, 0] ++ [.append 0 helloChunk] ++
        goOn [2, 2, 2, 2]

theorem sent_once_refused : ∃ s : Desk,
    s.sends.map Send.summary =
      [(2, 0, Text.of "a", .ok), (1, 1, Text.of "a", .ok),
        (0, 0, Text.of "a", .failed (some 500) (Text.of "down"))] ∧
      s.pending.length = 0 ∧ SentOnce s := by
  refine ⟨Desk.empty.run id ⟨fun _ => 0, fun _ => []⟩ refusedRun, ?_, ?_, ?_⟩
  · decide +kernel
  · decide +kernel
  · exact sent_once (Reaches.empty.run (by decide +kernel))

/-- Of two webhooks one accepts a message and the other refuses it. -/
def mixedRun : List Action :=
  [.setRules [relayRule 1 (Text.of "a"), relayRule 2 (Text.of "b")], .append 0 helloChunk] ++
    goOn [0, 0, 0, 0, 0] ++ [.next 0 false (.failed (some 500) (Text.of "down"))] ++
      goOn [0, 0, 0, 0, 0, 0, 0]

/-- The retry sends it to both again. -/
theorem retry_repeats : ¬∀ (lower : Text → Text) (sites : Sites) (s : Desk),
    Reaches lower sites (fun _ _ => True) s → SentOnce s := by
  intro hall
  have hfollows : Desk.empty.Follows id ⟨fun _ => 0, fun _ => []⟩ (fun _ _ => True) mixedRun := by
    simp [mixedRun, goOn, Desk.Follows]
  have honce := hall id ⟨fun _ => 0, fun _ => []⟩ _ (Reaches.empty.run hfollows)
  have hpairs : ((Desk.empty.run id ⟨fun _ => 0, fun _ => []⟩ mixedRun).sends.map
      Send.summary).Pairwise fun later earlier => later.1 ≠ earlier.1 → later.2.1 = earlier.2.1 →
        earlier.2.2.2 = .ok → later.2.2.1 ≠ earlier.2.2.1 :=
    List.pairwise_map.mpr (honce.imp fun {later earlier} hpair hattempt hevent =>
      hpair hattempt (.inl hevent))
  have hsummary : (Desk.empty.run id ⟨fun _ => 0, fun _ => []⟩ mixedRun).sends.map Send.summary =
      [(1, 0, Text.of "a", .ok), (0, 0, Text.of "b", .failed (some 500) (Text.of "down")),
        (0, 0, Text.of "a", .ok)] := by
    decide +kernel
  rw [hsummary] at hpairs
  exact List.rel_of_pairwise_cons hpairs (List.mem_cons_of_mem _ (List.mem_singleton_self _))
    (by decide) rfl rfl rfl

end Mastermind.Relay
