import Mastermind.Effect.Table
import Mastermind.Platform.Utf16

/-!
# Players and their sessions

The control plane keeps a row for each player of a server and a row for each session. Two sources
write them: the log of the server (`LogsService.parsePlayers`) and the player list that the agent
polls (`JobsService.reconcilePlayers`). A player is known by a Steam or an EOS id, or, until one is
seen, by a name alone; `reconcileNameFallback` merges a name-only row into the row of the id.

This is `logs/logs.service.ts`, `jobs/jobs.service.ts`, `players/player-identity.ts` and
`players/players.service.ts`, as far as they read and write those rows. A write of a number that
does not fit the column fails and ends the method; a roster in `Except.error` is what it leaves.
`lower` is `toLowerCase`, whose tables come with the runtime.
-/

namespace Mastermind.Players

open Effect Regex

/-- The key of a row of the database. -/
abbrev Id := ℕ

/-- `model Player`. Times are in milliseconds. -/
structure Player where
  id : Id
  orgId : Id
  serverInstanceId : Id
  identityKey : Text
  steamId : Option Text
  eosId : Option Text
  entityId : Option ℕ
  ipAddress : Option Text
  name : Text
  online : Bool
  currentSessionStartedAt : Option ℤ
  lifetimeSeconds : ℕ
  zombieKills : ℕ
  playerKills : ℕ
  deaths : ℕ
  level : ℕ
  firstSeenAt : ℤ
  lastSeenAt : ℤ
deriving DecidableEq

/-- `model PlayerSession`. -/
structure PlayerSession where
  id : Id
  playerId : Id
  startedAt : ℤ
  endedAt : Option ℤ
  durationSeconds : Option ℕ
deriving DecidableEq

instance : Keyed Player := ⟨Player.id⟩
instance : Keyed PlayerSession := ⟨PlayerSession.id⟩

/-- The conditions of the alerts about players. -/
inductive AlertKind where
  | playerConnected | playerDisconnected
deriving DecidableEq

/-- What `sendMatchingRules` is told. -/
structure Alert where
  kind : AlertKind
  orgId : Id
  serverInstanceId : Id
  serverInstanceName : Text
  playerName : Text
  steamId : Option Text
  eosId : Option Text
  sessionSeconds : Option ℕ
deriving DecidableEq

/-- The rows, and the alerts sent so far. -/
structure Roster where
  players : Table Player
  sessions : Table PlayerSession
  alerts : List Alert

/-- No rows and no alerts. -/
def Roster.empty : Roster := ⟨Table.empty, Table.empty, []⟩

namespace Roster

/-- `player.findUnique({ where: { serverInstanceId_identityKey } })`. -/
def byKey (s : Roster) (serverInstanceId : Id) (identityKey : Text) : Option Player :=
  s.players.rows.find? fun p =>
    p.serverInstanceId = serverInstanceId ∧ p.identityKey = identityKey

/-- `playerSession.create({ data: { playerId, startedAt } })`. -/
def openSession (s : Roster) (playerId : Id) (startedAt : ℤ) : Roster :=
  { s with
    sessions := s.sessions.insert (fun id => ⟨id, playerId, startedAt, none, none⟩) fun _ => rfl }

/-- `sendMatchingRules`. -/
def alert (s : Roster) (a : Alert) : Roster := { s with alerts := s.alerts ++ [a] }

/-- `identityKey.startsWith('name:')`. -/
def nameOnly (identityKey : Text) : Bool := (Text.of "name:").isPrefixOf identityKey

/-- The key of a player who is known by name alone. -/
def nameKey (lower : Text → Text) (name : Text) : Text := Text.of "name:" ++ lower name

/-- The key of a player: by Steam id, by EOS id or by name. -/
def identityKey (lower : Text → Text) (steam eos : Option Text) (name : Text) : Text :=
  match steam, eos with
  | some steam, _ => Text.of "steam:" ++ steam
  | none, some eos => Text.of "eos:" ++ eos
  | none, none => nameKey lower name

/-- What the row of the id becomes when the name-only row is merged into it. -/
def mergedInto (fallback : Player) (steamId eosId : Option Text) (canonical : Player) : Player :=
  let online := canonical.online || fallback.online
  let sessionStarts :=
    canonical.currentSessionStartedAt.toList ++ fallback.currentSessionStartedAt.toList
  { canonical with
    steamId := steamId.or canonical.steamId
    eosId := eosId.or canonical.eosId
    lifetimeSeconds := canonical.lifetimeSeconds + fallback.lifetimeSeconds
    zombieKills := max canonical.zombieKills fallback.zombieKills
    playerKills := max canonical.playerKills fallback.playerKills
    deaths := max canonical.deaths fallback.deaths
    level := max canonical.level fallback.level
    firstSeenAt := min fallback.firstSeenAt canonical.firstSeenAt
    lastSeenAt := max fallback.lastSeenAt canonical.lastSeenAt
    online := online
    currentSessionStartedAt := if online then sessionStarts.min? else none }

/-- The three writes of the merging transaction. -/
def merge (s : Roster) (canonical fallback : Player) (steamId eosId : Option Text) : Roster :=
  { s with
    sessions := s.sessions.modify (fun a => a.playerId = fallback.id)
      (fun a => { a with playerId := canonical.id }) fun _ => rfl
    players := (s.players.update canonical.id (mergedInto fallback steamId eosId)
      fun _ => rfl).erase fun p => p.id = fallback.id }

/-- What a name-only row becomes when its id is seen first. -/
def promoted (identityKey : Text) (steamId eosId : Option Text) (fallback : Player) : Player :=
  { fallback with identityKey := identityKey, steamId := steamId, eosId := eosId }

/-- `reconcileNameFallback`. -/
def reconcileNameFallback (lower : Text → Text) (serverInstanceId : Id) (identityKey name : Text)
    (steamId eosId : Option Text) (s : Roster) : Roster :=
  if nameOnly identityKey then s
  else
    match s.byKey serverInstanceId (nameKey lower name) with
    | none => s
    | some fallback =>
      match s.byKey serverInstanceId identityKey with
      | none =>
        { s with
          players := s.players.update fallback.id (promoted identityKey steamId eosId)
            fun _ => rfl }
      | some canonical => s.merge canonical fallback steamId eosId

/-- The counters that a player list gives. -/
structure Stats where
  zombieKills : ℕ
  playerKills : ℕ
  deaths : ℕ
  level : ℕ
deriving DecidableEq

/-- A player who is seen online: what an upsert writes. A log line gives no address and no
counters. -/
structure Sighting where
  orgId : Id
  serverInstanceId : Id
  identityKey : Text
  name : Text
  steamId : Option Text
  eosId : Option Text
  entityId : Option ℕ
  ipAddress : Option Text
  stats : Option Stats

/-- Whether the numbers fit their columns, which are 32-bit integers. -/
def Sighting.fits (x : Sighting) : Bool :=
  x.entityId.all (· < 2 ^ 31) && x.stats.all fun c =>
    c.zombieKills < 2 ^ 31 && c.playerKills < 2 ^ 31 && c.deaths < 2 ^ 31 && c.level < 2 ^ 31

/-- The row that an upsert creates. -/
def Sighting.create (x : Sighting) (now : ℤ) (id : Id) : Player where
  id := id
  orgId := x.orgId
  serverInstanceId := x.serverInstanceId
  identityKey := x.identityKey
  steamId := x.steamId
  eosId := x.eosId
  entityId := x.entityId
  ipAddress := x.ipAddress
  name := x.name
  online := true
  currentSessionStartedAt := some now
  lifetimeSeconds := 0
  zombieKills := (x.stats.map Stats.zombieKills).getD 0
  playerKills := (x.stats.map Stats.playerKills).getD 0
  deaths := (x.stats.map Stats.deaths).getD 0
  level := (x.stats.map Stats.level).getD 1
  firstSeenAt := now
  lastSeenAt := now

/-- What an upsert makes of a row. -/
def Sighting.update (x : Sighting) (now : ℤ) (existing : Player) : Player :=
  { existing with
    steamId := x.steamId.or existing.steamId
    eosId := x.eosId.or existing.eosId
    entityId := x.entityId.or existing.entityId
    ipAddress := (x.ipAddress.filter (· ≠ [])).or existing.ipAddress
    name := x.name
    online := true
    lastSeenAt := now
    zombieKills := (x.stats.map Stats.zombieKills).getD existing.zombieKills
    playerKills := (x.stats.map Stats.playerKills).getD existing.playerKills
    deaths := (x.stats.map Stats.deaths).getD existing.deaths
    level := (x.stats.map Stats.level).getD existing.level
    currentSessionStartedAt :=
      if existing.online then existing.currentSessionStartedAt else some now }

/-- The upsert of a player who is seen online, and the session it begins unless the row was online
before. -/
def sight (x : Sighting) (now : ℤ) (s : Roster) : Except Roster Roster :=
  if x.fits then
    match s.byKey x.serverInstanceId x.identityKey with
    | some existing =>
      let s' := { s with players := s.players.update existing.id (x.update now) fun _ => rfl }
      .ok (if existing.online then s' else s'.openSession existing.id now)
    | none =>
      let s' := { s with players := s.players.insert (x.create now) fun _ => rfl }
      .ok (s'.openSession s.players.next now)
  else .error s

/-- The seconds between two times, at least none. -/
def secondsBetween (started ended : ℤ) : ℕ := ((ended - started) / 1000).toNat

/-- How long the current session of a player has lasted at a time. -/
def sessionSeconds (p : Player) (ended : ℤ) : ℕ :=
  match p.currentSessionStartedAt with
  | some started => secondsBetween started ended
  | none => 0

/-- What the row of a player becomes who goes offline. -/
def offline (duration : ℕ) (lastSeenAt : Option ℤ) (p : Player) : Player :=
  { p with
    online := false
    currentSessionStartedAt := none
    lastSeenAt := lastSeenAt.getD p.lastSeenAt
    lifetimeSeconds := p.lifetimeSeconds + duration }

/-- The transaction that takes a player offline at a time. A log line also says when the player was
last seen. -/
def leave (p : Player) (ended : ℤ) (lastSeenAt : Option ℤ) (s : Roster) : Roster :=
  let duration := sessionSeconds p ended
  { s with
    players := s.players.update p.id (offline duration lastSeenAt) fun _ => rfl
    sessions := s.sessions.modify (fun a => a.playerId = p.id ∧ a.endedAt = none)
      (fun a => { a with endedAt := some ended, durationSeconds := some duration }) fun _ => rfl }

end Roster

/-! ## The log of a server -/

/-- A player who joins or leaves, as a line of the log tells it. -/
structure Lifecycle where
  joined : Bool
  steam : Option Text
  eos : Option Text
  entity : Option ℕ
  name : Text
deriving DecidableEq

namespace Lifecycle

/-- The key of the player's row. -/
def identityKey (lower : Text → Text) (e : Lifecycle) : Text :=
  Roster.identityKey lower e.steam e.eos e.name

/-- `GMSG: Player '.*'`, with the flag `i`. -/
def gmsgPlayer : Regex UInt16 := all [liti "GMSG: Player '", many Text.isDot 0 none, lit "'"]

/-- The pattern of a player who joined the game. -/
def joinedGame : Regex UInt16 := all [gmsgPlayer, liti " joined the game"]

/-- The pattern of a player who spawned on entry. -/
def spawned : Regex UInt16 :=
  all [liti "PlayerSpawnedInWorld", spaces, liti "(reason:", spaces,
    alt (liti "EnterMultiplayer") (liti "JoinMultiplayer"), wordEdge]

/-- The pattern of a player who left. -/
def leftGame : Regex UInt16 := alt (liti "PlayerDisconnected") (all [gmsgPlayer, liti " left"])

/-- `\s*=\s*'?`. -/
def assign : Regex UInt16 := all [spaces, lit "=", spaces, optional (Text.of "'").contains]

/-- The pattern of a labelled Steam id. -/
def steamLabelled : Regex UInt16 :=
  all [alt (liti "PltfmId") (liti "OwnerID"), assign, liti "Steam_",
    group (many Text.isDigit 15 (some 20)), optional (Text.of "'").contains]

/-- The pattern of a bare Steam id. -/
def steamBare : Regex UInt16 :=
  all [wordEdge, group (all [lit "7656119", many Text.isDigit 10 (some 10)]), wordEdge]

/-- The pattern of a labelled EOS id. -/
def eosLabelled : Regex UInt16 :=
  all [alt (liti "CrossId") (liti "PltfmId"), assign, liti "EOS_",
    group (many Text.isHex 20 (some 64)), optional (Text.of "'").contains]

/-- The pattern of an entity id. -/
def entityLabelled : Regex UInt16 :=
  all [liti "EntityID", one (Text.of "=:").contains, spaces, group digits]

/-- The pattern of a labelled name. -/
def nameLabelled : Regex UInt16 :=
  all [liti "PlayerName", assign, group (many (Text.noneOf "',\r\n") 1 none),
    optional (Text.of "'").contains]

/-- The pattern of a name in a message of the game. -/
def nameQuoted : Regex UInt16 :=
  all [liti "GMSG: Player '", group (many (Text.noneOf "'") 1 none), lit "'"]

/-- What `parsePlayers` reads from a line, unless it skips it. -/
def ofLine (line : Text) : Option Lifecycle :=
  let joined := joinedGame.test line || spawned.test line
  let left := leftGame.test line
  if !joined && !left then none
  else
    let steam := (steamLabelled.capture line).or (steamBare.capture line)
    let eos := eosLabelled.capture line
    let entity := (entityLabelled.capture line).map Text.number
    match ((nameLabelled.capture line).or (nameQuoted.capture line)).map Text.trim with
    | none => none
    | some [] => none
    | some name => some ⟨joined, steam, eos, entity, name⟩

end Lifecycle

/-- The server that a log or a player list is about. -/
structure Server where
  id : Id
  orgId : Id
  name : Text

namespace Roster

/-- The upsert of a player who joined. -/
def joining (lower : Text → Text) (server : Server) (e : Lifecycle) : Sighting :=
  ⟨server.orgId, server.id, e.identityKey lower, e.name, e.steam, e.eos, e.entity, none, none⟩

/-- What `parsePlayers` does about a player who joins or leaves. -/
def follow (lower : Text → Text) (server : Server) (now : ℤ) (e : Lifecycle) (s : Roster) :
    Except Roster Roster :=
  let s := s.reconcileNameFallback lower server.id (e.identityKey lower) e.name e.steam e.eos
  let existing := s.byKey server.id (e.identityKey lower)
  if e.joined then do
    let s ← s.sight (joining lower server e) now
    if existing.any Player.online then .ok s
    else .ok (s.alert ⟨.playerConnected, server.orgId, server.id, server.name, e.name, e.steam,
      e.eos, none⟩)
  else
    match existing with
    | none => .ok s
    | some p =>
      if p.online then
        .ok ((s.leave p now (some now)).alert ⟨.playerDisconnected, server.orgId, server.id,
          server.name, e.name, e.steam.or p.steamId, e.eos.or p.eosId,
          some (sessionSeconds p now)⟩)
      else .ok s

/-- What `parsePlayers` does with a line. -/
def parseLine (lower : Text → Text) (server : Server) (now : ℤ) (line : Text) (s : Roster) :
    Except Roster Roster :=
  match Lifecycle.ofLine line with
  | none => .ok s
  | some e => s.follow lower server now e

/-- The lines of a chunk, each with the time at which it is read. A failing write skips the lines
after it. -/
def parseLines (lower : Text → Text) (server : Server) (lines : List (ℤ × Text)) (s : Roster) :
    Except Roster Roster :=
  lines.foldlM (fun s line => s.parseLine lower server line.1 line.2) s

/-- The roster that a method leaves, whether or not it failed. -/
def left : Except Roster Roster → Roster
  | .ok s => s
  | .error s => s

/-! ## The polled player list -/

end Roster

namespace LpLine

/-- The pattern of the beginning of a line about a player. -/
def head : Regex UInt16 :=
  all [start, spaces, digits, lit ".", many Text.isSpace 1 none, liti "id=", group digits, lit ",",
    spaces, group (many (Text.noneOf ",") 1 none), lit ","]

/-- The pattern of the Steam id. -/
def steamId : Regex UInt16 :=
  all [alt (liti "pltfmid") (liti "steamid"), liti "=Steam_",
    group (many Text.isDigit 15 (some 20))]

/-- The pattern of the EOS id. -/
def eosId : Regex UInt16 :=
  all [alt (liti "crossid") (liti "pltfmid"), liti "=EOS_", group (many Text.isHex 20 (some 64))]

/-- `\s*=\s*`. -/
def equals : Regex UInt16 := all [spaces, lit "=", spaces]

/-- The pattern of the address. -/
def ip : Regex UInt16 :=
  all [wordEdge, liti "ip", equals,
    group (alt (all [lit "[", many (Text.noneOf "]") 1 none, lit "]"])
      (many (fun u => !Text.isSpace u && Text.noneOf "," u) 1 none))]

/-- The pattern of a counter. -/
def counter (label : Regex UInt16) : Regex UInt16 := all [label, equals, group digits]

/-- The pattern of the zombie kills. -/
def zombieKills : Regex UInt16 := counter (alt (liti "zombies") (liti "zombiekills"))

/-- The pattern of the player kills. -/
def playerKills : Regex UInt16 := counter (alt (liti "players") (liti "playerkills"))

/-- The pattern of the deaths. -/
def deaths : Regex UInt16 := counter (liti "deaths")

/-- The pattern of the level. -/
def level : Regex UInt16 := counter (liti "level")

/-- The pattern of the ping. -/
def ping : Regex UInt16 := counter (all [wordEdge, liti "ping"])

/-- The address without the brackets around it. -/
def unbracket (ip : Text) : Text :=
  let ip := if ip.head? = some (Text.unit '[') then ip.tail else ip
  if ip.getLast? = some (Text.unit ']') then ip.dropLast else ip

end LpLine

/-- What `reconcilePlayers` and `enforceConnectionTools` read from a line of the player list. -/
structure LpRow where
  entityId : Text
  name : Text
  steam : Option Text
  eos : Option Text
  ipAddress : Option Text
  stats : Roster.Stats
  ping : Option ℕ
deriving DecidableEq

/-- What is read from a line, unless it is skipped. -/
def LpRow.ofLine (line : Text) : Option LpRow :=
  match LpLine.head.search line with
  | some [id, name] => some {
      entityId := id
      name := Text.trim name
      steam := LpLine.steamId.capture line
      eos := LpLine.eosId.capture line
      ipAddress := (LpLine.ip.capture line).map LpLine.unbracket
      stats :=
        ⟨((LpLine.zombieKills.capture line).map Text.number).getD 0,
          ((LpLine.playerKills.capture line).map Text.number).getD 0,
          ((LpLine.deaths.capture line).map Text.number).getD 0,
          ((LpLine.level.capture line).map Text.number).getD 1⟩
      ping := (LpLine.ping.capture line).map Text.number }
  | _ => none

/-- The key of the row that a line updates. -/
def LpRow.identityKey (lower : Text → Text) (row : LpRow) : Text :=
  Roster.identityKey lower row.steam row.eos row.name

namespace Roster

/-- `/Total of\s+\d+\s+in the game/i`. -/
def total : Regex UInt16 :=
  all [liti "Total of", many Text.isSpace 1 none, digits, many Text.isSpace 1 none,
    liti "in the game"]

/-- The rows of the player list, when the output is one. -/
def lpRows (output : Text) : Option (List LpRow) :=
  if total.test output then
    let (lines, last) := output.splitLines
    some ((lines ++ [last]).filterMap LpRow.ofLine)
  else none

/-- The upsert of a player on the list. -/
def listed (lower : Text → Text) (server : Server) (row : LpRow) : Sighting :=
  ⟨server.orgId, server.id, row.identityKey lower, row.name, row.steam, row.eos,
    some row.entityId.number, row.ipAddress, some row.stats⟩

/-- What `reconcilePlayers` does with a line. -/
def reconcileRow (lower : Text → Text) (server : Server) (now : ℤ) (row : LpRow) (s : Roster) :
    Except Roster Roster :=
  (s.reconcileNameFallback lower server.id (row.identityKey lower) row.name row.steam row.eos).sight
    (listed lower server row) now

/-- What `reconcilePlayers` does about a player who is online and not on the list. -/
def dropMissing (server : Server) (now : ℤ) (s : Roster) (p : Player) : Roster :=
  let ended := min p.lastSeenAt now
  (s.leave p ended none).alert ⟨.playerDisconnected, server.orgId, server.id, server.name, p.name,
    p.steamId, p.eosId, some (sessionSeconds p ended)⟩

/-- The players who are online and not on the list. -/
def missing (lower : Text → Text) (server : Server) (rows : List LpRow) (s : Roster) :
    List Player :=
  s.players.rows.filter fun p =>
    p.serverInstanceId = server.id ∧ p.online ∧
      p.identityKey ∉ rows.map (LpRow.identityKey lower)

/-- `reconcilePlayers`, after the output is read. -/
def reconcileRows (lower : Text → Text) (server : Server) (now : ℤ) (rows : List LpRow)
    (s : Roster) : Except Roster Roster := do
  let s ← rows.foldlM (fun s row => s.reconcileRow lower server now row) s
  return (s.missing lower server rows).foldl (dropMissing server now) s

/-- `reconcilePlayers`. -/
def reconcilePlayers (lower : Text → Text) (server : Server) (now : ℤ) (output : Text)
    (s : Roster) : Except Roster Roster :=
  match lpRows output with
  | none => .ok s
  | some rows => s.reconcileRows lower server now rows

/-- The players with an id that a listing looks at. -/
def stablePlayers (orgId : Id) (serverInstanceId : Option Id) (s : Roster) : List Player :=
  s.players.rows.filter fun p =>
    p.orgId = orgId ∧ (∀ i ∈ serverInstanceId, p.serverInstanceId = i) ∧
      nameOnly p.identityKey = false

/-- The writes of `PlayersService.list`. -/
def list (lower : Text → Text) (orgId : Id) (serverInstanceId : Option Id) (s : Roster) : Roster :=
  (s.stablePlayers orgId serverInstanceId).foldl
    (fun s p => s.reconcileNameFallback lower p.serverInstanceId p.identityKey p.name p.steamId
      p.eosId) s

end Roster

/-- The players and what `parsePlayers` keeps in memory: the unfinished line of each server. -/
structure Desk where
  roster : Roster
  lineBuffers : Id → Text

/-- The lines that a chunk completes, and the unfinished one after them, of which the last 4096
units are kept. -/
def completeLines (buffer content : Text) : List Text × Text :=
  let split := Text.splitLines (buffer ++ content)
  (split.1, split.2.sliceLast 4096)

/-- The lines that `parsePlayers` reads in a chunk. The time at which it reads the `i`-th one is
`clock i`. -/
def Desk.timedLines (d : Desk) (server : Server) (clock : ℕ → ℤ) (content : Text) :
    List (ℤ × Text) :=
  (completeLines (d.lineBuffers server.id) content).1.zipIdx.map fun line =>
    (clock line.2, line.1)

/-- `parsePlayers`. A failure does not reach its caller. -/
def Desk.parsePlayers (lower : Text → Text) (server : Server) (clock : ℕ → ℤ) (content : Text)
    (d : Desk) : Desk :=
  { roster := Roster.left (d.roster.parseLines lower server (d.timedLines server clock content))
    lineBuffers := Function.update d.lineBuffers server.id
      (completeLines (d.lineBuffers server.id) content).2 }

end Mastermind.Players
