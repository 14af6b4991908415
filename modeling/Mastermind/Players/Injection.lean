import Mastermind.Players.Chat

/-!
# Chat that reads as a player who joins or leaves

`parseChat` and `parsePlayers` read the same lines, each with patterns of its own that look
anywhere in a line, so that what a player writes is searched for the messages of the game as well.
`unnoticed_iff` says which lines of the chat `parsePlayers` does not notice: those from which it
reads no player who joins or leaves. Any other line changes the players of some server.

A log is here the lines that each chunk completes, with the time at which each one is read;
`Desk.timedLines` are those of a chunk.
-/

namespace Mastermind.Players

open Effect Regex

namespace Roster

/-- The chunks of the log of a server, one after the other. -/
def parseLog (lower : Text → Text) (server : Server) (chunks : List (List (ℤ × Text)))
    (s : Roster) : Roster :=
  chunks.foldl (fun s lines => left (s.parseLines lower server lines)) s

/-- Putting the line anywhere in a log does not change what becomes of any roster. -/
def Unnoticed (lower : Text → Text) (server : Server) (line : Text) : Prop :=
  ∀ (s : Roster) (before after : List (List (ℤ × Text))) (above below : List (ℤ × Text)) (now : ℤ),
    s.parseLog lower server (before ++ [above ++ (now, line) :: below] ++ after) =
      s.parseLog lower server (before ++ [above ++ below] ++ after)

variable {lower : Text → Text} {server : Server}

theorem parseLines_append (above below : List (ℤ × Text)) (s : Roster) :
    s.parseLines lower server (above ++ below) =
      (s.parseLines lower server above).bind fun s => s.parseLines lower server below :=
  List.foldlM_append

/-- A line from which nothing is read does nothing in a chunk. -/
theorem parseLines_insert {line : Text} (h : Lifecycle.ofLine line = none)
    (above below : List (ℤ × Text)) (now : ℤ) (s : Roster) :
    s.parseLines lower server (above ++ (now, line) :: below) =
      s.parseLines lower server (above ++ below) := by
  have hline : ∀ s : Roster, s.parseLine lower server now line = .ok s := fun s => by
    rw [parseLine, h]
  have hcons : ∀ s : Roster, s.parseLines lower server ((now, line) :: below) =
      s.parseLines lower server below := fun s => by
    rw [parseLines, List.foldlM_cons, hline s]
    rfl
  rw [parseLines_append, parseLines_append, funext hcons]

theorem parseLog_append (chunks chunks' : List (List (ℤ × Text))) (s : Roster) :
    s.parseLog lower server (chunks ++ chunks') =
      (s.parseLog lower server chunks).parseLog lower server chunks' :=
  List.foldl_append

/-- In a log of one chunk, an unnoticed line does not change what becomes of a roster. -/
theorem Unnoticed.chunk {line : Text} (h : Unnoticed lower server line) (s : Roster)
    (below : List (ℤ × Text)) :
    left (s.parseLines lower server ((0, line) :: below)) =
      left (s.parseLines lower server below) := by
  have hone := h s [] [] [] below 0
  simpa [parseLog] using hone

/-! ## A line from which something is read is noticed somewhere -/

/-- A line from which `parsePlayers` reads a player who joins. -/
def joinedBob : Text := Text.of "INF GMSG: Player 'Bob' joined the game"

theorem ofLine_joinedBob :
    Lifecycle.ofLine joinedBob = some ⟨true, none, none, none, Text.of "Bob"⟩ := by
  decide +kernel

/-- Without rows, no row is found. -/
theorem byKey_empty (i : Id) (key : Text) : empty.byKey i key = none := rfl

/-- Without rows, there is nothing to merge. -/
theorem reconcileNameFallback_empty (i : Id) (key name : Text) (steamId eosId : Option Text) :
    empty.reconcileNameFallback lower i key name steamId eosId = empty := by
  unfold reconcileNameFallback
  split_ifs
  · rfl
  · rw [byKey_empty]

/-- Without rows, a player who is seen gets one, if the numbers fit. -/
theorem sight_empty {x : Sighting} (h : x.fits) (now : ℤ) :
    ∃ s, empty.sight x now = .ok s ∧ s.players.rows = [x.create now 0] := by
  have hs : empty.sight x now = .ok (openSession
      ⟨empty.players.insert (x.create now) fun _ => rfl, empty.sessions, []⟩ 0 now) := by
    unfold sight
    rw [if_pos h, byKey_empty]
    rfl
  exact ⟨_, hs, rfl⟩

/-- A player who joins first gets a row, if the numbers fit. -/
theorem parseLine_fit (lower : Text → Text) (server : Server) {line : Text} {e : Lifecycle}
    (h : Lifecycle.ofLine line = some e) (hj : e.joined)
    (hfits : (joining lower server e).fits) (now : ℤ) :
    ∃ s, empty.parseLine lower server now line = .ok s ∧
      s.players.rows = [(joining lower server e).create now 0] := by
  obtain ⟨s, hs, hrows⟩ := sight_empty hfits now
  refine ⟨s.alert ⟨.playerConnected, server.orgId, server.id, server.name, e.name, e.steam, e.eos,
    none⟩, ?_, hrows⟩
  rw [parseLine, h]
  dsimp only
  unfold follow
  dsimp only
  rw [reconcileNameFallback_empty, byKey_empty, if_pos hj, hs]
  rfl

/-- A player who joins with a number that does not fit ends the chunk. -/
theorem parseLine_unfit {line : Text} {e : Lifecycle} (h : Lifecycle.ofLine line = some e)
    (hj : e.joined) (hfits : (joining lower server e).fits = false) (now : ℤ) :
    empty.parseLine lower server now line = .error empty := by
  rw [parseLine, h]
  dsimp only
  unfold follow
  dsimp only
  rw [reconcileNameFallback_empty, if_pos hj, sight, hfits]
  rfl

/-- A player who leaves goes offline. -/
theorem parseLine_leave (lower : Text → Text) (server : Server) {line : Text} {e : Lifecycle}
    (h : Lifecycle.ofLine line = some e) (hj : e.joined = false) : ∃ s, left (s.parseLine lower server 0 line) ≠ s := by
  -- The roster in which the player is online, and no one else is known.
  let x : Sighting := { joining lower server e with entityId := none }
  obtain ⟨s, -, hrows⟩ := sight_empty (x := x) rfl 0
  have hfound : s.byKey server.id (e.identityKey lower) = some (x.create 0 0) := by
    unfold byKey
    rw [hrows]
    exact List.find?_cons_of_pos (by simp [x, Sighting.create, joining])
  have hkept : s.reconcileNameFallback lower server.id (e.identityKey lower) e.name e.steam e.eos =
      s := by
    unfold reconcileNameFallback
    split_ifs with hname
    · rfl
    have hnone : s.byKey server.id (nameKey lower e.name) = none := by
      unfold byKey
      rw [hrows]
      have hkey : e.identityKey lower ≠ nameKey lower e.name := by
        intro heq
        rw [heq, nameOnly, nameKey, List.isPrefixOf_iff_prefix.mpr (List.prefix_append _ _)] at hname
        exact hname rfl
      simp [x, Sighting.create, joining, hkey]
    rw [hnone]
  have hleft : left (s.parseLine lower server 0 line) =
      (s.leave (x.create 0 0) 0 (some 0)).alert ⟨.playerDisconnected, server.orgId, server.id,
        server.name, e.name, e.steam.or (x.create 0 0).steamId, e.eos.or (x.create 0 0).eosId,
        some (sessionSeconds (x.create 0 0) 0)⟩ := by
    rw [parseLine, h]
    dsimp only
    unfold follow
    dsimp only
    rw [hkept, hj, if_neg Bool.false_ne_true, hfound]
    rfl
  refine ⟨s, fun heq => ?_⟩
  have honline := congrArg (fun s => s.players.rows.map Player.online) (hleft.symm.trans heq)
  have hafter : ((s.leave (x.create 0 0) 0 (some 0)).players.rows).map Player.online = [false] := by
    simp [leave, Table.update, Table.modify, hrows, offline, Keyed.key]
  have hbefore : s.players.rows.map Player.online = [true] := by
    rw [hrows]
    rfl
  have hboth := hafter.symm.trans (honline.trans hbefore)
  simp at hboth

/-- A line of the chat does not change the players, the sessions, who is online and the alerts of
any server, wherever it comes in the log, if and only if `parsePlayers` reads from it no player who
joins or leaves. -/
theorem unnoticed_iff (lower : Text → Text) (server : Server) (line : Text) :
    Unnoticed lower server line ↔ Lifecycle.ofLine line = none := by
  constructor
  · intro hun
    cases h : Lifecycle.ofLine line with
    | none => rfl
    | some e =>
      exfalso
      cases hj : e.joined with
      | false =>
        obtain ⟨s, hs⟩ := parseLine_leave lower server h hj
        refine hs ?_
        have hone := hun.chunk s []
        rw [parseLines, List.foldlM_cons] at hone
        cases hr : s.parseLine lower server 0 line with
        | ok s' =>
          rw [hr] at hone
          exact hone
        | error s' =>
          rw [hr] at hone
          exact hone
      | true =>
        cases hfits : (joining lower server e).fits with
        | true =>
          obtain ⟨s, hs, hrows⟩ := parseLine_fit lower server h hj hfits 0
          have hone := hun.chunk empty []
          rw [parseLines, List.foldlM_cons, hs] at hone
          have hempty := congrArg (fun s => s.players.rows) hone
          rw [show (left _).players.rows = s.players.rows from rfl, hrows] at hempty
          cases hempty
        | false =>
          -- The line ends the chunk, and another player who joins after it is missed.
          obtain ⟨s, hs, hrows⟩ := parseLine_fit lower server ofLine_joinedBob rfl rfl 0
          have hone := hun.chunk empty [(0, joinedBob)]
          rw [parseLines, List.foldlM_cons, parseLine_unfit h hj hfits, parseLines,
            List.foldlM_cons, hs] at hone
          have hempty := congrArg (fun s => s.players.rows) hone
          rw [show (left (Except.ok s >>= _)).players.rows = s.players.rows from rfl, hrows] at hempty
          cases hempty
  · intro h s before after above below now
    rw [parseLog_append, parseLog_append, parseLog_append, parseLog_append]
    show parseLog _ _ _ (left _) = parseLog _ _ _ (left _)
    rw [parseLines_insert h]

/-- A player says that another one joined. -/
def forgedLine : Text :=
  Text.of ("2024-05-01T12:00:00 INF Chat (from 'Steam_1', entity id '1', to 'Global'): 'Eve': " ++
    "GMSG: Player 'Bob' joined the game")

/-- What a player says is noticed: it makes a row for another player. -/
theorem forgedLine_noticed :
    ¬∀ (lower : Text → Text) (server : Server) (line : Text) (c : ChatLine),
      ChatLine.ofLine line = some c → c.isServer = false → Unnoticed lower server line := by
  intro h
  have hread : (ChatLine.ofLine forgedLine).any (fun c => !c.isServer) := by decide +kernel
  obtain ⟨c, hc, hplayer⟩ := (Option.any_eq_true _ _).mp hread
  have hun := h id ⟨0, 0, []⟩ forgedLine c hc (by simpa using hplayer)
  have hrows := congrArg (fun s => s.players.rows.length) (hun.chunk empty [])
  have hone : (left (empty.parseLines id ⟨0, 0, []⟩ [(0, forgedLine)])).players.rows.length = 1 := by
    decide +kernel
  rw [hone] at hrows
  cases hrows

end Roster

end Mastermind.Players
