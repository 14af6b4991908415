import Mastermind.Players.Sessions

/-!
# Names that several players share

The comment of `reconcileNameFallback` says that ambiguous display names are left untouched. The code
never looks for another player of the name: `reconcile_untouched_iff` says that a shared name is left
alone exactly when there is no name-only row of the name to begin with.
-/

namespace Mastermind.Players.Ambiguity

open Effect Roster

/-- What calls `reconcileNameFallback`: a line of the log, a line of the player list, or the listing
of the players about one of them. -/
inductive Caller where
  | parsePlayers (server : Server) (e : Lifecycle)
  | reconcilePlayers (server : Server) (row : LpRow)
  | list (player : Player)

/-- The server of the call. -/
def Caller.serverInstanceId : Caller → Id
  | parsePlayers server _ => server.id
  | reconcilePlayers server _ => server.id
  | list player => player.serverInstanceId

/-- The key that the call is about. -/
def Caller.identityKey (lower : Text → Text) : Caller → Text
  | parsePlayers _ e => e.identityKey lower
  | reconcilePlayers _ row => row.identityKey lower
  | list player => player.identityKey

/-- The name that the call is about. -/
def Caller.name : Caller → Text
  | parsePlayers _ e => e.name
  | reconcilePlayers _ row => row.name
  | list player => player.name

/-- The call. -/
def Caller.reconcile (lower : Text → Text) (s : Roster) : Caller → Roster
  | parsePlayers server e =>
    s.reconcileNameFallback lower server.id (e.identityKey lower) e.name e.steam e.eos
  | reconcilePlayers server row =>
    s.reconcileNameFallback lower server.id (row.identityKey lower) row.name row.steam row.eos
  | list player =>
    s.reconcileNameFallback lower player.serverInstanceId player.identityKey player.name
      player.steamId player.eosId

/-- The row of a player with an id. -/
def Stable (serverInstanceId : Id) (p : Player) : Prop :=
  p.serverInstanceId = serverInstanceId ∧ nameOnly p.identityKey = false

/-- The call is about a player with an id whose name another player with an id has as well. -/
def Caller.Ambiguous (lower : Text → Text) (s : Roster) (c : Caller) : Prop :=
  ∃ p ∈ s.players.rows, ∃ q ∈ s.players.rows, p ≠ q ∧ Stable c.serverInstanceId p ∧
    Stable c.serverInstanceId q ∧ p.identityKey = c.identityKey lower ∧ p.name = c.name ∧
    q.name = c.name

/-- The name-only row of the name of a call, and its sessions, are what they were. -/
def Caller.Untouched (lower : Text → Text) (s after : Roster) (c : Caller) : Prop :=
  ∀ f ∈ s.players.rows, f.serverInstanceId = c.serverInstanceId →
    f.identityKey = nameKey lower c.name →
      f ∈ after.players.rows ∧
        ∀ a ∈ s.sessions.rows, a.playerId = f.id → a ∈ after.sessions.rows

/-- Every call is one of `reconcileNameFallback` about its server, key and name. -/
theorem Caller.reconcile_eq (lower : Text → Text) (s : Roster) (c : Caller) :
    ∃ steamId eosId, c.reconcile lower s =
      s.reconcileNameFallback lower c.serverInstanceId (c.identityKey lower) c.name steamId eosId := by
  cases c with
  | parsePlayers server e => exact ⟨e.steam, e.eos, rfl⟩
  | reconcilePlayers server row => exact ⟨row.steam, row.eos, rfl⟩
  | list player => exact ⟨player.steamId, player.eosId, rfl⟩

/-- Where both the row of the key and the name-only row exist, the latter is gone afterwards. -/
theorem gone_of_reconcile {lower : Text → Text} {server : Id} {key name : Text} {s : Roster}
    {canonical f : Player} (hkey : nameOnly key = false) (hc : s.byKey server key = some canonical)
    (hf : s.byKey server (nameKey lower name) = some f) (steamId eosId : Option Text) :
    f ∉ (s.reconcileNameFallback lower server key name steamId eosId).players.rows := by
  unfold reconcileNameFallback
  rw [if_neg (by simp [hkey]), hf, hc]
  intro hmem
  have herased := (List.mem_filter.mp hmem).2
  simp at herased

/-- A name is left alone exactly when it is not shared by players with an id, or has no name-only
row. -/
theorem reconcile_untouched_iff (lower : Text → Text) (s : Roster) (c : Caller) :
    (c.Ambiguous lower s → c.Untouched lower s (c.reconcile lower s)) ↔
      ¬ c.Ambiguous lower s ∨ s.byKey c.serverInstanceId (nameKey lower c.name) = none := by
  obtain ⟨steamId, eosId, hcall⟩ := c.reconcile_eq lower s
  rw [hcall]
  constructor
  · intro huntouched
    rw [or_iff_not_imp_left, not_not]
    intro hambiguous
    by_contra hsome
    obtain ⟨f, hf⟩ := Option.ne_none_iff_exists'.mp hsome
    obtain ⟨hmem, hserver, hfkey⟩ := mem_of_byKey hf
    obtain ⟨p, hp, q, -, -, hstable, -, hkey, -, -⟩ := id hambiguous
    have hcanonical : (s.byKey c.serverInstanceId (c.identityKey lower)).isSome :=
      List.find?_isSome.mpr ⟨p, hp, by simp [hstable.1, hkey]⟩
    obtain ⟨canonical, hcanonical⟩ := Option.isSome_iff_exists.mp hcanonical
    exact gone_of_reconcile (hkey ▸ hstable.2) hcanonical hf steamId eosId
      (huntouched hambiguous f hmem hserver hfkey).1
  · rintro (hunique | hnone) hambiguous
    · exact absurd hambiguous hunique
    · -- without such a row there is nothing to touch
      intro f hf hserver hfkey
      exact absurd (List.find?_eq_none.mp hnone f hf) (by simp [hserver, hfkey])

/-- A row of a player called Bob. -/
def bobRow (id : Id) (key : Text) : Player :=
  ⟨id, 0, 0, key, none, none, none, none, Text.of "Bob", false, none, 0, 0, 0, 0, 1, 0, 0⟩

/-- Two players with an id are called Bob, and there is a name-only row of the name. -/
def twoBobs : Roster where
  players := {
    rows := [bobRow 0 (Text.of "steam:1"), bobRow 1 (Text.of "steam:2"), bobRow 2 (Text.of "name:Bob")]
    next := 3
    lt_next := by
      simp only [List.mem_cons, List.not_mem_nil, or_false, forall_eq_or_imp, forall_eq]
      decide
    nodup := by decide }
  sessions := Table.empty
  alerts := []

/-- The listing takes the name-only row away from a name that two players have. -/
theorem twoBobs_touched :
    (Caller.list (bobRow 0 (Text.of "steam:1"))).Ambiguous id twoBobs ∧
      ¬ (Caller.list (bobRow 0 (Text.of "steam:1"))).Untouched id twoBobs
        ((Caller.list (bobRow 0 (Text.of "steam:1"))).reconcile id twoBobs) := by
  constructor
  · exact ⟨bobRow 0 (Text.of "steam:1"), by decide, bobRow 1 (Text.of "steam:2"), by decide, by decide,
      ⟨rfl, by decide⟩, ⟨rfl, by decide⟩, rfl, rfl, rfl⟩
  · intro h
    have hkept := (h (bobRow 2 (Text.of "name:Bob")) (by decide) rfl (by decide)).1
    exact absurd hkept (by decide)

end Mastermind.Players.Ambiguity
