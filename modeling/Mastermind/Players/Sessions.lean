import Mastermind.Players.Roster

/-!
# The ledger of sessions

A player who is online has one open session, which began when `currentSessionStartedAt` says, and a
player who is offline has none; `lifetimeSeconds` adds up the closed ones. `Settled` says so of a
row. Every write keeps it but one: `reconcileNameFallback` moves the sessions of a name-only row to
the row of the id, and if both were online the row of the id then has two open sessions. `Apart`
excludes that, and `settled_of_reachable` is about every run without it.

Sessions are counted in pairs: `tally` is the number of open sessions of a player together with
the seconds of the closed ones, and each write of the session table has one rule for both.
-/

namespace Mastermind.Players

open Effect

namespace Roster

/-- The number of open sessions of a player. -/
def openSessions (s : Roster) (playerId : Id) : ℕ :=
  s.sessions.rows.countP fun a => a.playerId = playerId ∧ a.endedAt = none

/-- The seconds of the closed sessions of a player. -/
def playedSeconds (s : Roster) (playerId : Id) : ℕ :=
  ((s.sessions.rows.filter fun a => a.playerId = playerId ∧ a.endedAt ≠ none).map fun a =>
    a.durationSeconds.getD 0).sum

/-- The row of a player agrees with the sessions of the player. -/
structure Settled (s : Roster) (p : Player) : Prop where
  started : p.online ↔ p.currentSessionStartedAt.isSome
  online : p.online ↔ s.openSessions p.id = 1
  offline : p.online = false → s.openSessions p.id = 0
  lifetime : p.lifetimeSeconds = s.playedSeconds p.id

/-! ## Counting sessions -/

/-- What a session adds to the tally of its player. -/
def share (a : PlayerSession) : ℕ × ℕ :=
  if a.endedAt = none then (1, 0) else (0, a.durationSeconds.getD 0)

/-- The open sessions of a player, and the seconds of the closed ones. -/
def tally (l : List PlayerSession) (i : Id) : ℕ × ℕ :=
  (l.map fun a => if a.playerId = i then share a else 0).sum

@[simp] theorem tally_nil (i : Id) : tally [] i = 0 := rfl

@[simp] theorem tally_cons (a : PlayerSession) (l : List PlayerSession) (i : Id) :
    tally (a :: l) i = (if a.playerId = i then share a else 0) + tally l i := by
  simp [tally]

theorem tally_append (l : List PlayerSession) (a : PlayerSession) (i : Id) :
    tally (l ++ [a]) i = tally l i + if a.playerId = i then share a else 0 := by
  simp [tally]

/-- The tally is what the two counts say. -/
theorem tally_eq (s : Roster) (i : Id) :
    tally s.sessions.rows i = (s.openSessions i, s.playedSeconds i) := by
  unfold openSessions playedSeconds
  generalize s.sessions.rows = l
  induction l with
  | nil => rfl
  | cons a l ih =>
    rw [tally_cons, ih]
    by_cases hi : a.playerId = i <;> by_cases he : a.endedAt = none <;>
      simp [hi, he, share, Nat.add_comm]

/-- A player who has no session has an empty tally. -/
theorem tally_eq_zero {l : List PlayerSession} {i : Id} (h : ∀ a ∈ l, a.playerId ≠ i) :
    tally l i = 0 := by
  induction l with
  | nil => rfl
  | cons a l ih =>
    rw [tally_cons, if_neg (h a List.mem_cons_self), zero_add]
    exact ih fun b hb => h b (List.mem_cons_of_mem a hb)

/-- Moving the sessions of `f` to `c` adds the tally of `f` to that of `c`. -/
theorem tally_move {c f : Id} (hne : c ≠ f) (l : List PlayerSession) (i : Id) :
    tally (l.map fun a => if a.playerId = f then { a with playerId := c } else a) i =
      if i = c then tally l c + tally l f else if i = f then 0 else tally l i := by
  induction l with
  | nil => split_ifs <;> rfl
  | cons a l ih =>
    rw [List.map_cons, tally_cons, ih]
    by_cases ha : a.playerId = f
    · have hshare : share { a with playerId := c } = share a := rfl
      have hfc : f ≠ c := hne.symm
      by_cases hc : i = c
      · subst hc
        rw [if_pos ha, if_pos rfl, if_pos rfl, if_pos rfl, tally_cons, tally_cons, ha, if_neg hfc,
          if_pos rfl, hshare, zero_add]
        exact add_left_comm _ _ _
      · have hci : c ≠ i := fun h => hc h.symm
        by_cases hf : i = f
        · subst hf
          simp [ha, hc, hci]
        · have hfi : f ≠ i := fun h => hf h.symm
          simp [ha, hc, hf, hci, hfi]
    · by_cases hc : i = c
      · subst hc
        simp [ha, add_assoc]
      · by_cases hf : i = f
        · subst hf
          simp [ha, hc]
        · simp [ha, hc, hf]

/-- Closing the open sessions of `p` turns each of them into its duration. -/
theorem tally_close (p : Id) (ended : ℤ) (duration : ℕ) (l : List PlayerSession) (i : Id) :
    tally (l.map fun a => if a.playerId = p ∧ a.endedAt = none then
        { a with endedAt := some ended, durationSeconds := some duration } else a) i =
      if i = p then (0, (tally l p).2 + (tally l p).1 * duration) else tally l i := by
  induction l with
  | nil => simp [Prod.ext_iff]
  | cons a l ih =>
    rw [List.map_cons, tally_cons, ih]
    by_cases ha : a.playerId = p
    · by_cases he : a.endedAt = none
      · by_cases hi : i = p
        · simp [ha, he, hi, share, Prod.ext_iff]
          ring
        · have hpi : p ≠ i := fun h => hi h.symm
          simp [ha, he, hi, hpi]
      · by_cases hi : i = p
        · simp [ha, he, hi, share, Prod.ext_iff]
          ring
        · simp [ha, he, hi]
    · by_cases hi : i = p
      · subst hi
        simp [ha]
      · simp [ha, hi]

/-! ## The ledger -/

/-- Every row is settled, and every session belongs to a player who was created. -/
structure Balanced (s : Roster) : Prop where
  settled : ∀ p ∈ s.players.rows, s.Settled p
  known : ∀ a ∈ s.sessions.rows, a.playerId < s.players.next

/-- A row is settled when its tally is one open session or none, and its seconds. -/
theorem settled_iff {s : Roster} {p : Player} :
    s.Settled p ↔ (p.online = p.currentSessionStartedAt.isSome ∧
      tally s.sessions.rows p.id = (if p.online then 1 else 0, p.lifetimeSeconds)) := by
  rw [tally_eq, Prod.ext_iff]
  constructor
  · intro h
    refine ⟨Bool.eq_iff_iff.mpr h.started, ?_, h.lifetime.symm⟩
    cases ho : p.online with
    | false => exact h.offline ho
    | true => exact h.online.mp ho
  · rintro ⟨hs, ho, hl⟩
    simp only at ho hl
    refine ⟨by rw [hs], ?_, ?_, hl.symm⟩
    · rw [ho]
      cases p.online <;> simp
    · intro hoff
      rw [ho, hoff]
      rfl

/-- No rows are a balanced roster. -/
theorem balanced_empty : Balanced empty :=
  ⟨fun _ h => absurd h (List.not_mem_nil), fun _ h => absurd h (List.not_mem_nil)⟩

theorem mem_of_byKey {s : Roster} {server : Id} {key : Text} {p : Player}
    (h : s.byKey server key = some p) :
    p ∈ s.players.rows ∧ p.serverInstanceId = server ∧ p.identityKey = key := by
  have hp := List.find?_some h
  simp only [decide_eq_true_eq] at hp
  exact ⟨List.mem_of_find?_eq_some h, hp⟩

theorem mem_update_players {t : Table Player} {i : Id} {f : Player → Player}
    (hf : ∀ p, Keyed.key (f p) = Keyed.key p) {q : Player} :
    q ∈ (t.update i f hf).rows ↔ ∃ p ∈ t.rows, q = if p.id = i then f p else p :=
  Table.mem_update hf

/-- A write that changes one row, and only the tally of that row's player, keeps the balance if the
row stays settled. -/
theorem Balanced.change {s : Roster} (h : s.Balanced) {e : Player} (he : e ∈ s.players.rows)
    (f : Player → Player) (hf : ∀ p, (f p).id = p.id) (sessions : Table PlayerSession)
    (alerts : List Alert) (hstart : (f e).online = (f e).currentSessionStartedAt.isSome)
    (hown : tally sessions.rows e.id = (if (f e).online then 1 else 0, (f e).lifetimeSeconds))
    (hothers : ∀ i ≠ e.id, tally sessions.rows i = tally s.sessions.rows i)
    (hknown : ∀ a ∈ sessions.rows, a.playerId < s.players.next) :
    Balanced ⟨s.players.update e.id f hf, sessions, alerts⟩ := by
  refine ⟨fun q hq => ?_, hknown⟩
  obtain ⟨p, hp, rfl⟩ := (mem_update_players hf).mp hq
  rw [settled_iff]
  by_cases hi : p.id = e.id
  · have hpe : p = e := s.players.eq_of_key_eq hp he hi
    subst hpe
    rw [if_pos rfl, hf]
    exact ⟨hstart, hown⟩
  · rw [if_neg hi]
    have hset := settled_iff.mp (h.settled p hp)
    exact ⟨hset.1, (hothers p.id hi).trans hset.2⟩

/-- An upsert that fails leaves the roster; one that succeeds keeps the balance. -/
theorem Balanced.sight {s : Roster} (h : s.Balanced) (x : Sighting) (now : ℤ) :
    Balanced (left (s.sight x now)) := by
  unfold Roster.sight
  split_ifs with hfits
  swap
  · exact h
  split
  · rename_i existing hkey
    have hmem : existing ∈ s.players.rows := (mem_of_byKey hkey).1
    have hset := settled_iff.mp (h.settled existing hmem)
    cases hon : existing.online with
    | true =>
      -- The row was online: its session goes on.
      have hstarted : existing.currentSessionStartedAt.isSome := by rw [← hset.1, hon]
      refine h.change hmem (x.update now) (fun _ => rfl) s.sessions s.alerts ?_ ?_
        (fun _ _ => rfl) h.known
      · simp [Sighting.update, hon, hstarted]
      · rw [hset.2, hon]
        rfl
    | false =>
      -- The row was offline: it comes online with one session.
      refine h.change hmem (x.update now) (fun _ => rfl) _ s.alerts ?_ ?_ (fun i hi => ?_)
        fun a ha => ?_
      · simp [Sighting.update, hon]
      · have hadd := tally_append s.sessions.rows
          ⟨s.sessions.next, existing.id, now, none, none⟩ existing.id
        rw [if_pos rfl, hset.2, hon] at hadd
        exact hadd.trans (by simp [share, Sighting.update])
      · have hadd := tally_append s.sessions.rows
          ⟨s.sessions.next, existing.id, now, none, none⟩ i
        rw [if_neg (fun e => hi e.symm), add_zero] at hadd
        exact hadd
      · rcases (Table.mem_insert _).mp ha with ha | rfl
        · exact h.known a ha
        · exact s.players.lt_next existing hmem
  · have hfresh : tally s.sessions.rows s.players.next = 0 :=
      tally_eq_zero fun a ha => Nat.ne_of_lt (h.known a ha)
    have hadd := tally_append s.sessions.rows ⟨s.sessions.next, s.players.next, now, none, none⟩
    refine ⟨fun q hq => settled_iff.mpr ?_, fun a ha => ?_⟩
    · have hrow : q ∈ (s.players.insert (x.create now) fun _ => rfl).rows := hq
      rcases (Table.mem_insert _).mp hrow with hq | rfl
      · have hne : s.players.next ≠ q.id := (Nat.ne_of_lt (s.players.lt_next q hq)).symm
        have hset := settled_iff.mp (h.settled q hq)
        refine ⟨hset.1, (hadd q.id).trans ?_⟩
        rw [if_neg hne, add_zero]
        exact hset.2
      · refine ⟨rfl, (hadd s.players.next).trans ?_⟩
        rw [if_pos rfl, hfresh]
        rfl
    · rcases (Table.mem_insert _).mp ha with ha | rfl
      · exact Nat.lt_succ_of_lt (h.known a ha)
      · exact Nat.lt_succ_self _

/-- Taking a player offline who is online keeps the balance. -/
theorem Balanced.leave {s : Roster} (h : s.Balanced) {p : Player} (hp : p ∈ s.players.rows)
    (hon : p.online) (ended : ℤ) (seen : Option ℤ) : Balanced (s.leave p ended seen) := by
  have hset := settled_iff.mp (h.settled p hp)
  have hmap : ∀ i, tally (s.leave p ended seen).sessions.rows i =
      if i = p.id then (0, (tally s.sessions.rows p.id).2 +
        (tally s.sessions.rows p.id).1 * sessionSeconds p ended)
      else tally s.sessions.rows i := by
    intro i
    rw [← tally_close p.id ended]
    simp [Roster.leave, Table.modify]
  refine h.change hp (Roster.offline (sessionSeconds p ended) seen) (fun _ => rfl) _ s.alerts rfl ?_
    (fun i hi => ?_) fun a ha => ?_
  · refine (hmap p.id).trans ?_
    rw [if_pos rfl, hset.2, if_pos hon]
    simp [offline]
  · exact (hmap i).trans (if_neg hi)
  · obtain ⟨b, hb, rfl⟩ := List.mem_map.mp ha
    split_ifs
    · exact h.known b hb
    · exact h.known b hb

/-- Telling an alert does not touch the rows. -/
theorem Balanced.alert {s : Roster} (h : s.Balanced) (a : Alert) : Balanced (s.alert a) :=
  ⟨fun p hp => settled_iff.mpr (settled_iff.mp (h.settled p hp) : _ ∧ _), h.known⟩

/-- The row of an id and the name-only row of a name are not both online. -/
def Apart (lower : Text → Text) (serverInstanceId : Id) (identityKey name : Text) (s : Roster) :
    Prop :=
  nameOnly identityKey = false →
    ∀ fallback ∈ s.byKey serverInstanceId (nameKey lower name),
      ∀ canonical ∈ s.byKey serverInstanceId identityKey,
        ¬(canonical.online ∧ fallback.online)

/-- Merging two rows that are not both online keeps the balance. -/
theorem Balanced.merge {s : Roster} (h : s.Balanced) {c f : Player} (hc : c ∈ s.players.rows)
    (hf : f ∈ s.players.rows) (hne : c.id ≠ f.id) (hoff : ¬(c.online ∧ f.online))
    (steamId eosId : Option Text) : Balanced (s.merge c f steamId eosId) := by
  have hsc := settled_iff.mp (h.settled c hc)
  have hsf := settled_iff.mp (h.settled f hf)
  have hmap : ∀ i, tally ((s.merge c f steamId eosId).sessions.rows) i =
      if i = c.id then tally s.sessions.rows c.id + tally s.sessions.rows f.id
      else if i = f.id then 0 else tally s.sessions.rows i := by
    intro i
    rw [← tally_move hne]
    simp [Roster.merge, Table.modify]
  refine ⟨fun q hq => settled_iff.mpr ?_, fun a ha => ?_⟩
  · obtain ⟨hq, hqf⟩ := Table.mem_erase.mp hq
    obtain ⟨r, hr, rfl⟩ := (mem_update_players _).mp hq
    rw [hmap]
    by_cases hi : r.id = c.id
    · have hrc : r = c := s.players.eq_of_key_eq hr hc hi
      subst hrc
      have hid : (mergedInto f steamId eosId r).id = r.id := rfl
      rw [if_pos rfl, hid, if_pos rfl, hsc.2, hsf.2]
      -- At most one of the two rows brings an open session and its beginning.
      have hs1 := hsc.1
      have hs2 := hsf.1
      cases h1 : r.online <;> cases h2 : f.online <;>
        cases h3 : r.currentSessionStartedAt <;> cases h4 : f.currentSessionStartedAt <;>
        simp_all [mergedInto, List.min?]
    · rw [if_neg hi] at hqf ⊢
      have hrf : r.id ≠ f.id := by simpa using hqf
      rw [if_neg hi, if_neg hrf]
      exact settled_iff.mp (h.settled r hr)
  · obtain ⟨b, hb, rfl⟩ := List.mem_map.mp ha
    split_ifs
    · exact s.players.lt_next c hc
    · exact h.known b hb

/-- `reconcileNameFallback` keeps the balance when it does not find both rows online. -/
theorem Balanced.reconcileNameFallback {s : Roster} (h : s.Balanced) {lower : Text → Text}
    {server : Id} {key name : Text} (hapart : s.Apart lower server key name)
    (steamId eosId : Option Text) :
    Balanced (s.reconcileNameFallback lower server key name steamId eosId) := by
  unfold Roster.reconcileNameFallback
  split_ifs with hname
  · exact h
  have hkey : nameOnly key = false := by simpa using hname
  split
  · exact h
  rename_i fallback hfallback
  obtain ⟨hf, -, hfk⟩ := mem_of_byKey hfallback
  split
  · have hset := settled_iff.mp (h.settled fallback hf)
    exact h.change hf (promoted key steamId eosId) (fun _ => rfl) s.sessions s.alerts hset.1 hset.2
      (fun _ _ => rfl) h.known
  rename_i canonical hcanonical
  obtain ⟨hc, -, hck⟩ := mem_of_byKey hcanonical
  refine h.merge hc hf (fun hid => ?_) (hapart hkey fallback hfallback canonical hcanonical) _ _
  -- A name-only key is not the key of an id, so the two rows differ.
  have hrow : canonical = fallback := s.players.eq_of_key_eq hc hf hid
  rw [hrow, hfk] at hck
  rw [← hck, nameOnly, nameKey, List.isPrefixOf_iff_prefix.mpr (List.prefix_append _ _)] at hkey
  cases hkey

/-! ## A whole call -/

/-- The calls of `reconcileNameFallback` that `parsePlayers` makes find the rows apart. -/
def ApartLines (lower : Text → Text) (server : Server) : List (ℤ × Text) → Roster → Prop
  | [], _ => True
  | line :: lines, s =>
    (∀ e ∈ Lifecycle.ofLine line.2, s.Apart lower server.id (e.identityKey lower) e.name) ∧
      ∀ s', s.parseLine lower server line.1 line.2 = .ok s' → ApartLines lower server lines s'

/-- The calls of `reconcileNameFallback` that `reconcilePlayers` makes find the rows apart. -/
def ApartRows (lower : Text → Text) (server : Server) (now : ℤ) : List LpRow → Roster → Prop
  | [], _ => True
  | row :: rows, s =>
    s.Apart lower server.id (row.identityKey lower) row.name ∧
      ∀ s', s.reconcileRow lower server now row = .ok s' → ApartRows lower server now rows s'

/-- The calls of `reconcileNameFallback` that `list` makes find the rows apart. -/
def ApartPlayers (lower : Text → Text) : List Player → Roster → Prop
  | [], _ => True
  | p :: ps, s =>
    s.Apart lower p.serverInstanceId p.identityKey p.name ∧
      ApartPlayers lower ps (s.reconcileNameFallback lower p.serverInstanceId p.identityKey p.name
        p.steamId p.eosId)

theorem apartLines_one {lower : Text → Text} {server : Server} {s : Roster} {t : ℤ}
    {line : Text} (h : ∀ e, Lifecycle.ofLine line = some e →
      s.Apart lower server.id (e.identityKey lower) e.name) :
    s.ApartLines lower server [(t, line)] :=
  ⟨fun e he => h e (Option.mem_def.mp he), fun _ _ => trivial⟩

/-- A line of the log keeps the balance. -/
theorem Balanced.parseLine {s : Roster} (h : s.Balanced) {lower : Text → Text} {server : Server}
    {now : ℤ} {line : Text}
    (hapart : ∀ e ∈ Lifecycle.ofLine line, s.Apart lower server.id (e.identityKey lower) e.name) :
    Balanced (left (s.parseLine lower server now line)) := by
  unfold Roster.parseLine
  split
  · exact h
  rename_i e he
  have hb := h.reconcileNameFallback (hapart e he) e.steam e.eos
  unfold follow
  generalize s.reconcileNameFallback lower server.id (e.identityKey lower) e.name e.steam e.eos = s₁
    at hb
  dsimp only
  by_cases hjoined : e.joined
  · rw [if_pos hjoined]
    have hsight := hb.sight (joining lower server e) now
    cases hr : s₁.sight (joining lower server e) now with
    | error s₂ => rwa [hr] at hsight
    | ok s₂ =>
      rw [hr] at hsight
      cases hon : (s₁.byKey server.id (e.identityKey lower)).any Player.online with
      | true => exact hsight
      | false => exact hsight.alert _
  · rw [if_neg hjoined]
    split
    · exact hb
    · rename_i p hp
      split_ifs with hon
      · exact (hb.leave (mem_of_byKey hp).1 hon now (some now)).alert _
      · exact hb

/-- The lines of a chunk keep the balance. -/
theorem Balanced.parseLines {s : Roster} (h : s.Balanced) {lower : Text → Text} {server : Server}
    {lines : List (ℤ × Text)} (hapart : ApartLines lower server lines s) :
    Balanced (left (s.parseLines lower server lines)) := by
  unfold Roster.parseLines
  induction lines generalizing s with
  | nil => exact h
  | cons line lines ih =>
    have hline : Balanced (left (s.parseLine lower server line.1 line.2)) :=
      h.parseLine hapart.1
    rw [List.foldlM_cons]
    cases hr : s.parseLine lower server line.1 line.2 with
    | error s' => rwa [hr] at hline
    | ok s' =>
      rw [hr] at hline
      exact ih hline (hapart.2 s' hr)

/-- Taking players offline who are online, each of them once, keeps the balance. -/
theorem Balanced.dropMissing {s : Roster} (h : s.Balanced) (server : Server) (now : ℤ)
    {ps : List Player} (hmem : ∀ p ∈ ps, p ∈ s.players.rows) (hon : ∀ p ∈ ps, p.online)
    (hnodup : (ps.map Player.id).Nodup) :
    Balanced (ps.foldl (Roster.dropMissing server now) s) := by
  induction ps generalizing s with
  | nil => exact h
  | cons p ps ih =>
    rw [List.map_cons, List.nodup_cons] at hnodup
    have hp := hmem p List.mem_cons_self
    have hleave := h.leave hp (hon p List.mem_cons_self) (min p.lastSeenAt now) none
    refine ih (hleave.alert _) (fun q hq => ?_) (fun q hq => hon q (List.mem_cons_of_mem p hq))
      hnodup.2
    -- The other rows stay as they are.
    have hne : q.id ≠ p.id := fun e => hnodup.1 (e ▸ List.mem_map_of_mem hq)
    have hrow : q ∈ s.players.rows := hmem q (List.mem_cons_of_mem p hq)
    show q ∈ (s.players.update p.id (offline _ _) fun _ => rfl).rows
    exact (mem_update_players _).mpr ⟨q, hrow, (if_neg hne).symm⟩

/-- The lines of a player list keep the balance. -/
theorem Balanced.reconcileRows {s : Roster} (h : s.Balanced) {lower : Text → Text}
    {server : Server} {now : ℤ} {rows : List LpRow}
    (hapart : ApartRows lower server now rows s) :
    Balanced (left (s.reconcileRows lower server now rows)) := by
  have hrows : Balanced
      (left (rows.foldlM (fun s row => s.reconcileRow lower server now row) s)) := by
    induction rows generalizing s with
    | nil => exact h
    | cons row rows ih =>
      have hrow := (h.reconcileNameFallback hapart.1 row.steam row.eos).sight
        (listed lower server row) now
      rw [List.foldlM_cons]
      cases hr : s.reconcileRow lower server now row with
      | error s' =>
        rw [Roster.reconcileRow] at hr
        rwa [hr] at hrow
      | ok s' =>
        have hnext := hapart.2 s' hr
        rw [Roster.reconcileRow] at hr
        rw [hr] at hrow
        exact ih hrow hnext
  unfold Roster.reconcileRows
  cases hr : rows.foldlM (fun s row => s.reconcileRow lower server now row) s with
  | error s' => rwa [hr] at hrows
  | ok s' =>
    rw [hr] at hrows
    show Balanced ((s'.missing lower server rows).foldl (Roster.dropMissing server now) s')
    have hfilter : ∀ p ∈ s'.missing lower server rows, p ∈ s'.players.rows ∧ p.online := by
      intro p hp
      have hp := List.mem_filter.mp hp
      have hcond := of_decide_eq_true hp.2
      exact ⟨hp.1, hcond.2.1⟩
    refine Balanced.dropMissing hrows server now (fun p hp => (hfilter p hp).1)
      (fun p hp => (hfilter p hp).2) ?_
    exact s'.players.nodup.sublist (List.filter_sublist.map _)

/-- The merges of a listing keep the balance. -/
theorem Balanced.list {s : Roster} (h : s.Balanced) {lower : Text → Text} {ps : List Player}
    (hapart : ApartPlayers lower ps s) :
    Balanced (ps.foldl (fun s p => s.reconcileNameFallback lower p.serverInstanceId p.identityKey
      p.name p.steamId p.eosId) s) := by
  induction ps generalizing s with
  | nil => exact h
  | cons p ps ih => exact ih (h.reconcileNameFallback hapart.1 p.steamId p.eosId) hapart.2

end Roster

/-! ## Runs -/

/-- What happens to the players of the servers. -/
inductive Op where
  | parsePlayers (server : Server) (clock : ℕ → ℤ) (content : Text)
  | reconcilePlayers (server : Server) (now : ℤ) (output : Text)
  | reconcileNameFallback (serverInstanceId : Id) (identityKey name : Text)
      (steamId eosId : Option Text)
  | list (orgId : Id) (serverInstanceId : Option Id)

namespace Desk

/-- No players, and no unfinished lines. -/
def empty : Desk := ⟨Roster.empty, fun _ => []⟩

/-- What an operation leaves. -/
def after (lower : Text → Text) (d : Desk) : Op → Desk
  | .parsePlayers server clock content => d.parsePlayers lower server clock content
  | .reconcilePlayers server now output =>
    { d with roster := Roster.left (d.roster.reconcilePlayers lower server now output) }
  | .reconcileNameFallback server key name steamId eosId =>
    { d with roster := d.roster.reconcileNameFallback lower server key name steamId eosId }
  | .list orgId server => { d with roster := d.roster.list lower orgId server }

/-- No `reconcileNameFallback` that an operation calls finds both the row of the id and the
name-only row online. -/
def Apart (lower : Text → Text) (d : Desk) : Op → Prop
  | .parsePlayers server clock content =>
    d.roster.ApartLines lower server (d.timedLines server clock content)
  | .reconcilePlayers server now output =>
    ∀ rows ∈ Roster.lpRows output, d.roster.ApartRows lower server now rows
  | .reconcileNameFallback server key name _ _ => d.roster.Apart lower server key name
  | .list orgId server => d.roster.ApartPlayers lower (d.roster.stablePlayers orgId server)

/-- The desks that runs reach whose operations all satisfy `good`. -/
inductive Reachable (lower : Text → Text) (good : Desk → Op → Prop) : Desk → Prop where
  | empty : Reachable lower good empty
  | after {d : Desk} (h : Reachable lower good d) (op : Op) (hop : good d op) :
      Reachable lower good (d.after lower op)

/-- One operation keeps the balance. -/
theorem balanced_after {lower : Text → Text} {d : Desk} (h : d.roster.Balanced) {op : Op}
    (hop : d.Apart lower op) : (d.after lower op).roster.Balanced := by
  cases op with
  | parsePlayers server clock content =>
    show Roster.Balanced (Roster.left _)
    exact h.parseLines hop
  | reconcilePlayers server now output =>
    show Roster.Balanced (Roster.left (d.roster.reconcilePlayers lower server now output))
    unfold Roster.reconcilePlayers
    cases hrows : Roster.lpRows output with
    | none => exact h
    | some rows => exact h.reconcileRows (hop rows hrows)
  | reconcileNameFallback server key name steamId eosId =>
    exact h.reconcileNameFallback hop steamId eosId
  | list orgId server => exact h.list hop

/-- In every run that never merges two rows that are both online, every row is settled at all
times. -/
theorem settled_of_reachable (lower : Text → Text) {d : Desk}
    (h : Reachable lower (Apart lower) d) : ∀ p ∈ d.roster.players.rows, d.roster.Settled p := by
  suffices hb : d.roster.Balanced from hb.settled
  induction h with
  | empty => exact Roster.balanced_empty
  | after _ op hop ih => exact balanced_after ih hop

/-- A server of an organisation. -/
def server : Server := ⟨0, 0, Text.of "Server"⟩

/-- A player with a Steam id spawns. -/
def spawnLine : Text :=
  Text.of ("INF PlayerSpawnedInWorld (reason: EnterMultiplayer): EntityID=171, " ++
    "PltfmId='Steam_76561198000000001', PlayerName='Bob'")

/-- The message of the game about the same player. -/
def joinedLine : Text := Text.of "INF GMSG: Player 'Bob' joined the game"

/-- The log says that a player spawned. -/
def spawn : Op := .parsePlayers server (fun _ => 0) (spawnLine ++ [10])

/-- The log then says that the same player joined. -/
def joined : Op := .parsePlayers server (fun _ => 1000) (joinedLine ++ [10])

/-- The message of the game that the player left. -/
def goneLine : Text := Text.of "INF GMSG: Player 'Bob' left the game"

/-- The log says so. -/
def gone : Op := .parsePlayers server (fun _ => 5000) (goneLine ++ [10])

/-- The desk after the player was seen by name, and left. -/
def afterVisit : Desk := (empty.after id joined).after id gone

/-- The player comes back with a Steam id, into which the name-only row is merged. -/
def back : Op := .parsePlayers server (fun _ => 9000) (spawnLine ++ [10])

/-- After a visit under the name only, the row of the player who spawns has the time of the visit and
entries that agree. -/
theorem settled_of_reachable_back : ∃ p ∈ (afterVisit.after id back).roster.players.rows,
    p.lifetimeSeconds = 4 ∧ p.online = true ∧ (afterVisit.after id back).roster.Settled p := by
  have hnamed (d : Desk) {clock : ℕ → ℤ} {content : Text} (t : ℤ) (line : Text)
      (hlines : d.timedLines server clock content = [(t, line)])
      (hname : (Lifecycle.ofLine line).all (fun e => Roster.nameOnly (e.identityKey id)) = true) :
      Apart id d (.parsePlayers server clock content) := by
    show d.roster.ApartLines id server (d.timedLines server clock content)
    rw [hlines]
    refine Roster.apartLines_one fun e he hkey => ?_
    exact absurd (hkey.symm.trans ((Option.all_eq_true _ _).mp hname e he)) (by decide)
  have hvisit : Reachable id (Apart id) afterVisit :=
    .after (.after .empty joined (hnamed empty 1000 joinedLine (by decide +kernel)
      (by decide +kernel))) gone (hnamed (empty.after id joined) 5000 goneLine (by decide +kernel)
        (by decide +kernel))
  have hreach : Reachable id (Apart id) (afterVisit.after id back) := by
    refine .after hvisit back ?_
    have hlines : afterVisit.timedLines server (fun _ => 9000) (spawnLine ++ [10]) =
        [(9000, spawnLine)] := by decide +kernel
    have hoffline : (Lifecycle.ofLine spawnLine).all (fun e =>
        (afterVisit.roster.byKey server.id (Roster.nameKey id e.name)).all fun f => !f.online) =
          true := by
      decide +kernel
    show afterVisit.roster.ApartLines id server
      (afterVisit.timedLines server (fun _ => 9000) (spawnLine ++ [10]))
    rw [hlines]
    refine Roster.apartLines_one fun e he _ f hf canonical _ => ?_
    have hoff := (Option.all_eq_true _ _).mp ((Option.all_eq_true _ _).mp hoffline e he) f
      (Option.mem_def.mp hf)
    exact fun honline => by simp [honline.2] at hoff
  have hone : ((afterVisit.after id back).roster.players.rows.map fun p =>
      (p.lifetimeSeconds, p.online)) = [(4, true)] := by decide +kernel
  obtain ⟨p, hp⟩ := List.length_eq_one_iff.mp
    ((List.length_map _).symm.trans (congrArg List.length hone))
  have hmem : p ∈ (afterVisit.after id back).roster.players.rows := by
    rw [hp]
    exact List.mem_singleton_self p
  rw [hp, List.map_singleton, List.singleton_inj, Prod.mk.injEq] at hone
  exact ⟨p, hmem, hone.1, hone.2, settled_of_reachable id hreach p hmem⟩

/-- The two messages about one login open two sessions, in a row of the id and in a name-only row.
A listing then merges the rows, and the player has two open sessions. -/
theorem unsettled_after_login :
    ¬∀ (lower : Text → Text) (d : Desk), Reachable lower (fun _ _ => True) d →
      ∀ p ∈ d.roster.players.rows, d.roster.Settled p := by
  intro h
  have hreach : Reachable id (fun _ _ => True)
      (((empty.after id spawn).after id joined).after id (.list 0 none)) :=
    .after (.after (.after .empty _ trivial) _ trivial) _ trivial
  have htwo :
      ∃ p ∈ (((empty.after id spawn).after id joined).after id (.list 0 none)).roster.players.rows,
        p.online ∧ (((empty.after id spawn).after id joined).after id
          (.list 0 none)).roster.openSessions p.id = 2 := by
    decide +kernel
  obtain ⟨p, hp, hon, hopen⟩ := htwo
  have hone := (h id _ hreach p hp).online.mp hon
  omega

end Desk

end Mastermind.Players
