import Mastermind.Players.Sessions

/-!
# What a merge conserves

`reconcileNameFallback` moves the sessions and the seconds of the name-only row to the row of the id,
or gives the name-only row the id. `OnePerKey` is the unique index of the table. The rows afterwards
are those before with one or two replaced (`merge_perm`, `promote_perm`), and what is conserved follows
from these two. An increment that its column does not hold fails with the whole transaction.
-/

namespace Mastermind.Players

open Effect

namespace Roster

/-- `@@unique([serverInstanceId, identityKey])`. -/
def OnePerKey (s : Roster) : Prop :=
  (s.players.rows.map fun p => (p.serverInstanceId, p.identityKey)).Nodup

/-- The sum of the merge does not fit the column, which is a 32-bit integer. -/
def overflows (lower : Text → Text) (serverInstanceId : Id) (identityKey name : Text)
    (s : Roster) : Bool :=
  (s.byKey serverInstanceId (nameKey lower name)).any fun fallback =>
    (s.byKey serverInstanceId identityKey).any fun canonical =>
      2 ^ 31 ≤ canonical.lifetimeSeconds + fallback.lifetimeSeconds

/-- A call of `reconcileNameFallback`, and what it leaves if it fails. -/
def tryReconcile (lower : Text → Text) (serverInstanceId : Id) (identityKey name : Text)
    (steamId eosId : Option Text) (s : Roster) : Except Roster Roster :=
  if !nameOnly identityKey && s.overflows lower serverInstanceId identityKey name then .error s
  else .ok (s.reconcileNameFallback lower serverInstanceId identityKey name steamId eosId)

/-- The seconds of all players of a server. -/
def totalSeconds (s : Roster) (serverInstanceId : Id) : ℕ :=
  ((s.players.rows.filter fun p => p.serverInstanceId = serverInstanceId).map
    Player.lifetimeSeconds).sum

/-- The sessions of the players of a server, without the players. -/
def sessionsOf (s : Roster) (serverInstanceId : Id) : Multiset (ℤ × Option ℤ × Option ℕ) :=
  ((s.sessions.rows.filter fun a => s.players.rows.any fun p =>
    p.id = a.playerId ∧ p.serverInstanceId = serverInstanceId).map fun a =>
      (a.startedAt, a.endedAt, a.durationSeconds) : List _)

/-! ## The rows afterwards -/

/-- A row of the table and the others. -/
theorem exists_others {t : Table Player} {f : Player} (hf : f ∈ t.rows) :
    ∃ others, t.rows.Perm (f :: others) ∧ ∀ p ∈ others, p.id ≠ f.id := by
  obtain ⟨before, after, hrows⟩ := List.append_of_mem hf
  have hperm : t.rows.Perm (f :: (before ++ after)) := hrows ▸ List.perm_middle
  refine ⟨before ++ after, hperm, fun p hp hid => ?_⟩
  have hnodup := (hperm.map Keyed.key).nodup_iff.mp t.nodup
  rw [List.map_cons, List.nodup_cons] at hnodup
  exact hnodup.1 (List.mem_map.mpr ⟨p, hp, hid⟩)

/-- An update replaces one row. -/
theorem update_perm {t : Table Player} {f : Player} {others : List Player}
    (h : t.rows.Perm (f :: others)) (hothers : ∀ p ∈ others, p.id ≠ f.id) (g : Player → Player)
    (hg : ∀ p, (g p).id = p.id) : (t.update f.id g hg).rows.Perm (g f :: others) := by
  have hkey : ∀ p : Player, Keyed.key p = p.id := fun _ => rfl
  have hmap := h.map fun p => if Keyed.key p == f.id then g p else p
  have hkeep : (others.map fun p => if Keyed.key p == f.id then g p else p) = others := by
    refine (List.map_congr_left fun p hp => ?_).trans (List.map_id _)
    exact if_neg (by simpa [hkey] using hothers p hp)
  rw [List.map_cons, hkeep, if_pos (by simp [hkey])] at hmap
  exact hmap

/-- The rows after the name-only row got the id. -/
theorem promote_perm {s : Roster} {f : Player} {others : List Player}
    (h : s.players.rows.Perm (f :: others)) (hothers : ∀ p ∈ others, p.id ≠ f.id) (key : Text)
    (steamId eosId : Option Text) :
    (s.players.update f.id (promoted key steamId eosId) fun _ => rfl).rows.Perm
      (promoted key steamId eosId f :: others) :=
  update_perm h hothers (promoted key steamId eosId) fun _ => rfl

/-- The two rows of a merge and the others. -/
theorem exists_others_two {t : Table Player} {c f : Player} (hc : c ∈ t.rows) (hf : f ∈ t.rows)
    (hne : c.id ≠ f.id) : ∃ others, t.rows.Perm (c :: f :: others) ∧
      ∀ p ∈ others, p.id ≠ c.id ∧ p.id ≠ f.id := by
  obtain ⟨rest, hrest, hfrest⟩ := exists_others hf
  have hmem : c ∈ rest := by
    rcases List.mem_cons.mp (hrest.mem_iff.mp hc) with rfl | hmem
    · exact absurd rfl hne
    · exact hmem
  obtain ⟨before, after, rfl⟩ := List.append_of_mem hmem
  have hperm : t.rows.Perm (c :: f :: (before ++ after)) :=
    (hrest.trans (List.perm_middle.cons f)).trans (.swap c f _)
  refine ⟨before ++ after, hperm, fun p hp => ⟨fun hid => ?_, ?_⟩⟩
  · have hnodup := (hperm.map Keyed.key).nodup_iff.mp t.nodup
    rw [List.map_cons, List.nodup_cons] at hnodup
    exact hnodup.1 (List.mem_map.mpr ⟨p, List.mem_cons_of_mem f hp, hid⟩)
  · exact hfrest p (List.perm_middle.mem_iff.mpr (List.mem_cons_of_mem c hp))

/-- The rows after the name-only row was merged. -/
theorem merge_perm {s : Roster} {c f : Player} {others : List Player}
    (h : s.players.rows.Perm (c :: f :: others))
    (hothers : ∀ p ∈ others, p.id ≠ c.id ∧ p.id ≠ f.id) (hne : c.id ≠ f.id)
    (steamId eosId : Option Text) : (s.merge c f steamId eosId).players.rows.Perm
      (mergedInto f steamId eosId c :: others) := by
  have hupdated := update_perm h (fun p hp => ?_) (mergedInto f steamId eosId) fun _ => rfl
  · have hfiltered := hupdated.filter fun p => !decide (p.id = f.id)
    have hkeep : (others.filter fun p => !decide (p.id = f.id)) = others :=
      List.filter_eq_self.mpr fun p hp => by simpa using (hothers p hp).2
    rw [List.filter_cons_of_pos, List.filter_cons_of_neg, hkeep] at hfiltered
    · exact hfiltered
    · simp
    · simpa [mergedInto] using hne
  · rcases List.mem_cons.mp hp with rfl | hp
    · exact hne.symm
    · exact (hothers p hp).1

/-- What a call does: nothing, or it gives the name-only row the id, or it merges it. -/
inductive Reconciled (lower : Text → Text) (server : Id) (key name : Text) (s : Roster) :
    Roster → Prop where
  | unchanged (h : nameOnly key = true ∨ s.byKey server (nameKey lower name) = none ∨
      s.overflows lower server key name = true) : Reconciled lower server key name s s
  | promoted (f : Player) (others : List Player) (steamId eosId : Option Text)
      (hkey : nameOnly key = false) (hf : f.serverInstanceId = server)
      (hname : f.identityKey = nameKey lower name) (hfree : s.byKey server key = none)
      (hrows : s.players.rows.Perm (f :: others)) (hothers : ∀ p ∈ others, p.id ≠ f.id) :
      Reconciled lower server key name s
        { s with players := s.players.update f.id (promoted key steamId eosId) fun _ => rfl }
  | merged (c f : Player) (others : List Player) (steamId eosId : Option Text)
      (hkey : nameOnly key = false) (hf : f.serverInstanceId = server)
      (hname : f.identityKey = nameKey lower name) (hc : c.serverInstanceId = server)
      (hid : c.identityKey = key) (hne : c.id ≠ f.id)
      (hrows : s.players.rows.Perm (c :: f :: others))
      (hothers : ∀ p ∈ others, p.id ≠ c.id ∧ p.id ≠ f.id) :
      Reconciled lower server key name s (s.merge c f steamId eosId)

/-- A name-only key is not the key of an id. -/
theorem nameKey_ne {lower : Text → Text} {key name : Text} (h : nameOnly key = false) :
    nameKey lower name ≠ key := by
  rintro rfl
  rw [nameOnly, nameKey, List.isPrefixOf_iff_prefix.mpr (List.prefix_append _ _)] at h
  cases h

theorem reconciled_tryReconcile (lower : Text → Text) (server : Id) (key name : Text)
    (steamId eosId : Option Text) (s : Roster) :
    Reconciled lower server key name s
      (left (s.tryReconcile lower server key name steamId eosId)) := by
  unfold tryReconcile
  split_ifs with hfail
  · rw [Bool.and_eq_true] at hfail
    exact .unchanged (.inr (.inr hfail.2))
  · rw [left, reconcileNameFallback]
    split_ifs with hname
    · exact .unchanged (.inl hname)
    have hkey : nameOnly key = false := by simpa using hname
    split
    · rename_i hnone
      exact .unchanged (.inr (.inl hnone))
    rename_i f hfallback
    obtain ⟨hmem, hserver, hfkey⟩ := mem_of_byKey hfallback
    split
    · rename_i hfree
      obtain ⟨others, hrows, hothers⟩ := exists_others hmem
      exact .promoted f others steamId eosId hkey hserver hfkey hfree hrows hothers
    · rename_i c hcanonical
      obtain ⟨hcmem, hcserver, hckey⟩ := mem_of_byKey hcanonical
      have hne : c.id ≠ f.id := by
        intro hid
        have hsame : c = f := s.players.eq_of_key_eq hcmem hmem hid
        exact nameKey_ne hkey (hfkey.symm.trans (hsame ▸ hckey))
      obtain ⟨others, hrows, hothers⟩ := exists_others_two hcmem hmem hne
      exact .merged c f others steamId eosId hkey hserver hfkey hcserver hckey hne hrows hothers

/-! ## What is conserved -/

variable {lower : Text → Text} {server : Id} {key name : Text} {s s' : Roster}

theorem totalSeconds_of_perm {rows : List Player} (h : s.players.rows.Perm rows) (i : Id) :
    s.totalSeconds i =
      ((rows.filter fun p => p.serverInstanceId = i).map Player.lifetimeSeconds).sum :=
  ((h.filter _).map _).sum_eq

/-- The seconds of the name-only row go to the row of the id. -/
theorem Reconciled.totalSeconds (h : Reconciled lower server key name s s') (i : Id) :
    s'.totalSeconds i = s.totalSeconds i := by
  cases h with
  | unchanged => rfl
  | promoted f others steamId eosId hkey hf hname hfree hrows hothers =>
    rw [totalSeconds_of_perm (promote_perm hrows hothers key steamId eosId),
      totalSeconds_of_perm hrows, List.filter_cons, List.filter_cons]
    have hserver : (Roster.promoted key steamId eosId f).serverInstanceId = f.serverInstanceId := rfl
    rw [hserver]
    split_ifs
    · rw [List.map_cons, List.map_cons]
      rfl
    · rfl
  | merged c f others steamId eosId hkey hf hname hc hid hne hrows hothers =>
    rw [totalSeconds_of_perm (merge_perm hrows hothers hne steamId eosId),
      totalSeconds_of_perm hrows]
    have hserver : (mergedInto f steamId eosId c).serverInstanceId = server := hc
    by_cases hi : server = i
    · rw [List.filter_cons_of_pos (by simp [hserver, hi]), List.filter_cons_of_pos (by simp [hc, hi]),
        List.filter_cons_of_pos (by simp [hf, hi])]
      simp only [List.map_cons, List.sum_cons, mergedInto]
      rw [add_assoc]
    · rw [List.filter_cons_of_neg (by simp [hserver, hi]), List.filter_cons_of_neg (by simp [hc, hi]),
        List.filter_cons_of_neg (by simp [hf, hi])]

/-- A player of a server, by the rows. -/
theorem any_of_perm {rows : List Player} (h : s.players.rows.Perm rows) (playerId i : Id) :
    (s.players.rows.any fun p => p.id = playerId ∧ p.serverInstanceId = i) =
      rows.any fun p => p.id = playerId ∧ p.serverInstanceId = i :=
  h.any_eq

/-- The sessions of the name-only row go to the row of the id, as they are. -/
theorem Reconciled.sessionsOf (h : Reconciled lower server key name s s') (i : Id) :
    s'.sessionsOf i = s.sessionsOf i := by
  cases h with
  | unchanged => rfl
  | promoted f others steamId eosId hkey hf hname hfree hrows hothers =>
    unfold Roster.sessionsOf
    congr 2
    refine List.filter_congr fun a ha => ?_
    rw [any_of_perm hrows, any_of_perm (promote_perm hrows hothers key steamId eosId)]
    rfl
  | merged c f others steamId eosId hkey hf hname hc hid hne hrows hothers =>
    have hany := any_of_perm (merge_perm hrows hothers hne steamId eosId)
    unfold Roster.sessionsOf
    have hmoved : (s.merge c f steamId eosId).sessions.rows =
        s.sessions.rows.map fun a =>
          if a.playerId = f.id then { a with playerId := c.id } else a := by
      simp [Roster.merge, Table.modify]
    congr 1
    rw [hmoved, List.filter_map, List.map_map]
    have hsame : ∀ a : PlayerSession, ((fun a : PlayerSession =>
        (a.startedAt, a.endedAt, a.durationSeconds)) ∘ fun a =>
          if a.playerId = f.id then { a with playerId := c.id } else a) a =
        (a.startedAt, a.endedAt, a.durationSeconds) := by
      intro a
      simp only [Function.comp_apply]
      split_ifs <;> rfl
    rw [funext hsame]
    congr 1
    refine List.filter_congr fun a ha => ?_
    rw [Function.comp_apply, hany, any_of_perm hrows]
    have hmid : (mergedInto f steamId eosId c).id = c.id := rfl
    have hmserver : (mergedInto f steamId eosId c).serverInstanceId = server := hc
    rw [List.any_cons, List.any_cons, List.any_cons, hmid, hmserver, hc, hf]
    split_ifs with hplayer
    · -- a session that is moved
      have hothers' : ∀ j, (∀ p ∈ others, p.id ≠ j) →
          (others.any fun p => p.id = j ∧ p.serverInstanceId = i) = false := by
        intro j hj
        exact List.any_eq_false.mpr fun p hp => by simp [hj p hp]
      rw [hothers' _ fun p hp => (hothers p hp).1, hplayer, hothers' _ fun p hp => (hothers p hp).2]
      simp [hne]
    · have hfid : f.id ≠ a.playerId := fun h => hplayer h.symm
      simp [hfid]

theorem onePerKey_iff {rows : List Player} (h : s.players.rows.Perm rows) : s.OnePerKey ↔
    (rows.map fun p => (p.serverInstanceId, p.identityKey)).Nodup :=
  (h.map fun p : Player => (p.serverInstanceId, p.identityKey)).nodup_iff

/-- No two players of a server have one key. -/
theorem Reconciled.onePerKey (h : Reconciled lower server key name s s') (hone : s.OnePerKey) :
    s'.OnePerKey := by
  cases h with
  | unchanged => exact hone
  | promoted f others steamId eosId hkey hf hname hfree hrows hothers =>
    have hnodup := (onePerKey_iff hrows).mp hone
    refine (onePerKey_iff (promote_perm hrows hothers key steamId eosId)).mpr ?_
    rw [List.map_cons, List.nodup_cons] at hnodup ⊢
    refine ⟨fun hmem => ?_, hnodup.2⟩
    obtain ⟨p, hp, hpair⟩ := List.mem_map.mp hmem
    obtain ⟨hpserver, hpkey⟩ := Prod.mk.inj hpair
    have hmem := hrows.mem_iff.mpr (List.mem_cons_of_mem f hp)
    exact List.find?_eq_none.mp hfree p hmem (decide_eq_true ⟨hpserver.trans hf, hpkey⟩)
  | merged c f others steamId eosId hkey hf hname hc hid hne hrows hothers =>
    have hnodup := (onePerKey_iff hrows).mp hone
    refine (onePerKey_iff (merge_perm hrows hothers hne steamId eosId)).mpr ?_
    rw [List.map_cons, List.map_cons, List.nodup_cons, List.nodup_cons, List.mem_cons, not_or] at hnodup
    exact List.nodup_cons.mpr ⟨hnodup.1.2, hnodup.2.2⟩

/-- The rows of other keys are what they were. -/
theorem Reconciled.others (h : Reconciled lower server key name s s') {p : Player}
    (hp : ¬(p.serverInstanceId = server ∧ (p.identityKey = nameKey lower name ∨ p.identityKey = key))) :
    p ∈ s'.players.rows ↔ p ∈ s.players.rows := by
  cases h with
  | unchanged => exact Iff.rfl
  | promoted f others steamId eosId hkey hf hname hfree hrows hothers =>
    rw [(promote_perm hrows hothers key steamId eosId).mem_iff, hrows.mem_iff, List.mem_cons,
      List.mem_cons]
    have hpf : p ≠ f := by
      rintro rfl
      exact hp ⟨hf, .inl hname⟩
    have hpp : p ≠ Roster.promoted key steamId eosId f := by
      rintro rfl
      exact hp ⟨hf, .inr rfl⟩
    simp [hpf, hpp]
  | merged c f others steamId eosId hkey hf hname hc hid hne hrows hothers =>
    rw [(merge_perm hrows hothers hne steamId eosId).mem_iff, hrows.mem_iff, List.mem_cons,
      List.mem_cons, List.mem_cons]
    have hpf : p ≠ f := by
      rintro rfl
      exact hp ⟨hf, .inl hname⟩
    have hpc : p ≠ c := by
      rintro rfl
      exact hp ⟨hc, .inr hid⟩
    have hpm : p ≠ mergedInto f steamId eosId c := by
      rintro rfl
      exact hp ⟨hc, .inr hid⟩
    simp [hpf, hpc, hpm]

/-- Afterwards there is no name-only row, if anything has changed. -/
theorem Reconciled.gone (h : Reconciled lower server key name s s') (hone : s.OnePerKey) :
    s' = s ∨ s'.byKey server (nameKey lower name) = none := by
  have hfresh : ∀ {f : Player} {rest : List Player}, s.players.rows.Perm (f :: rest) →
      f.serverInstanceId = server → f.identityKey = nameKey lower name →
      ∀ p ∈ rest, ¬(p.serverInstanceId = server ∧ p.identityKey = nameKey lower name) := by
    rintro f rest hrows hf hname p hp ⟨hpserver, hpkey⟩
    have hnodup := (onePerKey_iff hrows).mp hone
    rw [List.map_cons, List.nodup_cons] at hnodup
    exact hnodup.1 (List.mem_map.mpr ⟨p, hp, by rw [hpserver, hpkey, hf, hname]⟩)
  cases h with
  | unchanged => exact .inl rfl
  | promoted f others steamId eosId hkey hf hname hfree hrows hothers =>
    right
    refine List.find?_eq_none.mpr fun p hp => ?_
    rw [decide_eq_true_eq]
    rcases List.mem_cons.mp ((promote_perm hrows hothers key steamId eosId).mem_iff.mp hp) with rfl | hp
    · exact fun h => nameKey_ne hkey h.2.symm
    · exact hfresh hrows hf hname p hp
  | merged c f others steamId eosId hkey hf hname hc hid hne hrows hothers =>
    right
    refine List.find?_eq_none.mpr fun p hp => ?_
    rw [decide_eq_true_eq]
    rcases List.mem_cons.mp ((merge_perm hrows hothers hne steamId eosId).mem_iff.mp hp) with rfl | hp
    · exact fun h => nameKey_ne hkey (h.2.symm.trans hid)
    · exact hfresh (hrows.trans (.swap f c _)) hf hname p (List.mem_cons_of_mem c hp)

/-- Without a name-only row a call does nothing. -/
theorem tryReconcile_of_none (h : s.byKey server (nameKey lower name) = none)
    (steamId eosId : Option Text) :
    left (s.tryReconcile lower server key name steamId eosId) = s := by
  unfold tryReconcile
  split_ifs
  · rfl
  · rw [left, reconcileNameFallback, h]
    split_ifs <;> rfl

/-- A call of `reconcileNameFallback` keeps the seconds and the sessions of every server, the unique
index and the rows of all other keys, and a second one changes nothing. -/
theorem reconcile_conserves (lower : Text → Text) (server : Id) (key name : Text)
    (steamId eosId : Option Text) (s : Roster) (hone : s.OnePerKey) :
    let s' := left (s.tryReconcile lower server key name steamId eosId)
    (∀ i, s'.totalSeconds i = s.totalSeconds i) ∧ (∀ i, s'.sessionsOf i = s.sessionsOf i) ∧
      s'.OnePerKey ∧
      (∀ p : Player, ¬(p.serverInstanceId = server ∧
          (p.identityKey = nameKey lower name ∨ p.identityKey = key)) →
        (p ∈ s'.players.rows ↔ p ∈ s.players.rows)) ∧
      left (s'.tryReconcile lower server key name steamId eosId) = s' := by
  intro s'
  have h : Reconciled lower server key name s s' :=
    reconciled_tryReconcile lower server key name steamId eosId s
  refine ⟨h.totalSeconds, h.sessionsOf, h.onePerKey hone, fun p hp => h.others hp, ?_⟩
  rcases h.gone hone with hsame | hnone
  · -- a call that changed nothing does the same again
    rw [hsame]
    exact hsame
  · exact tryReconcile_of_none hnone steamId eosId

/-- A row of a player called Ann, who was last seen at a time. -/
def annRow (id : Id) (key : Text) (seconds : ℕ) (online : Bool) (started : Option ℤ) : Player :=
  ⟨id, 0, 0, key, none, none, none, none, Text.of "Ann", online, started, seconds, 0, 0, 0, 1, 0, 0⟩

/-- Ann is known by an id, with a session, and by her name, with two. -/
def twoAnns : Roster where
  players := {
    rows := [annRow 0 (Text.of "steam:1") 60 true (some 9), annRow 1 (Text.of "name:Ann") 90 true (some 7)]
    next := 2
    lt_next := by
      simp only [List.mem_cons, List.not_mem_nil, or_false, forall_eq_or_imp, forall_eq]
      decide
    nodup := by decide }
  sessions := {
    rows := [⟨0, 0, 1, some 2, some 60⟩, ⟨1, 1, 3, some 4, some 90⟩, ⟨2, 1, 7, none, none⟩]
    next := 3
    lt_next := by
      simp only [List.mem_cons, List.not_mem_nil, or_false, forall_eq_or_imp, forall_eq]
      decide
    nodup := by decide }
  alerts := []

theorem reconcile_conserves_twoAnns :
    let s' := left (twoAnns.tryReconcile id 0 (Text.of "steam:1") (Text.of "Ann") none none)
    (∀ i, s'.totalSeconds i = twoAnns.totalSeconds i) ∧
      (∀ i, s'.sessionsOf i = twoAnns.sessionsOf i) ∧ s'.OnePerKey ∧
      (∀ p : Player, ¬(p.serverInstanceId = 0 ∧
          (p.identityKey = nameKey id (Text.of "Ann") ∨ p.identityKey = Text.of "steam:1")) →
        (p ∈ s'.players.rows ↔ p ∈ twoAnns.players.rows)) ∧
      left (s'.tryReconcile id 0 (Text.of "steam:1") (Text.of "Ann") none none) = s' :=
  reconcile_conserves id 0 (Text.of "steam:1") (Text.of "Ann") none none twoAnns
    (by unfold OnePerKey; decide)

end Roster

end Mastermind.Players
