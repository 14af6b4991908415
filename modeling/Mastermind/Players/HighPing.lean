import Mastermind.Players.Display

/-!
# Kicking for a high ping

`enforceConnectionTools` of `jobs.service.ts`, over the outputs that one server sends. It counts bad
samples by identifier, kicks after so many in a row, and then leaves the identifier alone for five
minutes; whoever is kicked or banned for the country is left alone for a day. `enforceLine` is the
body of the loop, with the clock read before and after the job is created.

`kicked_iff` says of every line of every run when it leads to a kick, in terms of the lines before it
alone: `streak` counts the bad samples since the last good one or the last kick, and `Quiet` says
that nothing keeps the identifier in cooldown.
-/

namespace Mastermind.Players.HighPing

/-! ## The loop -/

/-- Why a job is created. -/
inductive Cause where
  | highPing | country
deriving DecidableEq

/-- The identifier of a line. -/
def identifierOf (row : LpRow) : Text := (row.steam.or row.eos).getD row.entityId

/-- The ping that is looked at: it is a number, and the check is on. -/
def readingOf (settings : Protection) (row : LpRow) : Option ℕ :=
  if settings.highPingEnabled then row.ping.filter isFinite else none

/-- The part of the loop about the country. -/
def enforceAddress (country : Text → Text) (settings : Protection) (done : ℤ) (row : LpRow)
    (w : Watch) : Watch × List (Cause × Decision) :=
  if settings.countryBanEnabled then
    let (w, decisions) := enforceCountry country settings done (identifierOf row) row.ipAddress w
    (w, decisions.map (Cause.country, ·))
  else (w, [])

/-- What `enforceConnectionTools` does with a line: the clock shows `now` before it creates a job, and
`done` afterwards. -/
def enforceLine (country : Text → Text) (settings : Protection) (now done : ℤ) (row : LpRow)
    (w : Watch) : Watch × List (Cause × Decision) :=
  let identifier := identifierOf row
  if w.protectionCooldown identifier > now then (w, [])
  else
    match readingOf settings row with
    | some ping =>
      let count :=
        if ping > settings.highPingThresholdMs then w.badPingSamples identifier + 1 else 0
      if count ≥ settings.highPingSamples then
        (⟨Function.update w.badPingSamples identifier 0,
          Function.update w.protectionCooldown identifier (done + 5 * 60000)⟩,
          [(.highPing, .kick identifier
            (settings.highPingReason ++ Text.of " (" ++ Text.of (toString ping) ++ Text.of " ms)"))])
      else
        enforceAddress country settings done row
          { w with badPingSamples := Function.update w.badPingSamples identifier count }
    | none => enforceAddress country settings done row w

/-- Where the clock shows the same before and after, this is `enforceRow`. -/
theorem enforceLine_eq (country : Text → Text) (settings : Protection) (now : ℤ) (row : LpRow)
    (w : Watch) : enforceRow country settings now row w =
      ((enforceLine country settings now now row w).1,
        (enforceLine country settings now now row w).2.map Prod.snd) := by
  have haddress : ∀ w, (if settings.countryBanEnabled then
      enforceCountry country settings now (identifierOf row) row.ipAddress w else (w, [])) =
      ((enforceAddress country settings now row w).1,
        (enforceAddress country settings now row w).2.map Prod.snd) := by
    intro w
    unfold enforceAddress
    split_ifs
    · simp
    · rfl
  have hid : (row.steam.or row.eos).getD row.entityId = identifierOf row := rfl
  have hreading : (if settings.highPingEnabled then row.ping.filter isFinite else none) =
      readingOf settings row := rfl
  unfold enforceRow enforceLine
  dsimp only
  rw [hid, hreading]
  by_cases hcooldown : w.protectionCooldown (identifierOf row) > now
  · rw [if_pos hcooldown, if_pos hcooldown]
    rfl
  · rw [if_neg hcooldown, if_neg hcooldown]
    cases readingOf settings row with
    | none => exact haddress w
    | some ping =>
      dsimp only
      by_cases hcount : (if ping > settings.highPingThresholdMs then
          w.badPingSamples (identifierOf row) + 1 else 0) ≥ settings.highPingSamples
      · rw [if_pos hcount, if_pos hcount]
        rfl
      · rw [if_neg hcount, if_neg hcount]
        exact haddress _

/-- The surroundings of one turn of the loop: the clock, and what the service answers that is asked
for the country of an address. -/
structure Turn where
  now : ℕ
  done : ℕ
  country : Text → Text

/-- An output of the player list: whether the organization has a member in whose name jobs are
created, and the surroundings of each turn. -/
structure Output where
  text : Text
  member : Bool
  turn : ℕ → Turn

/-- The turns of the loop over the lines of an output. -/
def Output.turns (settings : Protection) (o : Output) : List (Turn × LpRow) :=
  if (settings.highPingEnabled || settings.countryBanEnabled) && o.member then
    let (lines, last) := o.text.splitLines
    ((lines ++ [last]).filterMap LpRow.ofLine).zipIdx.map fun (row, i) => (o.turn i, row)
  else []

/-- What is noted of a turn. `counted` says whether the identifier is out of its cooldown. -/
structure Entry where
  now : ℕ
  done : ℕ
  identifier : Text
  reading : Option ℕ
  counted : Bool
  created : List (Cause × Decision)

/-- One turn of the loop. -/
def turn (settings : Protection) (w : Watch) (t : Turn × LpRow) : Watch × Entry :=
  let (after, created) := enforceLine t.1.country settings t.1.now t.1.done t.2 w
  (after, ⟨t.1.now, t.1.done, identifierOf t.2, readingOf settings t.2,
    decide (w.protectionCooldown (identifierOf t.2) ≤ t.1.now), created⟩)

/-- The turns of a run, from what is kept in memory. -/
def run (settings : Protection) : Watch → List (Turn × LpRow) → List Entry
  | _, [] => []
  | w, t :: ts => (turn settings w t).2 :: run settings (turn settings w t).1 ts

/-- What is kept in memory when the process starts. -/
def Watch.start : Watch := ⟨fun _ => 0, fun _ => 0⟩

/-- The entries of the outputs that a server sends, processed one after the other. -/
def entries (settings : Protection) (outputs : List Output) : List Entry :=
  run settings Watch.start (outputs.flatMap (Output.turns settings))

/-- The clock does not go back. -/
def Ordered (ts : List (Turn × LpRow)) : Prop :=
  (∀ t ∈ ts, t.1.now ≤ t.1.done) ∧ ts.Pairwise fun t u => t.1.done ≤ u.1.now

/-! ## What is to be kept -/

/-- The entry is a kick for a high ping. -/
def Entry.kicks (e : Entry) : Bool := e.created.any fun c => c.1 = .highPing

/-- A kick for a high ping is one of the entry's identifier. -/
def Entry.Named (e : Entry) : Prop :=
  ∀ c ∈ e.created, c.1 = .highPing → ∃ reason, c.2 = .kick e.identifier reason

/-- The entry kicks or bans for the country. -/
def Entry.expels (e : Entry) : Bool := e.created.any fun c => c.1 = .country

/-- The entry has a reading that counts and is above the threshold. -/
def Entry.bad (settings : Protection) (e : Entry) : Bool :=
  e.counted && e.reading.any fun ping => settings.highPingThresholdMs < ping

/-- The entry has a reading that counts and is not above the threshold. -/
def Entry.good (settings : Protection) (e : Entry) : Bool :=
  e.counted && e.reading.any fun ping => ping ≤ settings.highPingThresholdMs

/-- Nothing before the entry keeps its identifier in cooldown. -/
def Quiet (past : List Entry) (e : Entry) : Prop :=
  ∀ p ∈ past, p.identifier = e.identifier →
    (p.kicks → p.done + 5 * 60000 ≤ e.now) ∧ (p.expels → p.done + 24 * 60 * 60000 ≤ e.now)

/-- From the last entry back, how many bad readings of an identifier count up to a good one or a
kick. -/
def streakBack (settings : Protection) (identifier : Text) : List Entry → ℕ
  | [] => 0
  | e :: es =>
    if e.identifier = identifier then
      if e.good settings || e.kicks then 0
      else if e.bad settings then streakBack settings identifier es + 1
      else streakBack settings identifier es
    else streakBack settings identifier es

/-- The bad readings of an identifier in a row, at the end of some entries. -/
def streak (settings : Protection) (past : List Entry) (identifier : Text) : ℕ :=
  streakBack settings identifier past.reverse

/-! ## What a turn does -/

theorem enforceAddress_spec {country : Text → Text} {settings : Protection} {done : ℤ} {row : LpRow}
    {w after : Watch} {created : List (Cause × Decision)}
    (h : enforceAddress country settings done row w = (after, created)) :
    after.badPingSamples = w.badPingSamples ∧ (created.any fun c => c.1 = .highPing) = false ∧
      after.protectionCooldown =
        if created.any fun c => c.1 = .country then
          Function.update w.protectionCooldown (identifierOf row) (done + 24 * 60 * 60000)
        else w.protectionCooldown := by
  unfold enforceAddress enforceCountry at h
  dsimp only at h
  split_ifs at h <;> obtain ⟨rfl, rfl⟩ := Prod.mk.inj h <;> simp

/-- What one turn does to what is kept in memory, in terms of its entry. -/
structure TurnSpec (settings : Protection) (w after : Watch) (e : Entry) : Prop where
  others : ∀ id ≠ e.identifier, after.badPingSamples id = w.badPingSamples id ∧
    after.protectionCooldown id = w.protectionCooldown id
  counted : e.counted ↔ w.protectionCooldown e.identifier ≤ e.now
  kicks : e.kicks ↔
    e.bad settings ∧ settings.highPingSamples ≤ w.badPingSamples e.identifier + 1
  samples : after.badPingSamples e.identifier =
    if e.good settings || e.kicks then 0
    else if e.bad settings then w.badPingSamples e.identifier + 1
    else w.badPingSamples e.identifier
  cooldown : after.protectionCooldown e.identifier =
    if e.kicks then (e.done + 5 * 60000 : ℤ)
    else if e.expels then (e.done + 24 * 60 * 60000 : ℤ) else w.protectionCooldown e.identifier
  alone : e.kicks → e.expels = false
  expels : e.expels → e.counted
  named : e.Named

/-- A turn without a kick goes on to the country. -/
theorem TurnSpec.of_address {settings : Protection} {w after : Watch} {samples : Text → ℕ}
    {t : Turn × LpRow} {created : List (Cause × Decision)} (hquiet : w.protectionCooldown (identifierOf t.2) ≤ t.1.now)
    (hline : enforceLine t.1.country settings t.1.now t.1.done t.2 w = (after, created))
    (haddress : enforceAddress t.1.country settings t.1.done t.2
      { w with badPingSamples := samples } = (after, created))
    (hothers : ∀ id ≠ identifierOf t.2, samples id = w.badPingSamples id)
    (hkicks : ∀ ping ∈ readingOf settings t.2, settings.highPingThresholdMs < ping →
      w.badPingSamples (identifierOf t.2) + 1 < settings.highPingSamples)
    (hsamples : samples (identifierOf t.2) = match readingOf settings t.2 with
      | some ping =>
        if settings.highPingThresholdMs < ping then w.badPingSamples (identifierOf t.2) + 1 else 0
      | none => w.badPingSamples (identifierOf t.2)) :
    TurnSpec settings w (turn settings w t).1 (turn settings w t).2 := by
  have hturn : turn settings w t = (after, ⟨t.1.now, t.1.done, identifierOf t.2,
      readingOf settings t.2, true, created⟩) := by
    unfold turn
    rw [hline, decide_eq_true hquiet]
  rw [hturn]
  obtain ⟨hbad, hnone, hcooldown⟩ := enforceAddress_spec haddress
  have hkick : Entry.kicks ⟨t.1.now, t.1.done, identifierOf t.2, readingOf settings t.2, true,
      created⟩ = false := hnone
  constructor
  · intro id hid
    rw [hbad, hcooldown]
    refine ⟨hothers id hid, ?_⟩
    split_ifs
    · exact Function.update_of_ne hid _ _
    · rfl
  · exact iff_of_true rfl hquiet
  · rw [hkick]
    simp only [Bool.false_eq_true, false_iff, not_and, not_le, Entry.bad, Bool.true_and]
    intro hany
    obtain ⟨ping, hping, habove⟩ := (Option.any_eq_true _ _).mp hany
    exact hkicks ping hping (by simpa using habove)
  · rw [hkick, hbad]
    dsimp only
    rw [hsamples]
    simp only [Entry.good, Entry.bad, Bool.true_and, Bool.or_false]
    cases readingOf settings t.2 with
    | none => simp
    | some ping => by_cases habove : settings.highPingThresholdMs < ping <;> simp [habove]
  · rw [hkick, hcooldown]
    have hexpels : Entry.expels ⟨t.1.now, t.1.done, identifierOf t.2, readingOf settings t.2, true,
        created⟩ = created.any fun c => c.1 = .country := rfl
    dsimp only
    rw [hexpels]
    cases created.any fun c => c.1 = .country <;> simp
  · rw [hkick]
    simp
  · exact fun _ => rfl
  · intro c hc hcause
    have hnot := List.any_eq_false.mp hkick c hc
    exact absurd (decide_eq_true hcause) hnot

/-- A turn with a kick. -/
theorem TurnSpec.of_kick {settings : Protection} {w after : Watch} {t : Turn × LpRow}
    {created : List (Cause × Decision)} {ping : ℕ} {reason : Text}
    (hquiet : w.protectionCooldown (identifierOf t.2) ≤ t.1.now)
    (hline : enforceLine t.1.country settings t.1.now t.1.done t.2 w = (after, created))
    (hreading : readingOf settings t.2 = some ping) (habove : settings.highPingThresholdMs < ping)
    (hsamples : settings.highPingSamples ≤ w.badPingSamples (identifierOf t.2) + 1)
    (hkick : (⟨Function.update w.badPingSamples (identifierOf t.2) 0,
      Function.update w.protectionCooldown (identifierOf t.2) (t.1.done + 5 * 60000)⟩,
      [(Cause.highPing, Decision.kick (identifierOf t.2) reason)]) = (after, created)) :
    TurnSpec settings w (turn settings w t).1 (turn settings w t).2 := by
  have hturn : turn settings w t =
      (after, ⟨t.1.now, t.1.done, identifierOf t.2, some ping, true, created⟩) := by
    unfold turn
    rw [hline, decide_eq_true hquiet, hreading]
  rw [hturn]
  obtain ⟨rfl, rfl⟩ := Prod.mk.inj hkick
  constructor
  · exact fun id hid => ⟨Function.update_of_ne hid _ _, Function.update_of_ne hid _ _⟩
  · exact iff_of_true rfl hquiet
  · simp [Entry.kicks, Entry.bad, habove, hsamples]
  · simp [Entry.kicks]
  · simp [Entry.kicks]
  · simp [Entry.expels]
  · exact fun _ => rfl
  · rintro c hc -
    obtain rfl := List.mem_singleton.mp hc
    exact ⟨reason, rfl⟩

/-- What every turn does. -/
theorem turn_spec {settings : Protection} (hs : 1 ≤ settings.highPingSamples) (w : Watch)
    (t : Turn × LpRow) : TurnSpec settings w (turn settings w t).1 (turn settings w t).2 := by
  by_cases hcooldown : w.protectionCooldown (identifierOf t.2) > t.1.now
  · -- the line is skipped
    have hturn : turn settings w t = (w, ⟨t.1.now, t.1.done, identifierOf t.2,
        readingOf settings t.2, false, []⟩) := by
      unfold turn enforceLine
      rw [if_pos hcooldown, decide_eq_false (not_le.mpr hcooldown)]
    rw [hturn]
    constructor
    · exact fun _ _ => ⟨rfl, rfl⟩
    · simpa using hcooldown
    · simp [Entry.kicks, Entry.bad]
    · simp [Entry.kicks, Entry.bad, Entry.good]
    · simp [Entry.kicks, Entry.expels]
    · simp [Entry.kicks]
    · simp [Entry.expels]
    · simp [Entry.Named]
  · obtain ⟨⟨after, created⟩, hline⟩ :
        ∃ result, enforceLine t.1.country settings t.1.now t.1.done t.2 w = result := ⟨_, rfl⟩
    have hcode := hline
    unfold enforceLine at hcode
    rw [if_neg hcooldown] at hcode
    rw [gt_iff_lt, not_lt] at hcooldown
    cases hreading : readingOf settings t.2 with
    | none =>
      rw [hreading] at hcode
      exact .of_address hcooldown hline hcode (fun _ _ => rfl) (by simp [hreading]) (by rw [hreading])
    | some ping =>
      rw [hreading] at hcode
      dsimp only at hcode
      split_ifs at hcode with habove hkick hkick
      · exact .of_kick hcooldown hline hreading habove hkick hcode
      · refine .of_address hcooldown hline hcode (fun id hid => Function.update_of_ne hid _ _) ?_ ?_
        · rw [hreading]
          rintro p ⟨⟩ -
          omega
        · rw [hreading]
          simp [habove]
      · omega
      · refine .of_address hcooldown hline hcode (fun id hid => Function.update_of_ne hid _ _) ?_ ?_
        · rw [hreading]
          rintro p ⟨⟩ hp
          omega
        · rw [hreading]
          simp [habove]

/-! ## What a run does -/

section Run

variable {settings : Protection} {past : List Entry} {w after : Watch} {e : Entry}

@[simp] theorem streak_append (past : List Entry) (e : Entry) (id : Text) :
    streak settings (past ++ [e]) id =
      if e.identifier = id then
        if e.good settings || e.kicks then 0
        else if e.bad settings then streak settings past id + 1 else streak settings past id
      else streak settings past id := by
  simp only [streak, List.reverse_append, List.reverse_singleton, List.singleton_append, streakBack]

/-- What is kept in memory, in terms of the entries so far. -/
structure Remembers (settings : Protection) (past : List Entry) (w : Watch) : Prop where
  samples : ∀ id, w.badPingSamples id = streak settings past id
  below : ∀ id, streak settings past id < settings.highPingSamples
  cooldown : ∀ (id : Text) (m : ℕ), (∀ p ∈ past, p.done ≤ m) →
    (w.protectionCooldown id ≤ m ↔ ∀ p ∈ past, p.identifier = id →
      (p.kicks → p.done + 5 * 60000 ≤ m) ∧ (p.expels → p.done + 24 * 60 * 60000 ≤ m))

theorem Remembers.start (hs : 1 ≤ settings.highPingSamples) :
    Remembers settings [] Watch.start where
  samples _ := rfl
  below _ := hs
  cooldown _ _ _ := by simp [Watch.start]

/-- What the entry says of a turn. -/
structure Explained (settings : Protection) (past : List Entry) (e : Entry) : Prop where
  counted : e.counted ↔ Quiet past e
  kicks : e.kicks ↔ e.bad settings ∧ streak settings past e.identifier + 1 = settings.highPingSamples
  spaced : e.kicks → ∀ p ∈ past, p.identifier = e.identifier → p.kicks → p.done + 5 * 60000 ≤ e.now
  named : e.Named

/-- An entry is explained by the ones before it. -/
theorem TurnSpec.explained (h : TurnSpec settings w after e) (hw : Remembers settings past w)
    (htime : ∀ p ∈ past, p.done ≤ e.now) : Explained settings past e := by
  have hcounted : e.counted ↔ Quiet past e := h.counted.trans (hw.cooldown e.identifier e.now htime)
  refine ⟨hcounted, ?_, fun hkick p hp hid hpkick => ?_, h.named⟩
  · have hbelow := hw.below e.identifier
    rw [h.kicks, hw.samples]
    exact and_congr_right fun _ => by omega
  · have hbad := (h.kicks.mp hkick).1
    simp only [Entry.bad, Bool.and_eq_true] at hbad
    exact (hcounted.mp hbad.1 p hp hid).1 hpkick

/-- What is kept in memory stays in terms of the entries. -/
theorem TurnSpec.remembers (h : TurnSpec settings w after e) (hw : Remembers settings past w)
    (hs : 1 ≤ settings.highPingSamples) (htime : ∀ p ∈ past, p.done ≤ e.now)
    (hdone : e.now ≤ e.done) : Remembers settings (past ++ [e]) after := by
  have hsamples : ∀ id, after.badPingSamples id = streak settings (past ++ [e]) id := by
    intro id
    rw [streak_append]
    split_ifs with hid hreset hbad
    · rw [← hid, h.samples, if_pos hreset]
    · rw [← hid, h.samples, if_neg hreset, if_pos hbad, hw.samples]
    · rw [← hid, h.samples, if_neg hreset, if_neg hbad, hw.samples]
    · rw [(h.others id (Ne.symm hid)).1, hw.samples]
  refine ⟨hsamples, fun id => ?_, fun id m hm => ?_⟩
  · have hbelow := hw.below id
    rw [streak_append]
    split_ifs with hid hreset hbad
    · exact hs
    · -- a bad sample that makes them enough would have been a kick
      have hkick : ¬ e.kicks := fun hkick => hreset (by simp [hkick])
      rw [h.kicks, not_and, hw.samples, hid] at hkick
      exact not_le.mp (hkick hbad)
    · exact hbelow
    · exact hbelow
  · have hpast : ∀ p ∈ past, p.done ≤ m := fun p hp => hm p (List.mem_append_left _ hp)
    have hlast : e.done ≤ m := hm e (by simp)
    have hold := hw.cooldown id m hpast
    rw [List.forall_mem_append, List.forall_mem_singleton]
    by_cases hid : e.identifier = id
    · subst hid
      -- an entry that acts is out of the cooldown, so that all of the earlier ones have ended
      have hquiet : e.kicks ∨ e.expels → ∀ p ∈ past, p.identifier = e.identifier →
          (p.kicks → p.done + 5 * 60000 ≤ m) ∧ (p.expels → p.done + 24 * 60 * 60000 ≤ m) := by
        intro hact p hp hpid
        have hcounted : e.counted := by
          rcases hact with hkick | hexpel
          · have hbad := (h.kicks.mp hkick).1
            simp only [Entry.bad, Bool.and_eq_true] at hbad
            exact hbad.1
          · exact h.expels hexpel
        obtain ⟨hk, hx⟩ := (h.explained hw htime).counted.mp hcounted p hp hpid
        exact ⟨fun hkick => (hk hkick).trans (hdone.trans hlast),
          fun hexpel => (hx hexpel).trans (hdone.trans hlast)⟩
      rw [h.cooldown]
      by_cases hkick : e.kicks
      · have hexpel : ¬ e.expels := by simp [h.alone hkick]
        rw [if_pos hkick]
        constructor
        · intro hle
          exact ⟨hquiet (.inl hkick), fun _ => ⟨fun _ => by omega, fun hx => absurd hx hexpel⟩⟩
        · rintro ⟨-, hlast⟩
          have hle := (hlast rfl).1 hkick
          omega
      · rw [if_neg hkick]
        by_cases hexpel : e.expels
        · rw [if_pos hexpel]
          constructor
          · intro hle
            exact ⟨hquiet (.inr hexpel), fun _ => ⟨fun hk => absurd hk hkick, fun _ => by omega⟩⟩
          · rintro ⟨-, hlast⟩
            have hle := (hlast rfl).2 hexpel
            omega
        · rw [if_neg hexpel, hold]
          exact ⟨fun h => ⟨h, fun _ => ⟨fun hk => absurd hk hkick, fun hx => absurd hx hexpel⟩⟩,
            fun h => h.1⟩
    · rw [(h.others id (Ne.symm hid)).2, hold]
      exact ⟨fun h => ⟨h, fun h' => absurd h' hid⟩, fun h => h.1⟩

/-- Every entry of a run is explained by the ones before it. -/
theorem run_explained (hs : 1 ≤ settings.highPingSamples) {ts : List (Turn × LpRow)}
    (hts : Ordered ts) (hw : Remembers settings past w)
    (htime : ∀ p ∈ past, ∀ t ∈ ts, p.done ≤ t.1.now) {before rest : List Entry}
    (hrun : run settings w ts = before ++ e :: rest) : Explained settings (past ++ before) e := by
  induction ts generalizing past w before with
  | nil => simp [run] at hrun
  | cons t ts ih =>
    obtain ⟨hnow, hordered⟩ := hts
    obtain ⟨hlater, hpairwise⟩ := List.pairwise_cons.mp hordered
    have hspec := turn_spec hs w t
    have hentry : (turn settings w t).2.now = t.1.now ∧ (turn settings w t).2.done = t.1.done :=
      ⟨rfl, rfl⟩
    have htimet : ∀ p ∈ past, p.done ≤ (turn settings w t).2.now :=
      fun p hp => htime p hp t List.mem_cons_self
    rw [run] at hrun
    cases before with
    | nil =>
      obtain ⟨rfl, -⟩ := List.cons.inj hrun
      rw [List.append_nil]
      exact hspec.explained hw htimet
    | cons b before =>
      obtain ⟨rfl, hrest⟩ := List.cons.inj hrun
      have hnext := hspec.remembers hw hs htimet (hnow t List.mem_cons_self)
      have hexplained := ih ⟨fun u hu => hnow u (List.mem_cons_of_mem _ hu), hpairwise⟩ hnext
        (by
          intro p hp u hu
          rcases List.mem_append.mp hp with hp | hp
          · exact htime p hp u (List.mem_cons_of_mem _ hu)
          · obtain rfl := List.mem_singleton.mp hp
            exact hlater u hu) hrest
      rwa [List.append_assoc, List.singleton_append] at hexplained

end Run

/-- Over the outputs of a server, a line leads to a kick for a high ping exactly when it is the last of
as many bad readings in a row as are asked for; a reading counts exactly when nothing keeps its
identifier in cooldown; and two kicks of an identifier are five minutes apart. -/
theorem kicked_iff (settings : Protection) (hs : 1 ≤ settings.highPingSamples)
    (outputs : List Output) (hordered : Ordered (outputs.flatMap (Output.turns settings)))
    {past rest : List Entry} {e : Entry} (hrun : entries settings outputs = past ++ e :: rest) :
    Explained settings past e :=
  run_explained hs hordered (.start hs) (fun _ hp => absurd hp List.not_mem_nil) hrun

/-- Two bad readings in a row lead to a kick. -/
def strictSettings : Protection :=
  ⟨true, 250, 2, Text.of "Too slow", false, [], false, [], []⟩

/-- A list of one player, whose ping is high. -/
def slowText : Text := Text.of "1. id=171, Eve, ping=300"

/-- The output with this list. -/
def slowOutput (now : ℕ) : Output := ⟨slowText, true, fun _ => ⟨now, now, fun _ => []⟩⟩

/-- The row of the player. -/
def slowRow : LpRow := ⟨Text.of "171", Text.of "Eve", none, none, none, ⟨0, 0, 0, 1⟩, some 300⟩

theorem slowOutput_turns (now : ℕ) :
    (slowOutput now).turns strictSettings = [(⟨now, now, fun _ => []⟩, slowRow)] := by
  have hrows : (slowText.splitLines.1 ++ [slowText.splitLines.2]).filterMap LpRow.ofLine =
      [slowRow] := by decide +kernel
  unfold Output.turns slowOutput
  dsimp only
  rw [hrows]
  rfl

theorem kicked_iff_slow : ∃ past e, e.kicks ∧ Explained strictSettings past e := by
  have hturns : [slowOutput 0, slowOutput 1000].flatMap (Output.turns strictSettings) =
      [(⟨0, 0, fun _ => []⟩, slowRow), (⟨1000, 1000, fun _ => []⟩, slowRow)] := by
    simp [slowOutput_turns]
  have hordered : Ordered ([slowOutput 0, slowOutput 1000].flatMap (Output.turns strictSettings)) := by
    rw [hturns]
    simp [Ordered]
  refine ⟨[_], _, ?_, @kicked_iff strictSettings (by decide) [slowOutput 0, slowOutput 1000]
    hordered _ [] _ (by rw [entries, hturns]; rfl)⟩
  decide +kernel

end Mastermind.Players.HighPing
