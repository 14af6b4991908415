import Mastermind.Moderation.Settings

/-!
# No mute is lost

A call reads the muted players and writes them back later, with one of them set or unset. What other
calls have written in between is lost. `mutes_kept` is about every interleaving in which no call
writes after another one has written since its reads, and in which no update brings a list of muted
players of its own (`Fresh`): the stored list is then what the last completed calls have made of it.

The monitor `moderating` collects the rules that a call has read. What it writes is made from them.
-/

namespace Mastermind.Moderation

open Effect Effect.Program

/-- The muted players that a rule holds. -/
def mutedBy (rule : Option AlertRule) : List MutedPlayer :=
  match rule with
  | none => []
  | some r =>
    match r.condition with
    | .chatModeration _ settings => settings.mutedPlayers
    | .other _ => []

/-- The rule about a server. -/
def Store.ruleOf (w : Store) (orgId server : Id) : Option AlertRule :=
  (w.rulesOf orgId).find? (AlertRule.about server)

/-- A player is in the stored muted set of a server. -/
def Store.IsMuted (w : Store) (orgId server : Id) (playerId : Text) : Prop :=
  ∃ p ∈ mutedBy (w.ruleOf orgId server), p.playerId = playerId

/-- The call has no muted players of its own. -/
def Call.Plain : Call → Prop
  | .setPlayerMuted _ _ _ _ _ _ => True
  | .updateChatModeration _ _ input => input.mutedPlayers = none

/-- What a call makes of the muted players. -/
def Call.apply : Call → List MutedPlayer → List MutedPlayer
  | .setPlayerMuted _ _ playerId playerName muted now, players =>
    setMuted players playerId playerName muted now
  | .updateChatModeration _ _ _, players => players

/-- A call of a statement. -/
abbrev ModerationEvent := Event Stmt.Resp Err Store

/-- The call that writes in an event, if the event is a write that succeeds. -/
def wrote (e : ModerationEvent) : Option Call :=
  if e.answer.isOk then
    match e.stmt with
    | .alertRuleUpdate caller _ _ => some caller
    | .alertRuleCreate caller _ _ => some caller
    | _ => none
  else none

/-- Whether the last completed `setPlayerMuted` for a player has muted the player. The write is the
last statement of a call. -/
def lastMute (orgId server : Id) (player : Text) : List ModerationEvent → Option Bool
  | [] => none
  | e :: trace =>
    match wrote e with
    | some (.setPlayerMuted orgId' server' playerId _ muted _) =>
      if orgId' = orgId ∧ server' = server ∧ cleanId playerId = player then some muted
      else lastMute orgId server player trace
    | _ => lastMute orgId server player trace

/-! ## What one call does -/

/-- The organizations whose rules a call has read, with these rules, newest first. -/
abbrev Reads := List (Id × List AlertRule)

/-- The rules that a read shows for a server. -/
def shown (server : Id) (read : Id × List AlertRule) : Option AlertRule :=
  read.2.find? (AlertRule.about server)

/-- What a call may write after its reads: to the rule that a read has shown, or a new one if it has
shown none, and with the muted players that a read has shown, as the call changes them. -/
structure MayWrite (caller : Call) (reads : Reads) (target : Option Id) (data : RuleData) :
    Prop where
  org : ∀ read ∈ reads, read.1 = caller.orgId
  server : data.serverInstanceId = caller.server
  target : ∃ read ∈ reads, (shown caller.server read).map AlertRule.id = target
  muted : caller.Plain → ∃ read ∈ reads,
    data.settings.mutedPlayers = caller.apply (mutedBy (shown caller.server read))

/-- A call reads, and writes what it has read. -/
def moderating : Monitor Stmt.Resp Err Reads where
  start := []
  allowed q s := match s with
    | .alertRuleUpdate caller id data => MayWrite caller q (some id) data
    | .alertRuleCreate caller orgId data => MayWrite caller q none data ∧ orgId = caller.orgId
    | _ => True
  possible _ _ _ := True
  next q s r := match s, r with
    | .alertRuleFindMany orgId, .ok rules => (orgId, rules) :: q
    | .moderationFindMany orgId, .ok rules => (orgId, rules) :: q
    | _, _ => q

section Programs

variable {env : Env}

/-- The muted players among the settings of a rule. -/
theorem mutedPlayers_settingsOf (rule : Option AlertRule) :
    (settingsOf env rule).mutedPlayers = mutedBy rule := by
  unfold settingsOf mutedBy
  cases rule with
  | none => rfl
  | some r =>
    obtain ⟨id, orgId, name, enabled, condition⟩ := r
    cases condition with
    | chatModeration _ _ => rfl
    | other _ => rfl

/-- Reading the settings adds a read, which shows their muted players. -/
theorem getChatModeration_reads {α : Type} (orgId server : Id) (q : Reads)
    {f : ChatModeration → Service α} {R : Except Err α → Reads → Prop}
    (hf : ∀ current rules, current.mutedPlayers = mutedBy (shown server (orgId, rules)) →
      (f current).wp moderating.requires R ((orgId, rules) :: q)) (he : ∀ e, R (.error e) q) :
    (LogsService.getChatModeration env orgId server >>= f).wp moderating.requires R q := by
  unfold LogsService.getChatModeration
  rw [wp_bind]
  refine moderating.bind_request trivial (fun rules _ => ?_) fun e => he e
  refine (wp_pure _ _ _).mpr ?_
  exact hf _ rules (mutedPlayers_settingsOf _)

/-- An update follows the monitor after reads of its own organization, if its muted players come
from a read. -/
theorem updateChatModeration_reads (caller : Call) (input : Patch) {q : Reads}
    (horg : ∀ read ∈ q, read.1 = caller.orgId)
    (hinput : caller.Plain → input.mutedPlayers = none ∧ (∀ players, caller.apply players = players) ∨
      ∃ players, input.mutedPlayers = some players ∧
        ∃ read ∈ q, players = caller.apply (mutedBy (shown caller.server read))) :
    (LogsService.updateChatModeration env caller caller.orgId caller.server input).wp
      moderating.requires (fun _ _ => True) q := by
  unfold LogsService.updateChatModeration
  refine moderating.bind_request trivial (fun found _ => ?_) fun _ => trivial
  cases found with
  | none => exact (wp_throw _ _ _).mpr trivial
  | some name =>
    refine getChatModeration_reads _ _ _ (fun current rules hcurrent => ?_) fun _ => trivial
    refine moderating.bind_request trivial (fun all _ => ?_) fun _ => trivial
    have horgs : ∀ read ∈ (caller.orgId, all) :: (caller.orgId, rules) :: q,
        read.1 = caller.orgId := by
      intro read hread
      rcases List.mem_cons.mp hread with rfl | hread
      · rfl
      rcases List.mem_cons.mp hread with rfl | hread
      · rfl
      · exact horg read hread
    have hmuted : caller.Plain → ∃ read ∈ (caller.orgId, all) :: (caller.orgId, rules) :: q,
        (merge env current input).mutedPlayers =
          caller.apply (mutedBy (shown caller.server read)) := by
      intro hplain
      rcases hinput hplain with ⟨hnone, hkeeps⟩ | ⟨players, hsome, read, hread, hplayers⟩
      · refine ⟨(caller.orgId, rules), by simp, ?_⟩
        rw [hkeeps, ← hcurrent]
        show input.mutedPlayers.getD current.mutedPlayers = current.mutedPlayers
        rw [hnone]
        rfl
      · refine ⟨read, by simp [hread], ?_⟩
        show input.mutedPlayers.getD current.mutedPlayers = _
        rw [hsome, ← hplayers]
        rfl
    cases hfound : all.find? (AlertRule.about caller.server) with
    | some existing =>
      refine (wp_request _ _ _).mpr ⟨⟨horgs, rfl, ?_, hmuted⟩, fun _ _ => trivial⟩
      exact ⟨(caller.orgId, all), by simp [moderating], by rw [shown, hfound]; rfl⟩
    | none =>
      refine (wp_request _ _ _).mpr ⟨⟨⟨horgs, rfl, ?_, hmuted⟩, rfl⟩, fun _ _ => trivial⟩
      exact ⟨(caller.orgId, all), by simp [moderating], by rw [shown, hfound]; rfl⟩

/-- Every call follows the monitor. -/
theorem call_reads (call : Call) :
    (call.prog env).wp moderating.requires (fun _ _ => True) moderating.start := by
  cases call with
  | setPlayerMuted orgId server playerId playerName muted now =>
    unfold Call.prog LogsService.setPlayerMuted
    refine getChatModeration_reads _ _ _ (fun current rules hcurrent => ?_) fun _ => trivial
    rw [wp_ite]
    split_ifs
    · exact (wp_throw _ _ _).mpr trivial
    · refine updateChatModeration_reads
        (.setPlayerMuted orgId server playerId playerName muted now) _ ?_ fun _ => .inr ?_
      · intro read hread
        rw [List.mem_singleton.mp hread]
        rfl
      · refine ⟨_, rfl, (orgId, rules), by simp [moderating], ?_⟩
        show setMuted current.mutedPlayers _ _ _ _ = setMuted _ _ _ _ _
        rw [hcurrent]
        rfl
  | updateChatModeration orgId server input =>
    unfold Call.prog
    refine updateChatModeration_reads (.updateChatModeration orgId server input) input ?_
      fun hplain => .inl ⟨hplain, fun _ => rfl⟩
    intro read hread
    exact absurd hread (by simp [moderating])

end Programs

/-! ## The invariant -/

/-- A call writes only while the rule of its server is as all its reads have shown it, and has no
muted players of its own. -/
def Fresh (trace : List ModerationEvent) (e : ModerationEvent) : Prop :=
  ∀ caller, wrote e = some caller → caller.Plain ∧
    ∀ read ∈ moderating.phase trace e.thread,
      shown caller.server read = e.before.ruleOf caller.orgId caller.server

/-- Only completed writes need to be fresh. -/
theorem Fresh.of_no_write {trace : List ModerationEvent} {e : ModerationEvent}
    (h : wrote e = none) : Fresh trace e := by
  intro caller hwrote
  exact absurd (h.symm.trans hwrote) (by simp)

/-- The stored muted players are those of the last completed calls. -/
def MutesKept (trace : List ModerationEvent) (w : Store) : Prop :=
  ∀ orgId server player muted, lastMute orgId server player trace = some muted →
    (w.IsMuted orgId server player ↔ muted = true)

section Step

variable {w w' : Store}

/-- The rule of a server, as a search among all rules. -/
theorem ruleOf_eq_find? (w : Store) (orgId server : Id) :
    w.ruleOf orgId server =
      w.rules.rows.find? fun r => r.orgId == orgId && AlertRule.about server r := by
  unfold Store.ruleOf Store.rulesOf
  rw [List.find?_filter]
  refine List.find?_congr fun r _ => ?_
  rw [Bool.decide_and, Bool.decide_eq_true, Bool.decide_eq_true]

/-- A rule that was found is stored, belongs to the organization and is about the server. -/
theorem of_ruleOf {orgId server : Id} {r : AlertRule} (h : w.ruleOf orgId server = some r) :
    r ∈ w.rules.rows ∧ r.orgId = orgId ∧ ∀ server', AlertRule.about server' r = (server == server') := by
  rw [ruleOf_eq_find?] at h
  have hfound := List.find?_some h
  obtain ⟨horg, habout⟩ := Bool.and_eq_true_iff.mp hfound
  refine ⟨List.mem_of_find?_eq_some h, by simpa using horg, fun server' => ?_⟩
  unfold AlertRule.about at habout ⊢
  cases hcondition : r.condition with
  | chatModeration s settings =>
    rw [hcondition] at habout
    have hs : s = server := by simpa using habout
    rw [← hs]
  | other type =>
    rw [hcondition] at habout
    exact absurd habout (by simp)

/-- What an update of the rule of one server does to the rules of all servers. -/
theorem ruleOf_update {orgId server : Id} {r : AlertRule} (hr : w.ruleOf orgId server = some r)
    (d : RuleData) (hd : d.serverInstanceId = server) (orgId' server' : Id) :
    Store.ruleOf { w with rules := w.rules.update r.id d.apply d.key_apply } orgId' server' =
      if orgId' = orgId ∧ server' = server then some (d.apply r) else w.ruleOf orgId' server' := by
  obtain ⟨hmem, horg, habout⟩ := of_ruleOf hr
  -- the update changes no rule but this one, and leaves it where it was
  have hsame : ∀ a ∈ w.rules.rows, Keyed.key a = r.id → a = r :=
    fun a ha hkey => w.rules.eq_of_key_eq ha hmem hkey
  have hmap : Store.ruleOf { w with rules := w.rules.update r.id d.apply d.key_apply } orgId'
      server' = (w.ruleOf orgId' server').map fun a =>
        if Keyed.key a == r.id then d.apply a else a := by
    rw [ruleOf_eq_find?, ruleOf_eq_find?]
    show (w.rules.rows.map fun a => if Keyed.key a == r.id then d.apply a else a).find? _ = _
    rw [List.find?_map]
    congr 1
    refine List.find?_congr fun a ha => ?_
    simp only [Function.comp_apply]
    by_cases hkey : Keyed.key a = r.id
    · obtain rfl := hsame a ha hkey
      rw [if_pos (by simpa using hkey), habout]
      show (a.orgId == orgId' && (d.serverInstanceId == server')) = _
      rw [hd]
    · rw [if_neg (by simpa using hkey)]
  rw [hmap]
  split_ifs with hthis
  · obtain ⟨rfl, rfl⟩ := hthis
    rw [hr, Option.map_some, if_pos (by simp [Keyed.key])]
  · cases hother : w.ruleOf orgId' server' with
    | none => rfl
    | some a =>
      obtain ⟨ha, horg', habout'⟩ := of_ruleOf hother
      have hkey : Keyed.key a ≠ r.id := by
        intro hkey
        obtain rfl := hsame a ha hkey
        have hserver : (server' == server) = true := (habout' server).symm.trans (by
          rw [habout]
          simp)
        exact hthis ⟨horg'.symm.trans horg, by simpa using hserver⟩
      rw [Option.map_some, if_neg (by simpa using hkey)]

/-- What the creation of a rule does to the rules of all servers. -/
theorem ruleOf_insert {orgId server : Id} (hnone : w.ruleOf orgId server = none)
    (d : RuleData) (hd : d.serverInstanceId = server) (orgId' server' : Id) :
    Store.ruleOf { w with rules := w.rules.insert (d.row orgId) (d.key_row orgId) } orgId' server' =
      if orgId' = orgId ∧ server' = server then some (d.row orgId w.rules.next)
      else w.ruleOf orgId' server' := by
  have happend : Store.ruleOf { w with rules := w.rules.insert (d.row orgId) (d.key_row orgId) }
      orgId' server' = (w.ruleOf orgId' server').or
        ([d.row orgId w.rules.next].find? fun r =>
          r.orgId == orgId' && AlertRule.about server' r) := by
    rw [ruleOf_eq_find?, ruleOf_eq_find?]
    exact List.find?_append
  have hnew : ∀ o s, ((d.row orgId w.rules.next).orgId == o &&
      AlertRule.about s (d.row orgId w.rules.next)) = (orgId == o && server == s) := by
    intro o s
    rw [← hd]
    rfl
  rw [happend, List.find?_singleton, hnew]
  by_cases hthis : orgId' = orgId ∧ server' = server
  · obtain ⟨rfl, rfl⟩ := hthis
    rw [hnone]
    simp
  · have hmatch : (orgId == orgId' && server == server') = false := by
      by_contra hmatch
      simp only [Bool.not_eq_false, Bool.and_eq_true, beq_iff_eq] at hmatch
      exact hthis ⟨hmatch.1.symm, hmatch.2.symm⟩
    rw [hmatch, if_neg hthis]
    exact Option.or_none

/-- A player is muted after a change of the muted players. -/
theorem mem_setMuted {players : List MutedPlayer} {playerId playerName : Text} {muted : Bool}
    {now : ℕ} {player : Text} :
    (∃ p ∈ setMuted players playerId playerName muted now, p.playerId = player) ↔
      if cleanId playerId = player then muted = true else ∃ p ∈ players, p.playerId = player := by
  have hentry : (muteEntry playerId playerName now).playerId = cleanId playerId := rfl
  have hmem : ∀ p, p ∈ setMuted players playerId playerName muted now ↔
      p ∈ players ∧ p.playerId ≠ cleanId playerId ∨
        muted = true ∧ p = muteEntry playerId playerName now := by
    intro p
    unfold setMuted
    rw [List.mem_append, List.mem_filter, bne_iff_ne]
    cases muted <;> simp
  simp only [hmem]
  split_ifs with hthis
  · constructor
    · rintro ⟨p, ⟨-, hne⟩ | ⟨hmuted, -⟩, hid⟩
      · exact absurd (hid.trans hthis.symm) hne
      · exact hmuted
    · intro hmuted
      exact ⟨_, .inr ⟨hmuted, rfl⟩, hentry.trans hthis⟩
  · constructor
    · rintro ⟨p, ⟨hp, -⟩ | ⟨-, rfl⟩, hid⟩
      · exact ⟨p, hp, hid⟩
      · exact absurd (hentry.symm.trans hid) hthis
    · rintro ⟨p, hp, hid⟩
      exact ⟨p, .inl ⟨hp, fun h => hthis (h.symm.trans hid)⟩, hid⟩

/-- What a completed call does: it changes the muted players of its own server, from those that are
stored. -/
structure Muting (caller : Call) (w w' : Store) : Prop where
  own : mutedBy (w'.ruleOf caller.orgId caller.server) =
    caller.apply (mutedBy (w.ruleOf caller.orgId caller.server))
  others : ∀ orgId server, ¬(orgId = caller.orgId ∧ server = caller.server) →
    w'.ruleOf orgId server = w.ruleOf orgId server

variable {trace : List ModerationEvent} {i : ℕ} {s : Stmt} {r : Except Err s.Resp}

/-- A write that is allowed and fresh changes the stored muted players. -/
theorem muting_of_write {caller : Call} (hallowed : moderating.allowed (moderating.phase trace i) s)
    (hout : machine.Outcome s w r w') (hcond : Fresh trace ⟨i, s, r, w, w'⟩)
    (hwrote : wrote ⟨i, s, r, w, w'⟩ = some caller) : Muting caller w w' := by
  obtain ⟨hplain, hfresh⟩ := hcond caller hwrote
  -- what the reads have shown is what is stored
  have hmuted : ∀ {data : RuleData}, (∃ read ∈ moderating.phase trace i,
      data.settings.mutedPlayers = caller.apply (mutedBy (shown caller.server read))) →
      data.settings.mutedPlayers = caller.apply (mutedBy (w.ruleOf caller.orgId caller.server)) := by
    rintro data ⟨read, hread, hdata⟩
    rw [hdata, hfresh read hread]
  unfold wrote at hwrote
  split_ifs at hwrote with hok
  have hexec : r = (exec s w).1 ∧ w' = (exec s w).2 := by
    rcases hout with hdone | ⟨-, hr, -⟩
    · exact hdone
    · rw [hr] at hok
      exact absurd hok (by simp [Except.isOk, Except.toBool])
  obtain ⟨hr, rfl⟩ := hexec
  cases s with
  | alertRuleUpdate c id d =>
    obtain rfl := Option.some.inj hwrote
    obtain ⟨-, hserver, ⟨read, hread, htarget⟩, hdata⟩ := hallowed
    rw [hfresh read hread] at htarget
    obtain ⟨existing, hexisting, rfl⟩ := Option.map_eq_some_iff.mp htarget
    have hget : w.rules.get existing.id = some existing :=
      w.rules.get_key (of_ruleOf hexisting).1
    have hstore : (exec (.alertRuleUpdate c existing.id d) w).2 =
        { w with rules := w.rules.update existing.id d.apply d.key_apply } := by
      rw [exec, hget]
      rfl
    rw [hstore]
    refine ⟨?_, fun orgId server hother => ?_⟩
    · rw [ruleOf_update hexisting d hserver, if_pos ⟨rfl, rfl⟩]
      exact hmuted (hdata hplain)
    · rw [ruleOf_update hexisting d hserver, if_neg hother]
  | alertRuleCreate c orgId d =>
    obtain rfl := Option.some.inj hwrote
    obtain ⟨⟨-, hserver, ⟨read, hread, htarget⟩, hdata⟩, rfl⟩ := hallowed
    rw [hfresh read hread] at htarget
    have hnone := Option.map_eq_none_iff.mp htarget
    show Muting c w { w with rules := w.rules.insert (d.row c.orgId) (d.key_row c.orgId) }
    refine ⟨?_, fun orgId server hother => ?_⟩
    · rw [ruleOf_insert hnone d hserver, if_pos ⟨rfl, rfl⟩]
      exact hmuted (hdata hplain)
    · rw [ruleOf_insert hnone d hserver, if_neg hother]
  | alertRuleFindMany orgId => exact absurd hwrote (by simp)
  | moderationFindMany orgId => exact absurd hwrote (by simp)
  | serverInstanceFindFirst id orgId => exact absurd hwrote (by simp)

/-- Every call that is no completed write leaves the store. -/
theorem store_of_no_write (hout : machine.Outcome s w r w')
    (hwrote : wrote ⟨i, s, r, w, w'⟩ = none) : w' = w := by
  rcases hout with ⟨hr, hw⟩ | ⟨-, -, hw⟩
  swap
  · exact hw
  have hread : w' = (exec s w).2 := hw
  cases s with
  | alertRuleUpdate c id d =>
    rw [hread, exec]
    split_ifs with hmissing
    · rfl
    · have hok : r.isOk = true := by
        have hdone : r = (exec (.alertRuleUpdate c id d) w).1 := hr
        rw [hdone, exec, if_neg hmissing]
        rfl
      rw [wrote, if_pos hok] at hwrote
      exact absurd hwrote (by simp)
  | alertRuleCreate c orgId d =>
    have hok : r.isOk = true := by
      rw [hr]
      rfl
    rw [wrote, if_pos hok] at hwrote
    exact absurd hwrote (by simp)
  | alertRuleFindMany orgId => exact hread
  | moderationFindMany orgId => exact hread
  | serverInstanceFindFirst id orgId => exact hread

/-- A completed call keeps the muted players as the last calls have made them. -/
theorem MutesKept.write (h : MutesKept trace w) {caller : Call} (hmuting : Muting caller w w')
    {e : ModerationEvent} (hwrote : wrote e = some caller) : MutesKept (e :: trace) w' := by
  intro orgId server player muted hlast
  rw [lastMute, hwrote] at hlast
  have hother : ¬(orgId = caller.orgId ∧ server = caller.server) →
      (w'.IsMuted orgId server player ↔ w.IsMuted orgId server player) := by
    intro hne
    unfold Store.IsMuted
    rw [hmuting.others orgId server hne]
  cases caller with
  | updateChatModeration orgId' server' input =>
    have hold := h orgId server player muted hlast
    by_cases hthis : orgId = orgId' ∧ server = server'
    · obtain ⟨rfl, rfl⟩ := hthis
      have hown : mutedBy (w'.ruleOf orgId server) = mutedBy (w.ruleOf orgId server) := hmuting.own
      unfold Store.IsMuted
      rw [hown]
      exact hold
    · exact (hother hthis).trans hold
  | setPlayerMuted orgId' server' playerId playerName muted' now =>
    dsimp only at hlast
    by_cases hthis : orgId' = orgId ∧ server' = server
    · obtain ⟨rfl, rfl⟩ := hthis
      have hown : mutedBy (w'.ruleOf orgId' server') =
        setMuted (mutedBy (w.ruleOf orgId' server')) playerId playerName muted' now := hmuting.own
      unfold Store.IsMuted
      rw [hown, mem_setMuted]
      by_cases hsame : cleanId playerId = player
      · rw [if_pos ⟨rfl, rfl, hsame⟩] at hlast
        rw [if_pos hsame, Option.some.inj hlast]
      · rw [if_neg fun hall => hsame hall.2.2] at hlast
        rw [if_neg hsame]
        exact h orgId' server' player muted hlast
    · rw [if_neg fun hall => hthis ⟨hall.1, hall.2.1⟩] at hlast
      exact (hother fun hall => hthis ⟨hall.1.symm, hall.2.symm⟩).trans
        (h orgId server player muted hlast)

end Step

/-- The two operations and everything around them keep the muted players as the last calls have
made them. -/
theorem moderating_keeps (env : Env) :
    Keeps (moderators env) Fresh moderating (fun _ _ => True) MutesKept where
  follows := call_reads
  call trace i s r w w' hJ hallowed hout hcond := by
    refine ⟨trivial, ?_⟩
    cases hwrote : wrote ⟨i, s, r, w, w'⟩ with
    | some caller => exact hJ.write (muting_of_write hallowed hout hcond hwrote) hwrote
    | none =>
      obtain rfl := store_of_no_write hout hwrote
      intro orgId server player muted hlast
      rw [lastMute, hwrote] at hlast
      exact hJ orgId server player muted hlast
  environment trace w w' hJ hkept orgId server player muted hlast := by
    have hold := hJ orgId server player muted hlast
    have hrule : w'.ruleOf orgId server = w.ruleOf orgId server := hkept orgId server
    unfold Store.IsMuted at hold ⊢
    rw [hrule]
    exact hold

/-- In every interleaving in which no call writes after another one has written since its reads, and
in which no update brings muted players of its own, a player is in the stored muted set if the last
completed call has muted the player, and is not if it has unmuted the player. -/
theorem mutes_kept (env : Env) {w₀ : Store} {c : Config Call Stmt.Resp Err Unit Store}
    (hr : Reaches (moderators env) Fresh w₀ c) {orgId server : Id} {player : Text} {muted : Bool}
    (hlast : lastMute orgId server player c.trace = some muted) :
    c.store.IsMuted orgId server player ↔ muted = true := by
  have hinit : MutesKept [] w₀ := fun _ _ _ _ h => absurd h (by simp [lastMute])
  exact (Reaches.invariant (moderating_keeps env) hinit hr).1 orgId server player muted hlast

section Examples

/-- A server without settings. -/
def Store.quiet : Store := ⟨Table.empty, [(0, 0, Text.of "Navezgane")]⟩

/-- A runtime for examples. -/
def Env.plain : Env := ⟨id⟩

/-- Muting a player. -/
def muteOf (playerId : String) : Call :=
  .setPlayerMuted 0 0 (Text.of playerId) (Text.of playerId) true 0

/-- Two servers without settings. -/
def Store.twoQuiet : Store := ⟨Table.empty, [(0, 0, Text.of "Navezgane"), (1, 0, Text.of "Pregen")]⟩

/-- Muting another player on the second server. -/
def muteMal : Call := .setPlayerMuted 0 1 (Text.of "mal") (Text.of "mal") true 0

/-- Two calls at once, each of which mutes a player on a server of its own: both mutes are kept. -/
theorem mutes_kept_servers : ∃ c : Config Call Stmt.Resp Err Unit Store,
    c.threads = [(muteOf "eve", .ret (.ok ())), (muteMal, .ret (.ok ()))] ∧
      c.store.IsMuted 0 0 (Text.of "eve") ∧ c.store.IsMuted 0 1 (Text.of "mal") := by
  -- nobody has read a rule, and each of the two servers has none
  have hwrite : ∀ {trace : List ModerationEvent} {e : ModerationEvent} {caller : Call},
      wrote e = some caller → caller.Plain →
        moderating.phase trace e.thread = [(0, []), (0, []), (0, [])] →
          e.before.ruleOf caller.orgId caller.server = none → Fresh trace e := by
    intro trace e caller hwrote hplain hphase hnone caller' hwrote'
    obtain rfl := Option.some.inj (hwrote.symm.trans hwrote')
    refine ⟨hplain, fun read hmem => ?_⟩
    rw [hphase] at hmem
    have hreads : ∀ x ∈ ([(0, []), (0, []), (0, [])] : Reads), x.2 = [] := by simp
    rw [shown, hreads read hmem, hnone]
    rfl
  have hstarted : Reaches (moderators .plain) Fresh .twoQuiet
      ⟨.twoQuiet, [(muteOf "eve", (moderators .plain).prog (muteOf "eve")),
        (muteMal, (moderators .plain).prog muteMal)], []⟩ :=
    .start muteMal (.start (muteOf "eve") .init)
  have hcurrent := Reaches.call 0 hstarted rfl (.inl ⟨rfl, rfl⟩) (.of_no_write rfl)
  have hcurrent' := Reaches.call 1 hcurrent rfl (.inl ⟨rfl, rfl⟩) (.of_no_write rfl)
  have hserver := Reaches.call 0 hcurrent' rfl (.inl ⟨rfl, rfl⟩) (.of_no_write rfl)
  have hserver' := Reaches.call 1 hserver rfl (.inl ⟨rfl, rfl⟩) (.of_no_write rfl)
  have hagain := Reaches.call 0 hserver' rfl (.inl ⟨rfl, rfl⟩) (.of_no_write rfl)
  have hagain' := Reaches.call 1 hagain rfl (.inl ⟨rfl, rfl⟩) (.of_no_write rfl)
  have hrules := Reaches.call 0 hagain' rfl (.inl ⟨rfl, rfl⟩) (.of_no_write rfl)
  have hrules' := Reaches.call 1 hrules rfl (.inl ⟨rfl, rfl⟩) (.of_no_write rfl)
  have hwritten := Reaches.call 0 hrules' rfl (.inl ⟨rfl, rfl⟩) (hwrite rfl trivial rfl rfl)
  have hwritten' := Reaches.call 1 hwritten rfl (.inl ⟨rfl, rfl⟩) (hwrite rfl trivial rfl rfl)
  have heve : _ ↔ true = true :=
    @mutes_kept .plain _ _ hwritten' 0 0 (Text.of "eve") true (by decide)
  have hmal : _ ↔ true = true := @mutes_kept .plain _ _ hwritten' 0 1 (Text.of "mal") true (by decide)
  exact ⟨_, rfl, heve.mpr rfl, hmal.mpr rfl⟩

/-- Two calls that mute two players at once: both read that nobody is muted, and one of the two is
muted in the end. -/
theorem mute_lost : ¬∀ c : Config Call Stmt.Resp Err Unit Store,
    Reaches (moderators .plain) (fun _ _ => True) .quiet c →
      (∀ thread ∈ c.threads, ∃ r, thread.2 = .ret r) →
        ∀ (player : Text) (muted : Bool), lastMute 0 0 player c.trace = some muted →
          (c.store.IsMuted 0 0 player ↔ muted = true) := by
  intro hall
  have hstarted : Reaches (moderators .plain) (fun _ _ => True) .quiet
      ⟨.quiet, [(muteOf "eve", (moderators .plain).prog (muteOf "eve")),
        (muteOf "mal", (moderators .plain).prog (muteOf "mal"))], []⟩ :=
    .start (muteOf "mal") (.start (muteOf "eve") .init)
  have hcurrent := Reaches.call 0 hstarted rfl (.inl ⟨rfl, rfl⟩) trivial
  have hserver := Reaches.call 0 hcurrent rfl (.inl ⟨rfl, rfl⟩) trivial
  have hagain := Reaches.call 0 hserver rfl (.inl ⟨rfl, rfl⟩) trivial
  have hrules := Reaches.call 0 hagain rfl (.inl ⟨rfl, rfl⟩) trivial
  have hcurrent' := Reaches.call 1 hrules rfl (.inl ⟨rfl, rfl⟩) trivial
  have hserver' := Reaches.call 1 hcurrent' rfl (.inl ⟨rfl, rfl⟩) trivial
  have hagain' := Reaches.call 1 hserver' rfl (.inl ⟨rfl, rfl⟩) trivial
  have hrules' := Reaches.call 1 hagain' rfl (.inl ⟨rfl, rfl⟩) trivial
  have hwritten := Reaches.call 0 hrules' rfl (.inl ⟨rfl, rfl⟩) trivial
  have hwritten' := Reaches.call 1 hwritten rfl (.inl ⟨rfl, rfl⟩) trivial
  have hkept := hall _ hwritten' (List.forall_mem_cons.mpr ⟨⟨_, rfl⟩, List.forall_mem_cons.mpr
    ⟨⟨_, rfl⟩, fun _ h => absurd h List.not_mem_nil⟩⟩) (Text.of "mal") true (by decide)
  obtain ⟨p, hp, hid⟩ := hkept.mpr rfl
  have hone : ∀ p ∈ [muteEntry (Text.of "eve") (Text.of "eve") 0], p.playerId ≠ Text.of "mal" := by
    decide
  exact hone p hp hid

end Examples

end Mastermind.Moderation
