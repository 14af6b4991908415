import Mastermind.Moderation.Settings

/-!
# Moderating the chat

`LogsService.moderateChat`, which acts on a message of a muted player, with a blocked word, or that
floods the chat, and `flood_and_cooldown` about it. The times of a player's messages are kept as long
as they are in the window, and a second clock spaces the commands. Both are kept by a key of the
server's and the player's id. Times come in order, so that a time which has left the window does not
come back into it: what is kept is the history, as far as any later window looks (`Recalls`).

The settings are those of `getChatModeration`. The numbers in them are rational, because an update
may bring any; the call that reads them is taken not to fail.
-/

namespace Mastermind.Moderation

/-- The id of a server. It is made of letters and digits. -/
abbrev ServerId := {s : Text // 58 ∉ s}

/-- What `moderateChat` uses of the settings. -/
structure ChatConfig where
  enabled : Bool
  badWordRules : List BadWordRule
  floodEnabled : Bool
  floodMessages : ℚ
  floodWindowSeconds : ℚ
  floodAction : ModerationAction
  mutedPlayers : List MutedPlayer

/-- A message that is passed to `moderateChat`: the time, what is read of the line, and whether the
event about it cannot be written. -/
structure Message where
  now : ℤ
  server : ServerId
  playerId : Text
  playerName : Text
  message : Text
  eventFails : Bool

/-- The times of messages and the end of the cooldown, by key. -/
structure Moderator where
  chatSamples : Text → List ℤ
  moderationCooldown : Text → Option ℤ

/-- Nothing kept. -/
def Moderator.empty : Moderator := ⟨fun _ => [], fun _ => none⟩

/-- What `moderateChat` finds in a message, and the command that it enqueues. -/
structure Verdict where
  muted : Bool
  bad : Option BadWordRule
  flood : Bool
  command : Option Text

/-- `` `${serverInstanceId}:${playerId}` ``. -/
def Message.key (m : Message) : Text := m.server.1 ++ 58 :: m.playerId

/-- `s.includes(word)`. -/
def includes (s word : Text) : Bool := s.tails.any fun t => word.isPrefixOf t

/-- `s.replace(/["\\]/g, '')`. -/
def withoutQuotes (s : Text) : Text := s.filter fun u => u ≠ 34 && u ≠ 92

/-- `s.replace(/[^A-Za-z0-9_:-]/g, '')`. -/
def idCharacters (s : Text) : Text :=
  s.filter fun u => Text.isDigit u || Text.isLetter u || u = 95 || u = 58 || u = 45

/-- Why a message is acted on. -/
def reasonOf (muted : Bool) (bad : Option BadWordRule) : Text :=
  if muted then Text.of "Player is muted"
  else match bad with
    | some rule => Text.of "Blocked word: " ++ rule.word
    | none => Text.of "Chat flooding"

/-- What is done about a message. -/
def actionOf (cfg : ChatConfig) (muted : Bool) (bad : Option BadWordRule) : ModerationAction :=
  if muted then .kick
  else match bad with
    | some rule => rule.action
    | none => cfg.floodAction

/-- The console command of an action. -/
def commandOf (action : ModerationAction) (playerId playerName reason : Text) : Text :=
  if action = .warn then
    Text.of "say \"" ++ withoutQuotes playerName ++ Text.of " warning: " ++ reason ++ Text.of "\""
  else
    Text.of "kick " ++ idCharacters playerId ++ Text.of " \"Chat moderation: " ++
      withoutQuotes reason ++ Text.of "\""

/-- The times of a player's messages that are in the window, with that of the message. -/
def Moderator.samples (cfg : ChatConfig) (s : Moderator) (m : Message) : List ℤ :=
  (s.chatSamples m.key).filter (fun t : ℤ =>
    (m.now : ℚ) - cfg.floodWindowSeconds * 1000 ≤ t) ++ [m.now]

/-- `moderateChat`. -/
def Moderator.moderateChat (env : Env) (cfg : ChatConfig) (s : Moderator) (m : Message) :
    Moderator × Verdict :=
  if cfg.enabled = false then (s, ⟨false, none, false, none⟩)
  else
    let samples := s.samples cfg m
    let s := { s with chatSamples := Function.update s.chatSamples m.key samples }
    let muted := cfg.mutedPlayers.any fun p => p.playerId = m.playerId
    let bad := cfg.badWordRules.find? fun rule => includes (env.toLowerCase m.message) rule.word
    let flood := cfg.floodEnabled && cfg.floodMessages < samples.length
    let action := actionOf cfg muted bad
    if (muted || bad.isSome || flood) = false ∨ m.eventFails = true then (s, ⟨muted, bad, flood, none⟩)
    else if action ≠ .log ∧ (s.moderationCooldown m.key).getD 0 < m.now then
      ({ s with moderationCooldown := Function.update s.moderationCooldown m.key (some (m.now + 5000)) },
        ⟨muted, bad, flood, some (commandOf action m.playerId m.playerName (reasonOf muted bad))⟩)
    else (s, ⟨muted, bad, flood, none⟩)

/-- Messages one after the other: what is kept after them, and each one with its verdict. `cfg` are
the settings of each server. -/
def Moderator.run (env : Env) (cfg : ServerId → ChatConfig) :
    Moderator → List Message → Moderator × List (Message × Verdict)
  | s, [] => (s, [])
  | s, m :: messages =>
    let step := s.moderateChat env (cfg m.server) m
    let rest := step.1.run env cfg messages
    (rest.1, (m, step.2) :: rest.2)

/-- The messages of one player on one server. -/
def Message.Alike (a b : Message) : Prop := a.server = b.server ∧ a.playerId = b.playerId

instance (a b : Message) : Decidable (a.Alike b) := inferInstanceAs (Decidable (_ ∧ _))

/-- How many messages of the player of a message have come in the window of the message, of those
before it and with it. -/
def recent (cfg : ChatConfig) (earlier : List Message) (m : Message) : ℕ :=
  (earlier.countP fun a => a.Alike m ∧ (m.now : ℚ) - a.now ≤ cfg.floodWindowSeconds * 1000) + 1

/-- A message gets a command exactly if its player is muted, it has a blocked word or counts as
flood, its event is written, it is not only to be logged, and the cooldown of its player is over. -/
def Answered (cfg : ChatConfig) (s : Moderator) (m : Message) (v : Verdict) : Prop :=
  v.command.isSome = true ↔ (v.muted = true ∨ v.bad.isSome = true ∨ v.flood = true) ∧
    m.eventFails = false ∧ actionOf cfg v.muted v.bad ≠ .log ∧
      (s.moderationCooldown m.key).getD 0 < m.now

/-- A key is of one player on one server. -/
theorem key_eq_iff (a b : Message) : a.key = b.key ↔ a.Alike b := by
  unfold Message.key Message.Alike
  constructor
  · intro h
    have hsplit := congrArg (List.splitOn 58) h
    rw [List.splitOn_append_cons_self_of_not_mem a.server.2,
      List.splitOn_append_cons_self_of_not_mem b.server.2] at hsplit
    have hserver : a.server.1 = b.server.1 := (List.cons.inj hsplit).1
    refine ⟨Subtype.ext hserver, ?_⟩
    rw [hserver] at h
    exact (List.cons.inj (List.append_cancel_left h)).2
  · rintro ⟨hserver, hplayer⟩
    rw [hserver, hplayer]

section Step

variable (env : Env) {cfg : ChatConfig} (s : Moderator) (m : Message)

/-- What a message changes: its time is kept, and the cooldown of its player is set if there is a
command, which there is only after the last one has ended. -/
structure Moderates (cfg : ChatConfig) (s : Moderator) (m : Message) (done : Moderator × Verdict) :
    Prop where
  flood : done.2.flood = true ↔ cfg.floodMessages < (s.samples cfg m).length
  samples : done.1.chatSamples = Function.update s.chatSamples m.key (s.samples cfg m)
  quiet : done.2.command = none → done.1.moderationCooldown = s.moderationCooldown
  acted : done.2.command.isSome = true →
    done.1.moderationCooldown =
        Function.update s.moderationCooldown m.key (some (m.now + 5000)) ∧
      (s.moderationCooldown m.key).getD 0 < m.now
  answered : Answered cfg s m done.2

/-- What `moderateChat` does about a message. -/
theorem moderateChat_spec (henabled : cfg.enabled = true) (hflood : cfg.floodEnabled = true) :
    Moderates cfg s m (s.moderateChat env cfg m) := by
  have hon : ¬cfg.enabled = false := by simp [henabled]
  unfold Moderator.moderateChat
  rw [if_neg hon]
  dsimp only
  rw [hflood]
  split_ifs with hnothing haction
  · refine ⟨by simp, rfl, fun _ => rfl, fun h => absurd h (by simp), ?_⟩
    refine iff_of_false (by simp) ?_
    rintro ⟨hfound, hwritten, -⟩
    rcases hnothing with hnothing | hfails
    · obtain ⟨hmuted, hflood⟩ := Bool.or_eq_false_iff.mp hnothing
      obtain ⟨hmuted, hbad⟩ := Bool.or_eq_false_iff.mp hmuted
      rcases hfound with h | h | h
      · exact absurd (hmuted.symm.trans h) (by decide)
      · exact absurd (hbad.symm.trans h) (by decide)
      · exact absurd (hflood.symm.trans h) (by decide)
    · exact absurd (hwritten.symm.trans hfails) (by decide)
  · refine ⟨by simp, rfl, fun h => absurd h (by simp), fun _ => ⟨rfl, haction.2⟩, ?_⟩
    refine iff_of_true rfl ⟨?_, ?_, haction⟩
    · by_contra hfound
      refine hnothing (.inl ?_)
      simp only [not_or, Bool.not_eq_true] at hfound
      obtain ⟨hmuted, hbad, hflood⟩ := hfound
      rw [Bool.or_assoc, hmuted, hbad, hflood]
      rfl
    · simpa using (not_or.mp hnothing).2
  · refine ⟨by simp, rfl, fun _ => rfl, fun h => absurd h (by simp), ?_⟩
    exact iff_of_false (by simp) fun h => haction h.2.2

end Step

/-- What is kept of a player is the history, as far as any later window looks. -/
def Recalls (cfg : ServerId → ChatConfig) (history : List Message) (s : Moderator) : Prop :=
  ∀ m : Message, (∀ a ∈ history, a.now ≤ m.now) →
    (s.samples (cfg m.server) m).length = recent (cfg m.server) history m

section Run

variable (env : Env) {cfg : ServerId → ChatConfig}
  (henabled : ∀ server, (cfg server).enabled = true ∧ (cfg server).floodEnabled = true)

/-- Nothing kept recalls no history. -/
theorem recalls_empty : Recalls cfg [] .empty := fun _ _ => rfl

/-- What has left the window of a message is not in that of a later one. -/
theorem filter_samples {cfg : ChatConfig} {m probe : Message} (hlater : m.now ≤ probe.now)
    (s : Moderator) :
    ((s.samples cfg m).filter fun t : ℤ => (probe.now : ℚ) - cfg.floodWindowSeconds * 1000 ≤ t) =
      ((s.chatSamples m.key).filter fun t : ℤ =>
        (probe.now : ℚ) - cfg.floodWindowSeconds * 1000 ≤ t) ++
        if (probe.now : ℚ) - m.now ≤ cfg.floodWindowSeconds * 1000 then [m.now] else [] := by
  have hlaterQ : (m.now : ℚ) ≤ probe.now := by exact_mod_cast hlater
  unfold Moderator.samples
  rw [List.filter_append, List.filter_filter, List.filter_singleton]
  refine congrArg₂ (· ++ ·) (List.filter_congr fun t _ => ?_) ?_
  · rw [Bool.and_eq_left_iff_imp]
    simp only [decide_eq_true_eq]
    intro hin
    linarith
  · by_cases hin : (probe.now : ℚ) - m.now ≤ cfg.floodWindowSeconds * 1000
    · rw [if_pos hin, decide_eq_true (by linarith)]
      rfl
    · rw [if_neg hin, decide_eq_false (by linarith)]
      rfl

/-- A message is recalled after it. -/
theorem Recalls.step {history : List Message} {s : Moderator} (h : Recalls cfg history s)
    {m : Message} {done : Moderator × Verdict}
    (hdone : Moderates (cfg m.server) s m done) : Recalls cfg (history ++ [m]) done.1 := by
  intro probe hprobe
  have hearlier : ∀ a ∈ history, a.now ≤ probe.now := fun a ha =>
    hprobe a (List.mem_append_left _ ha)
  have hlater : m.now ≤ probe.now := hprobe m (List.mem_append_right _ (List.mem_singleton_self m))
  have hold := h probe hearlier
  unfold recent at hold ⊢
  unfold Moderator.samples at hold ⊢
  rw [List.length_append, List.length_singleton] at hold ⊢
  rw [hdone.samples, List.countP_append, List.countP_singleton]
  by_cases halike : m.Alike probe
  · have hserver : cfg m.server = cfg probe.server := congrArg cfg halike.1
    have hwindow := @filter_samples (cfg probe.server) m probe hlater s
    rw [(key_eq_iff m probe).mpr halike] at hwindow ⊢
    rw [Function.update_self, hserver, hwindow, List.length_append]
    by_cases hin : (probe.now : ℚ) - m.now ≤ (cfg probe.server).floodWindowSeconds * 1000
    · rw [if_pos hin, if_pos (by simp [halike, hin]), List.length_singleton]
      omega
    · rw [if_neg hin, if_neg (by simp [hin]), List.length_nil]
      omega
  · have hkey : probe.key ≠ m.key := fun heq => halike ((key_eq_iff m probe).mp heq.symm)
    rw [Function.update_of_ne hkey, hold, if_neg (by simp [halike])]

include henabled

/-- The cooldown of a player ends before the next command about the player. -/
theorem cooldown_lt {messages : List Message} {s : Moderator} {b : Message × Verdict}
    (hb : b ∈ (s.run env cfg messages).2) (hcommand : b.2.command.isSome = true) {ends : ℤ}
    (hends : s.moderationCooldown b.1.key = some ends) : ends < b.1.now := by
  induction messages generalizing s ends with
  | nil => exact absurd hb List.not_mem_nil
  | cons m messages ih =>
    have hstep := moderateChat_spec env s m (henabled m.server).1 (henabled m.server).2
    rcases List.mem_cons.mp hb with rfl | hb
    · have hlt := (hstep.acted hcommand).2
      rw [hends] at hlt
      exact hlt
    · by_cases hquiet : (s.moderateChat env (cfg m.server) m).2.command = none
      · exact ih hb (by rw [hstep.quiet hquiet, hends])
      · obtain ⟨hset, hlt⟩ := hstep.acted (Option.isSome_iff_ne_none.mpr hquiet)
        by_cases hkey : b.1.key = m.key
        · have hlater := ih hb (by rw [hset, hkey, Function.update_self])
          rw [← hkey, hends, Option.getD_some] at hlt
          omega
        · exact ih hb (by rw [hset, Function.update_of_ne hkey, hends])

/-- Two commands about one player are more than five seconds apart. -/
theorem commands_apart (messages : List Message) (s : Moderator) :
    (s.run env cfg messages).2.Pairwise fun a b => a.1.Alike b.1 → a.2.command.isSome = true →
      b.2.command.isSome = true → a.1.now + 5000 < b.1.now := by
  induction messages generalizing s with
  | nil => exact List.Pairwise.nil
  | cons m messages ih =>
    have hstep := moderateChat_spec env s m (henabled m.server).1 (henabled m.server).2
    refine List.pairwise_cons.mpr ⟨fun b hb halike hfirst hsecond => ?_, ih _⟩
    obtain ⟨hset, -⟩ := hstep.acted hfirst
    refine cooldown_lt env henabled hb hsecond ?_
    rw [hset, (key_eq_iff m b.1).mpr halike, Function.update_self]

/-- Each message counts as flood by the history of its player. -/
theorem flood_of_recalls {messages history : List Message} {s : Moderator}
    (h : Recalls cfg history s) (hordered : (history ++ messages).Pairwise fun a b => a.now ≤ b.now)
    {before after : List Message} {m : Message} (hsplit : messages = before ++ m :: after) :
    ∃ v, (s.run env cfg messages).2[before.length]? = some (m, v) ∧
      (v.flood = true ↔
        (cfg m.server).floodMessages < recent (cfg m.server) (history ++ before) m) ∧
      Answered (cfg m.server) (s.run env cfg before).1 m v := by
  induction messages generalizing history s before with
  | nil => exact absurd hsplit (by simp)
  | cons first messages ih =>
    have hstep := moderateChat_spec env s first (henabled first.server).1 (henabled first.server).2
    have hpast : ∀ a ∈ history, a.now ≤ first.now := fun a ha =>
      (List.pairwise_append.mp hordered).2.2 a ha first List.mem_cons_self
    cases before with
    | nil =>
      obtain ⟨rfl, -⟩ := List.cons.inj hsplit
      refine ⟨_, rfl, ?_⟩
      rw [List.append_nil, hstep.flood, h first hpast]
      exact ⟨Iff.rfl, hstep.answered⟩
    | cons head before =>
      obtain ⟨rfl, hrest⟩ := List.cons.inj hsplit
      have hordered' : (history ++ [first] ++ messages).Pairwise fun a b => a.now ≤ b.now := by
        rwa [List.append_assoc, List.singleton_append]
      obtain ⟨v, hv, hflood⟩ := ih (h.step hstep) hordered' hrest
      rw [List.append_assoc, List.singleton_append] at hflood
      exact ⟨v, hv, hflood⟩

/-- Under fixed settings with flood control, and of messages of any players in the order of their
times, each counts as flood if and only if more messages of its player than allowed have come in the
window up to it, it is answered accordingly, and two commands about one player are more than five
seconds apart. -/
theorem flood_and_cooldown (messages : List Message)
    (hordered : messages.Pairwise fun a b => a.now ≤ b.now) :
    (∀ before m after, messages = before ++ m :: after →
      ∃ v, (Moderator.empty.run env cfg messages).2[before.length]? = some (m, v) ∧
        (v.flood = true ↔ (cfg m.server).floodMessages < recent (cfg m.server) before m) ∧
        Answered (cfg m.server) (Moderator.empty.run env cfg before).1 m v) ∧
      (Moderator.empty.run env cfg messages).2.Pairwise fun a b => a.1.Alike b.1 →
        a.2.command.isSome = true → b.2.command.isSome = true → a.1.now + 5000 < b.1.now :=
  ⟨fun _ _ _ hsplit => flood_of_recalls env henabled recalls_empty hordered hsplit,
    commands_apart env henabled messages .empty⟩

end Run

/-- Settings under which a third message in ten seconds floods the chat. -/
def strictConfig : ChatConfig := ⟨true, [], true, 2, 10, .kick, []⟩

/-- A message of a player on a server. -/
def messageAt (now : ℤ) : Message :=
  ⟨now, ⟨Text.of "pve", by decide⟩, Text.of "eve", Text.of "Eve", Text.of "hi", false⟩

/-- Of four messages in a second, the last two count as flood; the third is answered with a command,
and the fourth is within the cooldown. -/
theorem flood_and_cooldown_four :
    let messages := [messageAt 1000, messageAt 1300, messageAt 1600]
    ∃ v v', (Moderator.empty.run ⟨id⟩ (fun _ => strictConfig) (messages ++ [messageAt 1900])).2[2]? =
        some (messageAt 1600, v) ∧ v.flood = true ∧ v.command.isSome = true ∧
      (Moderator.empty.run ⟨id⟩ (fun _ => strictConfig) (messages ++ [messageAt 1900])).2[3]? =
        some (messageAt 1900, v') ∧ v'.flood = true ∧ ¬v'.command.isSome = true := by
  intro messages
  have hordered : (messages ++ [messageAt 1900]).Pairwise fun a b => a.now ≤ b.now := by decide
  have hall := (@flood_and_cooldown ⟨id⟩ (fun _ => strictConfig) (fun _ => ⟨rfl, rfl⟩) _
    hordered).1
  obtain ⟨v, hv, hflood, hanswered⟩ :=
    hall [messageAt 1000, messageAt 1300] (messageAt 1600) [messageAt 1900] rfl
  obtain ⟨v', hv', hflood', hanswered'⟩ := hall messages (messageAt 1900) [] rfl
  have hthird : v.flood = true := hflood.mpr (by decide +kernel)
  refine ⟨v, v', hv, hthird, ?_, hv', hflood'.mpr (by decide +kernel), fun hcommand => ?_⟩
  · have haction : ((Moderator.empty.run ⟨id⟩ (fun _ => strictConfig)
        (messages ++ [messageAt 1900])).2[2]?.map fun a =>
          actionOf strictConfig a.2.muted a.2.bad) = some .kick := by decide +kernel
    have hkick : actionOf strictConfig v.muted v.bad = .kick := by
      have hmap := congrArg (Option.map fun a : Message × Verdict =>
        actionOf strictConfig a.2.muted a.2.bad) hv
      exact Option.some.inj (hmap.symm.trans haction)
    exact hanswered.mpr ⟨.inr (.inr hthird), rfl, by rw [hkick]; decide, by decide +kernel⟩
  · exact absurd (hanswered'.mp hcommand).2.2.2 (by decide +kernel)

end Mastermind.Moderation
