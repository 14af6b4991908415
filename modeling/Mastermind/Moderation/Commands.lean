import Mastermind.Dispatch.Jobs
import Mastermind.Moderation.Moderate
import Mastermind.Players.Chat

/-!
# Console commands, from the control plane to the agent

The control plane enqueues the commands that `createJob` accepts and those that `moderateChat`
composes, and the agent checks them again before it sends one to the console. Both sides ask for one
line of at most 512, but `createJob` counts UTF-16 units and the agent bytes of UTF-8, the agent
takes one more character for white space, and `moderateChat` does not check what it composes.
`executable_iff` says which commands the agent takes: of those that pass the one check or come from
a line of the chat, those that are short enough in bytes, and not white space for the agent.
-/

namespace Mastermind

namespace Moderation

/-- The check of `Execute` for `RCON` and `SEND_COMMAND`: the command that is sent to the console,
or the error of the job. -/
def consoleLine (command : String) : Except String String :=
  let cmd := goTrimSpace command
  if cmd = "" then throw "console command is required"
  else if cmd.utf8ByteSize > 512 ∨ cmd.toList.any (fun c => c == '\r' || c == '\n') = true then
    throw "console command must be one line and at most 512 characters"
  else pure cmd

/-- The agent sends the command. -/
def Executable (command : String) : Prop := ∃ cmd, consoleLine command = .ok cmd

/-- What `parseChat` passes to `moderateChat`. -/
def messageOf (server : ServerId) (now : ℤ) (eventFails : Bool) (c : Players.ChatLine) : Message :=
  ⟨now, server, c.playerId, c.playerName, c.message, eventFails⟩

/-- The string of a text, with U+FFFD for each half of a pair. -/
def stringOf (s : Text) : String := String.ofList s.decode

/-- A line break. -/
def isBreak (u : UInt16) : Bool := u = 10 || u = 13

/-- The command is short enough for the agent, and not all white space for it. -/
def Short (command : String) : Prop :=
  (∃ c ∈ command.toList, isGoSpace c = false) ∧ (goTrimSpace command).utf8ByteSize ≤ 512

/-- The parts that a moderation command takes from a message and the settings are short enough in
bytes: a name and a reason for a warning, an id and a reason for a kick. -/
def PartsShort (env : Env) (cfg : ChatConfig) (m : Message) : Prop :=
  let muted := cfg.mutedPlayers.any fun p => p.playerId = m.playerId
  let bad := cfg.badWordRules.find? fun rule => includes (env.toLowerCase m.message) rule.word
  let reason := reasonOf muted bad
  if actionOf cfg muted bad = .warn then
    (withoutQuotes m.playerName).byteLength + reason.byteLength ≤ 496
  else (idCharacters m.playerId).length + (withoutQuotes reason).byteLength ≤ 487

/-- The agent sends a single line if it is short enough for it. -/
theorem executable_iff_short {command : String}
    (hline : ∀ c ∈ command.toList, c ≠ '\r' ∧ c ≠ '\n') : Executable command ↔ Short command := by
  have hbreak : (goTrimSpace command).toList.any (fun c => c == '\r' || c == '\n') = false := by
    rw [List.any_eq_false]
    intro c hc
    obtain ⟨hr, hn⟩ := hline c (mem_of_mem_stripBy hc)
    simp [hr, hn]
  have hempty : goTrimSpace command = "" ↔ ¬∃ c ∈ command.toList, isGoSpace c = false := by
    rw [goTrimSpace, stripBy_eq_empty_iff]
    simp
  unfold Executable Short consoleLine
  dsimp only
  rw [hbreak]
  split_ifs with hnone hlong
  · exact iff_of_false (fun ⟨cmd, hcmd⟩ => by cases hcmd) fun h => hempty.mp hnone h.1
  · have hlong : ¬(goTrimSpace command).utf8ByteSize ≤ 512 := by simpa using hlong
    exact iff_of_false (fun ⟨cmd, hcmd⟩ => by cases hcmd) fun h => hlong h.2
  · have hshort : (goTrimSpace command).utf8ByteSize ≤ 512 := by simpa using hlong
    exact iff_of_true ⟨_, rfl⟩ ⟨not_not.mp fun h => hnone (hempty.mpr h), hshort⟩

/-- A command that `createJob` accepts is a single line. -/
theorem line_of_accepted {command : String} (h : JobsService.commandError command = none) :
    ∀ c ∈ command.toList, c ≠ '\r' ∧ c ≠ '\n' := by
  unfold JobsService.commandError at h
  split_ifs at h with hempty hlong hbreak
  intro c hc
  have := List.any_eq_false.mp (Bool.eq_false_iff.mpr hbreak) c hc
  simpa using this

/-- A text is on one line. -/
def Unbroken (s : Text) : Prop := ∀ u ∈ s, isBreak u = false

theorem unbroken_append {a b : Text} : Unbroken (a ++ b) ↔ Unbroken a ∧ Unbroken b :=
  List.forall_mem_append

theorem Unbroken.mono {a b : Text} (h : Unbroken b) (hsub : a ⊆ b) : Unbroken a :=
  fun u hu => h u (hsub hu)

/-- Nothing is taken off a string between two characters that are no white space. -/
theorem stripBy_eq_self {space : Char → Bool} {c d : Char} (hc : space c = false)
    (hd : space d = false) (mid : List Char) :
    stripBy space (String.ofList (c :: (mid ++ [d]))) = String.ofList (c :: (mid ++ [d])) := by
  refine stripBy_of_ends (fun x hx => ?_) fun x hx => ?_
  · obtain rfl : c = x := by simpa using hx
    exact hc
  · rw [← List.cons_append, List.getLast?_concat] at hx
    obtain rfl : d = x := Option.some.inj hx
    exact hd

/-- The agent sends a line between two ASCII characters that are no white space if it has at most
512 bytes. -/
theorem executable_iff_byteLength {u v : UInt16} {mid : Text}
    (hu : u.toNat < 128 ∧ isGoSpace (Text.charOf u) = false)
    (hv : v.toNat < 128 ∧ isGoSpace (Text.charOf v) = false)
    (hline : Unbroken (u :: (mid ++ [v]))) :
    Executable (stringOf (u :: (mid ++ [v]))) ↔ (Text.byteLength (u :: (mid ++ [v]))) ≤ 512 := by
  have hdecode : Text.decode (u :: (mid ++ [v])) =
      Text.charOf u :: (Text.decode mid ++ [Text.charOf v]) := by
    have hlast := Text.decode_append (Text.not_half_of_ascii hv.1) mid []
    have hfirst := Text.decode_append (Text.not_half_of_ascii hu.1) [] (mid ++ [v])
    rw [hlast] at hfirst
    exact hfirst
  have hbreaks : ∀ c ∈ (stringOf (u :: (mid ++ [v]))).toList, c ≠ '\r' ∧ c ≠ '\n' := by
    intro c hc
    rw [stringOf, String.toList_ofList] at hc
    have hunit : ∀ n : ℕ, n < 128 → isBreak (UInt16.ofNat n) = true → c.toNat ≠ n := by
      rintro n hn hbreak rfl
      obtain ⟨w, hw, hwc⟩ := Text.mem_of_mem_decode hc hn
      have := hline w hw
      rw [← hwc, UInt16.ofNat_toNat, this] at hbreak
      cases hbreak
    constructor
    · rintro rfl
      exact hunit 13 (by decide) (by decide) rfl
    · rintro rfl
      exact hunit 10 (by decide) (by decide) rfl
  have hstrip : goTrimSpace (stringOf (u :: (mid ++ [v]))) = stringOf (u :: (mid ++ [v])) := by
    rw [stringOf, hdecode]
    exact stripBy_eq_self hu.2 hv.2 (Text.decode mid)
  rw [executable_iff_short hbreaks, Short, hstrip]
  refine and_iff_right ⟨Text.charOf u, ?_, hu.2⟩
  rw [stringOf, String.toList_ofList, hdecode]
  exact List.mem_cons_self

/-- A word that is included in a text consists of units of it. -/
theorem subset_of_includes {s word : Text} (h : includes s word = true) : word ⊆ s := by
  obtain ⟨t, ht, hword⟩ := List.any_eq_true.mp h
  have htail : t <:+ s := (List.mem_tails t s).mp ht
  have hhead : word <+: t := List.isPrefixOf_iff_prefix.mp hword
  exact fun u hu => htail.subset (hhead.subset hu)

/-- A literal of ASCII on one line. -/
theorem ascii_of_all {w : Text} (h : (w.all fun u => u.toNat < 128 && !isBreak u) = true) :
    (∀ u ∈ w, u.toNat < 128) ∧ Unbroken w := by
  simp only [List.all_eq_true, Bool.and_eq_true, decide_eq_true_eq, Bool.not_eq_true'] at h
  exact ⟨fun u hu => (h u hu).1, fun u hu => (h u hu).2⟩

/-- The bytes of a warning. -/
theorem byteLength_warn (playerId name reason : Text) :
    (commandOf .warn playerId name reason).byteLength =
      16 + ((withoutQuotes name).byteLength + reason.byteLength) := by
  obtain ⟨hquotes, -⟩ := @ascii_of_all (Text.of "\"") (by decide)
  obtain ⟨hwarning, -⟩ := @ascii_of_all (Text.of " warning: ") (by decide)
  obtain ⟨hstart, -⟩ := @ascii_of_all (Text.of "say \"") (by decide)
  have hlast := Text.byteLength_append_ascii hquotes (by decide) reason []
  have hmid := Text.byteLength_append_ascii hwarning (by decide) (withoutQuotes name)
    (reason ++ Text.of "\"")
  have hfirst := Text.byteLength_ascii_append hstart
    (withoutQuotes name ++ (Text.of " warning: " ++ (reason ++ Text.of "\"")))
  rw [List.append_nil] at hlast
  rw [commandOf, if_pos rfl, List.append_assoc, List.append_assoc, List.append_assoc, hfirst, hmid,
    hlast]
  have hlengths : (Text.of "say \"").length = 5 ∧ (Text.of " warning: ").length = 10 ∧
      (Text.of "\"").length = 1 ∧ Text.byteLength [] = 0 := by decide
  omega

/-- A warning is executable if and only if the name and the reason are short enough. -/
theorem executable_warn {playerId name reason : Text} (hname : Unbroken name)
    (hreason : Unbroken reason) : Executable (stringOf (commandOf .warn playerId name reason)) ↔
      (withoutQuotes name).byteLength + reason.byteLength ≤ 496 := by
  have hbytes := byteLength_warn playerId name reason
  have hline : Unbroken (commandOf .warn playerId name reason) := by
    obtain ⟨-, hquotes⟩ := @ascii_of_all (Text.of "\"") (by decide)
    obtain ⟨-, hwarning⟩ := @ascii_of_all (Text.of " warning: ") (by decide)
    obtain ⟨-, hstart⟩ := @ascii_of_all (Text.of "say \"") (by decide)
    rw [commandOf, if_pos rfl]
    simp only [unbroken_append]
    exact ⟨⟨⟨⟨hstart, hname.mono (List.filter_subset_self name)⟩, hwarning⟩, hreason⟩, hquotes⟩
  -- it begins with a letter and ends with a quote
  have hsay : Text.of "say \"" = 115 :: Text.of "ay \"" := by decide
  have hend : Text.of "\"" = [34] := by decide
  have hcommand : commandOf .warn playerId name reason = 115 ::
      ((Text.of "ay \"" ++ withoutQuotes name ++ Text.of " warning: " ++ reason) ++ [34]) := by
    rw [commandOf, if_pos rfl, hsay, hend]
    rfl
  rw [hcommand] at hline hbytes ⊢
  rw [executable_iff_byteLength (by decide) (by decide) hline, hbytes]
  omega

/-- The characters of an id are ASCII, and no line break is among them. -/
theorem idCharacters_ascii {playerId : Text} {u : UInt16} (hu : u ∈ idCharacters playerId) :
    u.toNat < 128 ∧ isBreak u = false := by
  have hu := (List.mem_filter.mp hu).2
  have hbound : u.toNat < 128 := by
    simp only [Text.isDigit, Text.isLetter, Bool.or_eq_true, Bool.and_eq_true,
      decide_eq_true_eq] at hu
    rcases hu with (((h | h) | rfl) | rfl) | rfl
    · omega
    · by_cases hupper : 65 ≤ u.toNat ∧ u.toNat ≤ 90
      · omega
      · rw [Text.fold, if_neg hupper] at h
        omega
    all_goals decide
  refine ⟨hbound, ?_⟩
  rw [isBreak, Bool.or_eq_false_iff, decide_eq_false_iff_not, decide_eq_false_iff_not]
  constructor
  · rintro rfl
    revert hu
    decide
  · rintro rfl
    revert hu
    decide

section Kick

variable {playerId name reason : Text} {action : ModerationAction} (haction : action ≠ .warn)

include haction

/-- The bytes of a kick. -/
theorem byteLength_kick : (commandOf action playerId name reason).byteLength =
    25 + ((idCharacters playerId).length + (withoutQuotes reason).byteLength) := by
  obtain ⟨hquotes, -⟩ := @ascii_of_all (Text.of "\"") (by decide)
  obtain ⟨hmoderation, -⟩ := @ascii_of_all (Text.of " \"Chat moderation: ") (by decide)
  obtain ⟨hstart, -⟩ := @ascii_of_all (Text.of "kick ") (by decide)
  have hlast := Text.byteLength_append_ascii hquotes (by decide) (withoutQuotes reason) []
  have hmid := Text.byteLength_ascii_append hmoderation (withoutQuotes reason ++ Text.of "\"")
  have hids := Text.byteLength_ascii_append
    (fun u (hu : u ∈ idCharacters playerId) => (idCharacters_ascii hu).1)
    (Text.of " \"Chat moderation: " ++ (withoutQuotes reason ++ Text.of "\""))
  have hfirst := Text.byteLength_ascii_append hstart (idCharacters playerId ++
    (Text.of " \"Chat moderation: " ++ (withoutQuotes reason ++ Text.of "\"")))
  rw [List.append_nil] at hlast
  rw [commandOf, if_neg haction, List.append_assoc, List.append_assoc, List.append_assoc, hfirst,
    hids, hmid, hlast]
  have hlengths : (Text.of "kick ").length = 5 ∧ (Text.of " \"Chat moderation: ").length = 19 ∧
      (Text.of "\"").length = 1 ∧ Text.byteLength [] = 0 := by decide
  omega

/-- A kick is executable if and only if the id and the reason are short enough. -/
theorem executable_kick (hreason : Unbroken reason) :
    Executable (stringOf (commandOf action playerId name reason)) ↔
      (idCharacters playerId).length + (withoutQuotes reason).byteLength ≤ 487 := by
  have hbytes := @byteLength_kick playerId name reason action haction
  have hline : Unbroken (commandOf action playerId name reason) := by
    obtain ⟨-, hquotes⟩ := @ascii_of_all (Text.of "\"") (by decide)
    obtain ⟨-, hmoderation⟩ := @ascii_of_all (Text.of " \"Chat moderation: ") (by decide)
    obtain ⟨-, hstart⟩ := @ascii_of_all (Text.of "kick ") (by decide)
    rw [commandOf, if_neg haction]
    simp only [unbroken_append]
    exact ⟨⟨⟨⟨hstart, fun u hu => (idCharacters_ascii hu).2⟩, hmoderation⟩,
      hreason.mono (List.filter_subset_self reason)⟩, hquotes⟩
  -- it begins with a letter and ends with a quote
  have hkick : Text.of "kick " = 107 :: Text.of "ick " := by decide
  have hend : Text.of "\"" = [34] := by decide
  have hcommand : commandOf action playerId name reason = 107 ::
      ((Text.of "ick " ++ idCharacters playerId ++ Text.of " \"Chat moderation: " ++
        withoutQuotes reason) ++ [34]) := by
    rw [commandOf, if_neg haction, hkick, hend]
    rfl
  rw [hcommand] at hline hbytes ⊢
  rw [executable_iff_byteLength (by decide) (by decide) hline, hbytes]
  omega

end Kick

/-- The name and the text of a player's message are on one line. -/
theorem unbroken_of_ofLine {line : Text} {c : Players.ChatLine}
    (h : Players.ChatLine.ofLine line = some c) (hplayer : c.isServer = false) :
    Unbroken c.playerName ∧ Unbroken c.message := by
  have hdot : ∀ w : Text, (∀ u ∈ w, Text.isDot u = true) → Unbroken w := by
    intro w hw u hu
    have := hw u hu
    simp only [Text.isDot, Bool.and_eq_true, decide_eq_true_eq] at this
    simp [isBreak, this]
  have htrim : ∀ w : Text, w.trim ⊆ w := by
    intro w u hu
    have := (List.dropWhile_sublist Text.isSpace).mem (List.mem_reverse.mp hu)
    exact (List.dropWhile_sublist Text.isSpace).mem (List.mem_reverse.mp this)
  unfold Players.ChatLine.ofLine at h
  split at h
  · unfold Players.chatLine at h
    split_ifs at h
    obtain rfl := Option.some.inj h
    cases hplayer
  · next playerId entityId channel name message hsearch hserver =>
    unfold Players.chatLine at h
    split_ifs at h
    obtain rfl := Option.some.inj h
    have hclasses : Players.playerChat.classes = some [Text.noneOf "'", Text.noneOf "'",
        Text.noneOf "'", Text.isDot, Text.isDot] := rfl
    have hgroups := Regex.search_classes hclasses hsearch
    simp only [List.forall₂_cons] at hgroups
    obtain ⟨-, -, -, hname, hmessage, -⟩ := hgroups
    constructor
    · exact (hdot name hname).mono fun u hu => htrim name (List.mem_of_mem_take hu)
    · refine (hdot message hmessage).mono fun u hu => ?_
      exact (List.mem_filter.mp (htrim _ (List.mem_of_mem_take hu))).1
  · cases h

/-- A reason is on one line if the message is, and its lower case has no line break of its own. -/
theorem unbroken_reasonOf {env : Env} (hlower : ∀ s, ∀ u ∈ env.toLowerCase s, isBreak u = true → u ∈ s)
    {cfg : ChatConfig} {m : Message} (hmessage : Unbroken m.message) (muted : Bool) :
    Unbroken (reasonOf muted
      (cfg.badWordRules.find? fun rule => includes (env.toLowerCase m.message) rule.word)) := by
  obtain ⟨-, hmuted⟩ := @ascii_of_all (Text.of "Player is muted") (by decide)
  obtain ⟨-, hblocked⟩ := @ascii_of_all (Text.of "Blocked word: ") (by decide)
  obtain ⟨-, hflooding⟩ := @ascii_of_all (Text.of "Chat flooding") (by decide)
  cases muted with
  | true => exact hmuted
  | false =>
    cases hrule : cfg.badWordRules.find?
        (fun rule => includes (env.toLowerCase m.message) rule.word) with
    | none => exact hflooding
    | some rule =>
      refine unbroken_append.mpr ⟨hblocked, fun u hu => ?_⟩
      have hincludes : includes (env.toLowerCase m.message) rule.word = true :=
        @List.find?_some _ (fun r : BadWordRule => includes (env.toLowerCase m.message) r.word) _ _ hrule
      have hword := subset_of_includes hincludes hu
      by_contra hbreak
      have hbreak : isBreak u = true := by simpa using hbreak
      have := hmessage u (hlower m.message u hword hbreak)
      rw [this] at hbreak
      cases hbreak

/-- A command of `moderateChat` about a line of the chat is executable if and only if its parts are
short enough. -/
theorem executable_iff_partsShort {env : Env}
    (hlower : ∀ s, ∀ u ∈ env.toLowerCase s, isBreak u = true → u ∈ s) {cfg : ChatConfig}
    {s : Moderator} {m : Message} (hname : Unbroken m.playerName) (hmessage : Unbroken m.message)
    {command : Text} (h : (s.moderateChat env cfg m).2.command = some command) :
    Executable (stringOf command) ↔ PartsShort env cfg m := by
  have hreason := @unbroken_reasonOf env hlower cfg m hmessage
    (cfg.mutedPlayers.any fun p => p.playerId = m.playerId)
  unfold Moderator.moderateChat at h
  dsimp only at h
  split_ifs at h with henabled hnothing haction
  obtain rfl := Option.some.inj h
  unfold PartsShort
  dsimp only
  split_ifs with hwarn
  · rw [hwarn, executable_warn hname hreason]
  · exact executable_kick hwarn hreason

/-- A command that `createJob` accepts is executable if and only if it is short enough in bytes and
not all white space for the agent; one that `moderateChat` composes about a line of the chat, if and
only if its parts are short enough in bytes. -/
theorem executable_iff (env : Env)
    (hlower : ∀ s, ∀ u ∈ env.toLowerCase s, isBreak u = true → u ∈ s) :
    (∀ payload : Option JsonObject,
      JobsService.commandError (JobsService.consoleCommand payload) = none →
        (Executable (JobsService.consoleCommand payload) ↔
          Short (JobsService.consoleCommand payload))) ∧
      ∀ (cfg : ChatConfig) (s : Moderator) (server : ServerId) (now : ℤ) (eventFails : Bool)
        (line : Text) (c : Players.ChatLine) (command : Text),
        Players.ChatLine.ofLine line = some c → c.isServer = false →
        (s.moderateChat env cfg (messageOf server now eventFails c)).2.command = some command →
        (Executable (stringOf command) ↔
          PartsShort env cfg (messageOf server now eventFails c)) := by
  refine ⟨fun payload h => executable_iff_short (line_of_accepted h), ?_⟩
  intro cfg s server now eventFails line c command hline hplayer hcommand
  obtain ⟨hname, hmessage⟩ := unbroken_of_ofLine hline hplayer
  exact executable_iff_partsShort hlower hname hmessage hcommand

/-- A line about a message of a player. -/
def sayLine (name message : Text) : Text :=
  [Text.of "2024-01-01T00:00:00 1.0 INF Chat (from 'Steam_1', entity id '171', to 'Global'): '", name,
    Text.of "': ", message].flatten

/-- What is read from the line. -/
def saying (name message : Text) : Players.ChatLine :=
  ⟨false, Text.of "Steam_1", Text.of "171", name, Text.of "Global", message,
    Text.of "2024-01-01T00:00:00"⟩

/-- Settings under which a word is warned of. -/
def warnConfig (word : Text) : ChatConfig := ⟨true, [⟨word, .warn⟩], false, 5, 10, .kick, []⟩

/-- A short command is executable, and so is the warning of a short name. -/
theorem executable_iff_short_name :
    Executable (JobsService.consoleCommand (some [("command", .str " saveworld ")])) ∧
      Executable (stringOf (commandOf .warn (Text.of "Steam_1") (Text.of "Eve")
        (Text.of "Blocked word: bad"))) := by
  obtain ⟨hjob, hchat⟩ := executable_iff ⟨id⟩ fun s u hu _ => hu
  constructor
  · refine (hjob (some [("command", .str " saveworld ")]) (by decide +kernel)).mpr ?_
    exact ⟨⟨'s', by decide +kernel, by decide +kernel⟩, by decide +kernel⟩
  · have hline : Players.ChatLine.ofLine (sayLine (Text.of "Eve") (Text.of "a bad day")) =
        some (saying (Text.of "Eve") (Text.of "a bad day")) := by decide +kernel
    have hcommand : (Moderator.empty.moderateChat ⟨id⟩ (warnConfig (Text.of "bad"))
        (messageOf ⟨Text.of "pve", by decide⟩ 1000 false
          (saying (Text.of "Eve") (Text.of "a bad day")))).2.command =
        some (commandOf .warn (Text.of "Steam_1") (Text.of "Eve")
          (Text.of "Blocked word: bad")) := by decide +kernel
    refine (hchat _ _ _ _ _ _ _ _ hline rfl hcommand).mpr ?_
    unfold PartsShort
    decide +kernel

/-- A command of letters of two bytes. -/
def accented (n : ℕ) : String := String.ofList (List.replicate n 'é')

theorem utf8ByteSize_accented (n : ℕ) : (accented n).utf8ByteSize = 2 * n := by
  induction n with
  | zero => rfl
  | succ n ih =>
    have hsize : 'é'.utf8Size = 2 := by decide
    unfold accented at ih ⊢
    rw [List.replicate_succ, String.ofList_cons, String.utf8ByteSize_append,
      String.utf8ByteSize_singleton, ih, hsize]
    omega

theorem stripBy_accented {space : Char → Bool} (h : space 'é' = false) (n : ℕ) :
    stripBy space (accented (n + 2)) = accented (n + 2) := by
  have hends : List.replicate (n + 2) 'é' = 'é' :: (List.replicate n 'é' ++ ['é']) := by
    rw [List.replicate_succ, List.replicate_succ']
  rw [accented, hends]
  exact stripBy_eq_self h h _

/-- Three hundred letters of two bytes each are accepted, and are too long for the agent. -/
theorem accented_not_executable :
    JobsService.commandError (JobsService.consoleCommand
        (some [("command", .str (accented 300))])) = none ∧
      ¬Executable (JobsService.consoleCommand (some [("command", .str (accented 300))])) := by
  have hconsole : JobsService.consoleCommand (some [("command", .str (accented 300))]) =
      accented 300 := stripBy_accented (by decide) 298
  have hnonempty : accented 300 ≠ "" := by
    intro h
    have := utf8ByteSize_accented 300
    rw [h] at this
    cases this
  have hlength : utf16Length (accented 300) = 300 := by
    have hunits : (if 'é'.toNat < 0x10000 then 1 else 2) = 1 := rfl
    rw [utf16Length, accented, String.toList_ofList, List.map_replicate, List.sum_replicate, hunits]
    rfl
  have hbreak : (accented 300).toList.any (fun c => c == '\r' || c == '\n') = false := by
    rw [accented, String.toList_ofList, List.any_replicate]
    rfl
  have haccepted : JobsService.commandError (accented 300) = none := by
    rw [JobsService.commandError, if_neg hnonempty, hlength, if_neg (by decide), hbreak]
    rfl
  rw [hconsole]
  refine ⟨haccepted, fun h => ?_⟩
  have hshort := (executable_iff_short (line_of_accepted haccepted)).mp h
  rw [Short, goTrimSpace, stripBy_accented (by decide) 298, utf8ByteSize_accented] at hshort
  omega

end Moderation

end Mastermind
