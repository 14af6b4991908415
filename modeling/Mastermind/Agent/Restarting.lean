import Mastermind.Agent.Adapter

/-!
# The order of a safe restart

`SafeRestart` stops the server only when a backup has succeeded, the console has accepted `kickall`
and has counted no player. The run is followed command by command, with the trace so far as the
state: as long as no command stops or starts the server (`Command.quiet`) the run may fail, and once
the players are gone (`Cleared`) it may do what it likes. `Ordered` says what then holds of the whole
run, and `Ordered.of_quiet` and `Ordered.of_cleared` are the two ways to it.
-/

namespace Mastermind.Agent

open Effect Effect.Program

/-- What a procedure asked and what it was answered. -/
abbrev Trace := List (Answered Command.Answer)

/-! ## Procedures that can fail -/

section Rules

variable {α β : Type} {p : Procedure (Fallible α)} {fail : String → Procedure β}
  {k : α → Procedure β} {t : Trace}

/-- What follows a part that can fail, by the traces of the part. -/
theorem wp_attempt {Q : Except Unfinished β → Trace → Prop}
    (ok : ∀ u a, Executes p u (.ok (.ok a)) → (k a).wp recording Q (t ++ u))
    (error : ∀ u e, Executes p u (.ok (.error e)) → (fail e).wp recording Q (t ++ u))
    (unfinished : ∀ u e, Executes p u (.error e) → Q (.error e) (t ++ u)) :
    (attempt p fail k).wp recording Q t := by
  refine wp_recording_bind (fun u r hu => ?_) unfinished
  cases r with
  | ok a => exact ok u a hu
  | error e => exact error u e hu

/-- The trace of a procedure, when it returns a value. -/
def Returning {α : Type} (Q : Trace → Prop) (r : Except Unfinished (Fallible α)) (t : Trace) : Prop :=
  ∀ a, r = .ok (.ok a) → Q t

/-- A part that fails makes the whole fail. -/
theorem returning_orReturn {Q : Trace → Prop} {words : String → String}
    {k : α → Procedure (Fallible β)}
    (hk : ∀ u a, Executes p u (.ok (.ok a)) → (k a).wp recording (Returning Q) (t ++ u)) :
    (orReturn p words k).wp recording (Returning Q) t := by
  refine wp_attempt hk (fun u e _ => ?_) (fun u e _ => ?_)
  · exact (wp_pure _ _ _).mpr fun a ha => absurd ha (by simp)
  · exact fun a ha => absurd ha (by simp)

/-- All commands of the procedure satisfy `P`, and it is unfinished only after as many commands as
its loops have rounds: with more rounds than it makes commands, a run ends. -/
structure Keeps (P : Command → Prop) (fuel : ℕ) (p : Procedure α) : Prop where
  uses : Uses P p
  bounded : ∀ u e, Executes p u (.error e) → fuel ≤ u.length

namespace Keeps

variable {P : Command → Prop} {fuel : ℕ}

theorem pure (a : α) : Keeps P fuel (Pure.pure a : Procedure α) := by
  refine ⟨.pure a, fun u e h => ?_⟩
  obtain ⟨-, h⟩ := executes_pure.mp h
  exact absurd h (by simp)

theorem send {c : Command} (h : P c) : Keeps P fuel (send c) := by
  refine ⟨.request h, fun u e h => ?_⟩
  obtain ⟨a, -, h⟩ := executes_request.mp h
  exact absurd h (by simp)

/-- A loop that is given no more rounds. -/
theorem exhausted : Keeps P 0 (throw .unfinished : Procedure α) := ⟨.throw _, fun _ _ _ => Nat.zero_le _⟩

theorem bind {p : Procedure α} {f : α → Procedure β} (hp : Keeps P fuel p)
    (hf : ∀ a, Keeps P fuel (f a)) : Keeps P fuel (p >>= f) := by
  refine ⟨hp.uses.bind fun a => (hf a).uses, fun u e h => ?_⟩
  rcases executes_bind.mp h with ⟨e', h, -⟩ | ⟨a, t₁, t₂, rfl, -, h⟩
  · exact hp.bounded u e' h
  · have hlen := (hf a).bounded t₂ e h
    rw [List.length_append]
    omega

/-- A command before the next round of a loop. -/
theorem round {c : Command} {f : c.Answer → Procedure α} (hc : P c)
    (hf : ∀ a, Keeps P fuel (f a)) : Keeps P (fuel + 1) (Agent.send c >>= f) := by
  refine ⟨.bind (.request hc) fun a => (hf a).uses, fun u e h => ?_⟩
  obtain ⟨a, u', rfl, hrest⟩ := executes_request_bind.mp h
  have hlen := (hf a).bounded u' e hrest
  rw [List.length_cons]
  omega

theorem mono {P' : Command → Prop} {p : Procedure α} (hp : Keeps P fuel p) (h : ∀ c, P c → P' c) :
    Keeps P' fuel p := ⟨hp.uses.mono h, hp.bounded⟩

theorem attempt {p : Procedure (Fallible α)} (hp : Keeps P fuel p)
    (hfail : ∀ e, Keeps P fuel (fail e)) (hk : ∀ a, Keeps P fuel (k a)) :
    Keeps P fuel (attempt p fail k) := by
  refine hp.bind fun r => ?_
  cases r with
  | ok a => exact hk a
  | error e => exact hfail e

theorem orReturn {p : Procedure (Fallible α)} {words : String → String}
    {k : α → Procedure (Fallible β)} (hp : Keeps P fuel p) (hk : ∀ a, Keeps P fuel (k a)) :
    Keeps P fuel (orReturn p words k) :=
  attempt hp (fun _ => pure _) hk

end Keeps

end Rules

/-! ## The procedures of a restart -/

/-- The command neither stops nor starts the server. -/
def Command.quiet : Command → Bool
  | .stop _ => false
  | .start _ => false
  | .systemctl _ .sevenDtd => false
  | .kill => false
  | _ => true

/-- A procedure that neither stops nor starts the server, with loops of so many rounds. -/
abbrev Quiet {α : Type} (fuel : ℕ) (p : Procedure α) : Prop := Keeps (fun c => c.quiet = true) fuel p

theorem quiet_send {fuel : ℕ} {c : Command} (h : c.quiet = true) : Quiet fuel (send c) := .send h

theorem keeps_pollState {P : Command → Prop} (hactive : P (.serviceActive .sevenDtd)) (hnow : P .now)
    (hwait : P (.wait 1000)) (active : Bool) (deadline : ℤ) (fuel : ℕ) :
    Keeps P fuel (pollState active deadline fuel) := by
  induction fuel with
  | zero => exact .exhausted
  | succ fuel ih =>
    refine .round hactive fun up => ?_
    split_ifs
    · exact .pure _
    · refine .bind (.send hnow) fun time => ?_
      split_ifs
      · exact .pure _
      · exact .orReturn (.send hwait) fun _ => ih

theorem keeps_waitFor7DTDState {P : Command → Prop} (hactive : P (.serviceActive .sevenDtd))
    (hnow : P .now) (hwait : P (.wait 1000)) (fuel : ℕ) (active : Bool) (timeout : ℤ) :
    Keeps P fuel (waitFor7DTDState fuel active timeout) :=
  .bind (.send hnow) fun _ => keeps_pollState hactive hnow hwait _ _ _

/-- The commands with which a restart waits for the end of a Blood Moon. -/
def Command.defers : Command → Bool
  | .sendCommand command =>
    command = "gettime" || command = "say \"The server will be restarting after bloodmoon\""
  | .reportProgress _ _ => true
  | .wait ms => ms = 30000
  | _ => false

/-- Such commands leave the server running. -/
theorem Command.quiet_of_defers {c : Command} (h : c.defers = true) : c.quiet = true := by
  cases c <;> first | rfl | exact absurd h (by simp [Command.defers])

theorem defers_announceWait (fuel : ℕ) (notifyPlayers queued : Bool) (day : ℤ) :
    Keeps (fun c => c.defers = true) fuel (announceWait notifyPlayers queued day) := by
  unfold announceWait
  split_ifs
  · exact .bind (.send rfl) fun _ => .pure _
  · exact .orReturn (.send (by decide)) fun _ => .bind (.send rfl) fun _ => .pure _
  · exact .bind (.send rfl) fun _ => .pure _

theorem defers_waitUntilRestartDay (notifyPlayers : Bool) (fuel : ℕ) (queued : Bool) :
    Keeps (fun c => c.defers = true) fuel
      (waitUntilRestartDayWithNotice notifyPlayers fuel queued) := by
  induction fuel generalizing queued with
  | zero => exact .exhausted
  | succ fuel ih =>
    refine .round (by decide) fun reply => ?_
    cases reply with
    | error err => exact .pure _
    | ok output =>
      refine .orReturn (.pure _) fun day => ?_
      split_ifs
      · exact .orReturn (defers_announceWait _ _ _ _) fun _ =>
          .orReturn (.send (by decide)) fun _ => ih _
      · exact .bind (.send rfl) fun _ => .pure _
      · exact .pure _

theorem quiet_waitUntilRestartDay (notifyPlayers : Bool) (fuel : ℕ) (queued : Bool) :
    Quiet fuel (waitUntilRestartDayWithNotice notifyPlayers fuel queued) :=
  (defers_waitUntilRestartDay _ _ _).mono fun _ => Command.quiet_of_defers

theorem quiet_countdown (fuel : ℕ) (l : List String) : Quiet fuel (countdown l) := by
  induction l with
  | nil => exact .pure _
  | cons warning rest ih => exact .orReturn (.send rfl) fun _ => .orReturn (.send rfl) fun _ => ih

theorem quiet_flushWorld (fuel : ℕ) : Quiet fuel flushWorld := by
  refine .bind (.send rfl) fun active => ?_
  split_ifs
  · refine .orReturn (.send rfl) fun _ => .bind (.send rfl) fun _ => .bind (.send rfl) fun reply => ?_
    cases reply with
    | ok output => exact .pure _
    | error e => exact .pure _
  · exact .pure _

theorem quiet_writeBackup (fuel : ℕ) (live : String) (gameDay retention : ℤ) (created : Moment) :
    Quiet fuel (writeBackup live gameDay retention created) := by
  have hdiscard (destination err : String) : Quiet fuel (discardBackup destination err) :=
    .bind (.send rfl) fun _ => .pure _
  exact .attempt (.send rfl) (fun _ => hdiscard _ _) fun _ =>
    .attempt (.send rfl) (fun _ => hdiscard _ _) fun _ =>
    .bind (.send rfl) fun _ => .bind (.send rfl) fun _ => .pure _

theorem quiet_backupSave (fuel : ℕ) (cfg : InstanceConfig) (configOverride : String)
    (retention : ℤ) : Quiet fuel (backupSave cfg configOverride retention) := by
  have hresolve : Quiet fuel (resolveLiveSave cfg configOverride) :=
    .orReturn (.send rfl) fun _ => .pure _
  refine .orReturn hresolve fun live => .bind (.send rfl) fun available => ?_
  split_ifs
  · refine .orReturn (quiet_flushWorld _) fun gameDay => .bind (.send rfl) fun created =>
      .orReturn (.send rfl) fun _ => .bind (.send rfl) fun taken => ?_
    split_ifs
    · exact quiet_writeBackup _ _ _ _ _
    · exact .pure _
  · exact .pure _

/-- `Restart` stops and starts the server. -/
theorem keeps_restart (fuel : ℕ) (cfg : InstanceConfig) :
    Keeps (fun _ => True) fuel (restart fuel cfg) := by
  have hnow : Keeps (fun _ => True) fuel (restartNow fuel cfg) :=
    .orReturn (.send trivial) fun _ =>
    .orReturn (keeps_waitFor7DTDState trivial trivial trivial _ _ _) fun _ =>
    .orReturn (.send trivial) fun _ =>
    .orReturn (keeps_waitFor7DTDState trivial trivial trivial _ _ _) fun _ => .pure _
  unfold restart
  split_ifs
  · exact .orReturn ((quiet_waitUntilRestartDay false fuel false).mono fun _ _ => trivial)
      fun _ => hnow
  · exact hnow

/-! ## The order -/

section Order

variable (T : CaseTables) (cfg : InstanceConfig) (serverConfigPath : String) (retentionCount : ℤ)

/-- A command with its answer. -/
def Command.answered (c : Command) (a : c.Answer) : Answered Command.Answer := ⟨c, a⟩

/-- `kickall` as `SafeRestart` sends it. -/
def kickall : Command := .sendCommand "kickall \"Server is Restarting\""

/-- The players are gone: a backup succeeded, then the console accepted `kickall`, and then it
counted no player. -/
def Cleared (t : Trace) : Prop :=
  ∃ before backup after record kickOutput verification,
    t = before ++ (backup ++ ([kickall.answered (Except.ok kickOutput),
      (Command.wait 2000).answered (Except.ok ()),
      (Command.sendCommand "lp").answered (Except.ok verification)] ++ after)) ∧
    Executes (backupSave cfg serverConfigPath retentionCount) backup (.ok (.ok record)) ∧
    consoleRejected T kickOutput = false ∧ playerCountFromList verification = .ok 0

/-- What is asked of a run of `SafeRestart`: the server is stopped and started only when the players
are gone; when they never are, it is neither stopped nor started, and the result is that the restart
failed; and the run ends unless it has made as many commands as its loops have rounds. -/
structure Ordered (fuel : ℕ) (r : Except Unfinished JobResult) (t : Trace) : Prop where
  after_clearing : ∀ t₁ x t₂, t = t₁ ++ x :: t₂ → x.stmt.quiet = false →
    Cleared T cfg serverConfigPath retentionCount t₁
  failed : ¬ Cleared T cfg serverConfigPath retentionCount t →
    (∀ x ∈ t, x.stmt.quiet = true) ∧ ∀ result, r = .ok result → result.status = "failed"
  ends : ∀ e, r = .error e → fuel ≤ t.length

variable {T cfg serverConfigPath retentionCount} {fuel : ℕ} {r : Except Unfinished JobResult}
  {t u : Trace}

theorem Cleared.append (h : Cleared T cfg serverConfigPath retentionCount t) :
    Cleared T cfg serverConfigPath retentionCount (t ++ u) := by
  obtain ⟨before, backup, after, record, kickOutput, verification, rfl, h⟩ := h
  refine ⟨before, backup, after ++ u, record, kickOutput, verification, ?_, h⟩
  simp only [List.append_assoc]

theorem Ordered.of_quiet (hquiet : ∀ x ∈ t, x.stmt.quiet = true)
    (hfailed : ∀ result, r = .ok result → result.status = "failed")
    (hends : ∀ e, r = .error e → fuel ≤ t.length) :
    Ordered T cfg serverConfigPath retentionCount fuel r t := by
  refine ⟨fun t₁ x t₂ ht hx => ?_, fun _ => ⟨hquiet, hfailed⟩, hends⟩
  have hmem := hquiet x (by rw [ht]; exact List.mem_append_right _ (List.mem_cons_self ..))
  rw [hx] at hmem
  exact absurd hmem (by decide)

theorem Ordered.of_cleared (hquiet : ∀ x ∈ t, x.stmt.quiet = true)
    (hcleared : Cleared T cfg serverConfigPath retentionCount t)
    (hends : ∀ e, r = .error e → fuel ≤ (t ++ u).length) :
    Ordered T cfg serverConfigPath retentionCount fuel r (t ++ u) := by
  refine ⟨fun t₁ x t₂ ht hx => ?_, fun h => absurd hcleared.append h, hends⟩
  rcases List.append_eq_append_iff.mp ht with ⟨c, rfl, -⟩ | ⟨c, rfl, hc⟩
  · exact hcleared.append
  · cases c with
    | nil =>
      rw [List.append_nil] at hcleared
      exact hcleared
    | cons y c =>
      -- the command would be among the quiet ones
      obtain ⟨rfl, -⟩ := List.cons.inj hc
      have hmem := hquiet x (List.mem_append_right _ (List.mem_cons_self ..))
      rw [hx] at hmem
      exact absurd hmem (by decide)

/-- A run that fails before anything but quiet commands. -/
theorem ordered_of_failed (hquiet : ∀ x ∈ t, x.stmt.quiet = true) (error output : String) :
    (pure (.failed error output) : Procedure JobResult).wp recording
      (Ordered T cfg serverConfigPath retentionCount fuel) t := by
  refine (wp_pure _ _ _).mpr (.of_quiet hquiet ?_ (fun e he => absurd he (by simp)))
  intro result hresult
  obtain rfl := Except.ok.inj hresult
  rfl

theorem quiet_append (ht : ∀ x ∈ t, x.stmt.quiet = true) (hu : ∀ x ∈ u, x.stmt.quiet = true) :
    ∀ x ∈ t ++ u, x.stmt.quiet = true := by
  intro x hx
  rcases List.mem_append.mp hx with hx | hx
  · exact ht x hx
  · exact hu x hx

/-- A quiet part of a run that has been quiet so far. -/
theorem ordered_attempt {α : Type} {p : Procedure (Fallible α)} (hp : Quiet fuel p)
    {fail : String → Procedure JobResult} {k : α → Procedure JobResult}
    (hquiet : ∀ x ∈ t, x.stmt.quiet = true)
    (hfail : ∀ e, ∃ error output, fail e = pure (.failed error output))
    (hk : ∀ u a, Executes p u (.ok (.ok a)) → (∀ x ∈ t ++ u, x.stmt.quiet = true) →
      (k a).wp recording (Ordered T cfg serverConfigPath retentionCount fuel) (t ++ u)) :
    (attempt p fail k).wp recording (Ordered T cfg serverConfigPath retentionCount fuel) t := by
  refine wp_attempt (fun u a hu => ?_) (fun u e hu => ?_) (fun u e hu => ?_)
  · exact hk u a hu (quiet_append hquiet (hu.uses hp.uses))
  · obtain ⟨error, output, he⟩ := hfail e
    rw [he]
    exact ordered_of_failed (quiet_append hquiet (hu.uses hp.uses)) error output
  · refine .of_quiet (quiet_append hquiet (hu.uses hp.uses)) (fun _ h => absurd h (by simp)) ?_
    intro e' _
    have hlen := hp.bounded u e hu
    rw [List.length_append]
    omega

/-- `kickall`, its verification, and what follows it, after a backup. -/
theorem ordered_kickPlayers {k : String → Procedure JobResult} {before backup : Trace}
    {record : SaveRecord} (hquiet : ∀ x ∈ before ++ backup, x.stmt.quiet = true)
    (hbackup : Executes (backupSave cfg serverConfigPath retentionCount) backup (.ok (.ok record)))
    (hk : ∀ kickOutput, Keeps (fun _ => True) fuel (k kickOutput)) :
    (kickPlayers T k).wp recording (Ordered T cfg serverConfigPath retentionCount fuel)
      (before ++ backup) := by
  refine ordered_attempt (quiet_send rfl) hquiet (fun e => ⟨_, _, rfl⟩) fun u kickOutput hu hquiet => ?_
  obtain ⟨_, rfl, hkick⟩ := executes_request.mp hu
  obtain rfl := Except.ok.inj hkick
  split_ifs with hrejected
  · exact ordered_of_failed hquiet _ _
  refine ordered_attempt (quiet_send rfl) hquiet (fun e => ⟨_, _, rfl⟩) fun u _ hu hquiet => ?_
  obtain ⟨_, rfl, hwait⟩ := executes_request.mp hu
  obtain rfl := Except.ok.inj hwait
  refine ordered_attempt (quiet_send rfl) hquiet (fun e => ⟨_, _, rfl⟩) fun u verification hu hquiet => ?_
  obtain ⟨_, rfl, hlp⟩ := executes_request.mp hu
  obtain rfl := Except.ok.inj hlp
  cases hcount : playerCountFromList verification with
  | error err => exact ordered_of_failed hquiet _ _
  | ok remaining =>
    show Program.wp _ (if remaining = 0 then _ else _) _ _
    split_ifs with hzero
    · subst hzero
      -- the backup and the three answers are what `Cleared` asks for
      have hcleared : Cleared T cfg serverConfigPath retentionCount
          (before ++ backup ++ [kickall.answered (Except.ok kickOutput)] ++
            [(Command.wait 2000).answered (Except.ok ())] ++
            [(Command.sendCommand "lp").answered (Except.ok verification)]) := by
        refine ⟨before, backup, [], record, kickOutput, verification, ?_, hbackup, ?_, hcount⟩
        · simp only [List.append_assoc, List.append_nil, List.cons_append, List.nil_append]
        · exact Bool.eq_false_iff.mpr hrejected
      refine wp_recording.mpr fun u r hu => .of_cleared hquiet hcleared fun e he => ?_
      subst he
      have hlen := (hk kickOutput).bounded u e hu
      rw [List.length_append]
      omega
    · exact ordered_of_failed hquiet _ _

theorem ordered_safeRestartNow (deferredForBloodMoon : Bool)
    (hquiet : ∀ x ∈ t, x.stmt.quiet = true) :
    (safeRestartNow T fuel cfg serverConfigPath retentionCount deferredForBloodMoon).wp recording
      (Ordered T cfg serverConfigPath retentionCount fuel) t := by
  refine ordered_attempt (quiet_countdown _ _) hquiet (fun e => ⟨_, _, rfl⟩) fun u _ _ hquiet => ?_
  refine ordered_attempt (quiet_backupSave _ _ _ _) hquiet (fun e => ⟨_, _, rfl⟩)
    fun backup record hbackup hquiet => ?_
  refine ordered_kickPlayers hquiet hbackup fun kickOutput => ?_
  exact .attempt (keeps_restart _ _) (fun _ => .pure _) fun _ => .pure _

/-- Every run of `SafeRestart` is in order, whatever its commands answer. -/
theorem ordered_of_safeRestart
    (h : Executes (safeRestart T fuel cfg serverConfigPath retentionCount) t r) :
    Ordered T cfg serverConfigPath retentionCount fuel r t := by
  have hquiet : ∀ x ∈ ([] : Trace), x.stmt.quiet = true := fun x hx => (nomatch hx)
  suffices hwp : (safeRestart T fuel cfg serverConfigPath retentionCount).wp recording
      (Ordered T cfg serverConfigPath retentionCount fuel) [] from wp_recording.mp hwp t r h
  unfold safeRestart
  split_ifs
  · exact ordered_attempt (quiet_waitUntilRestartDay _ _ _) hquiet (fun e => ⟨_, _, rfl⟩)
      fun u deferred _ hquiet => ordered_safeRestartNow deferred hquiet
  · exact ordered_safeRestartNow false hquiet

end Order

/-- A server that is protected from restarts on a Blood Moon. -/
def hosted : InstanceConfig := ⟨"/srv/7dtd/game", true⟩

/-- The answers to the `n`-th command of a run that goes well on a day. The server runs before and
after the given commands. -/
def smooth (day : String) (down up : ℕ) (n : ℕ) : (c : Command) → c.Answer
  | .sendCommand "gettime" => .ok ("Day " ++ day ++ ", 12:00")
  | .sendCommand "lp" => .ok "Total of 0 in the game"
  | .sendCommand _ => .ok ""
  | .serviceActive _ => decide (n < down ∨ up < n)
  | .systemctl _ _ => .ok ()
  | .mainPid => .ok "0"
  | .kill => .ok ()
  | .resetFailed => .ok ()
  | .wipe _ _ => .ok ()
  | .now => ⟨0, "2026-01-01_00-00-00"⟩
  | .wait _ => .ok ()
  | .sleep _ => ()
  | .reportProgress _ _ => ()
  | .stop _ => .ok ()
  | .start _ => .ok ()
  | .readConfiguration _ => .ok [("GameWorld", "Navezgane"), ("GameName", "Game")]
  | .isDir _ => true
  | .stat _ => true
  | .lstat _ => .missing
  | .mkdirAll _ => .ok ()
  | .copySaveTree _ _ _ => .ok ()
  | .writeMetadata _ _ => .ok ()
  | .removeAll _ => .ok ()
  | .directorySize _ => 0
  | .pruneFullSaveBackups _ => .ok ()

/-- A restart on the eighth day, which goes through. -/
theorem ordered_of_safeRestart_smooth :
    let run := (safeRestart CaseTables.western 2 hosted "" 10).follow (smooth "8" 31 33) 0
    (run.1.map Answered.stmt).contains (.stop { hosted with avoidBloodMoonRestart := false }) = true ∧
      Ordered CaseTables.western hosted "" 10 2 run.2 run.1 :=
  ⟨by decide +kernel, ordered_of_safeRestart (executes_follow _ _ _)⟩

end Mastermind.Agent
