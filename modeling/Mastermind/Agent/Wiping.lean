import Mastermind.Agent.Restarting

/-!
# Wiping a save

`WipeSave` stops a running server, kills it if it does not stop, deletes the save and starts the
server again. A run is looked at by what it does to the server and the save (`Act`): the queries for
the main process, the deletion, the stops and the starts.

A query that fails is read as "no process", and a shutdown that fails returns before the restart is
armed. `wipeSafe_iff` says that this is all: a run deletes only after it has seen the process gone,
and leaves the server started again, if and only if its last query was answered where it decided on
the deletion, and found no process where the server had been stopped.
-/

namespace Mastermind.Agent

open Effect Effect.Program

/-! ## The procedure -/

/-- The graceful stop, and the bounded wait for it. -/
def stopGracefully (fuel : ℕ) : Procedure (Fallible Unit) :=
  orReturn (systemctlService .stop .sevenDtd) id fun _ => waitFor7DTDState fuel false 5000

/-- `stopErr != nil || serviceHasMainPID(ctx)`. -/
def stillRuns : Fallible Unit → Procedure Bool
  | .error _ => pure true
  | .ok _ => serviceHasMainPID

/-- How `%v` prints an error or its absence. -/
def errorText : Fallible Unit → String
  | .error err => err
  | .ok _ => "<nil>"

/-- What `WipeSave` does with a running server. -/
def shutDown (fuel : ℕ) : Procedure (Fallible Unit) := do
  let _ ← send (.sendCommand "saveworld")
  orReturn (send (.wait 2000)) id fun _ => do
    let stopErr ← stopGracefully fuel
    if ← stillRuns stopErr then
      orReturn (kill fuel) (fun killErr => "safe shutdown failed (" ++ errorText stopErr ++
        "); forced kill also failed: " ++ killErr) fun _ => pure (.ok ())
    else pure (.ok ())

/-- The shutdown, where a server runs. -/
def stopServer (fuel : ℕ) : Procedure (Fallible Unit) := do
  if ← serviceHasMainPID then shutDown fuel else pure (.ok ())

/-- The rounds of the wait for the fresh save. -/
def awaitFreshSave (target : String) (deadline : ℤ) : ℕ → Procedure (Fallible String)
  | 0 => throw .unfinished
  | fuel + 1 => do
    let fresh : Bool ← send (.stat (Path.join [target, "main.ttw"]))
    if fresh then pure (.ok target)
    else
      let time ← send .now
      if time.ms > deadline then
        pure (.error "server started but fresh save was not created within 3 minutes")
      else orReturn (send (.wait 2000)) id fun _ => awaitFreshSave target deadline fuel

/-- What `WipeSave` does once the restart is armed. -/
def replaceSave (fuel : ℕ) (configPath target : String) (existed : Bool) :
    Procedure (Fallible String) :=
  orReturn (if existed then send (.wipe configPath target) else pure (.ok ())) ("delete save: " ++ ·)
    fun _ => do
    let left ← send (.lstat target)
    if left = Lookup.missing then
      orReturn (systemctlService .start .sevenDtd) ("save deleted but server restart failed: " ++ ·)
        fun _ =>
      orReturn (waitFor7DTDState fuel true 60000) ("server service did not become active: " ++ ·)
        fun _ => do
        let time ← send .now
        awaitFreshSave target (time.ms + 180000) fuel
    else pure (.error "save path still exists after delete")

/-- What `WipeSave` does after its last query. The deferred restart runs when `replaceSave` returns
with an error. -/
def finishWipe (fuel : ℕ) (configPath target : String) (existed : Bool) :
    Procedure (Fallible String) :=
  attempt (replaceSave fuel configPath target existed)
    (fun err => do
      let _ ← systemctlService .start .sevenDtd
      pure (.error err))
    fun target => pure (.ok target)

/-- `WipeSave` without the pause of Region Healer. -/
def wipeServer (fuel : ℕ) (configPath target : String) (existed : Bool) :
    Procedure (Fallible String) :=
  orReturn (stopServer fuel) id fun _ => do
    if ← serviceHasMainPID then
      pure (.error "server process is still running; refusing to wipe save")
    else finishWipe fuel configPath target existed

/-- `WipeSave` once it has looked for the save: Region Healer is paused, if it runs. -/
def wipePaused (fuel : ℕ) (configPath target : String) (existed : Bool) :
    Procedure (Fallible String) := do
  let healerWasActive : Bool ← send (.serviceActive .regionHealer)
  if healerWasActive then
    orReturn (systemctlService .stop .regionHealer) ("pause RegionHealer: " ++ ·) fun _ => do
      let result ← wipeServer fuel configPath target existed
      let _ ← systemctlService .start .regionHealer
      pure result
  else wipeServer fuel configPath target existed

/-- `WipeSave`. -/
def wipeSave (fuel : ℕ) (cfg : InstanceConfig) (configOverride : String) :
    Procedure (Fallible String) :=
  orReturn (resolveLiveSave cfg configOverride) id fun target => do
    match ← send (.lstat target) with
    | .failed err => pure (.error ("save path unavailable: " ++ err))
    | .found => wipePaused fuel (configPath cfg configOverride) target true
    | .missing => wipePaused fuel (configPath cfg configOverride) target false

/-! ## What a run does -/

/-- What a query for the main process tells. -/
inductive Observation where
  | running | gone | unknown
deriving DecidableEq

/-- What the answer to `systemctl show` tells: nothing, if it fails or prints no number. -/
def observe : Fallible String → Observation
  | .error _ => .unknown
  | .ok output =>
    match atoi (goTrimSpace output) with
    | .error _ => .unknown
    | .ok pid => if pid > 0 then .running else .gone

/-- What a command does to the server and to the save. -/
inductive Act where
  | query (seen : Observation)
  | delete
  | stop (succeeded : Bool)
  | start
  | look (lookup : Lookup)
  | other
deriving DecidableEq

/-- The act of a command with an answer. A kill is a stop. -/
def Command.act : (c : Command) → c.Answer → Act
  | .mainPid, answer => .query (observe answer)
  | .wipe _ _, _ => .delete
  | .systemctl .stop .sevenDtd, answer => .stop (answer : Fallible Unit).isOk
  | .systemctl .start .sevenDtd, _ => .start
  | .kill, answer => .stop (answer : Fallible Unit).isOk
  | .lstat _, answer => .look answer
  | _, _ => .other

/-- The acts of a run. -/
def acts (t : Trace) : List Act := t.map fun x => x.stmt.act x.answer

theorem acts_append (t u : Trace) : acts (t ++ u) = acts t ++ acts u := List.map_append

theorem mem_acts_of_uses {P : Command → Prop} {R : Act → Prop} {t : Trace}
    (h : ∀ x ∈ t, P x.stmt) (hP : ∀ c, P c → ∀ a, R (c.act a)) : ∀ a ∈ acts t, R a := by
  intro a ha
  obtain ⟨x, hx, rfl⟩ := List.mem_map.mp ha
  exact hP _ (h x hx) _

/-- What the queries of a run told. -/
def seen (l : List Act) : List Observation :=
  l.filterMap fun
    | .query o => some o
    | _ => none

/-- Whether the save was there at the start. -/
def existed (l : List Act) : Prop :=
  (l.filterMap fun
    | .look lookup => some lookup
    | _ => none).head? = some .found

/-- What is asked of a run: the save is deleted only after the process has been seen gone, and when
the run has returned and a stop or a kill has succeeded, the server has been started after the last
of them. -/
structure WipeSafe {α : Type} (r : Except Unfinished α) (l : List Act) : Prop where
  delete : ∀ l₁ l₂, l = l₁ ++ .delete :: l₂ → .gone ∈ seen l₁
  restart : (∃ a, r = .ok a) → .stop true ∈ l →
    ∃ l₁ l₂, l = l₁ ++ .start :: l₂ ∧ ∀ b, .stop b ∉ l₂

/-- When a run does so: if its last query is not answered and the save is there, another query has
seen the process gone; and when the run has returned and a stop or a kill has succeeded, the last
query saw no process. -/
structure Watched {α : Type} (r : Except Unfinished α) (l : List Act) : Prop where
  answered : existed l → (seen l).getLast? = some .unknown → .gone ∈ seen l
  ended : (∃ a, r = .ok a) → .stop true ∈ l → (seen l).getLast? ≠ some .running

theorem seen_append (l₁ l₂ : List Act) : seen (l₁ ++ l₂) = seen l₁ ++ seen l₂ :=
  List.filterMap_append

theorem seen_eq_nil {l : List Act} (h : ∀ a ∈ l, ∀ o, a ≠ .query o) : seen l = [] := by
  refine List.filterMap_eq_nil_iff.mpr fun a ha => ?_
  cases a with
  | query o => exact absurd rfl (h _ ha o)
  | _ => rfl

/-! ## The shutdown -/

section ShutDown

/-- The command is no query for the main process. -/
def Command.isQuery : Command → Bool
  | .mainPid => true
  | _ => false

theorem act_ne_query {c : Command} (h : c.isQuery = false) (a : c.Answer) (o : Observation) :
    c.act a ≠ .query o := by
  cases c with
  | mainPid => exact absurd h (by decide)
  | systemctl action service => cases action <;> cases service <;> exact Act.noConfusion
  | _ => exact Act.noConfusion

theorem seen_of_uses {t : Trace} (h : ∀ x ∈ t, x.stmt.isQuery = false) : seen (acts t) = [] :=
  seen_eq_nil (mem_acts_of_uses h fun _ hc a => act_ne_query hc a)

/-- The last query, if there was one, saw a process. -/
def Hanging (l : List Act) : Prop := ∀ o ∈ (seen l).getLast?, o = .running

theorem Hanging.append {l₁ l₂ : List Act} (h₁ : Hanging l₁) (h₂ : Hanging l₂) :
    Hanging (l₁ ++ l₂) := by
  intro o ho
  rw [seen_append, List.getLast?_append, Option.mem_def, Option.or_eq_some_iff] at ho
  rcases ho with ho | ⟨-, ho⟩
  · exact h₂ o ho
  · exact h₁ o ho

theorem hanging_of_uses {t : Trace} (h : ∀ x ∈ t, x.stmt.isQuery = false) : Hanging (acts t) := by
  intro o ho
  rw [seen_of_uses h] at ho
  cases ho

/-- The query tells whether there is a process. -/
theorem executes_serviceHasMainPID {u : Trace} {r : Except Unfinished Bool}
    (h : Executes serviceHasMainPID u r) :
    ∃ o, acts u = [.query o] ∧ r = .ok (decide (o = .running)) := by
  obtain ⟨reply, u, rfl, hrest⟩ := executes_request_bind.mp h
  refine ⟨observe reply, ?_⟩
  cases reply with
  | error e =>
    obtain ⟨rfl, rfl⟩ := executes_pure.mp hrest
    exact ⟨rfl, rfl⟩
  | ok output =>
    simp only at hrest
    cases hpid : atoi (goTrimSpace output) with
    | error e =>
      rw [hpid] at hrest
      obtain ⟨rfl, rfl⟩ := executes_pure.mp hrest
      simp [acts, Command.act, observe, hpid]
    | ok pid =>
      rw [hpid] at hrest
      obtain ⟨rfl, rfl⟩ := executes_pure.mp hrest
      by_cases hpos : pid > 0
      · simp [acts, Command.act, observe, hpid, hpos]
      · simp [acts, Command.act, observe, hpid, hpos]

variable {fuel : ℕ}

/-- Commands that are no queries. -/
abbrev Blind {α : Type} (fuel : ℕ) (p : Procedure α) : Prop :=
  Keeps (fun c => c.isQuery = false) fuel p

theorem blind_send {c : Command} (h : c.isQuery = false) : Blind fuel (send c) := .send h

theorem blind_waitFor7DTDState (active : Bool) (timeout : ℤ) :
    Blind fuel (waitFor7DTDState fuel active timeout) :=
  @keeps_waitFor7DTDState (fun c => c.isQuery = false) rfl rfl rfl fuel active timeout

theorem keeps_systemctlService {P : Command → Prop} {action : Action} {service : Service}
    (h : P (.systemctl action service)) : Keeps P fuel (systemctlService action service) :=
  .orReturn (.send h) fun _ => .pure _

theorem blind_systemctlService (action : Action) (service : Service) :
    Blind fuel (systemctlService action service) :=
  .orReturn (blind_send rfl) fun _ => .pure _

theorem blind_stopGracefully : Blind fuel (stopGracefully fuel) :=
  .orReturn (blind_systemctlService _ _) fun _ => blind_waitFor7DTDState _ _

theorem blind_killProcess : Blind fuel (killProcess fuel) :=
  .orReturn (blind_send rfl) fun _ => .orReturn (blind_systemctlService _ _) fun _ =>
    .orReturn (blind_send rfl) fun _ => .orReturn (blind_waitFor7DTDState _ _) fun _ => .pure _

/-- A part without queries leaves the last one as it was. -/
theorem Hanging.blind {α : Type} {p : Procedure α} {t u : Trace} {r : Except Unfinished α}
    (ht : Hanging (acts t)) (hp : Blind fuel p) (hu : Executes p u r) : Hanging (acts (t ++ u)) := by
  rw [acts_append]
  exact ht.append (hanging_of_uses (hu.uses hp.uses))

theorem Hanging.send {c : Command} {t u : Trace} {r : Except Unfinished c.Answer}
    (ht : Hanging (acts t)) (hc : c.isQuery = false) (hu : Executes (send c) u r) :
    Hanging (acts (t ++ u)) := by
  rw [acts_append]
  obtain ⟨a, rfl, -⟩ := executes_request.mp hu
  exact ht.append (hanging_of_uses fun x hx => List.mem_singleton.mp hx ▸ hc)

theorem Hanging.query {t u : Trace} (ht : Hanging (acts t)) (hu : acts u = [.query .running]) :
    Hanging (acts (t ++ u)) := by
  rw [acts_append, hu]
  refine ht.append fun o ho => ?_
  obtain rfl : Observation.running = o := by simpa [seen] using ho
  rfl

/-- A shutdown succeeds, or the last query has seen a process. -/
def Struggles (r : Except Unfinished (Fallible Unit)) (t : Trace) : Prop :=
  r = .ok (.ok ()) ∨ Hanging (acts t)

/-- A failure after a query that has seen a process. -/
theorem struggles_error {t : Trace} (ht : Hanging (acts t)) (err : String) :
    (pure (.error err) : Procedure (Fallible Unit)).wp recording Struggles t :=
  (wp_pure _ _ _).mpr (.inr ht)

theorem struggles_kill {t : Trace} (ht : Hanging (acts t)) :
    (kill fuel).wp recording Struggles t := by
  refine wp_recording_bind (fun u runs hu => ?_) (fun u e hu => ?_)
  · obtain ⟨o, hacts, ho⟩ := executes_serviceHasMainPID hu
    obtain rfl := Except.ok.inj ho
    split_ifs with hrunning
    · rw [of_decide_eq_true hrunning] at hacts
      exact wp_recording.mpr fun v r hv => .inr ((ht.query hacts).blind blind_killProcess hv)
    · exact (wp_pure _ _ _).mpr (.inl rfl)
  · obtain ⟨o, -, ho⟩ := executes_serviceHasMainPID hu
    exact absurd ho (by simp)

theorem struggles_shutDown {t : Trace} (ht : Hanging (acts t)) :
    (shutDown fuel).wp recording Struggles t := by
  -- the flush of the world, and the two seconds after it
  refine wp_recording_bind (fun flushed _ hu => ?_) (fun u e hu => .inr (ht.send rfl hu))
  replace ht := ht.send rfl hu
  refine wp_attempt (fun waited _ hu => ?_)
    (fun u e hu => struggles_error (ht.send rfl hu) _) (fun u e hu => .inr (ht.send rfl hu))
  replace ht := ht.send rfl hu
  refine wp_recording_bind (fun stopped stopErr hu => ?_)
    (fun u e hu => .inr (ht.blind blind_stopGracefully hu))
  replace ht := ht.blind blind_stopGracefully hu
  refine wp_recording_bind (fun u hung hu => ?_) (fun u e hu => ?_)
  · -- the kill is tried where the query has seen a process, or there was none
    have hhung : hung = true → Hanging (acts (t ++ flushed ++ waited ++ stopped ++ u)) := by
      intro hhung
      cases stopErr with
      | error err =>
        obtain ⟨rfl, -⟩ := executes_pure.mp hu
        rw [List.append_nil]
        exact ht
      | ok _ =>
        obtain ⟨o, hacts, ho⟩ := executes_serviceHasMainPID hu
        rw [of_decide_eq_true ((Except.ok.inj ho).symm.trans hhung)] at hacts
        exact ht.query hacts
    split_ifs with hrunning
    · refine wp_attempt (fun v _ hv => (wp_pure _ _ _).mpr (.inl rfl)) (fun v e hv => ?_)
        (fun v e hv => ?_)
      · rcases wp_recording.mp (struggles_kill (hhung hrunning)) v _ hv with h | h
        · exact absurd h (by simp)
        · exact struggles_error h _
      · rcases wp_recording.mp (struggles_kill (hhung hrunning)) v _ hv with h | h
        · exact absurd h (by simp)
        · exact .inr h
    · exact (wp_pure _ _ _).mpr (.inl rfl)
  · cases stopErr with
    | error err => exact absurd (executes_pure.mp hu).2 (by simp)
    | ok _ =>
      obtain ⟨o, -, ho⟩ := executes_serviceHasMainPID hu
      exact absurd ho (by simp)

/-- The shutdown, from a state without queries: if it does not succeed, the last query has seen a
process. -/
theorem struggles_stopServer {t : Trace} (ht : seen (acts t) = []) :
    (stopServer fuel).wp recording
      (fun r t => r = .ok (.ok ()) ∨ (seen (acts t)).getLast? = some .running) t := by
  refine wp_recording_bind (fun u runs hu => ?_) (fun u e hu => ?_)
  · obtain ⟨o, hacts, ho⟩ := executes_serviceHasMainPID hu
    obtain rfl := Except.ok.inj ho
    split_ifs with hrunning
    · rw [of_decide_eq_true hrunning] at hacts
      have hone : seen (acts (t ++ u)) = [.running] := by
        rw [acts_append, seen_append, ht, hacts]
        rfl
      have hhanging : Hanging (acts (t ++ u)) := by
        intro o' ho'
        rw [hone] at ho'
        exact (Option.some.inj ho').symm
      refine wp_recording.mpr fun v r hv => ?_
      refine (wp_recording.mp (struggles_shutDown hhanging) v r hv).imp_right fun h => ?_
      -- there has been a query, so there is a last one
      have hne : seen (acts (t ++ u ++ v)) ≠ [] := by
        rw [acts_append, seen_append, hone]
        simp
      rw [List.getLast?_eq_some_getLast hne]
      exact congrArg some (h _ (List.getLast?_eq_some_getLast hne))
    · exact (wp_pure _ _ _).mpr (.inl rfl)
  · obtain ⟨o, -, ho⟩ := executes_serviceHasMainPID hu
    exact absurd ho (by simp)

end ShutDown

/-! ## The deletion and the restart -/

section Replace

variable {fuel : ℕ} {configPath target : String} {existing : Bool}

/-- The command neither deletes the save nor starts the server. -/
def Command.calm : Command → Bool
  | .wipe _ _ => false
  | .systemctl .start .sevenDtd => false
  | _ => true

theorem act_of_calm {c : Command} (h : c.calm = true) (a : c.Answer) :
    c.act a ≠ .delete ∧ c.act a ≠ .start := by
  cases c with
  | wipe configPath target => exact absurd h (by simp [Command.calm])
  | systemctl action service =>
    cases action <;> cases service <;>
      first | exact absurd h (by decide) | exact ⟨Act.noConfusion, Act.noConfusion⟩
  | _ => exact ⟨Act.noConfusion, Act.noConfusion⟩

/-- The command neither stops the server nor asks for its process. -/
def Command.late : Command → Bool
  | .mainPid => false
  | .kill => false
  | .systemctl .stop .sevenDtd => false
  | _ => true

theorem act_of_late {c : Command} (h : c.late = true) (a : c.Answer) :
    (∀ o, c.act a ≠ .query o) ∧ ∀ b, c.act a ≠ .stop b := by
  cases c with
  | mainPid => exact absurd h (by decide)
  | kill => exact absurd h (by decide)
  | systemctl action service =>
    cases action <;> cases service <;>
      first | exact absurd h (by decide) | exact ⟨fun _ => Act.noConfusion, fun _ => Act.noConfusion⟩
  | _ => exact ⟨fun _ => Act.noConfusion, fun _ => Act.noConfusion⟩

/-- No act deletes the save or starts the server. -/
def Calm (l : List Act) : Prop := ∀ a ∈ l, a ≠ .delete ∧ a ≠ .start

/-- No act stops the server or asks for its process. -/
def Late (l : List Act) : Prop := ∀ a ∈ l, (∀ o, a ≠ .query o) ∧ ∀ b, a ≠ .stop b

theorem calm_send {c : Command} (h : c.calm = true) :
    Keeps (fun c => c.calm = true) fuel (send c) := .send h

theorem calm_waitFor7DTDState (active : Bool) (timeout : ℤ) :
    Keeps (fun c => c.calm = true) fuel (waitFor7DTDState fuel active timeout) :=
  @keeps_waitFor7DTDState (fun c => c.calm = true) rfl rfl rfl fuel active timeout

theorem calm_stop (service : Service) :
    Keeps (fun c => c.calm = true) fuel (systemctlService .stop service) :=
  .orReturn (calm_send rfl) fun _ => .pure _

theorem calm_serviceHasMainPID : Keeps (fun c => c.calm = true) fuel serviceHasMainPID := by
  refine .bind (calm_send rfl) fun reply => ?_
  cases reply with
  | error e => exact .pure _
  | ok output =>
    simp only
    split
    · exact .pure _
    · exact .pure _

theorem calm_stopServer : Keeps (fun c => c.calm = true) fuel (stopServer fuel) := by
  have hkill : Keeps (fun c => c.calm = true) fuel (kill fuel) := by
    refine .bind calm_serviceHasMainPID fun runs => ?_
    split_ifs
    · exact .orReturn (calm_send rfl) fun _ => .orReturn (calm_stop _) fun _ =>
        .orReturn (calm_send rfl) fun _ => .orReturn (calm_waitFor7DTDState _ _) fun _ => .pure _
    · exact .pure _
  refine .bind calm_serviceHasMainPID fun runs => ?_
  split_ifs
  · refine .bind (calm_send rfl) fun _ => .orReturn (calm_send rfl) fun _ =>
      .bind (.orReturn (calm_stop _) fun _ => calm_waitFor7DTDState _ _) fun stopErr => .bind ?_ fun hung => ?_
    · cases stopErr with
      | error err => exact .pure _
      | ok _ => exact calm_serviceHasMainPID
    · split_ifs
      · exact .orReturn hkill fun _ => .pure _
      · exact .pure _
  · exact .pure _

theorem keeps_awaitFreshSave {P : Command → Prop} (hstat : ∀ path, P (.stat path)) (hnow : P .now)
    (hwait : P (.wait 2000)) (deadline : ℤ) (fuel : ℕ) :
    Keeps P fuel (awaitFreshSave target deadline fuel) := by
  induction fuel with
  | zero => exact .exhausted
  | succ fuel ih =>
    refine .round (hstat _) fun fresh => ?_
    split_ifs
    · exact .pure _
    · refine .bind (.send hnow) fun time => ?_
      split_ifs
      · exact .pure _
      · exact .orReturn (.send hwait) fun _ => ih

/-- The commands after the last query. -/
theorem keeps_finishWipe {P : Command → Prop} (hwipe : existing = true → P (.wipe configPath target))
    (hlstat : P (.lstat target)) (hstart : P (.systemctl .start .sevenDtd))
    (hactive : P (.serviceActive .sevenDtd)) (hnow : P .now) (hwait : ∀ ms, P (.wait ms))
    (hstat : ∀ path, P (.stat path)) : Keeps P fuel (finishWipe fuel configPath target existing) := by
  have hreplace : Keeps P fuel (replaceSave fuel configPath target existing) := by
    refine .orReturn ?_ fun _ => .bind (.send hlstat) fun left => ?_
    · split_ifs with hexisting
      · exact .send (hwipe hexisting)
      · exact .pure _
    · split_ifs
      · exact .orReturn (keeps_systemctlService hstart) fun _ =>
          .orReturn (keeps_waitFor7DTDState hactive hnow (hwait _) _ _ _) fun _ =>
          .bind (.send hnow) fun _ => keeps_awaitFreshSave hstat hnow (hwait _) _ _
      · exact .pure _
  exact .attempt hreplace (fun _ => .bind (keeps_systemctlService hstart) fun _ => .pure _)
    fun _ => .pure _

theorem late_finishWipe {u : Trace} {r : Except Unfinished (Fallible String)}
    (h : Executes (finishWipe fuel configPath target existing) u r) : Late (acts u) := by
  have hkeeps : Keeps (fun c => c.late = true) fuel (finishWipe fuel configPath target existing) :=
    keeps_finishWipe (fun _ => rfl) rfl rfl rfl rfl (fun _ => rfl) fun _ => rfl
  exact mem_acts_of_uses (h.uses hkeeps.uses) fun _ hc a => act_of_late hc a

/-- The save is deleted if and only if it was there. -/
theorem delete_mem_finishWipe {u : Trace} {r : Except Unfinished (Fallible String)}
    (h : Executes (finishWipe fuel configPath target existing) u r) :
    .delete ∈ acts u ↔ existing = true := by
  cases existing with
  | false =>
    have hkeeps : Keeps (fun c => ∀ a, c.act a ≠ .delete) fuel
        (finishWipe fuel configPath target false) :=
      keeps_finishWipe (fun h => absurd h (by decide)) (fun _ => Act.noConfusion)
        (fun _ => Act.noConfusion) (fun _ => Act.noConfusion) (fun _ => Act.noConfusion)
        (fun _ _ => Act.noConfusion) fun _ _ => Act.noConfusion
    have hne := mem_acts_of_uses (R := fun a => a ≠ .delete) (h.uses hkeeps.uses) fun _ hc a => hc a
    exact ⟨fun hmem => absurd rfl (hne _ hmem), fun h => absurd h (by decide)⟩
  | true =>
    refine ⟨fun _ => rfl, fun _ => ?_⟩
    -- the deletion is the first command of `replaceSave`
    have hfirst {u : Trace} {r : Except Unfinished (Fallible String)}
        (h : Executes (replaceSave fuel configPath target true) u r) : .delete ∈ acts u := by
      obtain ⟨a, u', rfl, -⟩ := executes_request_bind.mp h
      exact List.mem_cons_self ..
    rcases executes_bind.mp h with ⟨e, he, -⟩ | ⟨a, u₁, u₂, rfl, ha, -⟩
    · exact hfirst he
    · rw [acts_append]
      exact List.mem_append_left _ (hfirst ha)

/-- The service manager is asked to start the server. -/
theorem start_mem_systemctlService {u : Trace} {r : Except Unfinished (Fallible Unit)}
    (h : Executes (systemctlService .start .sevenDtd) u r) : .start ∈ acts u := by
  obtain ⟨a, u', rfl, -⟩ := executes_request_bind.mp h
  exact List.mem_cons_self ..

/-- The server has been started whenever `WipeSave` returns, by itself or by the deferred restart. -/
theorem start_mem_finishWipe {u : Trace} {result : Fallible String}
    (h : Executes (finishWipe fuel configPath target existing) u (.ok result)) : .start ∈ acts u := by
  rcases executes_bind.mp h with ⟨e, -, he⟩ | ⟨a, u₁, u₂, rfl, ha, hrest⟩
  · exact absurd he (by simp)
  rw [acts_append]
  cases a with
  | error err =>
    refine List.mem_append_right _ ?_
    rcases executes_bind.mp hrest with ⟨e, -, he⟩ | ⟨a, v₁, v₂, rfl, hstart, -⟩
    · exact absurd he (by simp)
    · rw [acts_append]
      exact List.mem_append_left _ (start_mem_systemctlService hstart)
  | ok fresh =>
    refine List.mem_append_left _ ?_
    suffices hwp : (replaceSave fuel configPath target existing).wp recording
        (Returning fun t => .start ∈ acts t) [] from wp_recording.mp hwp u₁ _ ha fresh rfl
    refine returning_orReturn fun u _ _ => ?_
    refine wp_recording_bind (fun v left _ => ?_) (fun v e _ => fun a ha => absurd ha (by simp))
    split_ifs
    · refine returning_orReturn fun w _ hw => wp_recording.mpr fun x r _ b _ => ?_
      show Act.start ∈ acts ([] ++ u ++ v ++ w ++ x)
      rw [acts_append, acts_append]
      exact List.mem_append_left _ (List.mem_append_right _ (start_mem_systemctlService hw))
    · exact (wp_pure _ _ _).mpr fun a ha => absurd ha (by simp)

end Replace

/-! ## The whole run -/

section Run

variable {α : Type} {r : Except Unfinished α} {l l₁ l₂ : List Act} {existing : Bool}

/-- The acts before the first query: a look at the save, and nothing else that counts. -/
def Begun (existing : Bool) (l : List Act) : Prop :=
  ∃ l₁ lookup l₂, l = l₁ ++ .look lookup :: l₂ ∧ (∀ a ∈ l₁, a = .other) ∧ (∀ a ∈ l₂, a = .other) ∧
    (existing = true ↔ lookup = .found)

theorem Begun.mem (h : Begun existing l) : ∀ a ∈ l, a = .other ∨ ∃ lookup, a = .look lookup := by
  obtain ⟨l₁, lookup, l₂, rfl, h₁, h₂, -⟩ := h
  intro a ha
  rcases List.mem_append.mp ha with ha | ha
  · exact .inl (h₁ a ha)
  · rcases List.mem_cons.mp ha with rfl | ha
    · exact .inr ⟨_, rfl⟩
    · exact .inl (h₂ a ha)

theorem Begun.append (h : Begun existing l) (hl : ∀ a ∈ l₂, a = .other) : Begun existing (l ++ l₂) := by
  obtain ⟨k₁, lookup, k₂, rfl, h₁, h₂, h⟩ := h
  refine ⟨k₁, lookup, k₂ ++ l₂, by simp, h₁, fun a ha => ?_, h⟩
  rcases List.mem_append.mp ha with ha | ha
  · exact h₂ a ha
  · exact hl a ha

theorem Begun.existed_iff (h : Begun existing l) : existed (l ++ l₂) ↔ existing = true := by
  obtain ⟨k₁, lookup, k₂, rfl, h₁, -, h⟩ := h
  have hk₁ : (k₁.filterMap fun
      | Act.look lookup => some lookup
      | _ => none) = [] :=
    List.filterMap_eq_nil_iff.mpr fun a ha => by rw [h₁ a ha]
  rw [existed, List.append_assoc, List.filterMap_append, hk₁, h]
  simp

theorem Begun.seen_eq_nil (h : Begun existing l) : seen l = [] := by
  refine Agent.seen_eq_nil fun a ha o => ?_
  rcases h.mem a ha with rfl | ⟨lookup, rfl⟩ <;> exact Act.noConfusion

theorem Begun.calm (h : Begun existing l) : Calm l := by
  intro a ha
  rcases h.mem a ha with rfl | ⟨lookup, rfl⟩ <;> exact ⟨Act.noConfusion, Act.noConfusion⟩

theorem Calm.append (h₁ : Calm l₁) (h₂ : Calm l₂) : Calm (l₁ ++ l₂) := by
  intro a ha
  rcases List.mem_append.mp ha with ha | ha
  · exact h₁ a ha
  · exact h₂ a ha

/-- A run that has not come to the deletion: nothing has been deleted or started, and either the
server has not been touched, or the last query has seen its process. -/
def Early (l : List Act) : Prop :=
  Calm l ∧ (seen l = [] ∧ (∀ b, .stop b ∉ l) ∨ (seen l).getLast? = some .running)

/-- A run that has: its last query has seen no process, the save is deleted if it was there, and when
the run has returned, the server has been started. -/
def Decided (r : Except Unfinished α) (l : List Act) : Prop :=
  ∃ l₁ l₂, l = l₁ ++ l₂ ∧ Calm l₁ ∧ (∃ o ∈ (seen l₁).getLast?, o ≠ .running) ∧ Late l₂ ∧
    (.delete ∈ l₂ ↔ existed l) ∧ ((∃ a, r = .ok a) → .start ∈ l₂)

/-- Every run is one or the other. -/
def Shape (r : Except Unfinished α) (l : List Act) : Prop := Early l ∨ Decided r l

theorem Early.safe_iff_watched (h : Early l) : WipeSafe r l ↔ Watched r l := by
  obtain ⟨hcalm, hlast⟩ := h
  constructor
  · intro hsafe
    refine ⟨fun _ hunknown => ?_, fun hr hstop _ => ?_⟩
    · rcases hlast with ⟨hnil, -⟩ | hrunning
      · rw [hnil] at hunknown
        exact absurd hunknown (by simp)
      · rw [hrunning] at hunknown
        exact absurd hunknown (by decide)
    · obtain ⟨m₁, m₂, rfl, -⟩ := hsafe.restart hr hstop
      exact (hcalm .start (List.mem_append_right _ (List.mem_cons_self ..))).2 rfl
  · intro hwatched
    refine ⟨fun m₁ m₂ hl => ?_, fun hr hstop => ?_⟩
    · subst hl
      exact absurd rfl (hcalm .delete (List.mem_append_right _ (List.mem_cons_self ..))).1
    · rcases hlast with ⟨-, hno⟩ | hrunning
      · exact absurd hstop (hno true)
      · exact absurd hrunning (hwatched.ended hr hstop)

theorem Decided.safe_iff_watched (h : Decided r l) : WipeSafe r l ↔ Watched r l := by
  obtain ⟨l₁, l₂, rfl, hcalm, ⟨o, ho, hne⟩, hlate, hdelete, hstart⟩ := h
  have hseen {m : List Act} (hm : ∀ a ∈ m, a ∈ l₂) : seen (l₁ ++ m) = seen l₁ := by
    rw [seen_append, seen_eq_nil fun a ha => (hlate a (hm a ha)).1, List.append_nil]
  constructor
  · intro hsafe
    refine ⟨fun hex _ => ?_, fun _ _ hrunning => ?_⟩
    · obtain ⟨m₁, m₂, rfl⟩ := List.append_of_mem (hdelete.mpr hex)
      have hgone := hsafe.delete (l₁ ++ m₁) m₂ (List.append_assoc ..).symm
      rw [hseen fun a ha => List.mem_append_left _ ha] at hgone
      rw [hseen fun a ha => ha]
      exact hgone
    · rw [hseen fun a ha => ha, Option.mem_def.mp ho] at hrunning
      exact hne (Option.some.inj hrunning)
  · intro hwatched
    refine ⟨fun m₁ m₂ hl => ?_, fun hr _ => ?_⟩
    · -- the deletion is after the last query
      have hcut : ∃ c, m₁ = l₁ ++ c ∧ l₂ = c ++ .delete :: m₂ := by
        rcases List.append_eq_append_iff.mp hl with ⟨c, rfl, hc⟩ | ⟨c, rfl, hc⟩
        · exact ⟨c, rfl, hc⟩
        · cases c with
          | nil => exact ⟨[], by simp, by simpa using hc.symm⟩
          | cons a c =>
            obtain ⟨rfl, -⟩ := List.cons.inj hc
            exact absurd rfl (hcalm _ (List.mem_append_right _ (List.mem_cons_self ..))).1
      obtain ⟨c, rfl, rfl⟩ := hcut
      have hex := hdelete.mp (List.mem_append_right _ (List.mem_cons_self ..))
      rw [hseen fun a ha => List.mem_append_left _ ha]
      cases o with
      | running => exact absurd rfl hne
      | gone => exact List.mem_of_getLast? ho
      | unknown =>
        have hgone := hwatched.answered hex (by rw [hseen fun a ha => ha]; exact ho)
        rwa [hseen fun a ha => ha] at hgone
    · obtain ⟨m₁, m₂, rfl⟩ := List.append_of_mem (hstart hr)
      refine ⟨l₁ ++ m₁, m₂, (List.append_assoc ..).symm, fun b hb => ?_⟩
      exact (hlate _ (List.mem_append_right _ (List.mem_cons_of_mem _ hb))).2 b rfl

theorem Shape.safe_iff_watched (h : Shape r l) : WipeSafe r l ↔ Watched r l := by
  rcases h with h | h
  · exact h.safe_iff_watched
  · exact h.safe_iff_watched

/-- Commands that do not count may follow. -/
theorem Shape.append {β : Type} {r' : Except Unfinished β} (h : Shape r l)
    (hr : (∃ a, r' = .ok a) → ∃ a, r = .ok a) (hl : ∀ a ∈ l₂, a = .other) : Shape r' (l ++ l₂) := by
  have hnil : seen l₂ = [] := Agent.seen_eq_nil fun a ha o => by rw [hl a ha]; exact Act.noConfusion
  have hquery : seen (l ++ l₂) = seen l := by rw [seen_append, hnil, List.append_nil]
  have hexisted : existed (l ++ l₂) ↔ existed l := by
    have hlook : (l₂.filterMap fun
        | Act.look lookup => some lookup
        | _ => none) = [] :=
      List.filterMap_eq_nil_iff.mpr fun a ha => by rw [hl a ha]
    rw [existed, existed, List.filterMap_append, hlook, List.append_nil]
  have hcalm₂ : Calm l₂ := fun a ha => by rw [hl a ha]; exact ⟨Act.noConfusion, Act.noConfusion⟩
  rcases h with ⟨hcalm, hlast⟩ | ⟨m₁, m₂, rfl, hcalm, hlast, hlate, hdelete, hstart⟩
  · refine .inl ⟨hcalm.append hcalm₂, ?_⟩
    rw [hquery]
    refine hlast.imp_left fun ⟨hnil, hno⟩ => ⟨hnil, fun b hb => ?_⟩
    rcases List.mem_append.mp hb with hb | hb
    · exact hno b hb
    · exact absurd (hl _ hb) (by simp)
  · refine .inr ⟨m₁, m₂ ++ l₂, List.append_assoc .., hcalm, hlast, fun a ha => ?_, ?_, fun h => ?_⟩
    · rcases List.mem_append.mp ha with ha | ha
      · exact hlate a ha
      · rw [hl a ha]
        exact ⟨fun _ => Act.noConfusion, fun _ => Act.noConfusion⟩
    · rw [hexisted, ← hdelete, List.mem_append]
      exact ⟨fun h => h.resolve_right fun h => absurd (hl _ h) (by simp), .inl⟩
    · exact List.mem_append_left _ (hstart (hr h))

/-- A run that has returned or stopped before the first query. -/
theorem shape_of_begun (h : Begun existing l) : Shape r l := by
  refine .inl ⟨h.calm, .inl ⟨h.seen_eq_nil, fun b hb => ?_⟩⟩
  rcases h.mem _ hb with h | ⟨lookup, h⟩ <;> exact absurd h (by simp)

theorem calm_of_uses {u : Trace} (h : ∀ x ∈ u, x.stmt.calm = true) : Calm (acts u) :=
  mem_acts_of_uses h fun _ hc a => act_of_calm hc a

theorem shape_wipeServer {fuel : ℕ} {configPath target : String} {t : Trace}
    (ht : Begun existing (acts t)) :
    (wipeServer fuel configPath target existing).wp recording (fun r t => Shape r (acts t)) t := by
  have hstop {u : Trace} {r : Except Unfinished (Fallible Unit)} (hu : Executes (stopServer fuel) u r) :
      Calm (acts (t ++ u)) ∧
        (r = .ok (.ok ()) ∨ (seen (acts (t ++ u))).getLast? = some .running) := by
    have hquiet : Keeps (fun c => c.calm = true) fuel (stopServer fuel) := calm_stopServer
    refine ⟨?_, wp_recording.mp (struggles_stopServer ht.seen_eq_nil) u r hu⟩
    rw [acts_append]
    exact ht.calm.append (calm_of_uses (hu.uses hquiet.uses))
  refine wp_attempt (fun u _ hu => ?_) (fun u e hu => ?_) (fun u e hu => ?_)
  · have hcalm := (hstop hu).1
    refine wp_recording_bind (fun v runs hv => ?_) (fun v e hv => ?_)
    · obtain ⟨o, hacts, ho⟩ := executes_serviceHasMainPID hv
      obtain rfl := Except.ok.inj ho
      have hlast : (seen (acts (t ++ u ++ v))).getLast? = some o := by
        rw [acts_append, seen_append, hacts]
        simp [seen]
      have hcalm' : Calm (acts (t ++ u ++ v)) := by
        rw [acts_append, hacts]
        refine hcalm.append fun a ha => ?_
        rw [List.mem_singleton.mp ha]
        exact ⟨Act.noConfusion, Act.noConfusion⟩
      split_ifs with hrunning
      · rw [of_decide_eq_true hrunning] at hlast
        exact (wp_pure _ _ _).mpr (.inl ⟨hcalm', .inr hlast⟩)
      · refine wp_recording.mpr fun w r hw => .inr ⟨acts (t ++ u ++ v), acts w, acts_append _ _, hcalm',
          ⟨o, hlast, fun h => hrunning (decide_eq_true h)⟩, late_finishWipe hw, ?_, ?_⟩
        · rw [delete_mem_finishWipe hw, List.append_assoc, List.append_assoc, acts_append,
            ht.existed_iff]
        · rintro ⟨a, rfl⟩
          exact start_mem_finishWipe hw
    · obtain ⟨o, -, ho⟩ := executes_serviceHasMainPID hv
      exact absurd ho (by simp)
  · obtain ⟨hcalm, hlast⟩ := hstop hu
    exact (wp_pure _ _ _).mpr (.inl ⟨hcalm, .inr (hlast.resolve_left (by simp))⟩)
  · obtain ⟨hcalm, hlast⟩ := hstop hu
    exact .inl ⟨hcalm, .inr (hlast.resolve_left (by simp))⟩

/-- A command that does not count. -/
theorem acts_send {c : Command} {u : Trace} {r : Except Unfinished c.Answer}
    (hc : ∀ a, c.act a = .other) (h : Executes (send c) u r) : ∀ a ∈ acts u, a = .other := by
  obtain ⟨a, rfl, -⟩ := executes_request.mp h
  exact fun b hb => (List.mem_singleton.mp hb).trans (hc a)

theorem acts_regionHealer {action : Action} {u : Trace} {r : Except Unfinished (Fallible Unit)}
    (h : Executes (systemctlService action .regionHealer) u r) : ∀ a ∈ acts u, a = .other := by
  have hkeeps : Keeps (fun c => ∀ a, c.act a = .other) 0
      (systemctlService action .regionHealer) :=
    keeps_systemctlService fun a => by cases action <;> rfl
  exact mem_acts_of_uses (h.uses hkeeps.uses) fun _ hc a => hc a

theorem shape_wipePaused {fuel : ℕ} {configPath target : String} {t : Trace}
    (ht : Begun existing (acts t)) :
    (wipePaused fuel configPath target existing).wp recording (fun r t => Shape r (acts t)) t := by
  refine wp_recording_bind (fun u active hu => ?_) (fun u e hu => ?_)
  swap
  · exact absurd (executes_request.mp hu) (by simp)
  have ht' : Begun existing (acts (t ++ u)) := by
    rw [acts_append]
    exact ht.append (acts_send (fun _ => rfl) hu)
  split_ifs
  · have hpaused {v : Trace} {r : Except Unfinished (Fallible Unit)}
        (hv : Executes (systemctlService .stop .regionHealer) v r) :
        Begun existing (acts (t ++ u ++ v)) := by
      rw [acts_append]
      exact ht'.append (acts_regionHealer hv)
    refine wp_attempt (fun v _ hv => ?_)
      (fun v e hv => (wp_pure _ _ _).mpr (shape_of_begun (hpaused hv)))
      (fun v e hv => shape_of_begun (hpaused hv))
    refine wp_recording_bind (fun w result hw => ?_)
      (fun w e hw => wp_recording.mp (shape_wipeServer (hpaused hv)) w _ hw)
    have hshape := wp_recording.mp (shape_wipeServer (hpaused hv)) w _ hw
    -- Region Healer is started again, whatever the result is
    refine wp_recording_bind (fun x _ hx => (wp_pure _ _ _).mpr ?_) (fun x e hx => ?_)
    · rw [acts_append]
      exact hshape.append (fun _ => ⟨_, rfl⟩) (acts_regionHealer hx)
    · rw [acts_append]
      exact hshape.append (fun _ => ⟨_, rfl⟩) (acts_regionHealer hx)
  · exact shape_wipeServer ht'

/-- Every run of `WipeSave` has one of the shapes. -/
theorem shape_of_wipeSave {fuel : ℕ} {cfg : InstanceConfig} {configOverride : String} {t : Trace}
    {r : Except Unfinished (Fallible String)} (h : Executes (wipeSave fuel cfg configOverride) t r) :
    Shape r (acts t) := by
  suffices hwp : (wipeSave fuel cfg configOverride).wp recording (fun r t => Shape r (acts t)) [] from
    wp_recording.mp hwp t r h
  have hearly {l : List Act} (hl : ∀ a ∈ l, a = .other) {r : Except Unfinished (Fallible String)} :
      Shape r l := by
    refine .inl ⟨fun a ha => by rw [hl a ha]; exact ⟨Act.noConfusion, Act.noConfusion⟩, .inl ⟨?_, ?_⟩⟩
    · exact seen_eq_nil fun a ha o => by rw [hl a ha]; exact Act.noConfusion
    · exact fun b hb => absurd (hl _ hb) (by simp)
  have hresolve {u : Trace} {r : Except Unfinished (Fallible String)}
      (hu : Executes (resolveLiveSave cfg configOverride) u r) : ∀ a ∈ acts u, a = .other := by
    have hkeeps : Keeps (fun c => ∀ a, c.act a = .other) 0 (resolveLiveSave cfg configOverride) :=
      .orReturn (.send fun _ => rfl) fun _ => .pure _
    exact mem_acts_of_uses (hu.uses hkeeps.uses) fun _ hc a => hc a
  refine wp_attempt (fun u target hu => ?_) (fun u e hu => (wp_pure _ _ _).mpr (hearly (hresolve hu)))
    (fun u e hu => hearly (hresolve hu))
  refine wp_recording_bind (fun v lookup hv => ?_) (fun v e hv => ?_)
  swap
  · exact absurd (executes_request.mp hv) (by simp)
  obtain ⟨_, rfl, hl⟩ := executes_request.mp hv
  obtain rfl := Except.ok.inj hl
  have hbegun {existing : Bool} (h : existing = true ↔ lookup = Lookup.found) :
      Begun existing (acts ([] ++ u ++ [(Command.lstat target).answered lookup])) :=
    ⟨acts u, lookup, [], acts_append _ _, hresolve hu, fun a ha => (nomatch ha), h⟩
  cases lookup with
  | found => exact shape_wipePaused (hbegun (by simp))
  | missing => exact shape_wipePaused (hbegun (by simp))
  | failed err =>
    have hfailed : Begun false _ := hbegun (by simp)
    exact (wp_pure _ _ _).mpr (shape_of_begun hfailed)

/-- A run of `WipeSave` is safe if and only if its last query was answered where it decided on the
deletion, and found no process where the server had been stopped. -/
theorem wipeSafe_iff {fuel : ℕ} {cfg : InstanceConfig} {configOverride : String} {t : Trace}
    {r : Except Unfinished (Fallible String)} (h : Executes (wipeSave fuel cfg configOverride) t r) :
    WipeSafe r (acts t) ↔ Watched r (acts t) :=
  (shape_of_wipeSave h).safe_iff_watched

/-- The answers to the `n`-th command of a run where the save is there and the queries for the main
process and the kill are answered as given. The server runs after a command. -/
def wiping (pid : ℕ → Fallible String) (killed : Fallible Unit) (up n : ℕ) : (c : Command) → c.Answer
  | .mainPid => pid n
  | .kill => killed
  | .lstat _ => if n ≤ 1 then .found else .missing
  | c => smooth "8" 0 up n c

/-- A run in which the server stops when it is asked to. -/
theorem wipeSafe_iff_graceful :
    let run := (wipeSave 3 hosted "").follow
      (wiping (fun n => .ok (if n ≤ 3 then "123" else "0")) (.ok ()) 14) 0
    acts run.1 = [.other, .look .found, .other, .query .running, .other, .other, .stop true, .other,
      .other, .query .gone, .query .gone, .delete, .look .missing, .start, .other, .other, .other,
      .other] ∧ (WipeSafe run.2 (acts run.1) ↔ Watched run.2 (acts run.1)) :=
  ⟨by decide +kernel, wipeSafe_iff (executes_follow _ _ _)⟩

theorem exists_ok_of_isOk {ε β : Type} {r : Except ε β} (h : r.isOk = true) : ∃ b, r = .ok b := by
  cases r with
  | error e => exact absurd h (by simp [Except.isOk, Except.toBool])
  | ok b => exact ⟨b, rfl⟩

/-- A run in which no query is answered. -/
def unseenRun : Trace × Except Unfinished (Fallible String) :=
  (wipeSave 3 hosted "").follow (wiping (fun _ => .error "signal: killed") (.ok ()) 8) 0

/-- A run in which the process is there after a stop, and the kill fails. -/
def stuckRun : Trace × Except Unfinished (Fallible String) :=
  (wipeSave 3 hosted "").follow (wiping (fun _ => .ok "123") (.error "exit status 1") 100) 0

theorem acts_unseenRun : acts unseenRun.1 = [.other, .look .found, .other, .query .unknown,
    .query .unknown, .delete, .look .missing, .start, .other, .other, .other, .other] := by
  decide +kernel

theorem acts_stuckRun : acts stuckRun.1 = [.other, .look .found, .other, .query .running, .other,
    .other, .stop true, .other, .other, .query .running, .query .running, .stop false] := by
  decide +kernel

/-- The save is deleted although no query has seen the process gone; and `WipeSave` returns without
a start although it has stopped the server. -/
theorem wipes_unwatched :
    (Executes (wipeSave 3 hosted "") unseenRun.1 unseenRun.2 ∧
      ¬ WipeSafe unseenRun.2 (acts unseenRun.1)) ∧
    Executes (wipeSave 3 hosted "") stuckRun.1 stuckRun.2 ∧
      ¬ WipeSafe stuckRun.2 (acts stuckRun.1) := by
  refine ⟨⟨executes_follow _ _ _, fun h => ?_⟩, executes_follow _ _ _, fun h => ?_⟩
  · have hgone := h.delete [.other, .look .found, .other, .query .unknown, .query .unknown] _
      acts_unseenRun
    exact absurd hgone (by decide)
  · obtain ⟨l₁, l₂, hl, -⟩ := h.restart (exists_ok_of_isOk (by decide +kernel))
      (by rw [acts_stuckRun]; decide)
    have hstart : Act.start ∈ acts stuckRun.1 := by
      rw [hl]
      exact List.mem_append_right _ (List.mem_cons_self ..)
    rw [acts_stuckRun] at hstart
    exact absurd hstart (by decide)

end Run

end Mastermind.Agent
