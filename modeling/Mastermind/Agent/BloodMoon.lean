import Mastermind.Agent.Restarting

/-!
# Blood Moon protection

The protection reads the day from the answer to `gettime`. `Days` is the game day over a run, when
each command is issued and when it is answered: an answer to `gettime` tells the day (`Truthful`),
and the day stays the same from such an answer to a `Stop` when there is nothing but progress
reports between them (`Still`).

`Restart` stops the server right after a reading, and so never on a Blood Moon. `SafeRestart` reads
the day before the countdown and not again, and the day may change until it stops the server
(`stopped_on_blood_moon`).
-/

namespace Mastermind.Agent

open Effect Effect.Program

/-- A Blood Moon: a positive day that seven divides. -/
def BloodMoon (day : ℤ) : Prop := 0 < day ∧ 7 ∣ day

instance (day : ℤ) : Decidable (BloodMoon day) := inferInstanceAs (Decidable (_ ∧ _))

/-- The guard of the protection is about Blood Moons. -/
theorem isBloodMoon_iff (day : ℤ) : isBloodMoon day = true ↔ BloodMoon day := by
  simp only [isBloodMoon, BloodMoon, Bool.not_eq_true', Bool.or_eq_false_iff, decide_eq_false_iff_not,
    not_le, not_not, Int.dvd_iff_emod_eq_zero]

/-! ## What the days of a run are about -/

/-- A command with its answer, as far as the days are concerned: a day that the console tells, a
stop, a progress report, or anything else. -/
inductive Kind where
  | reply (day : ℤ)
  | stop | report | other
deriving DecidableEq

/-- The kind of a command with an answer. -/
def Command.kind : (c : Command) → c.Answer → Kind
  | .sendCommand command, answer =>
    match (answer : Fallible String) with
    | .ok output =>
      match restartDay output with
      | .ok day => if command = "gettime" then .reply day else .other
      | .error _ => .other
    | .error _ => .other
  | .stop _, _ => .stop
  | .reportProgress _ _, _ => .report
  | _, _ => .other

/-- The kinds of a run. -/
def kinds (t : Trace) : List Kind := t.map fun x => x.stmt.kind x.answer

/-- The game day when the `n`-th command of a run is issued, and when it is answered. -/
structure Days where
  issued : ℕ → ℤ
  answered : ℕ → ℤ

/-- The console tells the day of its answer. -/
def Days.Truthful (days : Days) (t : Trace) : Prop :=
  ∀ n day, (kinds t)[n]? = some (.reply day) → days.answered n = day

/-- The day stays the same from an answer to `gettime` to a stop that only progress reports
separate from it. -/
def Days.Still (days : Days) (t : Trace) : Prop :=
  ∀ n m day, n < m → (kinds t)[n]? = some (.reply day) → (kinds t)[m]? = some .stop →
    (∀ i, n < i → i < m → (kinds t)[i]? = some .report) → days.issued m = days.answered n

theorem kinds_append (t u : Trace) : kinds (t ++ u) = kinds t ++ kinds u := List.map_append

/-- Only a stop is of its kind. -/
theorem kind_ne_stop {c : Command} (h : c.quiet = true) (a : c.Answer) : c.kind a ≠ .stop := by
  cases c with
  | stop cfg => exact absurd h (by simp [Command.quiet])
  | sendCommand command =>
    cases a with
    | error err => exact Kind.noConfusion
    | ok output =>
      simp only [Command.kind]
      split
      · split_ifs <;> exact Kind.noConfusion
      · exact Kind.noConfusion
  | _ => exact Kind.noConfusion

theorem no_stop_of_quiet {t : Trace} (h : ∀ x ∈ t, x.stmt.quiet = true) (n : ℕ) :
    (kinds t)[n]? ≠ some .stop := by
  intro hn
  obtain ⟨x, hx, hkind⟩ := List.mem_map.mp (List.mem_of_getElem? hn)
  exact kind_ne_stop (h x hx) x.answer hkind

/-! ## The reading before a restart -/

/-- A trace of the protection that lets the restart go on: it ends with the reading of a day that is
no Blood Moon, and at most reports after it. -/
def Passes (t : Trace) : Prop :=
  ∃ before day reports, kinds t = before ++ .reply day :: reports ∧ ¬ BloodMoon day ∧
    ∀ k ∈ reports, k = .report

theorem Passes.cons {x : Answered Command.Answer} {t : Trace} (h : Passes t) : Passes (x :: t) := by
  obtain ⟨before, day, reports, ht, h⟩ := h
  refine ⟨x.stmt.kind x.answer :: before, day, reports, ?_, h⟩
  rw [List.cons_append, ← ht]
  rfl

theorem Passes.append {t u : Trace} (h : Passes u) : Passes (t ++ u) := by
  induction t with
  | nil => exact h
  | cons x t ih => exact ih.cons

theorem kinds_reply {output : String} {day : ℤ} (h : restartDay output = .ok day) :
    kinds [(Command.sendCommand "gettime").answered (Except.ok output)] = [.reply day] := by
  simp [kinds, Command.answered, Command.kind, h]

/-- The reading of a day that is no Blood Moon, with the reports after it. -/
theorem passes_of_reading {t reports : Trace} {output : String} {day : ℤ}
    (hday : restartDay output = .ok day) (hmoon : ¬ isBloodMoon day = true)
    (hreports : ∀ k ∈ kinds reports, k = .report) :
    Passes (t ++ [(Command.sendCommand "gettime").answered (Except.ok output)] ++ reports) := by
  refine ⟨kinds t, day, kinds reports, ?_, fun h => hmoon ((isBloodMoon_iff _).mpr h), hreports⟩
  rw [kinds_append, kinds_append, kinds_reply hday, List.append_assoc]
  rfl

/-- When the protection lets a restart go on, it has just read a day that is no Blood Moon. -/
theorem passes_of_waitUntilRestartDay {notifyPlayers : Bool} {fuel : ℕ} {queued deferred : Bool}
    {t : Trace}
    (h : Executes (waitUntilRestartDayWithNotice notifyPlayers fuel queued) t (.ok (.ok deferred))) :
    Passes t := by
  suffices hwp : ∀ t₀, (waitUntilRestartDayWithNotice notifyPlayers fuel queued).wp recording
      (Returning Passes) t₀ from wp_recording.mp (hwp []) t _ h deferred rfl
  clear h
  induction fuel generalizing queued with
  | zero => exact fun t₀ => (wp_throw _ _ _).mpr fun b hb => absurd hb (by simp)
  | succ fuel ih =>
    intro t₀
    refine returning_orReturn fun u output hu => ?_
    obtain ⟨_, rfl, hreply⟩ := executes_request.mp hu
    obtain rfl := Except.ok.inj hreply
    refine returning_orReturn fun v day hv => ?_
    obtain ⟨rfl, hd⟩ := executes_pure.mp hv
    have hday : restartDay output = .ok day := (Except.ok.inj hd).symm
    rw [List.append_nil]
    split_ifs with hmoon hqueued
    · exact returning_orReturn fun _ _ _ => returning_orReturn fun _ _ _ => ih _
    · refine wp_recording_bind (fun w a hw => ?_) (fun w e hw => fun b hb => absurd hb (by simp))
      obtain ⟨_, rfl, -⟩ := executes_request.mp hw
      exact (wp_pure _ _ _).mpr fun b _ =>
        passes_of_reading hday hmoon fun k hk => List.mem_singleton.mp hk
    · refine (wp_pure _ _ _).mpr fun b _ => ?_
      have hlast : Passes (t₀ ++ [(Command.sendCommand "gettime").answered (Except.ok output)] ++ []) :=
        passes_of_reading hday hmoon fun k hk => (nomatch hk)
      rwa [List.append_nil] at hlast

/-! ## The stop -/

/-- `Restart` first stops the server, and not again. -/
theorem executes_restartNow {fuel : ℕ} {cfg : InstanceConfig} {t : Trace}
    {r : Except Unfinished (Fallible Unit)} (h : Executes (restartNow fuel cfg) t r) :
    ∃ a u, t = (Command.stop cfg).answered a :: u ∧ ∀ n : ℕ, (kinds u)[n]? ≠ some .stop := by
  obtain ⟨a, u, rfl, hrest⟩ := executes_request_bind.mp h
  refine ⟨a, u, rfl, fun n hn => ?_⟩
  obtain ⟨x, hx, hkind⟩ := List.mem_map.mp (List.mem_of_getElem? hn)
  have hwait (active : Bool) (timeout : ℤ) :
      Keeps (fun c => ∀ a, c.kind a ≠ .stop) fuel (waitFor7DTDState fuel active timeout) :=
    keeps_waitFor7DTDState (fun _ => Kind.noConfusion) (fun _ => Kind.noConfusion)
      (fun _ => Kind.noConfusion) _ _ _
  have hstart : Keeps (fun c => ∀ a, c.kind a ≠ .stop) fuel (send (.start cfg)) :=
    .send fun _ => Kind.noConfusion
  cases a with
  | error err =>
    obtain ⟨rfl, -⟩ := executes_pure.mp hrest
    cases hx
  | ok _ =>
    -- what follows the stop may start the server, and no more
    have hno : ∀ x ∈ u, ∀ a, x.stmt.kind a ≠ .stop :=
      hrest.uses (Keeps.orReturn (hwait _ _) fun _ => .orReturn hstart fun _ =>
        .orReturn (hwait _ _) fun _ => .pure _).uses
    exact hno x hx x.answer hkind

/-- A stop right after the protection has let the restart go on is on no Blood Moon. -/
theorem Passes.no_blood_moon {t u : Trace} {days : Days} (h : Passes t)
    (htruth : days.Truthful (t ++ u)) (hstill : days.Still (t ++ u))
    (hstop : (kinds (t ++ u))[t.length]? = some .stop) : ¬ BloodMoon (days.issued t.length) := by
  obtain ⟨before, day, reports, ht, hmoon, hreports⟩ := h
  have hlen : t.length = before.length + (reports.length + 1) := by
    have hmap := congrArg List.length ht
    simpa [kinds] using hmap
  have hkinds : kinds (t ++ u) = before ++ (.reply day :: (reports ++ kinds u)) := by
    rw [kinds_append, ht, List.append_assoc]
    rfl
  have hreply : (kinds (t ++ u))[before.length]? = some (.reply day) := by
    rw [hkinds, List.getElem?_append_right (le_refl _), Nat.sub_self]
    rfl
  have hbetween : ∀ i, before.length < i → i < t.length → (kinds (t ++ u))[i]? = some .report := by
    intro i hi hit
    obtain ⟨j, rfl⟩ := Nat.exists_eq_add_of_lt hi
    have hj : j < reports.length := by omega
    rw [hkinds, List.getElem?_append_right (by omega),
      show before.length + j + 1 - before.length = j + 1 by omega, List.getElem?_cons_succ,
      List.getElem?_append_left hj, List.getElem?_eq_getElem hj]
    exact congrArg some (hreports _ (List.getElem_mem hj))
  rw [hstill _ _ day (by omega) hreply hstop hbetween, htruth _ _ hreply]
  exact hmoon

/-- With the protection, every stop of `Restart` is on a day that is no Blood Moon. -/
theorem no_blood_moon_of_restart {fuel : ℕ} {cfg : InstanceConfig} {t : Trace}
    {r : Except Unfinished (Fallible Unit)} {days : Days} (hcfg : cfg.avoidBloodMoonRestart = true)
    (h : Executes (restart fuel cfg) t r) (htruth : days.Truthful t) (hstill : days.Still t) :
    ∀ m, (kinds t)[m]? = some .stop → ¬ BloodMoon (days.issued m) := by
  intro m hm
  rw [restart, if_pos hcfg] at h
  have hquiet := (quiet_waitUntilRestartDay false fuel false).uses
  rcases executes_bind.mp h with ⟨e, he, -⟩ | ⟨a, t₁, t₂, rfl, ha, hrest⟩
  · exact absurd hm (no_stop_of_quiet (he.uses hquiet) m)
  cases a with
  | error err =>
    obtain ⟨rfl, -⟩ := executes_pure.mp hrest
    rw [List.append_nil] at hm
    exact absurd hm (no_stop_of_quiet (ha.uses hquiet) m)
  | ok deferred =>
    obtain ⟨answer, u, rfl, hu⟩ := executes_restartNow hrest
    -- the stop is the first command after the protection
    have hlen : m = t₁.length := by
      rcases Nat.lt_trichotomy m t₁.length with hlt | heq | hgt
      · rw [kinds_append, List.getElem?_append_left (by simpa [kinds] using hlt)] at hm
        exact absurd hm (no_stop_of_quiet (ha.uses hquiet) m)
      · exact heq
      · obtain ⟨j, rfl⟩ := Nat.exists_eq_add_of_lt hgt
        have hk : (kinds t₁).length = t₁.length := List.length_map _
        rw [kinds_append, List.getElem?_append_right (by omega), hk,
          show t₁.length + j + 1 - t₁.length = j + 1 by omega] at hm
        exact absurd hm (hu j)
    subst hlen
    exact (passes_of_waitUntilRestartDay ha).no_blood_moon htruth hstill hm

/-- With the protection, `SafeRestart` stops the server only after a reading of the protection, which
was made on a day that is no Blood Moon. -/
theorem reading_of_safeRestart {T : CaseTables} {fuel : ℕ} {cfg : InstanceConfig}
    {serverConfigPath : String} {retentionCount : ℤ} {t : Trace} {r : Except Unfinished JobResult}
    {days : Days} (hcfg : cfg.avoidBloodMoonRestart = true)
    (h : Executes (safeRestart T fuel cfg serverConfigPath retentionCount) t r)
    (htruth : days.Truthful t) :
    ∀ m, (kinds t)[m]? = some .stop → ∃ n < m, ∃ day, (kinds t)[n]? = some (.reply day) ∧
      (∀ x ∈ t.take n, x.stmt.defers = true) ∧ ¬ BloodMoon (days.answered n) := by
  intro m hm
  rw [safeRestart, if_pos hcfg] at h
  have hdefers := (defers_waitUntilRestartDay true fuel false).uses
  have hquiet := (quiet_waitUntilRestartDay true fuel false).uses
  rcases executes_bind.mp h with ⟨e, he, -⟩ | ⟨a, t₁, t₂, rfl, ha, hrest⟩
  · exact absurd hm (no_stop_of_quiet (he.uses hquiet) m)
  cases a with
  | error err =>
    obtain ⟨rfl, -⟩ := executes_pure.mp hrest
    rw [List.append_nil] at hm
    exact absurd hm (no_stop_of_quiet (ha.uses hquiet) m)
  | ok deferred =>
    obtain ⟨before, day, reports, ht, hmoon, -⟩ := passes_of_waitUntilRestartDay ha
    have hk : (kinds t₁).length = t₁.length := List.length_map _
    have hlen : before.length < t₁.length := by
      rw [← hk, ht, List.length_append, List.length_cons]
      omega
    have hlt : t₁.length ≤ m := by
      by_contra hlt
      rw [kinds_append, List.getElem?_append_left (by omega)] at hm
      exact absurd hm (no_stop_of_quiet (ha.uses hquiet) m)
    have hreply : (kinds (t₁ ++ t₂))[before.length]? = some (.reply day) := by
      rw [kinds_append, ht, List.append_assoc, List.getElem?_append_right (le_refl _), Nat.sub_self]
      rfl
    refine ⟨before.length, by omega, day, hreply, fun x hx => ?_, ?_⟩
    · rw [List.take_append_of_le_length (by omega)] at hx
      exact ha.uses hdefers x (List.mem_of_mem_take hx)
    · rw [htruth _ _ hreply]
      exact hmoon

/-- With the protection, `Restart` stops the server on no Blood Moon, and `SafeRestart` only after a
reading on a day that is none, before which it has only waited for the end of a Blood Moon. -/
theorem protected_of_executes {T : CaseTables} {fuel : ℕ} {cfg : InstanceConfig}
    {serverConfigPath : String} {retentionCount : ℤ} {t : Trace} {days : Days}
    (hcfg : cfg.avoidBloodMoonRestart = true) (htruth : days.Truthful t) (hstill : days.Still t) :
    (∀ r, Executes (restart fuel cfg) t r →
      ∀ m, (kinds t)[m]? = some .stop → ¬ BloodMoon (days.issued m)) ∧
    ∀ r, Executes (safeRestart T fuel cfg serverConfigPath retentionCount) t r →
      ∀ m, (kinds t)[m]? = some .stop → ∃ n < m, ∃ day, (kinds t)[n]? = some (.reply day) ∧
        (∀ x ∈ t.take n, x.stmt.defers = true) ∧ ¬ BloodMoon (days.answered n) :=
  ⟨fun _ h => no_blood_moon_of_restart hcfg h htruth hstill,
    fun _ h => reading_of_safeRestart hcfg h htruth⟩

/-- A restart of the server on the eighth day. -/
def restartOfDay8 : Trace := ((restart 2 hosted).follow (smooth "8" 3 5) 0).1

theorem kinds_restartOfDay8 :
    kinds restartOfDay8 = [.reply 8, .stop, .other, .other, .other, .other, .other] := by
  decide +kernel

/-- A safe restart that begins on the sixth day. -/
def restartOfDay6 : Trace :=
  ((safeRestart CaseTables.western 2 hosted "" 10).follow (smooth "6" 31 33) 0).1

/-- The kinds of the restart: the day is read at its start and in the backup. -/
def kindsOfDay6 : List Kind :=
  .reply 6 :: List.replicate 17 .other ++ .reply 6 :: List.replicate 10 .other ++
    .stop :: List.replicate 5 .other

theorem kinds_restartOfDay6 : kinds restartOfDay6 = kindsOfDay6 := by decide +kernel

/-- Neither a restart on the eighth day nor a safe restart on the sixth stops the server on a Blood
Moon. -/
theorem protected_of_executes_both :
    ((kinds restartOfDay8)[1]? = some .stop ∧
      ∀ m : ℕ, (kinds restartOfDay8)[m]? = some .stop → ¬BloodMoon 8) ∧
    (kinds restartOfDay6)[29]? = some .stop ∧
      ∃ n < 29, ∃ day, (kinds restartOfDay6)[n]? = some (.reply day) ∧
        (∀ x ∈ restartOfDay6.take n, x.stmt.defers = true) ∧ ¬BloodMoon 6 := by
  have heighth : (Days.mk (fun _ => 8) fun _ => 8).Truthful restartOfDay8 := by
    intro n day h
    have hmem := List.mem_of_getElem? h
    rw [kinds_restartOfDay8] at hmem
    simp at hmem
    exact hmem.symm
  have hsixth : (Days.mk (fun _ => 6) fun _ => 6).Truthful restartOfDay6 := by
    intro n day h
    have hmem := List.mem_of_getElem? h
    rw [kinds_restartOfDay6] at hmem
    simp [kindsOfDay6] at hmem
    exact hmem.symm
  have hstop : (kinds restartOfDay6)[29]? = some .stop := by rw [kinds_restartOfDay6]; rfl
  have hrestart := (@protected_of_executes CaseTables.western 2 hosted "" 10 restartOfDay8 _ rfl
    heighth fun _ _ _ _ _ _ _ => rfl).1
  have hsafe := (@protected_of_executes CaseTables.western 2 hosted "" 10 restartOfDay6 _ rfl
    hsixth fun _ _ _ _ _ _ _ => rfl).2
  exact ⟨⟨by rw [kinds_restartOfDay8]; rfl, hrestart _ (executes_follow _ _ _)⟩, hstop,
    hsafe _ (executes_follow _ _ _) 29 hstop⟩

/-- The seventh day begins while the backup is written. -/
def sixThenSeven : Days := ⟨fun n => if n ≤ 20 then 6 else 7, fun n => if n ≤ 20 then 6 else 7⟩

/-- The server is stopped on the seventh day, although each answer to `gettime` tells the day and no
answer comes right before the stop. -/
theorem stopped_on_blood_moon :
    hosted.avoidBloodMoonRestart = true ∧
      (∃ r, Executes (safeRestart CaseTables.western 2 hosted "" 10) restartOfDay6 r) ∧
      sixThenSeven.Truthful restartOfDay6 ∧ sixThenSeven.Still restartOfDay6 ∧
      (kinds restartOfDay6)[29]? = some .stop ∧ BloodMoon (sixThenSeven.issued 29) := by
  have hlt {n : ℕ} {k : Kind} (h : kindsOfDay6[n]? = some k) : n < 35 :=
    (List.getElem?_eq_some_iff.mp h).1
  unfold Days.Truthful Days.Still
  rw [kinds_restartOfDay6]
  refine ⟨rfl, ⟨_, executes_follow _ _ _⟩, fun n day h => ?_, fun n m day hnm hn hm hi => ?_, rfl,
    by decide⟩
  · have hn := hlt h
    interval_cases n <;> simp_all [kindsOfDay6, sixThenSeven]
  · -- the stop comes right after an answer that is no answer to `gettime`
    have hm29 : m = 29 := by
      have hm' := hlt hm
      interval_cases m <;> simp_all [kindsOfDay6]
    subst hm29
    rcases Nat.lt_or_ge n 28 with hlt | hge
    · exact absurd (hi 28 hlt (by decide)) (by decide)
    · obtain rfl : n = 28 := by omega
      exact absurd hn (by simp [kindsOfDay6])

end Mastermind.Agent
