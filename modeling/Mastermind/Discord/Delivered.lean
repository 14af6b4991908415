import Mastermind.Discord.Lifecycle
import Mastermind.Discord.RateLimit

/-!
# The alerts that reach Discord

An alert passes two checks: that it is not dropped as a repeated one, and the rate limit of its
rule. The limiter refuses a call only if ten calls for its key were posted in the minute before
(`posted_of_few`). So an alert of a player who was not reported in the last 15 seconds is posted for
every rule that asks for it and has had less than ten posts in the last minute, unless the database
has refused an audit entry for a rule before (`alert_posted`).
-/

namespace Mastermind.Discord

variable {κ : Type} [DecidableEq κ]

/-- An entry counts calls that were posted since its window started. -/
def Counted (s : State κ) : Prop :=
  ∀ key entry, s.rateLimitMap key = some entry → entry.windowStart ≤ s.now ∧
    entry.count ≤ (times s.posts key false).countP fun t => entry.windowStart ≤ t ∧ t ≤ s.now

/-- A step keeps the counts. -/
theorem Counted.step {s s' : State κ} {a : Action κ} (hs : Counted s) (h : s.step a = some s') :
    Counted s' := by
  intro key entry hentry
  rcases State.step_cases h with ⟨ms, hnow, hmap, hposts⟩ |
    ⟨key', entry', hadmitted, hnow, hmap, hposts⟩ | ⟨i, call, -, -, -, hnow, hmap, hposts⟩
  · rw [hmap] at hentry
    obtain ⟨hstarted, hcount⟩ := hs key entry hentry
    rw [hnow, hposts]
    refine ⟨by omega, hcount.trans (List.countP_mono_left fun t _ ht => ?_)⟩
    simp only [decide_eq_true_eq] at ht ⊢
    omega
  · rw [hmap] at hentry
    rw [hnow, hposts, times_cons]
    by_cases hkey : key' = key
    · subst hkey
      rw [Function.update_self] at hentry
      obtain rfl := Option.some.inj hentry
      rw [if_pos ⟨rfl, rfl⟩]
      dsimp only
      cases hold : s.rateLimitMap key' with
      | none =>
        rw [hold] at hadmitted
        obtain rfl : Entry.mk 1 s.now = entry' := by simpa [tryConsumeRateLimit] using hadmitted
        exact ⟨le_rfl, by simp⟩
      | some old =>
        rw [hold] at hadmitted
        obtain ⟨hstarted, hcount⟩ := hs key' old hold
        -- a new window has the call alone, the current one has it besides
        rcases tryConsumeRateLimit_cases hadmitted with ⟨-, rfl⟩ | ⟨-, -, rfl⟩
        · exact ⟨le_rfl, by simp⟩
        · refine ⟨hstarted, ?_⟩
          rw [List.countP_cons_of_pos (by simpa using hstarted)]
          exact Nat.succ_le_succ hcount
    · rw [Function.update_of_ne (Ne.symm hkey)] at hentry
      rw [if_neg fun h => hkey h.1]
      exact hs key entry hentry
  · rw [hmap] at hentry
    rw [hnow, hposts, times_cons, if_neg fun h => Bool.noConfusion h.2]
    exact hs key entry hentry

theorem Reaches.counted {allowed : State κ → Action κ → Prop} {s : State κ} (h : Reaches allowed s) :
    Counted s := by
  induction h with
  | init now =>
    intro key entry hentry
    cases hentry
  | step _ _ hstep ih => exact ih.step hstep

/-- **A call is posted at once**, if less than ten calls for its key were posted in the minute
before. -/
theorem posted_of_few {allowed : State κ → Action κ → Prop} {s : State κ} (h : Reaches allowed s)
    {key : κ} (hfew : postsIn s.posts key false (s.now - 60000) < 10) :
    ∃ s', s.step (.send key) = some s' ∧ s'.posts = ⟨key, s.now, false⟩ :: s.posts := by
  cases htry : tryConsumeRateLimit s.now (s.rateLimitMap key) with
  | some entry =>
    unfold State.step
    dsimp only
    rw [htry]
    exact ⟨_, rfl, rfl⟩
  | none =>
    cases hentry : s.rateLimitMap key with
    | none =>
      rw [hentry] at htry
      cases htry
    | some entry =>
      obtain ⟨-, hcount⟩ := h.counted key entry hentry
      rw [hentry, tryConsumeRateLimit] at htry
      -- a call is refused by a full window that is not over, and its calls are of the last minute
      by_cases hnew : s.now - entry.windowStart ≥ windowMs
      · rw [if_pos hnew] at htry
        cases htry
      by_cases hfull : entry.count ≥ maxPerWindow
      · have hwithin : (times s.posts key false).countP
            (fun t => decide (entry.windowStart ≤ t ∧ t ≤ s.now)) ≤
              within (times s.posts key false) (s.now - 60000) := by
          refine List.countP_mono_left fun t _ ht => ?_
          simp only [decide_eq_true_eq, windowMs] at ht hnew ⊢
          omega
        rw [postsIn_eq_within] at hfew
        unfold maxPerWindow at hfull
        omega
      · rw [if_neg hnew, if_neg hfull] at htry
        cases htry

end Mastermind.Discord

namespace Mastermind.Alerts

open Discord

variable {upper lower : Text → Text} {before : List Request} {r : Request}

/-- What is not dropped is sent to a rule that asks for it, unless the loop has ended before. -/
theorem mem_postsTo {rule : AlertRule} {earlier later : List AlertRule}
    (hmatches : rule.Matches upper lower r)
    (haudited : ∀ e ∈ earlier, e.Matches upper lower r → r.audited e.id = true) :
    ⟨rule.webhookUrl.trim, (r.context.orgId, rule.id)⟩ ∈
      r.postsTo upper lower (earlier ++ rule :: later) := by
  induction earlier with
  | nil =>
    rw [List.nil_append, Request.postsTo, if_pos hmatches]
    exact List.mem_cons_self
  | cons e earlier ih =>
    have hrest := ih fun e' he' => haudited e' (List.mem_cons_of_mem _ he')
    rw [List.cons_append, Request.postsTo]
    split_ifs with hmatch hwritten
    · exact List.mem_cons_of_mem _ hrest
    · exact absurd (haudited e List.mem_cons_self hmatch) hwritten
    · exact hrest

/-- **An alert reaches its rules.** An alert of a player who was not reported so in the 15 seconds
before is sent to a rule that asks for it, if the posts to the rules before it have got their
entries in the audit log, and posted at once if less than ten alerts of the rule were posted in the
minute before. -/
theorem alert_posted (hclock : (before ++ [r]).Pairwise fun a b => a.now ≤ b.now)
    (hnew : (r.key lower).isSome → ∀ e ∈ before, e.key lower = r.key lower →
      repeatMs ≤ r.now - e.now)
    {rule : AlertRule} {earlier later : List AlertRule} (hrule : r.rules = earlier ++ rule :: later)
    (hmatches : rule.Matches upper lower r)
    (haudited : ∀ e ∈ earlier, e.Matches upper lower r → r.audited e.id = true)
    {allowed : State (Id × Id) → Action (Id × Id) → Prop} {s : State (Id × Id)}
    (hs : Reaches allowed s)
    (hfew : postsIn s.posts (r.context.orgId, rule.id) false (s.now - 60000) < 10) :
    ∃ posts, (sendMatchingRules upper lower (after upper lower before) r).1 = some posts ∧
      ⟨rule.webhookUrl.trim, (r.context.orgId, rule.id)⟩ ∈ posts ∧
        ∃ s', s.step (.send (r.context.orgId, rule.id)) = some s' ∧
          s'.posts = ⟨(r.context.orgId, rule.id), s.now, false⟩ :: s.posts := by
  have hpasses : ¬Dropped upper lower before r := by
    rw [not_dropped_iff, Throttle.admits_iff (pairwise_attempts hclock)]
    rintro key hkey t ⟨earlier, a, later, hsplit, -, hakey, rfl⟩
    have hmem : a ∈ before.map (Request.attempt lower) := by
      rw [hsplit]
      exact List.mem_append_right _ List.mem_cons_self
    obtain ⟨e, he, rfl⟩ := List.mem_map.mp hmem
    exact hnew (Option.isSome_iff_exists.mpr ⟨key, hkey⟩) e he (hakey.trans hkey.symm)
  have hposts : (sendMatchingRules upper lower (after upper lower before) r).1 =
      some (r.posts upper lower) := by
    unfold Dropped at hpasses
    rw [sendMatchingRules_eq] at hpasses ⊢
    dsimp only at hpasses ⊢
    split_ifs at hpasses ⊢ with hrefuses
    · exact absurd rfl hpasses
    · rfl
  refine ⟨_, hposts, ?_, posted_of_few hs hfew⟩
  rw [Request.posts, hrule]
  exact mem_postsTo hmatches haudited

/-- A rule for the restarts of servers. -/
def restartRule : AlertRule :=
  { connectionRule with id := 5, conditionType := Text.of "SERVER_RESTART" }

/-- A quarter of a minute after Ann's first connection, the next one is posted for the last of three
rules. -/
theorem alert_posted_again :
    let r := { annConnects 15000 with
      rules := [{ connectionRule with id := 6 }, restartRule, connectionRule] }
    let s : State (Id × Id) := ⟨15000, Function.update (fun _ => none) (0, 7) (some ⟨1, 0⟩),
      [⟨(0, 7), 0, 1000, .posting⟩], [⟨(0, 7), 0, false⟩], []⟩
    ∃ posts, (sendMatchingRules id id (after id id [annConnects 0]) r).1 = some posts ∧
      ⟨connectionRule.webhookUrl.trim, (0, connectionRule.id)⟩ ∈ posts ∧
        ∃ s', s.step (.send (0, connectionRule.id)) = some s' ∧
          s'.posts = [⟨(0, connectionRule.id), 15000, false⟩, ⟨(0, 7), 0, false⟩] := by
  intro r s
  have hsent : Reaches (fun _ _ => True) s :=
    .step (a := .tick 15000) (.step (a := .send (0, 7)) (.init 0) trivial rfl) trivial rfl
  have hclock : ([annConnects 0] ++ [r]).Pairwise fun a b => a.now ≤ b.now := by
    simp [annConnects, r]
  refine alert_posted hclock
    (fun _ e he _ => ?_)
    (show r.rules = [{ connectionRule with id := 6 }, restartRule] ++ connectionRule :: [] from rfl)
    ⟨rfl, rfl, rfl, rfl, by decide⟩ (fun _ _ _ => rfl) hsent (by decide)
  obtain rfl := List.mem_singleton.mp he
  decide

end Mastermind.Alerts
