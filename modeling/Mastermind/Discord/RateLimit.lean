import Mastermind.Platform.Utf16

/-!
# The rate limit of Discord

`DiscordService.send` admits ten calls for a key in a window of a minute, and posts each of them up
to three times: after a 429 or a server error it sleeps and tries again, without asking the limiter.
A state has the calls that wait for an answer or sleep, and the log of all posts; time passes between
the steps as it likes.

Windows do not overlap, so that an interval of a minute meets two of them at most and has at most
twenty first posts (`Windows.within_le`). With at most ten retries it keeps to the thirty requests
a minute that Discord allows (`posts_bounded`), and with more it need not (`retries_exceed`).
-/

namespace Mastermind.Discord

variable {κ : Type} [DecidableEq κ]

/-- `DISCORD_RATE_LIMIT.maxPerWindow`. -/
def maxPerWindow : ℕ := 10

/-- `DISCORD_RATE_LIMIT.windowMs`. -/
def windowMs : ℤ := 60000

/-- `DISCORD_RETRY_ATTEMPTS`. -/
def retryAttempts : ℕ := 3

/-- `DISCORD_RETRY_INITIAL_MS`. -/
def retryInitialMs : ℤ := 1000

/-- `DISCORD_RETRY_MAX_MS`. -/
def retryMaxMs : ℤ := 10000

/-- How a post ends: with success, with another status and a text, or without a response. -/
inductive Outcome where
  | ok
  | status (code : ℕ) (text : Text)
  | network (message : Text)
  deriving DecidableEq

/-- The status of a failure. -/
def Outcome.statusCode : Outcome → Option ℕ
  | .status code _ => some code
  | _ => none

/-- The error of a failure. -/
def Outcome.error : Outcome → Text
  | .ok => Text.of "Unknown error"
  | .status _ text => text.take 200
  | .network message => message

/-- `result.statusCode === 429 || (result.statusCode && result.statusCode >= 500)`. -/
def Outcome.isRetried (o : Outcome) : Bool := o.statusCode.any fun code => code = 429 || 500 ≤ code

/-- What `send` returns. -/
inductive Result where
  | ok
  | failed (statusCode : Option ℕ) (error : Text)
  deriving DecidableEq

/-- Where a call of `send` is: a post has no answer yet, or it sleeps after a failure. -/
inductive Phase where
  | posting
  | sleeping (wakes : ℤ) (last : Outcome)
  deriving DecidableEq

/-- A call of `send` that has not returned. -/
structure Call (κ : Type) where
  key : κ
  attempt : ℕ
  delay : ℤ
  phase : Phase

/-- A post that was made. -/
structure Post (κ : Type) where
  key : κ
  time : ℤ
  isRetry : Bool

/-- An entry of `rateLimitMap`. -/
structure Entry where
  count : ℕ
  windowStart : ℤ

/-- The limiter, the calls, and the log of posts and results, newest first. -/
structure State (κ : Type) where
  now : ℤ
  rateLimitMap : κ → Option Entry
  calls : List (Call κ)
  posts : List (Post κ)
  returned : List (κ × Result)

/-- What happens: time passes, `send` is called, a post is answered, or a sleep ends. -/
inductive Action (κ : Type) where
  | tick (ms : ℕ)
  | send (key : κ)
  | answer (i : ℕ) (outcome : Outcome)
  | wake (i : ℕ)

/-- `tryConsumeRateLimit`: the entry after it, or nothing if the call is refused. -/
def tryConsumeRateLimit (now : ℤ) : Option Entry → Option Entry
  | none => some ⟨1, now⟩
  | some entry =>
    if now - entry.windowStart ≥ windowMs then some ⟨1, now⟩
    else if entry.count ≥ maxPerWindow then none
    else some ⟨entry.count + 1, entry.windowStart⟩

namespace State

/-- Nothing sent yet. -/
def init (now : ℤ) : State κ := ⟨now, fun _ => none, [], [], []⟩

/-- A call returns. -/
def return_ (s : State κ) (i : ℕ) (key : κ) (result : Result) : State κ :=
  { s with calls := s.calls.eraseIdx i, returned := (key, result) :: s.returned }

/-- `send` step by step. -/
def step (s : State κ) : Action κ → Option (State κ)
  | .tick ms => some { s with now := s.now + ms }
  | .send key =>
    match tryConsumeRateLimit s.now (s.rateLimitMap key) with
    | none => some { s with
        returned := (key, .failed none (Text.of "Rate limit exceeded")) :: s.returned }
    | some entry => some { s with
        rateLimitMap := Function.update s.rateLimitMap key (some entry)
        calls := s.calls ++ [⟨key, 0, retryInitialMs, .posting⟩]
        posts := ⟨key, s.now, false⟩ :: s.posts }
  | .answer i outcome =>
    match s.calls[i]? with
    | some ⟨key, attempt, delay, .posting⟩ =>
      if outcome = .ok then some (s.return_ i key .ok)
      else if outcome.isRetried then some { s with
        calls := s.calls.set i
          ⟨key, attempt, min (delay * 2) retryMaxMs, .sleeping (s.now + delay) outcome⟩ }
      else some (s.return_ i key (.failed outcome.statusCode outcome.error))
    | _ => none
  | .wake i =>
    match s.calls[i]? with
    | some ⟨key, attempt, delay, .sleeping wakes last⟩ =>
      if s.now < wakes then none
      else if attempt + 1 < retryAttempts then some { s with
        calls := s.calls.set i ⟨key, attempt + 1, delay, .posting⟩
        posts := ⟨key, s.now, true⟩ :: s.posts }
      else some (s.return_ i key (.failed last.statusCode last.error))
    | _ => none

end State

/-- The states of the runs in which every step is allowed. -/
inductive Reaches (allowed : State κ → Action κ → Prop) : State κ → Prop where
  | init (now : ℤ) : Reaches allowed (.init now)
  | step {s s' : State κ} {a : Action κ} : Reaches allowed s → allowed s a → s.step a = some s' →
      Reaches allowed s'

/-- How many posts for a key, first ones or retries, are in the minute from a time on. -/
def postsIn (posts : List (Post κ)) (key : κ) (isRetry : Bool) (x : ℤ) : ℕ :=
  posts.countP fun p => p.key = key ∧ p.isRetry = isRetry ∧ x ≤ p.time ∧ p.time ≤ x + 60000

/-- No minute has more than thirty posts for a key. -/
def KeepsLimit (s : State κ) : Prop :=
  ∀ key x, (s.posts.countP fun p => p.key = key ∧ x ≤ p.time ∧ p.time ≤ x + 60000) ≤ 30

/-- The step makes no retry for a key that has had ten retries in the minute before. -/
def SparesRetries (s : State κ) : Action κ → Prop
  | .wake i => ∀ call, s.calls[i]? = some call → call.attempt + 1 < retryAttempts →
      postsIn s.posts call.key true (s.now - 60000) < 10
  | _ => True

/-! ## Windows and minutes of a list of times -/

/-- How many of the times are in the minute from `x` on. -/
def within (times : List ℤ) (x : ℤ) : ℕ := times.countP fun t => x ≤ t ∧ t ≤ x + 60000

/-- The times of the posts for a key, of the first ones or of the retries. -/
def times (posts : List (Post κ)) (key : κ) (isRetry : Bool) : List ℤ :=
  (posts.filter fun p => p.key = key ∧ p.isRetry = isRetry).map (·.time)

/-- What an entry says about the times of the calls that were admitted. -/
inductive Windows (now : ℤ) : Option Entry → List ℤ → Prop where
  | unused : Windows now none []
  | used {count : ℕ} {start : ℤ} {ts : List ℤ} (started : start ≤ now) (count_le : count ≤ 10)
      (ends : ∀ t ∈ ts, t ≤ now ∧ t < start + 60000)
      (current : (ts.countP fun t => start ≤ t) ≤ count)
      (previous : (ts.countP fun t => start - 60000 ≤ t ∧ t < start) ≤ 10)
      (minutes : ∀ x, within ts x ≤ 20) : Windows now (some ⟨count, start⟩) ts

/-- What the limiter does with an entry it lets pass. -/
theorem tryConsumeRateLimit_cases {now : ℤ} {entry entry' : Entry}
    (h : tryConsumeRateLimit now (some entry) = some entry') :
    60000 ≤ now - entry.windowStart ∧ entry' = ⟨1, now⟩ ∨
      now - entry.windowStart < 60000 ∧ entry.count < 10 ∧
        entry' = ⟨entry.count + 1, entry.windowStart⟩ := by
  rw [tryConsumeRateLimit] at h
  by_cases hnew : now - entry.windowStart ≥ windowMs
  · rw [if_pos hnew, Option.some.injEq] at h
    exact .inl ⟨hnew, h.symm⟩
  · by_cases hfull : entry.count ≥ maxPerWindow
    · simp [if_neg hnew, if_pos hfull] at h
    · rw [if_neg hnew, if_neg hfull, Option.some.injEq] at h
      exact .inr ⟨not_le.mp hnew, not_le.mp hfull, h.symm⟩

/-- A minute that reaches the current window has calls of it and of the minute before it only. -/
theorem within_le_add (ts : List ℤ) {x start : ℤ} (h : start ≤ x + 60000) :
    within ts x ≤ (ts.countP fun t => start - 60000 ≤ t ∧ t < start) +
      ts.countP fun t => start ≤ t := by
  induction ts with
  | nil => simp [within]
  | cons t ts ih =>
    simp only [within, List.countP_cons] at ih ⊢
    have : ∀ p q r : Prop, [Decidable p] → [Decidable q] → [Decidable r] → (p → q ∨ r) →
        (if decide p = true then 1 else 0) ≤
          (if decide q = true then 1 else 0) + if decide r = true then 1 else 0 := by
      intro p q r _ _ _ hpqr
      by_cases hp : p <;> by_cases hq : q <;> by_cases hr : r <;> simp_all
    have := this (x ≤ t ∧ t ≤ x + 60000) (start - 60000 ≤ t ∧ t < start) (start ≤ t)
      fun hx => by omega
    omega

namespace Windows

variable {now : ℤ} {entry : Option Entry} {ts : List ℤ}

theorem within_le (h : Windows now entry ts) (x : ℤ) : within ts x ≤ 20 := by
  cases h with
  | unused => simp [within]
  | used _ _ _ _ _ minutes => exact minutes x

/-- Time passes. -/
theorem tick (h : Windows now entry ts) (ms : ℕ) : Windows (now + ms) entry ts := by
  cases h with
  | unused => exact .unused
  | used started count_le ends current previous minutes =>
    exact .used (by omega) count_le (fun t ht => ⟨by have := ends t ht; omega, (ends t ht).2⟩)
      current previous minutes

/-- A call is admitted: in the current window, or as the first of a new one. -/
theorem admitted (h : Windows now entry ts) {entry' : Entry}
    (ha : tryConsumeRateLimit now entry = some entry') :
    Windows now (some entry') (now :: ts) := by
  cases h with
  | unused =>
    obtain rfl : Entry.mk 1 now = entry' := by simpa [tryConsumeRateLimit] using ha
    exact .used le_rfl (by omega) (by simp) (by simp) (by simp) fun x => by
      have := List.countP_le_length (p := fun t => decide (x ≤ t ∧ t ≤ x + 60000)) (l := [now])
      simp only [List.length_singleton] at this
      simp only [within]
      omega
  | @used count start _ started count_le ends current previous minutes =>
    -- What the new time adds to a minute it shares with the window, given the two counts.
    have added : ∀ {start' : ℤ}, start' ≤ now →
        ((now :: ts).countP fun t => decide (start' ≤ t)) ≤ 10 →
        ((now :: ts).countP fun t => decide (start' - 60000 ≤ t ∧ t < start')) ≤ 10 →
        ∀ x, within (now :: ts) x ≤ 20 := by
      intro start' hstart hcurrent hprevious x
      by_cases hx : start' ≤ x + 60000
      · have := within_le_add (now :: ts) hx
        omega
      · have hnow : ¬(x ≤ now ∧ now ≤ x + 60000) := by omega
        have := minutes x
        simpa [within, List.countP_cons, hnow] using this
    rcases tryConsumeRateLimit_cases ha with ⟨hnew, rfl⟩ | ⟨hold, hfree, rfl⟩
    · -- A window starts: the calls of the last one were less than a minute after its start.
      dsimp only at hnew
      have none_current : (ts.countP fun t => decide (now ≤ t)) = 0 := by
        rw [List.countP_eq_zero]
        intro t ht
        have := (ends t ht).2
        simp only [decide_eq_true_eq]
        omega
      have le_current : (ts.countP fun t => decide (now - 60000 ≤ t ∧ t < now)) ≤
          ts.countP fun t => decide (start ≤ t) := by
        refine List.countP_mono_left fun t _ ht => ?_
        simp only [decide_eq_true_eq] at ht ⊢
        omega
      have current' : ((now :: ts).countP fun t => decide (now ≤ t)) ≤ 1 := by
        simp [none_current]
      have previous' : ((now :: ts).countP fun t => decide (now - 60000 ≤ t ∧ t < now)) ≤ 10 := by
        simp only [List.countP_cons, lt_irrefl, and_false, decide_false, Bool.false_eq_true,
          if_false]
        omega
      refine .used le_rfl (by omega) (fun t ht => ?_) current' previous'
        (added le_rfl (by omega) previous')
      rcases List.mem_cons.mp ht with rfl | ht
      · omega
      · have := ends t ht
        omega
    · dsimp only at hold hfree ⊢
      have current' : ((now :: ts).countP fun t => decide (start ≤ t)) ≤ count + 1 := by
        simp only [List.countP_cons, started, decide_true, if_true]
        omega
      have previous' :
          ((now :: ts).countP fun t => decide (start - 60000 ≤ t ∧ t < start)) ≤ 10 := by
        have : ¬now < start := by omega
        simpa [List.countP_cons, this] using previous
      refine .used started (by omega) (fun t ht => ?_) current' previous'
        (added started (by omega) previous')
      rcases List.mem_cons.mp ht with rfl | ht
      · omega
      · exact ends t ht

end Windows

/-- The retries of a key: no minute has more than ten. -/
structure Spared (now : ℤ) (ts : List ℤ) : Prop where
  past : ∀ t ∈ ts, t ≤ now
  within_le : ∀ x, within ts x ≤ 10

/-- A retry shares a minute with those of the last minute only. -/
theorem Spared.retry {now : ℤ} {ts : List ℤ} (h : Spared now ts) (hlt : within ts (now - 60000) < 10) :
    Spared now (now :: ts) := by
  refine ⟨by simpa using h.past, fun x => ?_⟩
  by_cases hx : x ≤ now ∧ now ≤ x + 60000
  · have hle : within ts x ≤ within ts (now - 60000) := by
      refine List.countP_mono_left fun t ht htx => ?_
      have := h.past t ht
      simp only [decide_eq_true_eq] at htx ⊢
      omega
    have : within (now :: ts) x = within ts x + 1 := by simp [within, hx]
    omega
  · have : within (now :: ts) x = within ts x := by simp [within, hx]
    have := h.within_le x
    omega

/-! ## Runs -/

theorem times_cons (p : Post κ) (posts : List (Post κ)) (key : κ) (isRetry : Bool) :
    times (p :: posts) key isRetry =
      if p.key = key ∧ p.isRetry = isRetry then p.time :: times posts key isRetry
      else times posts key isRetry := by
  by_cases h : p.key = key ∧ p.isRetry = isRetry <;> simp [times, h]

theorem postsIn_eq_within (posts : List (Post κ)) (key : κ) (isRetry : Bool) (x : ℤ) :
    postsIn posts key isRetry x = within (times posts key isRetry) x := by
  simp only [postsIn, within, times, List.countP_map, List.countP_filter]
  refine List.countP_congr fun p _ => ?_
  simp only [Function.comp, decide_eq_true_eq, Bool.and_eq_true]
  tauto

/-- The posts of a minute are first ones or retries. -/
theorem countP_minute (posts : List (Post κ)) (key : κ) (x : ℤ) :
    (posts.countP fun p => p.key = key ∧ x ≤ p.time ∧ p.time ≤ x + 60000) =
      within (times posts key false) x + within (times posts key true) x := by
  rw [← postsIn_eq_within, ← postsIn_eq_within]
  induction posts with
  | nil => rfl
  | cons p posts ih =>
    simp only [postsIn, List.countP_cons] at ih ⊢
    rw [ih]
    rcases hr : p.isRetry <;> by_cases hk : p.key = key <;> simp [hk] <;> omega

/-- What a step does to the clock, the limiter and the log. -/
theorem State.step_cases {s s' : State κ} {a : Action κ} (h : s.step a = some s') :
    (∃ ms : ℕ, s'.now = s.now + ms ∧ s'.rateLimitMap = s.rateLimitMap ∧ s'.posts = s.posts) ∨
    (∃ key entry, tryConsumeRateLimit s.now (s.rateLimitMap key) = some entry ∧ s'.now = s.now ∧
      s'.rateLimitMap = Function.update s.rateLimitMap key (some entry) ∧
      s'.posts = ⟨key, s.now, false⟩ :: s.posts) ∨
    (∃ i call, a = .wake i ∧ s.calls[i]? = some call ∧ call.attempt + 1 < retryAttempts ∧
      s'.now = s.now ∧ s'.rateLimitMap = s.rateLimitMap ∧
      s'.posts = ⟨call.key, s.now, true⟩ :: s.posts) := by
  cases a with
  | tick ms =>
    obtain rfl := Option.some.inj h
    exact .inl ⟨ms, rfl, rfl, rfl⟩
  | send key =>
    simp only [step] at h
    split at h
    · obtain rfl := Option.some.inj h
      exact .inl ⟨0, by simp, rfl, rfl⟩
    · next entry hentry =>
      obtain rfl := Option.some.inj h
      exact .inr (.inl ⟨key, entry, hentry, rfl, rfl, rfl⟩)
  | answer i outcome =>
    refine .inl ⟨0, ?_⟩
    simp only [step] at h
    split at h
    · split at h
      · obtain rfl := Option.some.inj h
        simp [return_]
      · split at h <;> obtain rfl := Option.some.inj h <;> simp [return_]
    · cases h
  | wake i =>
    simp only [step] at h
    split at h
    · next key attempt delay wakes last hcall =>
      split at h
      · cases h
      · split at h
        · next hattempt =>
          obtain rfl := Option.some.inj h
          exact .inr (.inr ⟨i, _, rfl, hcall, hattempt, rfl, rfl, rfl⟩)
        · obtain rfl := Option.some.inj h
          exact .inl ⟨0, by simp [return_]⟩
    · cases h

/-- The invariant: the windows of each key, and its retries. -/
def Kept (s : State κ) : Prop :=
  ∀ key, Windows s.now (s.rateLimitMap key) (times s.posts key false) ∧
    Spared s.now (times s.posts key true)

theorem kept_init (now : ℤ) : Kept (State.init now : State κ) := fun _ =>
  ⟨.unused, by simp [State.init, times], by simp [State.init, times, within]⟩

/-- A step that spares the retries keeps the invariant. -/
theorem Kept.step {s s' : State κ} {a : Action κ} (hs : Kept s) (ha : SparesRetries s a)
    (h : s.step a = some s') : Kept s' := by
  intro key
  obtain ⟨windows, spared⟩ := hs key
  rcases State.step_cases h with ⟨ms, hnow, hmap, hposts⟩ |
    ⟨key', entry, hentry, hnow, hmap, hposts⟩ | ⟨i, call, rfl, hcall, hattempt, hnow, hmap, hposts⟩
  · rw [hnow, hmap, hposts]
    exact ⟨windows.tick ms, fun t ht => by have := spared.past t ht; omega, spared.within_le⟩
  · rw [hnow, hmap, hposts, times_cons, times_cons]
    by_cases hkey : key' = key
    · subst hkey
      simpa using ⟨windows.admitted hentry, spared⟩
    · simpa [hkey, Function.update_of_ne (Ne.symm hkey)] using ⟨windows, spared⟩
  · rw [hnow, hmap, hposts, times_cons, times_cons]
    by_cases hkey : call.key = key
    · subst hkey
      have hlt := ha call hcall hattempt
      rw [postsIn_eq_within] at hlt
      simpa using ⟨windows, spared.retry hlt⟩
    · simpa [hkey] using ⟨windows, spared⟩

theorem Reaches.kept {s : State κ} (h : Reaches SparesRetries s) : Kept s := by
  induction h with
  | init now => exact kept_init now
  | step _ ha hstep ih => exact ih.step ha hstep

/-- With at most ten retries for a key in a minute no minute has more than thirty posts for it. -/
theorem posts_bounded {s : State κ} (h : Reaches SparesRetries s) : KeepsLimit s := by
  intro key x
  obtain ⟨windows, spared⟩ := h.kept key
  have hfirst := windows.within_le x
  have hretries := spared.within_le x
  rw [countP_minute]
  omega

/-- A call whose first post fails with a 500 and is made again a second later. -/
theorem posts_bounded_retried : ∃ s : State Unit,
    s.posts.map (fun p => (p.time, p.isRetry)) = [(1000, true), (0, false)] ∧ KeepsLimit s := by
  let limiter : Unit → Option Entry := Function.update (fun _ => none) () (some ⟨1, 0⟩)
  have hsent : Reaches SparesRetries
      (⟨0, limiter, [⟨(), 0, 1000, .posting⟩], [⟨(), 0, false⟩], []⟩ : State Unit) :=
    .step (a := .send ()) (.init 0) trivial rfl
  have hfailed : Reaches SparesRetries
      (⟨0, limiter, [⟨(), 0, 2000, .sleeping 1000 (.status 500 [])⟩], [⟨(), 0, false⟩], []⟩ :
        State Unit) :=
    .step (a := .answer 0 (.status 500 [])) hsent trivial rfl
  have hwaited : Reaches SparesRetries
      (⟨1000, limiter, [⟨(), 0, 2000, .sleeping 1000 (.status 500 [])⟩], [⟨(), 0, false⟩], []⟩ :
        State Unit) :=
    .step (a := .tick 1000) hfailed trivial rfl
  have hspares : SparesRetries
      (⟨1000, limiter, [⟨(), 0, 2000, .sleeping 1000 (.status 500 [])⟩], [⟨(), 0, false⟩], []⟩ :
        State Unit) (.wake 0) := by
    rintro call hcall -
    obtain rfl := Option.some.inj hcall
    decide
  have hretried : Reaches SparesRetries
      (⟨1000, limiter, [⟨(), 1, 2000, .posting⟩], [⟨(), 1000, true⟩, ⟨(), 0, false⟩], []⟩ :
        State Unit) :=
    .step (a := .wake 0) hwaited hspares rfl
  exact ⟨_, rfl, posts_bounded hretried⟩

theorem Reaches.foldlM {allowed : State κ → Action κ → Prop} (hallowed : ∀ s a, allowed s a)
    {s s' : State κ} (h : Reaches allowed s) {actions : List (Action κ)}
    (hrun : actions.foldlM State.step s = some s') : Reaches allowed s' := by
  induction actions generalizing s with
  | nil => simpa [← Option.some.inj hrun] using h
  | cons a actions ih =>
    obtain ⟨s₁, hstep, hrest⟩ := Option.bind_eq_some_iff.mp (by simpa using hrun)
    exact ih (.step h (hallowed s a) hstep) hrest

/-- One call and nine more late in its window, whose posts all fail, and ten of the next window. -/
def burst : List (Action Unit) :=
  [[.send (), .answer 0 .ok, .tick 50000], List.replicate 9 (.send ()),
    (List.range 9).map (.answer · (.status 500 [])), [.tick 1000], (List.range 9).map .wake,
    (List.range 9).map (.answer · (.status 500 [])), [.tick 2000], (List.range 9).map .wake,
    [.tick 7000], List.replicate 10 (.send ())].flatten

/-- The twenty-seven posts of the nine calls and the ten of the next window are within ten
seconds. -/
theorem retries_exceed : ¬∀ s : State Unit, Reaches (fun _ _ => True) s → KeepsLimit s := by
  intro h
  have hcount : (burst.foldlM State.step (.init 0)).map (fun s => s.posts.countP fun p =>
      p.key = () ∧ 50000 ≤ p.time ∧ p.time ≤ 50000 + 60000) = some 37 := by
    decide +kernel
  obtain ⟨s, hrun, hposts⟩ := Option.map_eq_some_iff.mp hcount
  have := h s ((Reaches.init 0).foldlM (fun _ _ => trivial) hrun) () 50000
  omega

end Mastermind.Discord
