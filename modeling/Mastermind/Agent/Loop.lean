import Mastermind.Dispatch.Rules

/-!
# The agent's poll loop

`internal/jobs/loop.go`: one goroutine polls and starts a goroutine for each job, and the limiter
holds the poll loop back. `Step` is one atomic action of one of them: a channel operation, a load
or a store of `mutationBusy`, the sending or the answer of a poll, or a phase of `runOne`. The
answer of a poll is what `getNextJobForHost` returns on some queue, for the flag that the poll
sent.

`Exclusive` relates the flag, the two channels and the jobs that are claimed and unfinished. Every
step keeps it (`Step.exclusive`), and `mutations_exclusive` reads the limits off it.
-/

namespace Mastermind.Agent

open Effect Effect.Program

/-- `isReadOnly` of the agent. -/
def isReadOnly (jobType : String) : Bool :=
  ["MOD_LIST", "MOD_QUARANTINE_LIST", "MOD_CONFIG_READ", "PROFILE_LIST", "PROFILE_READ",
    "PLAYER_LIST_SYNC", "PLAYER_ADMIN_LIST", "SAVE_LIST"].contains jobType

/-- The two allowlists are the same. -/
theorem isReadOnly_eq (jobType : String) :
    isReadOnly jobType = JobsQueueService.isReadOnly jobType := rfl

/-- A job as the agent receives it. -/
abbrev Job := QueueJobData

/-- Whether the job waits for the mutation gate. -/
def mutates (job : Job) : Bool := !isReadOnly job.type

/-- Where the poll loop is: before a poll, waiting for the answer of a poll that it sent with this
flag, before it has a slot for a job, between taking the mutation token and storing the flag, or
at its end, with the job that it held. -/
inductive LoopPhase where
  | ready
  | polling (mutationBusy : Bool)
  | holding (job : Job)
  | tookToken (job : Job)
  | stopped (held : Option Job)

/-- Where the goroutine of a job is: in `runOne` before, in or after `Execute`, after `runOne`, or,
for a mutation, after it has cleared the flag. -/
inductive RunPhase where
  | started | executing | reporting | returned | cleared
deriving DecidableEq

/-- Whether `runOne` has returned. -/
def RunPhase.finished : RunPhase → Bool
  | .returned | .cleared => true
  | _ => false

/-- The poll loop, the limiter (the length of `reads`, whether `mutation` holds its token, and the
flag) and the goroutines of the jobs. -/
structure State where
  loop : LoopPhase
  reads : ℕ
  token : Bool
  mutationBusy : Bool
  running : List (Job × RunPhase)

/-- `newExecutionLimiter`, before the first poll. -/
def State.initial : State := ⟨.ready, 0, true, false, []⟩

/-- The control plane answers a poll with the job: `getNextJobForHost` returns it, in some state of
the queues and whichever of its calls fail. -/
def Answers (mutationBusy : Bool) (job : Job) : Prop :=
  ∃ env w orgId hostId plan,
    ((JobsQueueService.getNextJobForHost orgId hostId mutationBusy).run (machine env) plan w).1 =
      .ok (some job)

/-- What `runOne` does next: `Execute` may be skipped when its preparation fails. -/
def RunPhase.Next : RunPhase → RunPhase → Prop
  | .started, p => p = .executing ∨ p = .returned
  | .executing, p => p = .reporting
  | .reporting, p => p = .returned
  | _, _ => False

/-- One atomic action. -/
inductive Step (readLimit : ℕ) : State → State → Prop where
  /-- The flag is loaded and the poll is sent. -/
  | poll {s} : s.loop = .ready → Step readLimit s { s with loop := .polling s.mutationBusy }
  /-- The poll fails, or there is no job. -/
  | none {s mutationBusy} : s.loop = .polling mutationBusy →
      Step readLimit s { s with loop := .ready }
  | receive {s mutationBusy} (job : Job) : s.loop = .polling mutationBusy →
      Answers mutationBusy job → Step readLimit s { s with loop := .holding job }
  /-- `acquireRead`, and the goroutine is started. -/
  | acquireRead {s job} : s.loop = .holding job → isReadOnly job.type = true →
      s.reads < readLimit →
      Step readLimit s { s with
        loop := .ready
        reads := s.reads + 1
        running := s.running ++ [(job, .started)] }
  /-- `acquireMutation` takes the token. -/
  | takeToken {s job} : s.loop = .holding job → isReadOnly job.type = false → s.token = true →
      Step readLimit s { s with loop := .tookToken job, token := false }
  /-- `acquireMutation` stores the flag, and the goroutine is started. -/
  | startMutation {s job} : s.loop = .tookToken job →
      Step readLimit s { s with
        loop := .ready
        mutationBusy := true
        running := s.running ++ [(job, .started)] }
  /-- The context is cancelled: while the loop waits for a slot, or anywhere else. -/
  | stopHolding {s job} : s.loop = .holding job →
      Step readLimit s { s with loop := .stopped (some job) }
  | stop {s} : (s.loop = .ready ∨ ∃ mutationBusy, s.loop = .polling mutationBusy) →
      Step readLimit s { s with loop := .stopped Option.none }
  | run {s job p p' l₁ l₂} : s.running = l₁ ++ (job, p) :: l₂ → p.Next p' →
      Step readLimit s { s with running := l₁ ++ (job, p') :: l₂ }
  | releaseRead {s job l₁ l₂} : s.running = l₁ ++ (job, .returned) :: l₂ →
      isReadOnly job.type = true →
      Step readLimit s { s with reads := s.reads - 1, running := l₁ ++ l₂ }
  /-- `releaseMutation` clears the flag. -/
  | clearBusy {s job l₁ l₂} : s.running = l₁ ++ (job, .returned) :: l₂ →
      isReadOnly job.type = false →
      Step readLimit s { s with mutationBusy := false, running := l₁ ++ (job, .cleared) :: l₂ }
  /-- `releaseMutation` returns the token. -/
  | returnToken {s job l₁ l₂} : s.running = l₁ ++ (job, .cleared) :: l₂ →
      Step readLimit s { s with token := true, running := l₁ ++ l₂ }

/-- The states of the agent that the steps reach. -/
def Reachable (readLimit : ℕ) (s : State) : Prop :=
  Relation.ReflTransGen (Step readLimit) .initial s

/-- The job that the loop has and no goroutine runs yet. -/
def LoopPhase.held : LoopPhase → List Job
  | .holding job | .tookToken job => [job]
  | .stopped held => held.toList
  | _ => []

/-- The jobs that are claimed and unfinished: `runOne` has not returned for them. -/
def State.unfinished (s : State) : List Job :=
  s.loop.held ++ (s.running.filter fun x => !x.2.finished).map Prod.fst

section Invariant

/-- The loop may claim, or has claimed, a mutation. -/
def LoopPhase.MayMutate : LoopPhase → Prop
  | .polling mutationBusy => mutationBusy = false
  | .holding job | .tookToken job => mutates job = true
  | .stopped held => ∃ job ∈ held, mutates job = true
  | .ready => False

/-- The mutation token that the loop has taken. -/
def LoopPhase.tokens : LoopPhase → ℕ
  | .tookToken _ => 1
  | _ => 0

/-- The goroutines of mutations. -/
def State.mutations (s : State) : List (Job × RunPhase) := s.running.filter fun x => mutates x.1

/-- The goroutines of reads. -/
def State.readers (s : State) : List (Job × RunPhase) := s.running.filter fun x => !mutates x.1

/-- Every goroutine of a mutation has cleared the flag. -/
def State.Idle (s : State) : Prop := ∀ x ∈ s.running, mutates x.1 = true → x.2 = .cleared

/-- The invariant of the loop and its limiter. -/
structure Exclusive (readLimit : ℕ) (s : State) : Prop where
  token : (if s.token then 1 else 0) + s.loop.tokens + s.mutations.length = 1
  reads : s.readers.length = s.reads ∧ s.reads ≤ readLimit
  /-- Only a mutation's goroutine clears the flag. -/
  cleared : ∀ x ∈ s.running, x.2 = .cleared → mutates x.1 = true
  busy : s.mutationBusy = false → s.Idle
  claims : s.loop.MayMutate → s.Idle
  took : ∀ job, s.loop = .tookToken job → mutates job = true

/-- The job of an answer to a poll that sent the flag is a read. -/
theorem Answers.readOnly {job : Job} (h : Answers true job) : isReadOnly job.type = true := by
  obtain ⟨env, w, orgId, hostId, plan, hrun⟩ := h
  have hfirst (waiting : List QueueEntry) (w : World) :
      (JobsQueueService.claimFirst orgId hostId true waiting).wp (alone env fun _ _ => True)
        (fun r _ => ∀ data, r = .ok (some data) → isReadOnly data.type = true) w := by
    induction waiting generalizing w with
    | nil => exact (wp_pure _ _ _).mpr fun data hd => by cases hd
    | cons entry waiting ih =>
      unfold JobsQueueService.claimFirst
      rw [wp_ite]
      split_ifs with hmine
      · have hread : isReadOnly entry.data.type = true := by
          rw [isReadOnly_eq]
          simpa using hmine.2
        refine wp_bind_of alone_monotone (JobsQueueService.claim_spec orgId entry) ?_ ?_
        · rintro a w' (⟨hr, -⟩ | ⟨hr, -⟩)
          · cases hr
            exact ih w'
          · cases hr
            refine (wp_pure _ _ _).mpr fun data hd => ?_
            cases hd
            exact hread
        · rintro e w' (⟨hr, -⟩ | ⟨hr, -⟩)
          · cases hr
          · cases hr
      · exact ih w
  have hget : (JobsQueueService.getNextJobForHost orgId hostId true).wp (alone env fun _ _ => True)
      (fun r _ => ∀ data, r = .ok (some data) → isReadOnly data.type = true) w := by
    unfold JobsQueueService.getNextJobForHost
    rw [wp_bind, wp_request, alone_apply]
    refine ⟨?_, fun _ _ data hd => by cases hd⟩
    rw [exec, andThen_ok]
    exact hfirst _ w
  have hnofault : ∀ f ∈ (JobsQueueService.getNextJobForHost orgId hostId true).faults
      (machine env) plan w, (fun (_ : Stmt) (_ : World) => True) f.1 f.2 := fun _ _ => trivial
  exact run_of_wp hget hnofault job hrun

variable {readLimit : ℕ} {s s' : State} {job : Job} {p p' : RunPhase}
  {l₁ l₂ : List (Job × RunPhase)}

/-- Replacing one goroutine's phase keeps which goroutines are of mutations. -/
theorem filter_replace (q : Job → Bool) :
    ((l₁ ++ (job, p') :: l₂).filter fun x => q x.1).length =
      ((l₁ ++ (job, p) :: l₂).filter fun x => q x.1).length := by
  rw [List.filter_append, List.filter_append, List.filter_cons, List.filter_cons]
  split_ifs <;> simp

/-- The goroutine that is gone is one less of its kind. -/
theorem filter_remove (q : Job → Bool) :
    ((l₁ ++ (job, p) :: l₂).filter fun x => q x.1).length =
      ((l₁ ++ l₂).filter fun x => q x.1).length + if q job then 1 else 0 := by
  rw [List.filter_append, List.filter_append, List.filter_cons]
  split_ifs
  · simp only [List.length_append, List.length_cons]
    omega
  · simp

/-- Where every other mutation has cleared the flag, so has every one after a step of a
goroutine that is not an unfinished mutation's. -/
theorem idle_replace (h : ∀ x ∈ l₁ ++ (job, p) :: l₂, mutates x.1 = true → x.2 = .cleared)
    (hp : mutates job = true → p = .cleared → p' = .cleared) :
    ∀ x ∈ l₁ ++ (job, p') :: l₂, mutates x.1 = true → x.2 = .cleared := by
  intro x hx hm
  rcases List.mem_append.mp hx with hx | hx
  · exact h x (List.mem_append_left _ hx) hm
  · rcases List.mem_cons.mp hx with rfl | hx
    · have hmem : (job, p) ∈ l₁ ++ (job, p) :: l₂ :=
        List.mem_append_right _ List.mem_cons_self
      exact hp hm (h _ hmem hm)
    · exact h x (List.mem_append_right _ (List.mem_cons_of_mem _ hx)) hm

/-- Removing a goroutine keeps what holds of all. -/
theorem mem_of_mem_remove {x : Job × RunPhase} (hx : x ∈ l₁ ++ l₂) :
    x ∈ l₁ ++ (job, p) :: l₂ := by
  rcases List.mem_append.mp hx with hx | hx
  · exact List.mem_append_left _ hx
  · exact List.mem_append_right _ (List.mem_cons_of_mem _ hx)

/-- The agent starts exclusive. -/
theorem Exclusive.initial : Exclusive readLimit .initial where
  token := rfl
  reads := ⟨rfl, Nat.zero_le _⟩
  cleared x hx := by cases hx
  busy _ x hx := by cases hx
  claims h := h.elim
  took job h := by cases h

/-- Every step keeps the limits. -/
theorem Step.exclusive (hs : Step readLimit s s') (h : Exclusive readLimit s) :
    Exclusive readLimit s' := by
  obtain ⟨htoken, hreads, hcleared, hbusy, hclaims, htook⟩ := h
  cases hs with
  | poll hl =>
    rw [hl] at htoken
    exact ⟨htoken, hreads, hcleared, hbusy, hbusy, fun job hj => by cases hj⟩
  | none hl =>
    rw [hl] at htoken
    exact ⟨htoken, hreads, hcleared, hbusy, fun hc => hc.elim, fun job hj => by cases hj⟩
  | @receive mutationBusy job hl ha =>
    rw [hl] at htoken hclaims
    refine ⟨htoken, hreads, hcleared, hbusy, fun hm => hclaims ?_, fun job hj => by cases hj⟩
    -- a mutation is the answer only to a poll that was sent without the flag
    show mutationBusy = false
    by_contra hb
    rw [Bool.not_eq_false] at hb
    subst hb
    have hread := ha.readOnly
    have hmut : mutates job = true := hm
    simp [mutates, hread] at hmut
  | @acquireRead job hl hread hlt =>
    have hm : mutates job = false := by simp [mutates, hread]
    have hidle : s.Idle → ∀ x ∈ s.running ++ [(job, RunPhase.started)], mutates x.1 = true →
        x.2 = .cleared := by
      intro hi x hx hmut
      rcases List.mem_append.mp hx with hx | hx
      · exact hi x hx hmut
      · rw [List.mem_singleton.mp hx, hm] at hmut
        cases hmut
    rw [hl] at htoken
    refine ⟨?_, ?_, ?_, fun hb => hidle (hbusy hb), fun hc => hc.elim, fun job hj => by cases hj⟩
    · have hsame : (s.running ++ [(job, RunPhase.started)]).filter (fun x => mutates x.1) =
          s.mutations := by
        simp [State.mutations, hm]
      show _ + _ + ((s.running ++ [(job, RunPhase.started)]).filter _).length = 1
      rw [hsame]
      exact htoken
    · have hmore : (s.running ++ [(job, RunPhase.started)]).filter (fun x => !mutates x.1) =
          s.readers ++ [(job, .started)] := by
        simp [State.readers, hm]
      show ((s.running ++ [(job, RunPhase.started)]).filter _).length = s.reads + 1 ∧ _
      rw [hmore, List.length_append, hreads.1]
      exact ⟨rfl, hlt⟩
    · intro x hx hc
      rcases List.mem_append.mp hx with hx | hx
      · exact hcleared x hx hc
      · rw [List.mem_singleton.mp hx] at hc
        cases hc
  | @takeToken job hl hread ht =>
    have hm : mutates job = true := by simp [mutates, hread]
    rw [hl] at htoken hclaims
    rw [ht] at htoken
    refine ⟨?_, hreads, hcleared, hbusy, fun _ => hclaims hm, fun job hj => ?_⟩
    · simp only [LoopPhase.tokens, if_true] at htoken
      show 0 + 1 + s.mutations.length = 1
      omega
    · cases hj
      exact hm
  | @startMutation job hl =>
    have hm : mutates job = true := htook job hl
    rw [hl] at htoken
    have hnone : s.mutations.length = 0 := by
      simp only [LoopPhase.tokens] at htoken
      omega
    refine ⟨?_, ?_, ?_, (fun hb => by cases hb), fun hc => hc.elim, fun job hj => by cases hj⟩
    · have hmore : (s.running ++ [(job, RunPhase.started)]).filter (fun x => mutates x.1) =
          s.mutations ++ [(job, .started)] := by
        simp [State.mutations, hm]
      show _ + 0 + ((s.running ++ [(job, RunPhase.started)]).filter _).length = 1
      rw [hmore, List.length_append, hnone]
      simp only [LoopPhase.tokens, hnone] at htoken
      simp only [List.length_singleton]
      omega
    · have hsame : (s.running ++ [(job, RunPhase.started)]).filter (fun x => !mutates x.1) =
          s.readers := by
        simp [State.readers, hm]
      show ((s.running ++ [(job, RunPhase.started)]).filter _).length = s.reads ∧ _
      rw [hsame]
      exact hreads
    · intro x hx hc
      rcases List.mem_append.mp hx with hx | hx
      · exact hcleared x hx hc
      · rw [List.mem_singleton.mp hx] at hc
        cases hc
  | @stopHolding job hl =>
    rw [hl] at htoken hclaims
    refine ⟨htoken, hreads, hcleared, hbusy, fun hc => hclaims ?_, fun job hj => by cases hj⟩
    obtain ⟨job', hjob, hm⟩ := hc
    cases hjob
    exact hm
  | stop hl =>
    have htokens : s.loop.tokens = 0 := by
      rcases hl with hl | ⟨b, hl⟩
      · rw [hl]
        rfl
      · rw [hl]
        rfl
    rw [htokens] at htoken
    refine ⟨htoken, hreads, hcleared, hbusy, fun hc => ?_, fun job hj => by cases hj⟩
    obtain ⟨job, hjob, -⟩ := hc
    cases hjob
  | @run job p p' l₁ l₂ hr hn =>
    have hp : p ≠ .cleared ∧ p' ≠ .cleared := by
      cases p with
      | started => rcases hn with rfl | rfl <;> decide
      | executing => obtain rfl := hn; decide
      | reporting => obtain rfl := hn; decide
      | returned => exact hn.elim
      | cleared => exact hn.elim
    have hidle : s.Idle → ∀ x ∈ l₁ ++ (job, p') :: l₂, mutates x.1 = true → x.2 = .cleared := by
      intro hi
      unfold State.Idle at hi
      rw [hr] at hi
      exact idle_replace hi fun _ hc => absurd hc hp.1
    unfold State.mutations State.readers at *
    rw [hr] at htoken hreads hcleared
    refine ⟨?_, ?_, ?_, fun hb => hidle (hbusy hb), fun hc => hidle (hclaims hc), htook⟩
    · show _ + _ + ((l₁ ++ (job, p') :: l₂).filter _).length = 1
      rw [filter_replace mutates]
      exact htoken
    · show ((l₁ ++ (job, p') :: l₂).filter _).length = s.reads ∧ _
      rw [filter_replace fun job => !mutates job]
      exact hreads
    · intro x hx hc
      rcases List.mem_append.mp hx with hx | hx
      · exact hcleared x (List.mem_append_left _ hx) hc
      · rcases List.mem_cons.mp hx with rfl | hx
        · exact absurd hc hp.2
        · exact hcleared x (List.mem_append_right _ (List.mem_cons_of_mem _ hx)) hc
  | @releaseRead job l₁ l₂ hr hread =>
    have hm : mutates job = false := by simp [mutates, hread]
    have hidle : s.Idle → ∀ x ∈ l₁ ++ l₂, mutates x.1 = true → x.2 = .cleared := by
      intro hi x hx
      exact hi x (by rw [hr]; exact mem_of_mem_remove hx)
    unfold State.mutations State.readers at *
    rw [hr] at htoken hreads hcleared
    rw [filter_remove mutates, hm] at htoken
    rw [filter_remove fun job => !mutates job, hm] at hreads
    simp only [Bool.false_eq_true, if_false, Nat.add_zero, Bool.not_false, if_true] at htoken hreads
    refine ⟨htoken, ?_, fun x hx => hcleared x (mem_of_mem_remove hx), fun hb => hidle (hbusy hb),
      fun hc => hidle (hclaims hc), htook⟩
    show ((l₁ ++ l₂).filter _).length = s.reads - 1 ∧ s.reads - 1 ≤ readLimit
    omega
  | @clearBusy job l₁ l₂ hr hread =>
    have hm : mutates job = true := by simp [mutates, hread]
    unfold State.mutations State.readers at *
    -- the other goroutines are of reads
    have hothers : ∀ x ∈ l₁ ++ l₂, mutates x.1 = false := by
      intro x hx
      by_contra hc
      rw [Bool.not_eq_false] at hc
      have hmem : x ∈ (l₁ ++ l₂).filter fun x => mutates x.1 := List.mem_filter.mpr ⟨hx, hc⟩
      have hpos := List.length_pos_of_mem hmem
      rw [hr, filter_remove mutates, hm, if_pos rfl] at htoken
      omega
    have hidle : ∀ x ∈ l₁ ++ (job, RunPhase.cleared) :: l₂, mutates x.1 = true →
        x.2 = .cleared := by
      intro x hx hmut
      rcases List.mem_append.mp hx with hx | hx
      · rw [hothers x (List.mem_append_left _ hx)] at hmut
        cases hmut
      · rcases List.mem_cons.mp hx with rfl | hx
        · rfl
        · rw [hothers x (List.mem_append_right _ hx)] at hmut
          cases hmut
    rw [hr] at htoken hreads hcleared
    refine ⟨?_, ?_, ?_, fun _ => hidle, fun _ => hidle, htook⟩
    · show _ + _ + ((l₁ ++ (job, RunPhase.cleared) :: l₂).filter _).length = 1
      rw [filter_replace mutates]
      exact htoken
    · show ((l₁ ++ (job, RunPhase.cleared) :: l₂).filter _).length = s.reads ∧ _
      rw [filter_replace fun job => !mutates job]
      exact hreads
    · intro x hx hc
      rcases List.mem_append.mp hx with hx | hx
      · exact hcleared x (List.mem_append_left _ hx) hc
      · rcases List.mem_cons.mp hx with rfl | hx
        · exact hm
        · exact hcleared x (List.mem_append_right _ (List.mem_cons_of_mem _ hx)) hc
  | @returnToken job l₁ l₂ hr =>
    have hm : mutates job = true :=
      hcleared (job, .cleared) (by rw [hr]; exact List.mem_append_right _ List.mem_cons_self) rfl
    have hidle : s.Idle → ∀ x ∈ l₁ ++ l₂, mutates x.1 = true → x.2 = .cleared := by
      intro hi x hx
      exact hi x (by rw [hr]; exact mem_of_mem_remove hx)
    unfold State.mutations State.readers at *
    rw [hr] at htoken hreads hcleared
    rw [filter_remove mutates, hm, if_pos rfl] at htoken
    rw [filter_remove fun job => !mutates job, hm] at hreads
    simp only [Bool.not_true, Bool.false_eq_true, if_false, Nat.add_zero] at hreads
    refine ⟨?_, hreads, fun x hx => hcleared x (mem_of_mem_remove hx), fun hb => hidle (hbusy hb),
      fun hc => hidle (hclaims hc), htook⟩
    show 1 + s.loop.tokens + ((l₁ ++ l₂).filter _).length = 1
    split_ifs at htoken <;> omega

/-- Every reachable state is exclusive. -/
theorem Reachable.exclusive (hr : Reachable readLimit s) : Exclusive readLimit s := by
  induction hr with
  | refl => exact .initial
  | tail _ hs ih => exact hs.exclusive ih

/-- The unfinished jobs of a kind that goroutines run are some of the goroutines of that kind. -/
theorem unfinished_le (running : List (Job × RunPhase)) (q : Job → Bool) :
    (((running.filter fun x => !x.2.finished).map Prod.fst).filter q).length ≤
      (running.filter fun x => q x.1).length := by
  rw [List.filter_map, List.length_map, List.filter_filter, ← List.countP_eq_length_filter,
    ← List.countP_eq_length_filter]
  refine List.countP_mono_left fun x _ hx => ?_
  rw [Bool.and_eq_true] at hx
  exact hx.1

/-- Where every mutation has cleared the flag, none is unfinished. -/
theorem State.Idle.unfinished (h : s.Idle) :
    ((s.running.filter fun x => !x.2.finished).map Prod.fst).filter mutates = [] := by
  rw [List.filter_eq_nil_iff]
  intro job hjob hm
  obtain ⟨x, hx, rfl⟩ := List.mem_map.mp hjob
  obtain ⟨hx, hf⟩ := List.mem_filter.mp hx
  rw [h x hx hm] at hf
  cases hf

/-- At most one job is held by the loop. -/
theorem LoopPhase.held_le (l : LoopPhase) (q : Job → Bool) : (l.held.filter q).length ≤ 1 := by
  have hlen : l.held.length ≤ 1 := by
    cases l with
    | ready | polling _ => exact Nat.zero_le _
    | holding _ | tookToken _ => exact le_rfl
    | stopped held => cases held <;> simp [LoopPhase.held]
  exact (List.length_filter_le _ _).trans hlen

/-- A mutation that the loop holds is one that it may claim. -/
theorem LoopPhase.mayMutate_of_held {l : LoopPhase} (hjob : job ∈ l.held)
    (hm : mutates job = true) : l.MayMutate := by
  cases l with
  | ready | polling _ => cases hjob
  | holding _ | tookToken _ =>
    rw [List.mem_singleton.mp hjob] at hm
    exact hm
  | stopped held => exact ⟨job, Option.mem_toList.mp hjob, hm⟩

/-- A poll that is sent without the flag leaves the loop where its goroutines are. -/
theorem Step.poll_flag (hs : Step readLimit s s') (hl : s.loop = .ready)
    (hl' : s'.loop = .polling false) : s.mutationBusy = false := by
  cases hs with
  | poll _ =>
    cases hb : s.mutationBusy with
    | false => rfl
    | true =>
      rw [hb] at hl'
      cases hl'
  | none h => rw [hl] at h; cases h
  | receive _ h _ => rw [hl] at h; cases h
  | acquireRead h _ _ => rw [hl] at h; cases h
  | takeToken h _ _ => rw [hl] at h; cases h
  | startMutation h => rw [hl] at h; cases h
  | stopHolding h => rw [hl] at h; cases h
  | stop _ => cases hl'
  | run _ _ => rw [hl] at hl'; cases hl'
  | releaseRead _ _ => rw [hl] at hl'; cases hl'
  | clearBusy _ _ => rw [hl] at hl'; cases hl'
  | returnToken _ => rw [hl] at hl'; cases hl'

end Invariant

/-- In every reachable state of the agent: at most one mutation and at most `readLimit + 1` reads
are claimed and unfinished; a poll is sent without the flag only when no mutation's `Execute` is in
progress, and none starts while that poll is in flight; and a mutation that the loop holds finds
every other mutation finished. -/
theorem mutations_exclusive {readLimit : ℕ} {s : State} (hr : Reachable readLimit s) :
    (s.unfinished.filter mutates).length ≤ 1 ∧
    (s.unfinished.filter fun job => !mutates job).length ≤ readLimit + 1 ∧
    (∀ s', Step readLimit s s' → s.loop = .ready → s'.loop = .polling false →
      ∀ x ∈ s.running, mutates x.1 = true → x.2 ≠ .executing) ∧
    (s.loop = .polling false → ∀ x ∈ s.running, mutates x.1 = true → x.2 ≠ .executing) ∧
    (∀ job ∈ s.loop.held, mutates job = true →
      ∀ x ∈ s.running, mutates x.1 = true → x.2.finished = true) := by
  have h := hr.exclusive
  have hnot : s.Idle → ∀ x ∈ s.running, mutates x.1 = true → x.2 ≠ .executing := by
    intro hi x hx hm
    rw [hi x hx hm]
    decide
  refine ⟨?_, ?_, ?_, ?_, ?_⟩
  · rw [State.unfinished, List.filter_append, List.length_append]
    cases hheld : s.loop.held.filter mutates with
    | nil =>
      have hle := unfinished_le s.running mutates
      have htoken := h.token
      unfold State.mutations at htoken
      simp only [List.length_nil]
      omega
    | cons job rest =>
      -- the loop holds a mutation: the others have finished
      obtain ⟨hjob, hm⟩ := List.mem_filter.mp (hheld ▸ List.mem_cons_self : job ∈ _)
      have hidle := h.claims (LoopPhase.mayMutate_of_held hjob hm)
      have hle := s.loop.held_le mutates
      rw [hidle.unfinished, ← hheld]
      simpa using hle
  · rw [State.unfinished, List.filter_append, List.length_append]
    have hle := unfinished_le s.running fun job => !mutates job
    have hheld := s.loop.held_le fun job => !mutates job
    have hreads := h.reads
    unfold State.readers at hreads
    omega
  · intro s' hs hl hl'
    exact hnot (h.busy (hs.poll_flag hl hl'))
  · intro hl
    exact hnot (h.claims (by rw [hl]; rfl))
  · intro job hjob hm x hx hmx
    rw [h.claims (LoopPhase.mayMutate_of_held hjob hm) x hx hmx]
    rfl

/-- A restart of a server of host 0. -/
def restartJob : Job := ⟨7, 7, 0, none, "SERVER_RESTART", [], none⟩

/-- A queue with one job answers a poll with it. -/
theorem answers_restart : Answers false restartJob :=
  ⟨.everyMinute,
    World.initial.enqueue 0 ⟨7, "SERVER_RESTART", restartJob, 0, 3, .exponential 2000⟩, 0, 0, [],
    rfl⟩

/-- A restart is claimed and executing. -/
theorem mutations_exclusive_restart :
    ∃ s, Reachable 8 s ∧ s.running = [(restartJob, .executing)] ∧ s.loop = .ready ∧
      (s.unfinished.filter mutates).length ≤ 1 := by
  have hpoll : Reachable 8 _ := .tail .refl (.poll rfl)
  have hreceive : Reachable 8 _ := .tail hpoll (.receive restartJob rfl answers_restart)
  have htake : Reachable 8 _ := .tail hreceive (.takeToken rfl (by decide) rfl)
  have hstart : Reachable 8 _ := .tail htake (.startMutation rfl)
  have hexec : Reachable 8 ⟨.ready, 0, false, true, [] ++ (restartJob, .executing) :: []⟩ :=
    .tail hstart (.run rfl (.inl rfl))
  exact ⟨_, hexec, rfl, rfl, (mutations_exclusive hexec).1⟩

end Mastermind.Agent
