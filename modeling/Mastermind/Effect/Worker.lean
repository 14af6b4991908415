import Mastermind.Effect.System

/-!
# A worker in a changing environment

A worker runs operations one after the other and keeps a state of its own between them. While it
runs, others change the store: before every call, and between two operations, the environment may
act. `Works` is the configurations that a worker reaches, with the calls that it made.

A precondition for a worker's program must bear the environment: `amid` requires of a call that
its outcomes satisfy the condition whatever the environment did just before it.
`Works.invariant` then needs, for an invariant `I` of the worker's state, the calls made and the
store, that the environment keeps `I` and that every operation ends with `I` if it starts with it.
-/

namespace Effect

variable {Op : Type} {Stmt : Type} {Resp : Stmt → Type} {ε S α σ : Type}

/-- What a worker is doing, the store, and the calls that it has made, newest first. A worker
between two operations has its state as the result. -/
structure Worker {Stmt : Type} (Resp : Stmt → Type) (ε S σ : Type) where
  doing : Program Resp ε S
  store : σ
  trace : List (Event Resp ε σ)

/-- The configurations of a worker that starts in the state `s₀` over the store `w₀`, where every
call meets `cond` and the environment acts as `env` says, both of which may look at the calls
made. -/
inductive Works (m : Machine Resp ε σ) (prog : Op → S → Program Resp ε S)
    (env : List (Event Resp ε σ) → σ → σ → Prop)
    (cond : List (Event Resp ε σ) → Event Resp ε σ → Prop) (s₀ : S) (w₀ : σ) :
    Worker Resp ε S σ → Prop where
  | init : Works m prog env cond s₀ w₀ ⟨.ret (.ok s₀), w₀, []⟩
  | start {s w trace} (op : Op) :
      Works m prog env cond s₀ w₀ ⟨.ret (.ok s), w, trace⟩ →
        Works m prog env cond s₀ w₀ ⟨prog op s, w, trace⟩
  | call {s k w trace r w'} :
      Works m prog env cond s₀ w₀ ⟨.call s k, w, trace⟩ → m.Outcome s w r w' →
        cond trace ⟨0, s, r, w, w'⟩ →
        Works m prog env cond s₀ w₀ ⟨k r, w', ⟨0, s, r, w, w'⟩ :: trace⟩
  | environment {p w trace w'} :
      Works m prog env cond s₀ w₀ ⟨p, w, trace⟩ → env trace w w' →
        Works m prog env cond s₀ w₀ ⟨p, w', trace⟩

/-- What a call requires amid the environment, of the calls made and the store: whatever the
environment does before it, each outcome that meets `cond` satisfies the condition. -/
def amid (m : Machine Resp ε σ) (env : List (Event Resp ε σ) → σ → σ → Prop)
    (cond : List (Event Resp ε σ) → Event Resp ε σ → Prop) :
    Transformer Resp ε (List (Event Resp ε σ) × σ) := fun s K x =>
  ∀ w, Relation.ReflTransGen (env x.1) x.2 w → ∀ r w', m.Outcome s w r w' →
    cond x.1 ⟨0, s, r, w, w'⟩ → K r (⟨0, s, r, w, w'⟩ :: x.1, w')

section Rules

variable {m : Machine Resp ε σ} {prog : Op → S → Program Resp ε S}
  {env : List (Event Resp ε σ) → σ → σ → Prop}
  {cond : List (Event Resp ε σ) → Event Resp ε σ → Prop} {s₀ : S} {w₀ : σ}

theorem amid_monotone : (amid m env cond).Monotone := by
  intro s K K' x hK h w hw r w' ho hc
  exact hK _ _ (h w hw r w' ho hc)

/-- A precondition amid the environment bears what the environment does. -/
theorem wp_amid_environment {p : Program Resp ε α}
    {Q : Except ε α → List (Event Resp ε σ) × σ → Prop} {trace : List (Event Resp ε σ)} {w w' : σ}
    (hQ : ∀ r, Q r (trace, w) → Q r (trace, w')) (he : env trace w w')
    (h : p.wp (amid m env cond) Q (trace, w)) : p.wp (amid m env cond) Q (trace, w') := by
  cases p with
  | ret r =>
    rw [Program.wp_ret] at h ⊢
    exact hQ r h
  | call s k =>
    rw [Program.wp_call] at h ⊢
    intro w₁ hw
    exact h w₁ (.head he hw)

/-- The program that sends one statement and returns its answer, an error too. -/
def Program.attempt (s : Stmt) : Program Resp ε (Except ε (Resp s)) :=
  .call s fun r => .ret (.ok r)

@[simp] theorem Program.wp_attempt {t : Transformer Resp ε σ} (s : Stmt)
    (Q : Except ε (Except ε (Resp s)) → σ → Prop) (w : σ) :
    (Program.attempt s : Program Resp ε _).wp t Q w ↔ t s (fun r => Q (.ok r)) w := by
  rw [Program.attempt, Program.wp_call]
  have hk : (fun r w' => (Program.ret (.ok r) : Program Resp ε _).wp t Q w') =
      fun r => Q (.ok r) :=
    funext₂ fun r w' => propext (Program.wp_pure r Q w')
  rw [hk]

/-- Whatever a worker that keeps the invariant does, it ends its operation with the invariant. -/
theorem Works.invariant {I : S → List (Event Resp ε σ) → σ → Prop} (init : I s₀ [] w₀)
    (environment : ∀ s trace w w', I s trace w → env trace w w' → I s trace w')
    (operation : ∀ op s trace w, I s trace w → (prog op s).wp (amid m env cond)
      (fun r x => ∃ s', r = .ok s' ∧ I s' x.1 x.2) (trace, w))
    {c : Worker Resp ε S σ} (hr : Works m prog env cond s₀ w₀ c) :
    c.doing.wp (amid m env cond) (fun r x => ∃ s', r = .ok s' ∧ I s' x.1 x.2)
      (c.trace, c.store) := by
  induction hr with
  | init => exact (Program.wp_pure _ _ _).mpr ⟨s₀, rfl, init⟩
  | start op _ ih =>
    obtain ⟨s', hs, hI⟩ := (Program.wp_pure _ _ _).mp ih
    cases hs
    exact operation op _ _ _ hI
  | call _ ho hc ih => exact (Program.wp_call _ _ _ _).mp ih _ .refl _ _ ho hc
  | environment _ he ih =>
    refine wp_amid_environment ?_ he ih
    rintro r ⟨s', rfl, hI⟩
    exact ⟨s', rfl, environment _ _ _ _ hI he⟩

/-- The state of a worker between two operations satisfies the invariant. -/
theorem Works.idle {I : S → List (Event Resp ε σ) → σ → Prop} (init : I s₀ [] w₀)
    (environment : ∀ s trace w w', I s trace w → env trace w w' → I s trace w')
    (operation : ∀ op s trace w, I s trace w → (prog op s).wp (amid m env cond)
      (fun r x => ∃ s', r = .ok s' ∧ I s' x.1 x.2) (trace, w))
    {r : Except ε S} {w : σ} {trace : List (Event Resp ε σ)}
    (hr : Works m prog env cond s₀ w₀ ⟨.ret r, w, trace⟩) : ∃ s, r = .ok s ∧ I s trace w :=
  (Program.wp_ret _ _ _).mp (Works.invariant init environment operation hr)

end Rules

section Scripts

variable (m : Machine Resp ε σ)

/-- The calls that a program makes when it runs alone under a plan, newest first, on top of those
already made. -/
def Program.events : Program Resp ε α → List Bool → σ → List (Event Resp ε σ) →
    List (Event Resp ε σ)
  | ret _, _, _, trace => trace
  | call s k, plan, w, trace =>
    if m.fallible s then
      if plan.headD false then
        (k (.error m.fault)).events plan.tail w (⟨0, s, .error m.fault, w, w⟩ :: trace)
      else (k (m.exec s w).1).events plan.tail (m.exec s w).2
        (⟨0, s, (m.exec s w).1, w, (m.exec s w).2⟩ :: trace)
    else (k (m.exec s w).1).events plan (m.exec s w).2
      (⟨0, s, (m.exec s w).1, w, (m.exec s w).2⟩ :: trace)

variable {m} {prog : Op → S → Program Resp ε S} {env : List (Event Resp ε σ) → σ → σ → Prop}
  {cond : List (Event Resp ε σ) → Event Resp ε σ → Prop} {s₀ : S} {w₀ : σ}

/-- The calls already made stay in the trace. -/
theorem Program.mem_events {p : Program Resp ε S} {plan : List Bool} {w : σ}
    {trace : List (Event Resp ε σ)} {e : Event Resp ε σ} (he : e ∈ trace) :
    e ∈ p.events m plan w trace := by
  induction p generalizing plan w trace with
  | ret r => exact he
  | call s k ih =>
    unfold events
    split_ifs
    all_goals exact ih _ (List.mem_cons_of_mem _ he)

/-- A worker may run its program under any plan of failures whose calls meet the condition, while
the environment does nothing. -/
theorem Works.alone {p : Program Resp ε S} {w : σ} {trace : List (Event Resp ε σ)}
    (plan : List Bool) (hc : ∀ older, ∀ e ∈ p.events m plan w trace, cond older e)
    (h : Works m prog env cond s₀ w₀ ⟨p, w, trace⟩) :
    Works m prog env cond s₀ w₀
      ⟨.ret (p.run m plan w).1, (p.run m plan w).2.2, p.events m plan w trace⟩ := by
  induction p generalizing plan w trace with
  | ret r => exact h
  | call s k ih =>
    unfold Program.run
    unfold Program.events at hc ⊢
    split_ifs at hc ⊢ with hs hp
    · have hnew := hc trace _ (Program.mem_events List.mem_cons_self)
      exact ih _ _ hc (.call h (.inr ⟨hs, rfl, rfl⟩) hnew)
    · have hnew := hc trace _ (Program.mem_events List.mem_cons_self)
      exact ih _ _ hc (.call h (.inl ⟨rfl, rfl⟩) hnew)
    · have hnew := hc trace _ (Program.mem_events List.mem_cons_self)
      exact ih _ _ hc (.call h (.inl ⟨rfl, rfl⟩) hnew)

/-- Where every call can fail, a worker may end its operation at any point with calls that all
fail. -/
theorem Works.abandon {p : Program Resp ε S} {w : σ} {trace : List (Event Resp ε σ)}
    (hf : ∀ s, m.fallible s = true) (hc : ∀ trace e, cond trace e)
    (h : Works m prog env cond s₀ w₀ ⟨p, w, trace⟩) :
    ∃ r failed, (∀ e ∈ failed, e.answer = .error m.fault) ∧
      Works m prog env cond s₀ w₀ ⟨.ret r, w, failed ++ trace⟩ := by
  induction p generalizing trace with
  | ret r => exact ⟨r, [], by simp, h⟩
  | call s k ih =>
    have hcall := Works.call h (.inr ⟨hf s, rfl, rfl⟩) (hc _ _)
    obtain ⟨r, failed, hfailed, hw⟩ := ih _ hcall
    refine ⟨r, failed ++ [⟨0, s, .error m.fault, w, w⟩], ?_, ?_⟩
    · intro e he
      rcases List.mem_append.mp he with he | he
      · exact hfailed e he
      · rw [List.mem_singleton.mp he]
    · rw [List.append_assoc]
      exact hw

/-- What a worker leaves when it runs operations under plans of failures, alone. -/
def script (m : Machine Resp ε σ) (prog : Op → S → Program Resp ε S) :
    List (Op × List Bool) → S → σ → List (Event Resp ε σ) →
      Except ε S × σ × List (Event Resp ε σ)
  | [], s, w, trace => (.ok s, w, trace)
  | (op, plan) :: ops, s, w, trace =>
    match ((prog op s).run m plan w).1 with
    | .error e =>
      (.error e, ((prog op s).run m plan w).2.2, (prog op s).events m plan w trace)
    | .ok s' => script m prog ops s' ((prog op s).run m plan w).2.2
      ((prog op s).events m plan w trace)

/-- The calls already made stay in the trace. -/
theorem mem_script {ops : List (Op × List Bool)} {s : S} {w : σ}
    {trace : List (Event Resp ε σ)} {e : Event Resp ε σ} (he : e ∈ trace) :
    e ∈ (script m prog ops s w trace).2.2 := by
  induction ops generalizing s w trace with
  | nil => exact he
  | cons o ops ih =>
    unfold script
    split
    · exact Program.mem_events he
    · exact ih (Program.mem_events he)

/-- A worker may run operations alone, if their calls meet the condition. -/
theorem Works.script (ops : List (Op × List Bool)) {s : S} {w : σ}
    {trace : List (Event Resp ε σ)}
    (hc : ∀ older, ∀ e ∈ (script m prog ops s w trace).2.2, cond older e)
    (h : Works m prog env cond s₀ w₀ ⟨.ret (.ok s), w, trace⟩) :
    Works m prog env cond s₀ w₀ ⟨.ret (script m prog ops s w trace).1,
      (script m prog ops s w trace).2.1, (script m prog ops s w trace).2.2⟩ := by
  induction ops generalizing s w trace with
  | nil => exact h
  | cons o ops ih =>
    obtain ⟨op, plan⟩ := o
    unfold Effect.script at hc ⊢
    cases hr : ((prog op s).run m plan w).1 with
    | error e =>
      simp only [hr] at hc ⊢
      have halone := Works.alone plan hc (.start op h)
      rw [hr] at halone
      exact halone
    | ok s' =>
      simp only [hr] at hc ⊢
      have halone := Works.alone plan (fun older e he => hc older e (mem_script he)) (.start op h)
      rw [hr] at halone
      exact ih hc halone

end Scripts

end Effect
