import Mastermind.Effect.Program

/-!
# Systems of operations

A `System` is a machine with the operations that programs run on it, and an environment that may
change the store between them. It has two semantics. In `Runs` the operations run one after the
other, each under a plan of failures, and the history lists the operations done. In `Reaches` any
number of operations run at once, as threads whose calls interleave in any order, and the trace
lists the calls done. Both take a condition on their steps and contain the runs all of whose steps
meet it.

An invariant of `Runs` needs one precondition per operation (`Runs.invariant`). For `Reaches` a
thread cannot rely on what the store was at its previous call. A `Monitor` follows each thread by
the calls that it made and the answers that it got: its phase says which calls the thread may make
next, and which answers the invariant leaves possible. `Reaches.invariant` combines the two: the
threads follow the monitor, because each operation does from its start (a `wp` over phases, with
no store), and every call that the monitor allows keeps the invariant.
-/

namespace Effect

variable {Op : Type} {Stmt : Type} {Resp : Stmt → Type} {ε α σ : Type}

/-- Operations on a shared store. -/
structure System (Op : Type) (Resp : Stmt → Type) (ε α σ : Type) where
  machine : Machine Resp ε σ
  prog : Op → Program Resp ε α
  environment : σ → σ → Prop

section Sequential

/-- An operation that has run, with the stores before and after it. -/
structure Turn (Op ε α σ : Type) where
  op : Op
  before : σ
  result : Except ε α
  after : σ

/-- The turn of `op` from `w` under a plan of failures. -/
def System.turn (sys : System Op Resp ε α σ) (op : Op) (plan : List Bool) (w : σ) :
    Turn Op ε α σ :=
  let done := (sys.prog op).run sys.machine plan w
  ⟨op, w, done.1, done.2.2⟩

/-- The histories and the stores that operations reach from `w₀` when they run one after the other
and every one of them meets the condition. The newest turn is the head of the history. -/
inductive Runs (sys : System Op Resp ε α σ) (cond : Op → List Bool → σ → Prop) (w₀ : σ) :
    List (Turn Op ε α σ) → σ → Prop where
  | init : Runs sys cond w₀ [] w₀
  | turn {h w} (op : Op) (plan : List Bool) :
      Runs sys cond w₀ h w → cond op plan w →
        Runs sys cond w₀ (sys.turn op plan w :: h) (sys.turn op plan w).after
  | environment {h w w'} :
      Runs sys cond w₀ h w → sys.environment w w' → Runs sys cond w₀ h w'

variable {sys : System Op Resp ε α σ} {cond : Op → List Bool → σ → Prop} {w₀ : σ}

/-- What holds initially and is kept by every operation that meets the condition and by the
environment holds of every history and store reached. -/
theorem Runs.invariant {J : List (Turn Op ε α σ) → σ → Prop} (init : J [] w₀)
    (turn : ∀ h w op plan, J h w → cond op plan w →
      J (sys.turn op plan w :: h) (sys.turn op plan w).after)
    (environment : ∀ h w w', J h w → sys.environment w w' → J h w')
    {h : List (Turn Op ε α σ)} {w : σ} (hr : Runs sys cond w₀ h w) : J h w := by
  induction hr with
  | init => exact init
  | turn op plan _ hc ih => exact turn _ _ op plan ih hc
  | environment _ he ih => exact environment _ _ _ ih he

/-- A run under a condition is a run under every weaker one. -/
theorem Runs.mono {cond' : Op → List Bool → σ → Prop}
    (hc : ∀ op plan w, cond op plan w → cond' op plan w) {h : List (Turn Op ε α σ)} {w : σ}
    (hr : Runs sys cond w₀ h w) : Runs sys cond' w₀ h w := by
  induction hr with
  | init => exact .init
  | turn op plan _ hcond ih => exact .turn op plan ih (hc _ _ _ hcond)
  | environment _ he ih => exact .environment ih he

end Sequential

section Interleaved

/-- What can come of a call in the store `w`: the statement is executed, or the call fails. -/
def Machine.Outcome (m : Machine Resp ε σ) (s : Stmt) (w : σ) (r : Except ε (Resp s)) (w' : σ) :
    Prop :=
  (r = (m.exec s w).1 ∧ w' = (m.exec s w).2) ∨
    (m.fallible s = true ∧ r = .error m.fault ∧ w' = w)

/-- A call that a thread has made, with its answer and the stores before and after it. -/
structure Event {Stmt : Type} (Resp : Stmt → Type) (ε σ : Type) where
  thread : ℕ
  stmt : Stmt
  answer : Except ε (Resp stmt)
  before : σ
  after : σ

/-- The store, the threads with what each has left to do, and the calls made, newest first. -/
structure Config (Op : Type) {Stmt : Type} (Resp : Stmt → Type) (ε α σ : Type) where
  store : σ
  threads : List (Op × Program Resp ε α)
  trace : List (Event Resp ε σ)

/-- The configurations that operations reach from the store `w₀` when they interleave and every
call made meets the condition, which may look at the trace before it. -/
inductive Reaches (sys : System Op Resp ε α σ)
    (cond : List (Event Resp ε σ) → Event Resp ε σ → Prop) (w₀ : σ) :
    Config Op Resp ε α σ → Prop where
  | init : Reaches sys cond w₀ ⟨w₀, [], []⟩
  | start {w threads trace} (op : Op) :
      Reaches sys cond w₀ ⟨w, threads, trace⟩ →
        Reaches sys cond w₀ ⟨w, threads ++ [(op, sys.prog op)], trace⟩
  | call {w threads trace} (i : ℕ) {op s k r w'} :
      Reaches sys cond w₀ ⟨w, threads, trace⟩ → threads[i]? = some (op, .call s k) →
        sys.machine.Outcome s w r w' → cond trace ⟨i, s, r, w, w'⟩ →
        Reaches sys cond w₀ ⟨w', threads.set i (op, k r), ⟨i, s, r, w, w'⟩ :: trace⟩
  | environment {w threads trace w'} :
      Reaches sys cond w₀ ⟨w, threads, trace⟩ → sys.environment w w' →
        Reaches sys cond w₀ ⟨w', threads, trace⟩

/-- A monitor of single threads. -/
structure Monitor {Stmt : Type} (Resp : Stmt → Type) (ε Q : Type) where
  start : Q
  allowed : Q → Stmt → Prop
  possible : Q → (s : Stmt) → Except ε (Resp s) → Prop
  next : Q → (s : Stmt) → Except ε (Resp s) → Q

namespace Monitor

variable {Q : Type} (mon : Monitor Resp ε Q)

/-- A call must be allowed, and every possible answer to it must satisfy the condition. -/
def requires : Transformer Resp ε Q :=
  fun s K q => mon.allowed q s ∧ ∀ r, mon.possible q s r → K r (mon.next q s r)

theorem requires_monotone : mon.requires.Monotone := by
  intro s K K' q hK h
  exact ⟨h.1, fun r hr => hK _ _ (h.2 r hr)⟩

/-- The phase of a thread after the calls of a trace. -/
def phase : List (Event Resp ε σ) → ℕ → Q
  | [], _ => mon.start
  | e :: trace, i =>
    if e.thread = i then mon.next (phase trace i) e.stmt e.answer else phase trace i

@[simp] theorem phase_nil (i : ℕ) : mon.phase ([] : List (Event Resp ε σ)) i = mon.start := rfl

theorem phase_cons_self {i : ℕ} {s : Stmt} {r : Except ε (Resp s)} {w w' : σ}
    {trace : List (Event Resp ε σ)} :
    mon.phase (⟨i, s, r, w, w'⟩ :: trace) i = mon.next (mon.phase trace i) s r := by
  simp [phase]

theorem phase_cons_of_ne {e : Event Resp ε σ} {trace : List (Event Resp ε σ)} {i : ℕ}
    (h : e.thread ≠ i) : mon.phase (e :: trace) i = mon.phase trace i := by
  simp [phase, h]

end Monitor

/-- What carries an invariant `J` of traces and stores through every interleaving. -/
structure Keeps {Q : Type} (sys : System Op Resp ε α σ)
    (cond : List (Event Resp ε σ) → Event Resp ε σ → Prop) (mon : Monitor Resp ε Q)
    (finish : Except ε α → Q → Prop) (J : List (Event Resp ε σ) → σ → Prop) : Prop where
  /-- Every operation follows the monitor from its start and finishes as `finish` says. -/
  follows : ∀ op, (sys.prog op).wp mon.requires finish mon.start
  /-- A call that the monitor allows has an answer that it holds possible, and keeps `J`. -/
  call : ∀ trace i s r w w', J trace w → mon.allowed (mon.phase trace i) s →
    sys.machine.Outcome s w r w' → cond trace ⟨i, s, r, w, w'⟩ →
    mon.possible (mon.phase trace i) s r ∧ J (⟨i, s, r, w, w'⟩ :: trace) w'
  /-- The environment keeps `J`. -/
  environment : ∀ trace w w', J trace w → sys.environment w w' → J trace w'

/-- In every configuration reached the invariant holds, and every thread follows the monitor from
its phase on. -/
theorem Reaches.invariant {Q : Type} {sys : System Op Resp ε α σ}
    {cond : List (Event Resp ε σ) → Event Resp ε σ → Prop} {mon : Monitor Resp ε Q}
    {finish : Except ε α → Q → Prop} {J : List (Event Resp ε σ) → σ → Prop}
    (hk : Keeps sys cond mon finish J) {w₀ : σ} (init : J [] w₀) {c : Config Op Resp ε α σ}
    (hr : Reaches sys cond w₀ c) :
    J c.trace c.store ∧ ∀ i op (p : Program Resp ε α), c.threads[i]? = some (op, p) →
      p.wp mon.requires finish (mon.phase c.trace i) := by
  -- the threads that have not started are in the start phase
  suffices h : J c.trace c.store ∧
      (∀ i op (p : Program Resp ε α), c.threads[i]? = some (op, p) →
        p.wp mon.requires finish (mon.phase c.trace i)) ∧
      ∀ i, c.threads.length ≤ i → mon.phase c.trace i = mon.start from ⟨h.1, h.2.1⟩
  induction hr with
  | init => exact ⟨init, fun i op p hi => by simp at hi, fun i _ => rfl⟩
  | @start w threads trace op _ ih =>
    obtain ⟨hJ, hthreads, hnew⟩ := ih
    refine ⟨hJ, ?_, ?_⟩
    · intro i op' p hi
      rcases Nat.lt_trichotomy i threads.length with hlt | rfl | hgt
      · rw [List.getElem?_append_left hlt] at hi
        exact hthreads i op' p hi
      · rw [List.getElem?_concat_length] at hi
        obtain ⟨rfl, rfl⟩ := Prod.mk.inj (Option.some.inj hi)
        rw [hnew _ le_rfl]
        exact hk.follows op
      · have hlen : (threads ++ [(op, sys.prog op)]).length ≤ i := by simp; omega
        rw [List.getElem?_eq_none hlen] at hi
        cases hi
    · intro i hi
      rw [List.length_append] at hi
      exact hnew i (le_trans (Nat.le_add_right _ _) hi)
  | @call w threads trace i op s k r w' _ hi hout hc ih =>
    obtain ⟨hJ, hthreads, hnew⟩ := ih
    have hp := (Program.wp_call _ _ _ _).mp (hthreads i op _ hi)
    obtain ⟨hposs, hJ'⟩ := hk.call trace i s r w w' hJ hp.1 hout hc
    have hlt : i < threads.length := (List.getElem?_eq_some_iff.mp hi).1
    refine ⟨hJ', ?_, ?_⟩
    · intro j op' p hj
      by_cases hij : i = j
      · subst hij
        rw [List.getElem?_set_self hlt] at hj
        obtain ⟨rfl, rfl⟩ := Prod.mk.inj (Option.some.inj hj)
        rw [mon.phase_cons_self]
        exact hp.2 r hposs
      · rw [List.getElem?_set_ne hij] at hj
        rw [mon.phase_cons_of_ne hij]
        exact hthreads j op' p hj
    · intro j hj
      rw [List.length_set] at hj
      have hij : i ≠ j := by omega
      rw [mon.phase_cons_of_ne hij]
      exact hnew j hj
  | environment _ he ih => exact ⟨hk.environment _ _ _ ih.1 he, ih.2⟩

/-- Every call that was made was allowed in its thread's phase, and its answer was possible. -/
def Monitor.Obeyed {Q : Type} (mon : Monitor Resp ε Q) (trace : List (Event Resp ε σ)) : Prop :=
  ∀ later e earlier, trace = later ++ e :: earlier →
    mon.allowed (mon.phase earlier e.thread) e.stmt ∧
      mon.possible (mon.phase earlier e.thread) e.stmt e.answer

/-- What was obeyed and is obeyed by one more call. -/
theorem Monitor.Obeyed.cons {Q : Type} {mon : Monitor Resp ε Q} {trace : List (Event Resp ε σ)}
    (h : mon.Obeyed trace) {e : Event Resp ε σ} (ha : mon.allowed (mon.phase trace e.thread) e.stmt)
    (hp : mon.possible (mon.phase trace e.thread) e.stmt e.answer) : mon.Obeyed (e :: trace) := by
  intro later x earlier hsplit
  cases later with
  | nil =>
    obtain ⟨rfl, rfl⟩ := List.cons.inj hsplit
    exact ⟨ha, hp⟩
  | cons y later => exact h later x earlier (List.cons.inj hsplit).2

/-- In every configuration reached the threads have obeyed the monitor. -/
theorem Reaches.obeyed {Q : Type} {sys : System Op Resp ε α σ}
    {cond : List (Event Resp ε σ) → Event Resp ε σ → Prop} {mon : Monitor Resp ε Q}
    {finish : Except ε α → Q → Prop} {J : List (Event Resp ε σ) → σ → Prop}
    (hk : Keeps sys cond mon finish J) {w₀ : σ} (init : J [] w₀) {c : Config Op Resp ε α σ}
    (hr : Reaches sys cond w₀ c) : mon.Obeyed c.trace := by
  have hk' : Keeps sys cond mon finish fun trace w => J trace w ∧ mon.Obeyed trace := by
    refine ⟨hk.follows, fun trace i s r w w' hJ ha hout hc => ?_, fun trace w w' hJ he => ?_⟩
    · obtain ⟨hp, hJ'⟩ := hk.call trace i s r w w' hJ.1 ha hout hc
      exact ⟨hp, hJ', hJ.2.cons ha hp⟩
    · exact ⟨hk.environment trace w w' hJ.1 he, hJ.2⟩
  have hnil : mon.Obeyed ([] : List (Event Resp ε σ)) := by
    intro later e earlier hsplit
    cases later <;> cases hsplit
  exact (hr.invariant hk' ⟨init, hnil⟩).1.2

end Interleaved

end Effect
