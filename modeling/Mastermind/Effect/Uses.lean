import Mastermind.Effect.System

/-!
# Programs that use only some statements

`Uses P p` says that every statement of the program satisfies `P`, whatever the answers are. It goes
by the structure of the program, and a monitor that such statements neither trouble nor advance can
skip the program (`Monitor.wp_of_uses`).
-/

namespace Effect

variable {Stmt : Type} {Resp : Stmt → Type} {ε α β γ : Type}

namespace Program

/-- Every statement of the program satisfies `P`. -/
def Uses (P : Stmt → Prop) (p : Program Resp ε α) : Prop :=
  p.wp (usingOnly P) (fun _ _ => True) ()

namespace Uses

variable {P : Stmt → Prop}

theorem request {s : Stmt} (hs : P s) : Uses P (Program.request s : Program Resp ε (Resp s)) :=
  (wp_request _ _ _).mpr ⟨hs, fun _ => trivial, fun _ => trivial⟩

theorem pure (a : α) : Uses P (Pure.pure a : Program Resp ε α) := (wp_pure _ _ _).mpr trivial

theorem throw (e : ε) : Uses P (MonadExcept.throw e : Program Resp ε α) :=
  (wp_throw _ _ _).mpr trivial

theorem bind {p : Program Resp ε α} {f : α → Program Resp ε β} (hp : Uses P p)
    (hf : ∀ a, Uses P (f a)) : Uses P (p >>= f) := by
  unfold Uses
  rw [wp_bind]
  refine wp_mono (usingOnly_monotone P) ?_ hp
  intro r u _
  cases r with
  | ok a => exact hf a
  | error e => exact trivial

theorem tryCatch {p : Program Resp ε α} {h : ε → Program Resp ε α} (hp : Uses P p)
    (hh : ∀ e, Uses P (h e)) : Uses P (MonadExcept.tryCatch p h) := by
  unfold Uses
  rw [wp_tryCatch]
  refine wp_mono (usingOnly_monotone P) ?_ hp
  intro r u _
  cases r with
  | ok a => exact trivial
  | error e => exact hh e

theorem ite {c : Prop} [Decidable c] {p q : Program Resp ε α} (hp : Uses P p) (hq : Uses P q) :
    Uses P (if c then p else q) := by
  split_ifs
  · exact hp
  · exact hq

theorem foldlM {f : β → γ → Program Resp ε β} (hf : ∀ b c, Uses P (f b c)) (l : List γ) (b : β) :
    Uses P (l.foldlM f b) := by
  induction l generalizing b with
  | nil => exact pure b
  | cons c l ih =>
    rw [List.foldlM_cons]
    exact (hf b c).bind fun b' => ih b'

end Uses

end Program

open Program

/-- A program of statements that are allowed and lead nowhere stays in its phase. -/
theorem Monitor.wp_of_uses {Q : Type} (mon : Monitor Resp ε Q) {P : Stmt → Prop}
    {p : Program Resp ε α} (hp : Uses P p) {q : Q}
    (hP : ∀ s, P s → mon.allowed q s ∧ ∀ r, mon.next q s r = q) :
    p.wp mon.requires (fun _ q' => q' = q) q := by
  induction p with
  | ret r => exact (wp_ret _ _ _).mpr rfl
  | call s k ih =>
    obtain ⟨hs, herror, hok⟩ := (wp_call _ _ _ _).mp hp
    obtain ⟨hallowed, hnext⟩ := hP s hs
    refine (wp_call _ _ _ _).mpr ⟨hallowed, fun r _ => ?_⟩
    rw [hnext]
    cases r with
    | ok a => exact ih _ (hok a)
    | error e => exact ih _ (herror e)

/-- Such a program before another one. -/
theorem Monitor.bind_of_uses {Q : Type} (mon : Monitor Resp ε Q) {P : Stmt → Prop}
    {p : Program Resp ε α} {f : α → Program Resp ε β} {R : Except ε β → Q → Prop} {q : Q}
    (hp : Uses P p) (hP : ∀ s, P s → mon.allowed q s ∧ ∀ r, mon.next q s r = q)
    (hf : ∀ a, (f a).wp mon.requires R q) (he : ∀ e, R (.error e) q) :
    (p >>= f).wp mon.requires R q := by
  refine wp_bind_of mon.requires_monotone (mon.wp_of_uses hp hP) ?_ ?_
  · rintro a q' rfl
    exact hf a
  · rintro e q' rfl
    exact he e

/-- A call that is allowed, before more. -/
theorem Monitor.bind_request {Q : Type} (mon : Monitor Resp ε Q) {s : Stmt}
    {f : Resp s → Program Resp ε β} {R : Except ε β → Q → Prop} {q : Q} (hs : mon.allowed q s)
    (hf : ∀ a, mon.possible q s (.ok a) → (f a).wp mon.requires R (mon.next q s (.ok a)))
    (he : ∀ e, R (.error e) (mon.next q s (.error e))) :
    (request s >>= f).wp mon.requires R q := by
  rw [wp_bind, wp_request]
  refine ⟨hs, fun r hr => ?_⟩
  cases r with
  | ok a => exact hf a hr
  | error e => exact he e

section Reaches

variable {Op σ : Type} {sys : System Op Resp ε α σ}
  {cond : List (Event Resp ε σ) → Event Resp ε σ → Prop} {w₀ : σ} {c : Config Op Resp ε α σ}

/-- If the programs of the operations use only some statements, then every call of a thread is one
that its operation may make. -/
theorem Reaches.uses {P : Op → Stmt → Prop} (hP : ∀ op, Uses (P op) (sys.prog op))
    (hr : Reaches sys cond w₀ c) :
    (∀ (i : ℕ) op (p : Program Resp ε α), c.threads[i]? = some (op, p) → Uses (P op) p) ∧
      ∀ e ∈ c.trace, ∀ op (p : Program Resp ε α), c.threads[e.thread]? = some (op, p) →
        P op e.stmt := by
  -- no call is made by a thread that has not started
  suffices h : (∀ (i : ℕ) op (p : Program Resp ε α), c.threads[i]? = some (op, p) → Uses (P op) p) ∧
      (∀ e ∈ c.trace, e.thread < c.threads.length) ∧
      ∀ e ∈ c.trace, ∀ op (p : Program Resp ε α), c.threads[e.thread]? = some (op, p) →
        P op e.stmt from ⟨h.1, h.2.2⟩
  induction hr with
  | init => exact ⟨fun i op p hi => by simp at hi, fun e he => (nomatch he), fun e he => (nomatch he)⟩
  | @start w threads trace op _ ih =>
    obtain ⟨huses, hlt, hcalls⟩ := ih
    refine ⟨fun i op' p hi => ?_, fun e he => ?_, fun e he op' p hi => ?_⟩
    · rw [List.getElem?_append] at hi
      split_ifs at hi with hi'
      · exact huses i op' p hi
      · obtain ⟨rfl, rfl⟩ := Prod.mk.inj (List.mem_singleton.mp (List.mem_of_getElem? hi))
        exact hP _
    · rw [List.length_append]
      exact lt_of_lt_of_le (hlt e he) (Nat.le_add_right _ _)
    · rw [List.getElem?_append_left (hlt e he)] at hi
      exact hcalls e he op' p hi
  | @call w threads trace i op s k r w' _ hi _ _ ih =>
    obtain ⟨huses, hlt, hcalls⟩ := ih
    have hi' : i < threads.length := (List.getElem?_eq_some_iff.mp hi).1
    obtain ⟨hs, herror, hok⟩ := (wp_call _ _ _ _).mp (huses i op _ hi)
    refine ⟨fun j op' p hj => ?_, fun e he => ?_, fun e he op' p hj => ?_⟩
    · by_cases hij : i = j
      · subst hij
        rw [List.getElem?_set_self hi'] at hj
        obtain ⟨rfl, rfl⟩ := Prod.mk.inj (Option.some.inj hj)
        cases r with
        | ok a => exact hok a
        | error e => exact herror e
      · rw [List.getElem?_set_ne hij] at hj
        exact huses j op' p hj
    · rw [List.length_set]
      rcases List.mem_cons.mp he with rfl | he
      · exact hi'
      · exact hlt e he
    · -- a thread keeps its operation
      have hop : ∃ p', threads[e.thread]? = some (op', p') := by
        by_cases hij : i = e.thread
        · rw [← hij, List.getElem?_set_self hi'] at hj
          obtain ⟨rfl, -⟩ := Prod.mk.inj (Option.some.inj hj)
          exact ⟨_, hij ▸ hi⟩
        · rw [List.getElem?_set_ne hij] at hj
          exact ⟨p, hj⟩
      obtain ⟨p', hp'⟩ := hop
      rcases List.mem_cons.mp he with rfl | he
      · obtain ⟨rfl, -⟩ := Prod.mk.inj (Option.some.inj (hi.symm.trans hp'))
        exact hs
      · exact hcalls e he op' p' hp'
  | environment _ _ ih => exact ih

end Reaches

end Effect
