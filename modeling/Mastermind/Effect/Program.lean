import Mathlib

/-!
# Programs of atomic statements

A service that keeps its data in a shared store is, seen from the store, a sequence of statements:
it sends one, waits for the answer, and decides on the next. `Program` is such a sequence as a
tree: `call s k` sends the statement `s` and continues with `k` on its answer, which is either the
statement's response or an error, and `ret r` ends with the result or the error `r`. An error that
no `tryCatch` handles ends the program, as an exception does.

A `Machine` says what each statement does to the store, and which calls can fail. `run` executes a
program alone under a plan that says which of its calls do fail. `wp` is the weakest precondition
of a program, given what every statement requires (a `Transformer`). Two transformers are used:
`Machine.requires`, for a program that runs alone (`run_of_wp`), and that of a monitor, for a
program that runs among others (`Effect/System.lean`).
-/

namespace Effect

variable {Stmt : Type} {Resp : Stmt → Type} {ε σ α β : Type}

/-- A program over statements `s : Stmt` that answer with a `Resp s`, which ends with an `α` or an
error. -/
inductive Program (Resp : Stmt → Type) (ε α : Type) where
  | ret (r : Except ε α)
  | call (s : Stmt) (k : Except ε (Resp s) → Program Resp ε α)

namespace Program

/-- Sequential composition. An error skips the rest. -/
def bind : Program Resp ε α → (α → Program Resp ε β) → Program Resp ε β
  | ret (.ok a), f => f a
  | ret (.error e), _ => ret (.error e)
  | call s k, f => call s fun r => (k r).bind f

/-- `p` with the handler `h` for the error that it ends with, if it ends with one. -/
def handle : Program Resp ε α → (ε → Program Resp ε α) → Program Resp ε α
  | ret (.ok a), _ => ret (.ok a)
  | ret (.error e), h => h e
  | call s k, h => call s fun r => (k r).handle h

instance : Monad (Program Resp ε) where
  pure a := ret (.ok a)
  bind := bind

instance : MonadExceptOf ε (Program Resp ε) where
  throw e := ret (.error e)
  tryCatch := handle

/-- The program that sends one statement and returns its response. -/
def request (s : Stmt) : Program Resp ε (Resp s) := call s ret

end Program

/-- What each statement does to the store, which calls can fail, and the error that a failed call
raises. A failed call leaves the store as it was. -/
structure Machine (Resp : Stmt → Type) (ε σ : Type) where
  exec : (s : Stmt) → σ → Except ε (Resp s) × σ
  fallible : Stmt → Bool
  fault : ε

/-- What a call of `s` requires of the state for every one of its outcomes to satisfy a
condition. -/
abbrev Transformer (Resp : Stmt → Type) (ε σ : Type) :=
  (s : Stmt) → (Except ε (Resp s) → σ → Prop) → σ → Prop

/-- A weaker condition on the outcomes requires less. -/
def Transformer.Monotone (t : Transformer Resp ε σ) : Prop :=
  ∀ s K K' w, (∀ r w', K r w' → K' r w') → t s K w → t s K' w

/-- A call on the machine requires the condition of what the statement does, and of the failure if
`may` allows one. -/
def Machine.requires (m : Machine Resp ε σ) (may : Stmt → σ → Prop) : Transformer Resp ε σ :=
  fun s K w => K (m.exec s w).1 (m.exec s w).2 ∧
    (m.fallible s = true → may s w → K (.error m.fault) w)

theorem Machine.requires_monotone (m : Machine Resp ε σ) (may : Stmt → σ → Prop) :
    (m.requires may).Monotone := by
  intro s K K' w hK h
  exact ⟨hK _ _ h.1, fun hf hm => hK _ _ (h.2 hf hm)⟩

namespace Program

section Run

variable (m : Machine Resp ε σ)

/-- Executes a program alone. The plan says, call by call, whether a call that can fail does; the
calls past its end do not. The plan's unused part is returned with the result and the store. -/
def run : Program Resp ε α → List Bool → σ → Except ε α × List Bool × σ
  | ret r, plan, w => (r, plan, w)
  | call s k, plan, w =>
    if m.fallible s then
      if plan.headD false then (k (.error m.fault)).run plan.tail w
      else (k (m.exec s w).1).run plan.tail (m.exec s w).2
    else (k (m.exec s w).1).run plan (m.exec s w).2

/-- The calls that fail in `run`, each with the store in which it does. -/
def faults : Program Resp ε α → List Bool → σ → List (Stmt × σ)
  | ret _, _, _ => []
  | call s k, plan, w =>
    if m.fallible s then
      if plan.headD false then (s, w) :: (k (.error m.fault)).faults plan.tail w
      else (k (m.exec s w).1).faults plan.tail (m.exec s w).2
    else (k (m.exec s w).1).faults plan (m.exec s w).2

/-- The result of a program none of whose calls fails. -/
def result (p : Program Resp ε α) (w : σ) : Except ε α := (p.run m [] w).1

/-- The store that a program leaves when none of its calls fails. -/
def after (p : Program Resp ε α) (w : σ) : σ := (p.run m [] w).2.2

/-- Under the empty plan no call fails. -/
theorem faults_nil (p : Program Resp ε α) (w : σ) : p.faults m [] w = [] := by
  induction p generalizing w with
  | ret r => rfl
  | call s k ih => simp [faults, ih]

end Run

/-- The weakest precondition of `Q`, where `t` says what each call requires. -/
def wp (t : Transformer Resp ε σ) :
    Program Resp ε α → (Except ε α → σ → Prop) → σ → Prop
  | ret r, Q, w => Q r w
  | call s k, Q, w => t s (fun r w' => (k r).wp t Q w') w

/-- The postcondition that `p` has to establish for `p >>= f` to establish `Q`. -/
def andThen (t : Transformer Resp ε σ) (f : α → Program Resp ε β) (Q : Except ε β → σ → Prop) :
    Except ε α → σ → Prop
  | .ok a, w => (f a).wp t Q w
  | .error e, w => Q (.error e) w

/-- The postcondition that `p` has to establish for `p` with the handler `h` to establish `Q`. -/
def orElse (t : Transformer Resp ε σ) (h : ε → Program Resp ε α) (Q : Except ε α → σ → Prop) :
    Except ε α → σ → Prop
  | .ok a, w => Q (.ok a) w
  | .error e, w => (h e).wp t Q w

section Rules

variable {t : Transformer Resp ε σ}

@[simp] theorem andThen_ok (f : α → Program Resp ε β) (Q : Except ε β → σ → Prop) (a : α) (w : σ) :
    andThen t f Q (.ok a) w ↔ (f a).wp t Q w := Iff.rfl

@[simp] theorem andThen_error (f : α → Program Resp ε β) (Q : Except ε β → σ → Prop) (e : ε)
    (w : σ) : andThen t f Q (.error e) w ↔ Q (.error e) w := Iff.rfl

@[simp] theorem orElse_ok (h : ε → Program Resp ε α) (Q : Except ε α → σ → Prop) (a : α) (w : σ) :
    orElse t h Q (.ok a) w ↔ Q (.ok a) w := Iff.rfl

@[simp] theorem orElse_error (h : ε → Program Resp ε α) (Q : Except ε α → σ → Prop) (e : ε)
    (w : σ) : orElse t h Q (.error e) w ↔ (h e).wp t Q w := Iff.rfl

@[simp] theorem wp_pure (a : α) (Q : Except ε α → σ → Prop) (w : σ) :
    (pure a : Program Resp ε α).wp t Q w ↔ Q (.ok a) w := Iff.rfl

@[simp] theorem wp_throw (e : ε) (Q : Except ε α → σ → Prop) (w : σ) :
    (throw e : Program Resp ε α).wp t Q w ↔ Q (.error e) w := Iff.rfl

theorem wp_ret (r : Except ε α) (Q : Except ε α → σ → Prop) (w : σ) :
    (ret r : Program Resp ε α).wp t Q w ↔ Q r w := Iff.rfl

theorem wp_call (s : Stmt) (k : Except ε (Resp s) → Program Resp ε α)
    (Q : Except ε α → σ → Prop) (w : σ) :
    (call s k).wp t Q w ↔ t s (fun r w' => (k r).wp t Q w') w := Iff.rfl

@[simp] theorem wp_request (s : Stmt) (Q : Except ε (Resp s) → σ → Prop) (w : σ) :
    (request s : Program Resp ε (Resp s)).wp t Q w ↔ t s Q w := Iff.rfl

@[simp] theorem wp_bind (p : Program Resp ε α) (f : α → Program Resp ε β)
    (Q : Except ε β → σ → Prop) (w : σ) : (p >>= f).wp t Q w ↔ p.wp t (andThen t f Q) w := by
  induction p generalizing w with
  | ret r => cases r <;> exact Iff.rfl
  | call s k ih =>
    have hk : (fun r w' => ((k r).bind f).wp t Q w') =
        fun r w' => (k r).wp t (andThen t f Q) w' := funext₂ fun r w' => propext (ih r w')
    show t s (fun r w' => ((k r).bind f).wp t Q w') w ↔ _
    rw [hk]
    exact Iff.rfl

@[simp] theorem wp_tryCatch (p : Program Resp ε α) (h : ε → Program Resp ε α)
    (Q : Except ε α → σ → Prop) (w : σ) : (tryCatch p h).wp t Q w ↔ p.wp t (orElse t h Q) w := by
  induction p generalizing w with
  | ret r => cases r <;> exact Iff.rfl
  | call s k ih =>
    have hk : (fun r w' => ((k r).handle h).wp t Q w') =
        fun r w' => (k r).wp t (orElse t h Q) w' := funext₂ fun r w' => propext (ih r w')
    show t s (fun r w' => ((k r).handle h).wp t Q w') w ↔ _
    rw [hk]
    exact Iff.rfl

@[simp] theorem wp_ite (c : Prop) [Decidable c] (p q : Program Resp ε α)
    (Q : Except ε α → σ → Prop) (w : σ) :
    (if c then p else q).wp t Q w ↔ if c then p.wp t Q w else q.wp t Q w := by
  split_ifs <;> exact Iff.rfl

/-- A stronger postcondition has a stronger precondition. -/
theorem wp_mono (ht : t.Monotone) {p : Program Resp ε α} {Q Q' : Except ε α → σ → Prop} {w : σ}
    (hQ : ∀ r w', Q r w' → Q' r w') (h : p.wp t Q w) : p.wp t Q' w := by
  induction p generalizing w with
  | ret r => exact hQ _ _ h
  | call s k ih => exact ht _ _ _ _ (fun r w' hr => ih r hr) h

/-- Sequential composition by a postcondition of the first program. -/
theorem wp_bind_of (ht : t.Monotone) {p : Program Resp ε α} {f : α → Program Resp ε β}
    {R : Except ε α → σ → Prop} {Q : Except ε β → σ → Prop} {w : σ} (hp : p.wp t R w)
    (ok : ∀ a w', R (.ok a) w' → (f a).wp t Q w')
    (err : ∀ e w', R (.error e) w' → Q (.error e) w') : (p >>= f).wp t Q w := by
  rw [wp_bind]
  refine wp_mono ht ?_ hp
  intro r w' hr
  cases r with
  | ok a => exact ok a w' hr
  | error e => exact err e w' hr

/-- Error handling by a postcondition of the program in the `try`. -/
theorem wp_tryCatch_of (ht : t.Monotone) {p : Program Resp ε α} {h : ε → Program Resp ε α}
    {R Q : Except ε α → σ → Prop} {w : σ} (hp : p.wp t R w)
    (ok : ∀ a w', R (.ok a) w' → Q (.ok a) w')
    (err : ∀ e w', R (.error e) w' → (h e).wp t Q w') : (tryCatch p h).wp t Q w := by
  rw [wp_tryCatch]
  refine wp_mono ht ?_ hp
  intro r w' hr
  cases r with
  | ok a => exact ok a w' hr
  | error e => exact err e w' hr

/-- A loop over a list whose body keeps an accumulator: `I l b` holds when `l` is left to do and
`b` has been accumulated, and an error that the body raises ends the loop. -/
theorem wp_foldlM (ht : t.Monotone) {γ : Type} {f : β → γ → Program Resp ε β}
    {Q : Except ε β → σ → Prop} (I : List γ → β → σ → Prop)
    (step : ∀ c l b w, I (c :: l) b w →
      (f b c).wp t (fun r w' => match r with | .ok b' => I l b' w' | .error e => Q (.error e) w') w)
    (done : ∀ b w, I [] b w → Q (.ok b) w) (l : List γ) (b : β) (w : σ) (h : I l b w) :
    (l.foldlM f b).wp t Q w := by
  induction l generalizing b w with
  | nil => exact done b w h
  | cons c l ih =>
    rw [List.foldlM_cons, wp_bind]
    refine wp_mono ht ?_ (step c l b w h)
    intro r w' hr
    cases r with
    | ok b' => exact ih b' w' hr
    | error e => exact hr

variable {m : Machine Resp ε σ} {may : Stmt → σ → Prop}

/-- What every statement preserves, every program preserves. -/
theorem wp_of_invariant {I : σ → Prop} (hI : ∀ s w, I w → I (m.exec s w).2)
    (p : Program Resp ε α) {w : σ} (h : I w) : p.wp (m.requires may) (fun _ w' => I w') w := by
  induction p generalizing w with
  | ret r => exact h
  | call s k ih => exact ⟨ih _ (hI s w h), fun _ _ => ih _ h⟩

/-- The transformer of the programs all of whose statements satisfy `P`, whatever the answers. -/
def usingOnly (P : Stmt → Prop) : Transformer Resp ε Unit := fun s K u =>
  P s ∧ (∀ e, K (.error e) u) ∧ ∀ a, K (.ok a) u

theorem usingOnly_apply (P : Stmt → Prop) (s : Stmt) (K : Except ε (Resp s) → Unit → Prop)
    (u : Unit) : usingOnly P s K u ↔ P s ∧ (∀ e, K (.error e) u) ∧ ∀ a, K (.ok a) u := Iff.rfl

theorem usingOnly_monotone (P : Stmt → Prop) :
    (usingOnly P : Transformer Resp ε Unit).Monotone := by
  intro s K K' u hK h
  exact ⟨h.1, fun e => hK _ _ (h.2.1 e), fun a => hK _ _ (h.2.2 a)⟩

/-- What the statements that satisfy `P` preserve, a program of such statements preserves. -/
theorem wp_of_usingOnly {P : Stmt → Prop} {I : σ → Prop}
    (hI : ∀ s w, P s → I w → I (m.exec s w).2) {p : Program Resp ε α} {Q : Except ε α → Unit → Prop}
    (hp : p.wp (usingOnly P) Q ()) {w : σ} (h : I w) :
    p.wp (m.requires may) (fun r w' => Q r () ∧ I w') w := by
  induction p generalizing w with
  | ret r => exact ⟨hp, h⟩
  | call s k ih =>
    refine ⟨?_, fun _ _ => ih _ (hp.2.1 m.fault) h⟩
    have hs := hI s w hp.1 h
    cases hr : (m.exec s w).1 with
    | ok a => exact ih _ (hp.2.2 a) hs
    | error e => exact ih _ (hp.2.1 e) hs

/-- A program whose failures meet the condition ends as its precondition says. -/
theorem run_of_wp {p : Program Resp ε α} {Q : Except ε α → σ → Prop} {plan : List Bool} {w : σ}
    (h : p.wp (m.requires may) Q w) (hf : ∀ f ∈ p.faults m plan w, may f.1 f.2) :
    Q (p.run m plan w).1 (p.run m plan w).2.2 := by
  induction p generalizing plan w with
  | ret r => exact h
  | call s k ih =>
    unfold faults at hf
    unfold run
    split_ifs at hf ⊢ with hs hp
    · -- the call fails, as the condition allows
      have hm : may s w := hf (s, w) List.mem_cons_self
      exact ih _ (h.2 hs hm) fun f hmem => hf f (List.mem_cons_of_mem _ hmem)
    · exact ih _ h.1 hf
    · exact ih _ h.1 hf

/-- A program none of whose calls fails ends as its precondition says, whatever failures the
precondition leaves out. -/
theorem after_of_wp {p : Program Resp ε α} {Q : Except ε α → σ → Prop} {w : σ}
    (h : p.wp (m.requires may) Q w) : Q (p.result m w) (p.after m w) := by
  apply run_of_wp h
  intro f hf
  rw [faults_nil] at hf
  cases hf

/-- The plan under which the call number `k` fails, and no other. -/
def failAt (k : ℕ) : List Bool := List.replicate k false ++ [true]

variable (m) in
/-- A call on the machine under a plan, which is a part of the state. -/
def planned : Transformer Resp ε (List Bool × σ) := fun s K x =>
  if m.fallible s then
    if x.1.headD false then K (.error m.fault) (x.1.tail, x.2)
    else K (m.exec s x.2).1 (x.1.tail, (m.exec s x.2).2)
  else K (m.exec s x.2).1 (x.1, (m.exec s x.2).2)

theorem planned_monotone : (planned m).Monotone := by
  intro s K K' x hK h
  unfold planned at h ⊢
  split_ifs at h ⊢ <;> exact hK _ _ h

/-- The call fails whose turn it is. -/
theorem planned_zero {s : Stmt} (hs : m.fallible s = true)
    (K : Except ε (Resp s) → List Bool × σ → Prop) (w : σ) :
    planned m s K (failAt 0, w) ↔ K (.error m.fault) ([], w) := by
  unfold planned
  rw [if_pos hs]
  exact Iff.rfl

/-- The calls before it do not fail. -/
theorem planned_succ {s : Stmt} (hs : m.fallible s = true)
    (K : Except ε (Resp s) → List Bool × σ → Prop) (k : ℕ) (w : σ) :
    planned m s K (failAt (k + 1), w) ↔ K (m.exec s w).1 (failAt k, (m.exec s w).2) := by
  unfold planned
  rw [if_pos hs]
  exact Iff.rfl

/-- A program ends under a plan as its precondition says. -/
theorem run_of_planned {p : Program Resp ε α} {Q : Except ε α → List Bool × σ → Prop}
    {plan : List Bool} {w : σ} (h : p.wp (planned m) Q (plan, w)) :
    Q (p.run m plan w).1 (p.run m plan w).2 := by
  induction p generalizing plan w with
  | ret r => exact h
  | call s k ih =>
    have hcall : planned m s (fun r x => (k r).wp (planned m) Q x) (plan, w) := h
    unfold planned at hcall
    unfold run
    split_ifs at hcall ⊢ <;> exact ih _ hcall

end Rules

-- From here on a precondition is computed by the rules only: unfolding it would execute the
-- program.
attribute [irreducible] wp

end Program

end Effect
