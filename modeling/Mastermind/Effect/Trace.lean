import Mastermind.Effect.Uses

/-!
# Traces of programs

`Executes p t r` says that the program `p` can make the calls of `t`, with the answers that stand
there, and end with `r`. The answers are arbitrary, so that the traces of a program are everything
that can happen when its calls do what they please. An operation that can fail is a statement whose
response tells so, and the error of a program is left to what no answer causes.

What holds of the traces is proved by the rules of `wp` with the trace so far as the state
(`recording`, `wp_recording`). `follow` computes the trace for given answers.
-/

namespace Effect

variable {Stmt : Type} {Resp : Stmt → Type} {ε α β : Type}

/-- A call with its answer. -/
structure Answered {Stmt : Type} (Resp : Stmt → Type) where
  stmt : Stmt
  answer : Resp stmt

namespace Program

/-- The program makes the calls of the trace, the first one first, and ends with the result. -/
inductive Executes : Program Resp ε α → List (Answered Resp) → Except ε α → Prop where
  | ret (r : Except ε α) : Executes (.ret r) [] r
  | call (s : Stmt) (k : Except ε (Resp s) → Program Resp ε α) (a : Resp s)
      {t : List (Answered Resp)} {r : Except ε α} (h : Executes (k (.ok a)) t r) :
      Executes (.call s k) (⟨s, a⟩ :: t) r

section Rules

variable {t : List (Answered Resp)}

@[simp] theorem executes_pure {a : α} {r : Except ε α} :
    Executes (Pure.pure a : Program Resp ε α) t r ↔ t = [] ∧ r = .ok a := by
  constructor
  · intro h
    cases h
    exact ⟨rfl, rfl⟩
  · rintro ⟨rfl, rfl⟩
    exact .ret _

@[simp] theorem executes_throw {e : ε} {r : Except ε α} :
    Executes (MonadExcept.throw e : Program Resp ε α) t r ↔ t = [] ∧ r = .error e := by
  constructor
  · intro h
    cases h
    exact ⟨rfl, rfl⟩
  · rintro ⟨rfl, rfl⟩
    exact .ret _

@[simp] theorem executes_request {s : Stmt} {r : Except ε (Resp s)} :
    Executes (request s : Program Resp ε (Resp s)) t r ↔ ∃ a, t = [⟨s, a⟩] ∧ r = .ok a := by
  constructor
  · intro h
    cases h with
    | call _ _ a h =>
      cases h
      exact ⟨a, rfl, rfl⟩
  · rintro ⟨a, rfl, rfl⟩
    exact .call s ret a (.ret _)

/-- A sequence ends with an error of its first part, or goes through it. -/
theorem executes_bind {p : Program Resp ε α} {f : α → Program Resp ε β} {r : Except ε β} :
    Executes (p >>= f) t r ↔
      (∃ e, Executes p t (.error e) ∧ r = .error e) ∨
        ∃ a t₁ t₂, t = t₁ ++ t₂ ∧ Executes p t₁ (.ok a) ∧ Executes (f a) t₂ r := by
  induction p generalizing t with
  | ret r' =>
    cases r' with
    | error e =>
      constructor
      · intro h
        cases h
        exact .inl ⟨e, .ret _, rfl⟩
      · rintro (⟨e', h, rfl⟩ | ⟨a, t₁, t₂, -, h, -⟩)
        · cases h
          exact .ret _
        · cases h
    | ok a =>
      constructor
      · exact fun h => .inr ⟨a, [], t, rfl, .ret _, h⟩
      · rintro (⟨e', h, rfl⟩ | ⟨a', t₁, t₂, rfl, h, h'⟩)
        · cases h
        · cases h
          exact h'
  | call s k ih =>
    constructor
    · intro h
      cases h with
      | call _ _ a hk =>
        rcases (ih (.ok a)).mp hk with ⟨e, he, rfl⟩ | ⟨b, t₁, t₂, rfl, hb, hf⟩
        · exact .inl ⟨e, .call s k a he, rfl⟩
        · exact .inr ⟨b, ⟨s, a⟩ :: t₁, t₂, rfl, .call s k a hb, hf⟩
    · rintro (⟨e, h, rfl⟩ | ⟨b, t₁, t₂, rfl, h, h'⟩)
      · cases h with
        | call _ _ a h => exact .call s _ a ((ih (.ok a)).mpr (.inl ⟨e, h, rfl⟩))
      · cases h with
        | call _ _ a h => exact .call s _ a ((ih (.ok a)).mpr (.inr ⟨b, _, t₂, rfl, h, h'⟩))

/-- A sequence after one call. -/
theorem executes_request_bind {s : Stmt} {f : Resp s → Program Resp ε β} {r : Except ε β} :
    Executes (request s >>= f) t r ↔ ∃ a t', t = ⟨s, a⟩ :: t' ∧ Executes (f a) t' r := by
  constructor
  · intro h
    rcases executes_bind.mp h with ⟨e, he, -⟩ | ⟨a, t₁, t₂, rfl, ha, hf⟩
    · obtain ⟨a, -, ha⟩ := executes_request.mp he
      cases ha
    · obtain ⟨b, rfl, hb⟩ := executes_request.mp ha
      obtain rfl := Except.ok.inj hb
      exact ⟨_, t₂, rfl, hf⟩
  · rintro ⟨a, t', rfl, h⟩
    exact executes_bind.mpr (.inr ⟨a, [⟨s, a⟩], t', rfl, executes_request.mpr ⟨a, rfl, rfl⟩, h⟩)

/-- A program uses the statements that satisfy a weaker condition. -/
theorem Uses.mono {P P' : Stmt → Prop} {p : Program Resp ε α} (hp : Uses P p)
    (h : ∀ s, P s → P' s) : Uses P' p := by
  induction p with
  | ret r => exact (wp_ret _ _ _).mpr trivial
  | call s k ih =>
    obtain ⟨hs, herror, hok⟩ := (wp_call _ _ _ _).mp hp
    exact (wp_call _ _ _ _).mpr ⟨h s hs, fun e => ih _ (herror e), fun a => ih _ (hok a)⟩

/-- A program makes only calls that it uses. -/
theorem Executes.uses {P : Stmt → Prop} {p : Program Resp ε α} {r : Except ε α} (hp : Uses P p)
    (h : Executes p t r) : ∀ x ∈ t, P x.stmt := by
  induction h with
  | ret r => exact fun x hx => (nomatch hx)
  | call s k a _ ih =>
    obtain ⟨hs, -, hok⟩ := (wp_call _ _ _ _).mp hp
    intro x hx
    rcases List.mem_cons.mp hx with rfl | hx
    · exact hs
    · exact ih (hok a) x hx

end Rules

/-- A call that is recorded: whatever the answer is, it is added to the trace. -/
def recording : Transformer Resp ε (List (Answered Resp)) :=
  fun s K t => ∀ a, K (.ok a) (t ++ [⟨s, a⟩])

/-- The recorded precondition is about the traces of the program, after the trace so far. -/
theorem wp_recording {p : Program Resp ε α} {Q : Except ε α → List (Answered Resp) → Prop}
    {t : List (Answered Resp)} :
    p.wp recording Q t ↔ ∀ u r, Executes p u r → Q r (t ++ u) := by
  induction p generalizing t with
  | ret r =>
    constructor
    · intro h u r' hu
      cases hu
      rw [List.append_nil]
      exact (wp_ret r Q t).mp h
    · intro h
      have hr := h [] r (.ret r)
      rw [List.append_nil] at hr
      exact (wp_ret r Q t).mpr hr
  | call s k ih =>
    constructor
    · intro h u r hu
      cases hu with
      | @call _ _ a u' _ hk =>
        have hr := (ih (.ok a)).mp ((wp_call s k Q t).mp h a) u' r hk
        rwa [List.append_assoc] at hr
    · intro h
      refine (wp_call s k Q t).mpr fun a => (ih (.ok a)).mpr fun u r hu => ?_
      have hr := h (⟨s, a⟩ :: u) r (.call s k a hu)
      rwa [List.append_assoc]

/-- A sequence by the traces of its first part. -/
theorem wp_recording_bind {p : Program Resp ε α} {f : α → Program Resp ε β}
    {Q : Except ε β → List (Answered Resp) → Prop} {t : List (Answered Resp)}
    (ok : ∀ u a, Executes p u (.ok a) → (f a).wp recording Q (t ++ u))
    (err : ∀ u e, Executes p u (.error e) → Q (.error e) (t ++ u)) :
    (p >>= f).wp recording Q t := by
  rw [wp_bind]
  refine wp_recording.mpr fun u r hu => ?_
  cases r with
  | ok a => exact ok u a hu
  | error e => exact err u e hu

/-- The trace and the end of a program when the `n`-th call of the whole is answered by
`answer n`. -/
def follow (answer : ℕ → (s : Stmt) → Resp s) :
    Program Resp ε α → ℕ → List (Answered Resp) × Except ε α
  | ret r, _ => ([], r)
  | call s k, n =>
    let rest := (k (.ok (answer n s))).follow answer (n + 1)
    (⟨s, answer n s⟩ :: rest.1, rest.2)

theorem executes_follow (answer : ℕ → (s : Stmt) → Resp s) (p : Program Resp ε α) (n : ℕ) :
    Executes p (p.follow answer n).1 (p.follow answer n).2 := by
  induction p generalizing n with
  | ret r => exact .ret r
  | call s k ih => exact .call s k _ (ih _ _)

end Program

end Effect
