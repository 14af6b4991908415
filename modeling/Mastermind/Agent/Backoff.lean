import Mathlib

/-!
# Retry delays

`internal/backoff`: the delays between the retries of the agent grow up to a maximum. The
multiplications are exact here. `ofRat` is the conversion of their result to a `time.Duration`, which
cuts off the fraction, and gives the most negative duration for what does not fit.

`Normal` is what `New` makes of any configuration (`normal_new`) and what every call keeps; the two
bounds and the growth of a run follow from it in `backoff_bounds`.
-/

namespace Mastermind.Agent

/-- `time.Duration`, in nanoseconds. -/
abbrev Duration := { n : ℤ // -2 ^ 63 ≤ n ∧ n < 2 ^ 63 }

namespace Duration

instance (a b : Duration) : Decidable (a ≤ b) := inferInstanceAs (Decidable (a.val ≤ b.val))

instance (a b : Duration) : Decidable (a < b) := inferInstanceAs (Decidable (a.val < b.val))

/-- A duration within the range. -/
def nanoseconds (n : ℤ) (h : -2 ^ 63 ≤ n ∧ n < 2 ^ 63 := by decide) : Duration := ⟨n, h⟩

/-- The duration of no time. -/
def zero : Duration := nanoseconds 0

/-- The most negative duration. -/
def least : Duration := nanoseconds (-2 ^ 63)

/-- The conversion of a product to a duration. -/
def ofRat (q : ℚ) : Duration :=
  if h : -2 ^ 63 ≤ q.num.tdiv q.den ∧ q.num.tdiv q.den < 2 ^ 63 then ⟨q.num.tdiv q.den, h⟩
  else least

end Duration

namespace Backoff

open Duration

/-- `defaultInitial`. -/
def defaultInitial : Duration := nanoseconds 1000000000

/-- `defaultMaximum`. -/
def defaultMaximum : Duration := nanoseconds 30000000000

/-- `defaultMultiplier`. -/
def defaultMultiplier : ℚ := 2

/-- `defaultJitter`. -/
def defaultJitter : ℚ := 1 / 5

/-- `Config`. -/
structure Config where
  initial : Duration
  maximum : Duration
  multiplier : ℚ
  jitter : ℚ
  disableJitter : Bool

end Backoff

open Duration

/-- `Backoff`. -/
structure Backoff where
  initial : Duration
  maximum : Duration
  multiplier : ℚ
  jitter : ℚ
  next : Duration

namespace Backoff

/-- The maximum that `New` makes of a configured one. -/
def normalMaximum (cfg : Config) : Duration :=
  if cfg.maximum ≤ zero then defaultMaximum else cfg.maximum

/-- The initial delay that `New` makes of a configured one. -/
def normalInitial (cfg : Config) : Duration :=
  let initial := if cfg.initial ≤ zero then defaultInitial else cfg.initial
  if normalMaximum cfg < initial then normalMaximum cfg else initial

/-- `New`. -/
def new (cfg : Config) : Backoff where
  initial := normalInitial cfg
  maximum := normalMaximum cfg
  multiplier := if cfg.multiplier ≤ 1 then defaultMultiplier else cfg.multiplier
  jitter :=
    if cfg.disableJitter then 0
    else if cfg.jitter ≤ 0 ∨ 1 < cfg.jitter then defaultJitter
    else cfg.jitter
  next := normalInitial cfg

/-- What `rand.Float64` returns. -/
abbrev Draw := { q : ℚ // 0 ≤ q ∧ q < 1 }

/-- The delay that `Next` returns, at a draw. -/
def delay (b : Backoff) (draw : Draw) : Duration :=
  if 0 < b.jitter then
    let factor := 1 + (draw.val * 2 - 1) * b.jitter
    let delay := ofRat (b.next.val * factor)
    let delay := if delay < zero then zero else delay
    if b.maximum < delay then b.maximum else delay
  else b.next

/-- The internal next value after `Next`. -/
def grown (b : Backoff) : Duration :=
  let grown := ofRat (b.next.val * b.multiplier)
  if grown < b.next ∨ b.maximum < grown then b.maximum else grown

/-- `Next`. -/
def Next (b : Backoff) (draw : Draw) : Duration × Backoff :=
  (b.delay draw, { b with next := b.grown })

/-- `Reset`. -/
def Reset (b : Backoff) : Backoff := { b with next := b.initial }

/-- A call. -/
inductive Call where
  | next (draw : Draw)
  | reset

/-- The delays that a sequence of calls returns, and what it leaves. -/
def run (b : Backoff) : List Call → List Duration × Backoff
  | [] => ([], b)
  | .next draw :: calls =>
    let (delay, b) := b.Next draw
    let (delays, b) := run b calls
    (delay :: delays, b)
  | .reset :: calls => run b.Reset calls

/-! ## What every call keeps -/

/-- The delays are in order. -/
structure Normal (b : Backoff) : Prop where
  positive : zero < b.initial
  initial_le : b.initial ≤ b.next
  next_le : b.next ≤ b.maximum

theorem zero_lt_normalMaximum (cfg : Config) : zero < normalMaximum cfg := by
  unfold normalMaximum
  split_ifs with h
  · decide
  · exact not_le.mp h

theorem normalInitial_spec (cfg : Config) :
    zero < normalInitial cfg ∧ normalInitial cfg ≤ normalMaximum cfg := by
  have hconfigured : zero < if cfg.initial ≤ zero then defaultInitial else cfg.initial := by
    split_ifs with h
    · decide
    · exact not_le.mp h
  unfold normalInitial
  dsimp only
  split_ifs at hconfigured ⊢ with h hmax
  · exact ⟨zero_lt_normalMaximum cfg, le_rfl⟩
  · exact ⟨hconfigured, not_lt.mp hmax⟩
  · exact ⟨zero_lt_normalMaximum cfg, le_rfl⟩
  · exact ⟨hconfigured, not_lt.mp (by assumption)⟩

theorem normal_new (cfg : Config) : Normal (new cfg) :=
  ⟨(normalInitial_spec cfg).1, le_rfl, (normalInitial_spec cfg).2⟩

/-- The product does not have to fit: what does not fit is below the last value. -/
theorem Normal.next_le_grown {b : Backoff} (h : Normal b) :
    b.next ≤ b.grown ∧ b.grown ≤ b.maximum := by
  unfold grown
  dsimp only
  split_ifs with hout
  · exact ⟨h.next_le, le_rfl⟩
  · rw [not_or, not_lt, not_lt] at hout
    exact hout

theorem Normal.delay_mem {b : Backoff} (h : Normal b) (draw : Draw) :
    zero ≤ b.delay draw ∧ b.delay draw ≤ b.maximum := by
  have hmax : zero ≤ b.maximum := (h.positive.le.trans h.initial_le).trans h.next_le
  unfold delay
  dsimp only
  split_ifs with hjitter hneg hover hover
  · exact ⟨hmax, le_rfl⟩
  · exact ⟨le_rfl, hmax⟩
  · exact ⟨hmax, le_rfl⟩
  · exact ⟨not_lt.mp hneg, not_lt.mp hover⟩
  · exact ⟨h.positive.le.trans h.initial_le, h.next_le⟩

theorem Normal.Next {b : Backoff} (h : Normal b) (draw : Draw) : Normal (b.Next draw).2 :=
  ⟨h.positive, h.initial_le.trans h.next_le_grown.1, h.next_le_grown.2⟩

theorem Normal.Reset {b : Backoff} (h : Normal b) : Normal b.Reset :=
  ⟨h.positive, le_rfl, h.initial_le.trans h.next_le⟩

/-- What a run keeps, and the delays that it returns. -/
theorem Normal.run {b : Backoff} (h : Normal b) (calls : List Call) :
    Normal (b.run calls).2 ∧ (b.run calls).2.initial = b.initial ∧
      (b.run calls).2.maximum = b.maximum ∧
      ∀ d ∈ (b.run calls).1, zero ≤ d ∧ d ≤ b.maximum := by
  induction calls generalizing b with
  | nil => exact ⟨h, rfl, rfl, fun d hd => absurd hd List.not_mem_nil⟩
  | cons call calls ih =>
    cases call with
    | next draw =>
      obtain ⟨hnormal, hinitial, hmaximum, hdelays⟩ := ih (h.Next draw)
      refine ⟨hnormal, hinitial, hmaximum, fun d hd => ?_⟩
      rcases List.mem_cons.mp hd with rfl | hd
      · exact h.delay_mem draw
      · exact hdelays d hd
    | reset => exact ih h.Reset

/-- Between resets the internal next value does not shrink. -/
theorem Normal.next_le_run {b : Backoff} (h : Normal b) (draws : List Draw) :
    b.next ≤ (b.run (draws.map Call.next)).2.next := by
  induction draws generalizing b with
  | nil => exact le_rfl
  | cons draw draws ih => exact h.next_le_grown.1.trans (ih (h.Next draw))

/-- For every configuration and every sequence of calls: each delay is between zero and the
normalized maximum, the internal next value is between the normalized initial delay and that maximum,
and it only grows as long as there is no reset. -/
theorem backoff_bounds (cfg : Config) (calls : List Call) :
    (∀ d ∈ ((new cfg).run calls).1, zero ≤ d ∧ d ≤ normalMaximum cfg) ∧
      normalInitial cfg ≤ ((new cfg).run calls).2.next ∧
      ((new cfg).run calls).2.next ≤ normalMaximum cfg ∧
      ∀ draws : List Draw, ((new cfg).run calls).2.next ≤
        (((new cfg).run calls).2.run (draws.map Call.next)).2.next := by
  obtain ⟨hnormal, hinitial, hmaximum, hdelays⟩ := (normal_new cfg).run calls
  refine ⟨hdelays, ?_, ?_, hnormal.next_le_run⟩
  · exact hinitial.symm.trans_le hnormal.initial_le
  · exact hnormal.next_le.trans_eq hmaximum

end Backoff

end Mastermind.Agent
