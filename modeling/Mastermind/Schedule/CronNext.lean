import Mastermind.Platform.Clock
import Mastermind.Platform.Utf16

/-!
# Cron expressions

The next run of a schedule, as `cron-next.ts` computes it: five fields, each parsed into a set of
numbers or into no constraint at all, and a search that goes from the minute after `from` onwards,
minute by minute, until all fields match.
-/

namespace Mastermind

namespace Text

/-- `s.split(/\s+/)`. -/
def words : Text → List Text
  | [] => [[]]
  | u :: us =>
    if isSpace u then
      -- Only the last blank of a run ends a word.
      if us.head?.any isSpace then words us else [] :: words us
    else
      match words us with
      | [] => [[u]]
      | word :: rest => (u :: word) :: rest

/-- `s.split(',')`. -/
def splitComma (s : Text) : List Text := s.splitOn 44

/-- What follows the sign of a number, if it has one. -/
def unsigned (s : Text) : Text := if s.head? = some 45 ∨ s.head? = some 43 then s.tail else s

/-- `parseInt(s.trim(), 10)`: the digits after the sign up to the first other letter, nothing
(`NaN`) without a digit. -/
def parseInt (s : Text) : Option ℤ :=
  let digits := s.trim.unsigned.takeWhile isDigit
  if digits = [] then none
  else some (if s.trim.head? = some 45 then -number digits else number digits)

/-- The digits of `^\*\/(\d+)$`. -/
def stepDigits (s : Text) : Option Text :=
  let digits := s.drop 2
  if s.take 2 = of "*/" ∧ digits ≠ [] ∧ digits.all isDigit then some digits else none

end Text

namespace Cron

/-- A parsed field: `none` admits every number. -/
abbrev Field := Option (List ℤ)

/-- `!set || set.has(n)`. -/
def Field.admits : Field → ℤ → Bool
  | none, _ => true
  | some set, n => set.contains n

/-- `for (let value = min; value <= max; value += amount) set.add(value)`. -/
def steps (min max amount : ℤ) : List ℤ :=
  (List.range ((max - min) / amount + 1).toNat).map fun k : ℕ => min + k * amount

/-- The numbers of one item of a list, or the refusal of the whole field. -/
def parseItem (str : Text) (min max : ℤ) (s : Text) : Except Text (List ℤ) :=
  match s.stepDigits with
  | some digits =>
    let amount : ℤ := Text.number digits
    if amount < 1 ∨ amount > max - min + 1 then throw (Text.of "Invalid cron field: " ++ str)
    else pure (steps min max amount)
  | none =>
    match s.parseInt with
    | none => throw (Text.of "Invalid cron field: " ++ str)
    | some n =>
      if n < min ∨ n > max then throw (Text.of "Invalid cron field: " ++ str) else pure [n]

/-- `parseSet`. -/
def parseSet (str : Text) (min max : ℤ) : Except Text Field :=
  if str = Text.of "*" then pure none
  else do
    let sets ← str.splitComma.mapM (parseItem str min max)
    pure (some sets.flatten)

/-- The five parsed fields of an expression. -/
structure Fields where
  minutes : Field
  hours : Field
  doms : Field
  months : Field
  dows : Field
  deriving DecidableEq

/-- The fields of an expression, or why it has none. -/
def parseFields (cronExpression : Text) : Except Text Fields :=
  match cronExpression.trim.words with
  | [minF, hourF, domF, monthF, dowF] => do
    let minutes ← parseSet minF 0 59
    let hours ← parseSet hourF 0 23
    let doms ← parseSet domF 1 31
    let months ← parseSet monthF 1 12
    let dows ← parseSet dowF 0 6
    pure ⟨minutes, hours, doms, months, dows⟩
  | _ => throw (Text.of "Invalid cron: expected 5 fields")

/-- The local time at an instant has the fields that the expression asks for. -/
def Fields.admits (fields : Fields) (zone : TimeZone) (t : ℤ) : Bool :=
  fields.months.admits (zone.getMonth t + 1) && fields.doms.admits (zone.getDate t) &&
    fields.dows.admits (zone.getDay t) && fields.hours.admits (zone.getHours t) &&
    fields.minutes.admits (zone.getMinutes t)

/-- `d.setTime(d.getTime() + 60 * 1000)`. -/
def advanceToNextMinute (t : ℤ) : ℤ := t + 60 * 1000

/-- `366 * 24 * 60`. -/
def maxIter : ℕ := 366 * 24 * 60

/-- The loop: the first instant that matches, among so many minutes from an instant on. -/
def search (fields : Fields) (zone : TimeZone) : ℕ → ℤ → Option ℤ
  | 0, _ => none
  | i + 1, t => if fields.admits zone t then some t else search fields zone i (advanceToNextMinute t)

/-- The instant at which the search starts: seconds cleared, then the minute after. -/
def firstMinute (zone : TimeZone) (t : ℤ) : ℤ :=
  let t := zone.setSeconds t 0 0
  zone.setMinutes t (zone.getMinutes t + 1)

/-- `getNextCronRun`. -/
def getNextCronRun (zone : TimeZone) (cronExpression : Text) (start : ℤ) : Except Text ℤ := do
  let fields ← parseFields cronExpression
  match search fields zone maxIter (firstMinute zone start) with
  | some t => pure t
  | none => throw (Text.of "No next run found")

/-- So many minutes after the next one. -/
theorem advanceToNextMinute_add (t : ℤ) (j : ℕ) :
    advanceToNextMinute t + j * 60000 = t + (j + 1 : ℕ) * 60000 := by
  unfold advanceToNextMinute
  push_cast
  ring

/-- What the search finds is the first match among the minutes that it visits. -/
theorem search_eq_some {fields : Fields} {zone : TimeZone} {n : ℕ} {t r : ℤ} :
    search fields zone n t = some r ↔ ∃ k < n, r = t + k * 60000 ∧ fields.admits zone r = true ∧
      ∀ j < k, fields.admits zone (t + j * 60000) = false := by
  induction n generalizing t with
  | zero => simp [search]
  | succ n ih =>
    rw [search]
    split_ifs with hadmits
    · constructor
      · intro h
        obtain rfl := Option.some.inj h
        exact ⟨0, n.succ_pos, by simp, hadmits, fun j hj => absurd hj (Nat.not_lt_zero j)⟩
      · rintro ⟨k, -, rfl, -, hbefore⟩
        -- An earlier match than the first one would be the start itself.
        rcases Nat.eq_zero_or_pos k with rfl | hk
        · simp
        · have hfirst := hbefore 0 hk
          rw [Nat.cast_zero, zero_mul, add_zero, hadmits] at hfirst
          exact absurd hfirst.symm Bool.false_ne_true
    · rw [ih]
      have hnot : fields.admits zone t = false := by simpa using hadmits
      constructor
      · rintro ⟨k, hk, hr, hadm, hbefore⟩
        refine ⟨k + 1, by omega, by rw [hr, advanceToNextMinute_add], hadm, fun j hj => ?_⟩
        cases j with
        | zero => simpa using hnot
        | succ j => rw [← advanceToNextMinute_add]; exact hbefore j (by omega)
      · rintro ⟨k, hk, hr, hadm, hbefore⟩
        cases k with
        | zero =>
          rw [Nat.cast_zero, zero_mul, add_zero] at hr
          rw [hr, hnot] at hadm
          exact absurd hadm Bool.false_ne_true
        | succ k =>
          refine ⟨k, by omega, by rw [hr, advanceToNextMinute_add], hadm, fun j hj => ?_⟩
          rw [advanceToNextMinute_add]
          exact hbefore (j + 1) (by omega)

/-- The search finds nothing if and only if no minute that it visits matches. -/
theorem search_eq_none {fields : Fields} {zone : TimeZone} {n : ℕ} {t : ℤ} :
    search fields zone n t = none ↔
      ∀ k < n, fields.admits zone (t + (k : ℕ) * 60000) = false := by
  induction n generalizing t with
  | zero => simp [search]
  | succ n ih =>
    rw [search, Nat.forall_lt_succ_left]
    split_ifs with hadmits
    · simp [hadmits]
    · have hnot : fields.admits zone t = false := by simpa using hadmits
      simp only [ih, advanceToNextMinute_add, Nat.cast_zero, zero_mul, add_zero, hnot, true_and]

/-- The search starts at the minute after, as the zone counts the minutes. -/
theorem firstMinute_eq (zone : TimeZone) (t : ℤ) : firstMinute zone t = zone.nextMinute t := by
  unfold firstMinute TimeZone.nextMinute
  dsimp only
  rw [TimeZone.setMinutes_getMinutes_add, TimeZone.setSeconds_zero, one_mul]

/-- A call returns the match that the search finds for the parsed fields. -/
theorem getNextCronRun_eq_ok {zone : TimeZone} {cronExpression : Text} {start r : ℤ} :
    getNextCronRun zone cronExpression start = .ok r ↔
      ∃ fields, parseFields cronExpression = .ok fields ∧
        search fields zone maxIter (zone.nextMinute start) = some r := by
  unfold getNextCronRun
  rw [firstMinute_eq]
  cases parseFields cronExpression with
  | error e => simp [bind, Except.bind]
  | ok fields =>
    cases hsearch : search fields zone maxIter (zone.nextMinute start) with
    | none => simp [bind, Except.bind, hsearch, throw, throwThe, MonadExceptOf.throw]
    | some t => simp [bind, Except.bind, hsearch, pure, Except.pure]

/-- A call throws if the expression has no fields, or if the search finds no match for them. -/
theorem getNextCronRun_eq_error {zone : TimeZone} {cronExpression : Text} {start : ℤ}
    {fields : Fields} (hfields : parseFields cronExpression = .ok fields) {e : Text}
    (h : getNextCronRun zone cronExpression start = .error e) :
    search fields zone maxIter (zone.nextMinute start) = none := by
  cases hsearch : search fields zone maxIter (zone.nextMinute start) with
  | none => rfl
  | some r =>
    have hok := getNextCronRun_eq_ok.mpr ⟨fields, hfields, hsearch⟩
    exact absurd (hok.symm.trans h) (by simp)

end Cron

end Mastermind
