import Mastermind.Schedule.CronNext

/-!
# When a schedule runs next

The search goes from minute to minute of real time, and it starts where the setters of a `Date` put
the next local minute. Where the clock has one offset this is the next minute, and the result is the
next match. Where the clock is put back, the setters return to the first occurrence of a local
minute that is running for the second time: the search then starts in the past, and the result lies
in the past if and only if there is a match on the way back to the present.
-/

namespace Mastermind.Cron

open Calendar

/-! ## A fixed offset -/

/-- In a zone with a fixed offset of whole minutes the result is the least later minute that
matches, and a call throws only if no minute of the next 366 days does. -/
theorem next_run_exact (zone : TimeZone) (ahead : ℤ) (hfixed : ∀ t, zone.offset t = ahead)
    (hwhole : msPerMinute ∣ ahead) (cronExpression : Text) (fields : Fields)
    (hfields : parseFields cronExpression = .ok fields) (start : ℤ) :
    (∀ r, getNextCronRun zone cronExpression start = .ok r →
      IsLeast {t | msPerMinute ∣ t ∧ start < t ∧ fields.admits zone t = true} r) ∧
    ∀ e, getNextCronRun zone cronExpression start = .error e →
      ∀ t, msPerMinute ∣ t → start < t → t ≤ start + 366 * msPerDay →
        fields.admits zone t = false := by
  have hnext := zone.nextMinute_of_fixed hfixed hwhole start
  -- A later minute is one that the search visits, if the search goes far enough.
  have hvisited : ∀ t, msPerMinute ∣ t → start < t →
      ∃ k : ℕ, t = zone.nextMinute start + k * 60000 := by
    intro t hminute hlater
    obtain ⟨m, rfl⟩ := hminute
    refine ⟨(m - start / msPerMinute - 1).toNat, ?_⟩
    rw [hnext]
    simp only [msPerMinute] at hlater ⊢
    omega
  constructor
  · intro r hr
    obtain ⟨fields', hfields', hsearch⟩ := getNextCronRun_eq_ok.mp hr
    obtain rfl := Except.ok.inj (hfields.symm.trans hfields')
    obtain ⟨k, -, hk, hadmits, hbefore⟩ := search_eq_some.mp hsearch
    constructor
    · show msPerMinute ∣ r ∧ start < r ∧ fields.admits zone r = true
      rw [hnext] at hk
      simp only [msPerMinute] at hk ⊢
      exact ⟨by omega, by omega, hadmits⟩
    · intro t ⟨hminute, hlater, hmatch⟩
      obtain ⟨j, hj⟩ := hvisited t hminute hlater
      by_contra hless
      have hjk : j < k := by omega
      have hnot := hbefore j hjk
      rw [← hj, hmatch] at hnot
      exact absurd hnot.symm Bool.false_ne_true
  · intro e he t hminute hlater hhorizon
    have hnone := search_eq_none.mp (getNextCronRun_eq_error hfields he)
    obtain ⟨k, hk⟩ := hvisited t hminute hlater
    have hbound : k < maxIter := by
      rw [hnext] at hk
      simp only [msPerMinute, msPerDay] at hk hhorizon
      unfold maxIter
      omega
    rw [hk]
    exact hnone k hbound

/-- A run at half past four, in a zone one hour ahead. -/
theorem next_run_exact_nightly :
    getNextCronRun (.fixed 3600000) (Text.of "30 4 * * *") 0 = .ok 12600000 ∧
      ∃ fields, parseFields (Text.of "30 4 * * *") = .ok fields ∧
        IsLeast {t | msPerMinute ∣ t ∧ 0 < t ∧ fields.admits (.fixed 3600000) t = true}
          12600000 := by
  have hfields : parseFields (Text.of "30 4 * * *") =
      .ok ⟨some [30], some [4], none, none, none⟩ := by decide +kernel
  have hrun : getNextCronRun (.fixed 3600000) (Text.of "30 4 * * *") 0 = .ok 12600000 := by
    decide +kernel
  exact ⟨hrun, _, hfields, (next_run_exact (.fixed 3600000) 3600000 (fun _ => rfl) ⟨60, rfl⟩ _ _
    hfields 0).1 _ hrun⟩

/-! ## Any time zone -/

/-- What a call returns is later than `start`, and its local time matches the expression. -/
def MovesForward (zone : TimeZone) (cronExpression : Text) (start : ℤ) : Prop :=
  ∀ r, getNextCronRun zone cronExpression start = .ok r →
    start < r ∧ ∃ fields, parseFields cronExpression = .ok fields ∧ fields.admits zone r = true

/-- A call moves forward if and only if no minute matches between the first occurrence of the next
local minute and `start`, both included. -/
theorem moves_forward_iff (zone : TimeZone) (cronExpression : Text) (start : ℤ) :
    MovesForward zone cronExpression start ↔
      ∀ fields, parseFields cronExpression = .ok fields →
        ∀ k : ℕ, k < 366 * 24 * 60 → zone.nextMinute start + k * msPerMinute ≤ start →
          fields.admits zone (zone.nextMinute start + k * msPerMinute) = false := by
  constructor
  · intro hforward fields hfields k hk hpast
    by_contra hmatch
    -- The search stops at this match or before it, so in the past.
    have hfound : search fields zone maxIter (zone.nextMinute start) ≠ none := by
      intro hnone
      exact hmatch (search_eq_none.mp hnone k hk)
    obtain ⟨r, hr⟩ := Option.ne_none_iff_exists'.mp hfound
    obtain ⟨j, -, hj, -, hbefore⟩ := search_eq_some.mp hr
    have hjk : j ≤ k := by
      by_contra hlater
      exact hmatch (hbefore k (not_le.mp hlater))
    have hafter := (hforward r (getNextCronRun_eq_ok.mpr ⟨fields, hfields, hr⟩)).1
    simp only [msPerMinute] at hpast
    omega
  · intro hnone r hr
    obtain ⟨fields, hfields, hsearch⟩ := getNextCronRun_eq_ok.mp hr
    obtain ⟨k, hk, hkr, hadmits, -⟩ := search_eq_some.mp hsearch
    refine ⟨?_, fields, hfields, hadmits⟩
    by_contra hpast
    have hnot := hnone fields hfields k hk (hkr ▸ not_lt.mp hpast)
    rw [← hkr, hadmits] at hnot
    exact absurd hnot.symm Bool.false_ne_true

/-- At the moment when the clock is put back by an hour, a schedule of every minute is due almost an
hour ago. -/
theorem next_run_in_past : ¬∀ (zone : TimeZone) (cronExpression : Text) (start : ℤ),
    MovesForward zone cronExpression start := by
  intro hall
  have hrun : getNextCronRun .fallBack (Text.of "* * * * *") 0 = .ok (-3540000) := by
    decide +kernel
  have hlater := (hall _ _ _ _ hrun).1
  exact absurd hlater (by decide)

end Mastermind.Cron
