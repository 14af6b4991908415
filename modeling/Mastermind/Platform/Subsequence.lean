import Mathlib.Order.Bounds.Basic
import Mathlib.Order.Nat
import Mathlib.Tactic.Common

/-!
# Longest common subsequences

The length of the longest list that is a sublist of two, by recursion on both.
-/

namespace Mastermind

variable {α : Type*} [DecidableEq α]

/-- The length of a longest common subsequence. -/
def lcsLength : List α → List α → ℕ
  | [], _ => 0
  | _ :: _, [] => 0
  | x :: xs, y :: ys =>
    if x = y then lcsLength xs ys + 1 else max (lcsLength xs (y :: ys)) (lcsLength (x :: xs) ys)
termination_by a b => a.length + b.length

@[simp] theorem lcsLength_nil_left (b : List α) : lcsLength [] b = 0 := by rw [lcsLength]

@[simp] theorem lcsLength_nil_right (a : List α) : lcsLength a [] = 0 := by
  cases a <;> rw [lcsLength]

theorem lcsLength_cons_self (x : α) (xs ys : List α) :
    lcsLength (x :: xs) (x :: ys) = lcsLength xs ys + 1 := by
  rw [lcsLength, if_pos rfl]

theorem lcsLength_cons_of_ne {x y : α} (h : x ≠ y) (xs ys : List α) :
    lcsLength (x :: xs) (y :: ys) =
      max (lcsLength xs (y :: ys)) (lcsLength (x :: xs) ys) := by
  rw [lcsLength, if_neg h]

/-- There is a common subsequence of that length. -/
theorem exists_common (a b : List α) :
    ∃ l : List α, l.Sublist a ∧ l.Sublist b ∧ l.length = lcsLength a b := by
  induction a, b using lcsLength.induct with
  | case1 b => exact ⟨[], List.nil_sublist _, List.nil_sublist _, (lcsLength_nil_left b).symm⟩
  | case2 x xs => exact ⟨[], List.nil_sublist _, List.nil_sublist _, (lcsLength_nil_right _).symm⟩
  | case3 xs y ys ih =>
    obtain ⟨l, ha, hb, hl⟩ := ih
    refine ⟨y :: l, ha.cons_cons y, hb.cons_cons y, ?_⟩
    rw [lcsLength_cons_self, List.length_cons, hl]
  | case4 x xs y ys hne ihx ihy =>
    rw [lcsLength_cons_of_ne hne]
    rcases le_total (lcsLength (x :: xs) ys) (lcsLength xs (y :: ys)) with hle | hle
    · obtain ⟨l, ha, hb, hl⟩ := ihx
      exact ⟨l, ha.cons x, hb, by rw [hl, max_eq_left hle]⟩
    · obtain ⟨l, ha, hb, hl⟩ := ihy
      exact ⟨l, ha, hb.cons y, by rw [hl, max_eq_right hle]⟩

/-- No common subsequence is longer. -/
theorem length_le_lcsLength {a b l : List α} (ha : l.Sublist a) (hb : l.Sublist b) :
    l.length ≤ lcsLength a b := by
  induction a, b using lcsLength.induct generalizing l with
  | case1 b => rw [List.sublist_nil.mp ha]; exact Nat.zero_le _
  | case2 x xs => rw [List.sublist_nil.mp hb]; exact Nat.zero_le _
  | case3 xs y ys ih =>
    have htail := ih ha.tail hb.tail
    rw [List.length_tail] at htail
    rw [lcsLength_cons_self]
    omega
  | case4 x xs y ys hne ihx ihy =>
    rw [lcsLength_cons_of_ne hne]
    -- a common subsequence does not begin with both of the heads
    rcases List.sublist_cons_iff.mp ha with ha' | ⟨l', rfl, -⟩
    · exact (ihx ha' hb).trans (le_max_left _ _)
    · rcases List.sublist_cons_iff.mp hb with hb' | ⟨l'', heq, -⟩
      · exact (ihy ha hb').trans (le_max_right _ _)
      · exact absurd (List.cons.inj heq).1 hne

/-- What `lcsLength` computes. -/
theorem isGreatest_lcsLength (a b : List α) :
    IsGreatest { n | ∃ l : List α, l.Sublist a ∧ l.Sublist b ∧ l.length = n } (lcsLength a b) := by
  refine ⟨exists_common a b, ?_⟩
  rintro n ⟨l, ha, hb, rfl⟩
  exact length_le_lcsLength ha hb

theorem lcsLength_le_right (a b : List α) : lcsLength a b ≤ b.length := by
  obtain ⟨l, -, hb, hl⟩ := exists_common a b
  exact hl.symm.trans_le hb.length_le

end Mastermind
