import Mastermind.Effect.Table

/-!
# Counters kept by increments

A store may keep, beside a table, counters of the records of each class, and move them whenever it
moves a record from one class to another. A `Ledger` is an amount for each class. `Table.tally` is
the ledger of a table: how many of its records each class has. It moves by `entry`s: one for a
record that is created, two for a record that changes its class. A store that owes the counters
what it has moved and not yet booked compares the stored counters with the tally up to a ledger of
debts, which operations build up and settle step by step.
-/

namespace Effect

open Keyed

variable {κ : Type} [DecidableEq κ]

/-- An amount for each class. -/
abbrev Ledger (κ : Type) := κ → ℤ

namespace Ledger

/-- The amount `n` for the class `k`, if there is one, and nothing else. -/
def entry (k : Option κ) (n : ℤ) : Ledger κ := fun k' => if k = some k' then n else 0

@[simp] theorem entry_none (n : ℤ) : entry (none : Option κ) n = 0 := by
  funext k
  simp [entry]

@[simp] theorem entry_zero (k : Option κ) : entry k 0 = 0 := by
  funext k'
  simp [entry]

/-- Two entries for one class are one. -/
theorem entry_add (k : Option κ) (m n : ℤ) : entry k m + entry k n = entry k (m + n) := by
  funext k'
  simp only [entry, Pi.add_apply]
  split_ifs
  · rfl
  · omega

end Ledger

namespace Table

variable {α : Type} [Keyed α] {c : α → Option κ}

/-- The number of records of each class. -/
def tally (t : Table α) (c : α → Option κ) : Ledger κ := fun k => t.count fun a => c a == some k

/-- A classification that agrees on the records gives the same numbers. -/
theorem tally_congr {t : Table α} {c' : α → Option κ} (h : ∀ a ∈ t.rows, c a = c' a) :
    t.tally c = t.tally c' := by
  funext k
  have hcount : (t.count fun a => c a == some k) = t.count fun a => c' a == some k :=
    count_congr fun a ha => by rw [h a ha]
  unfold tally
  rw [hcount]

/-- A new record adds to its class. -/
theorem tally_insert (t : Table α) (mk : ℕ → α) (hk : ∀ i, key (mk i) = i) :
    (t.insert mk hk).tally c = t.tally c + Ledger.entry (c (mk t.next)) 1 := by
  funext k
  simp only [tally, count_insert, Ledger.entry, Pi.add_apply, beq_iff_eq]
  split_ifs <;> simp

/-- An update moves its record from one class to another. -/
theorem tally_update {t : Table α} {i : ℕ} {a : α} (h : t.get i = some a) (f : α → α)
    (hf : ∀ a, key (f a) = key a) :
    (t.update i f hf).tally c =
      t.tally c + (Ledger.entry (c (f a)) 1 - Ledger.entry (c a) 1) := by
  funext k
  have hcount := count_update h f hf fun a => c a == some k
  simp only [tally, Ledger.entry, Pi.add_apply, Pi.sub_apply, beq_iff_eq] at hcount ⊢
  split_ifs at hcount ⊢ <;> omega

/-- Deleting records that have no class changes nothing. -/
theorem tally_erase {t : Table α} {p : α → Bool} (h : ∀ a ∈ t.rows, p a = true → c a = none) :
    (t.erase p).tally c = t.tally c := by
  funext k
  have hcount : (t.count fun a => (c a == some k) && !p a) = t.count fun a => c a == some k := by
    refine count_congr fun a ha => ?_
    cases hp : p a with
    | false => simp
    | true => simp [h a ha hp]
  unfold tally
  rw [count_erase, hcount]

/-- A class that no record has counts nothing. -/
theorem tally_eq_zero {t : Table α} {k : κ} (h : ∀ a ∈ t.rows, c a ≠ some k) :
    t.tally c k = 0 := by
  have hcount : (t.count fun a => c a == some k) = t.count fun _ => false :=
    count_congr fun a ha => by simpa using h a ha
  unfold tally
  rw [hcount]
  simp [count]

end Table

end Effect
