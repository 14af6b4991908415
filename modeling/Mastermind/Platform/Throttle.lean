import Mathlib

/-!
# Throttles with a short memory

A throttle admits an attempt for a key unless it admitted one for the key less than a window ago. It
remembers when it last admitted each key, and when it has too many keys it forgets those that are
older than the window. Under a clock that does not go back it decides as one that remembers every
attempt (`admits_iff`). An attempt without a key is always admitted and not remembered.
-/

namespace Mastermind.Throttle

variable {κ : Type} [DecidableEq κ]

/-- An attempt, at its time. -/
structure Attempt (κ : Type) where
  key : Option κ
  time : ℤ

/-- The remembered keys, with the time of each. -/
structure Memory (κ : Type) where
  keys : Finset κ
  stamp : κ → ℤ

namespace Memory

/-- Nothing is remembered. -/
def empty : Memory κ := ⟨∅, fun _ => 0⟩

/-- When a key was last admitted, as far as it is remembered. -/
def get (m : Memory κ) (k : κ) : Option ℤ := if k ∈ m.keys then some (m.stamp k) else none

/-- Notes the time of a key. -/
def set (m : Memory κ) (k : κ) (time : ℤ) : Memory κ :=
  ⟨insert k m.keys, Function.update m.stamp k time⟩

/-- Forgets the keys that are older than the window. -/
def prune (window now : ℤ) (m : Memory κ) : Memory κ :=
  ⟨m.keys.filter fun k => now - m.stamp k < window, m.stamp⟩

theorem get_empty (k : κ) : (empty : Memory κ).get k = none := rfl

theorem get_set (m : Memory κ) (k k' : κ) (time : ℤ) :
    (m.set k time).get k' = if k' = k then some time else m.get k' := by
  unfold get set
  by_cases h : k' = k
  · simp [h]
  · simp [h]

theorem get_prune (window now : ℤ) (m : Memory κ) (k : κ) :
    (m.prune window now).get k = (m.get k).filter fun t => now - t < window := by
  unfold get prune
  by_cases hk : k ∈ m.keys <;> by_cases ht : now - m.stamp k < window <;>
    simp [hk, ht, Option.filter]

end Memory

variable (window : ℤ) (limit : ℕ)

/-- Whether an attempt is refused. -/
def refuses (m : Memory κ) (a : Attempt κ) : Bool :=
  match a.key.bind m.get with
  | none => false
  | some previous => decide (a.time - previous < window)

/-- The memory after an attempt. -/
def step (m : Memory κ) (a : Attempt κ) : Memory κ :=
  match a.key with
  | none => m
  | some k =>
    if refuses window m a then m
    else
      let noted := m.set k a.time
      if limit < noted.keys.card then noted.prune window a.time else noted

/-- The memory after some attempts. -/
def memory (attempts : List (Attempt κ)) : Memory κ := attempts.foldl (step window limit) .empty

/-- An attempt is admitted after others. -/
def Admits (before : List (Attempt κ)) (a : Attempt κ) : Prop :=
  refuses window (memory window limit before) a = false

/-- An attempt with a key was admitted among the attempts. -/
def Admitted (attempts : List (Attempt κ)) (k : κ) (time : ℤ) : Prop :=
  ∃ before a after, attempts = before ++ a :: after ∧ Admits window limit before a ∧
    a.key = some k ∧ a.time = time

variable {window limit} {attempts : List (Attempt κ)} {a : Attempt κ} {k : κ} {time : ℤ}

theorem memory_concat (attempts : List (Attempt κ)) (a : Attempt κ) :
    memory window limit (attempts ++ [a]) = step window limit (memory window limit attempts) a := by
  unfold memory
  rw [List.foldl_append]
  rfl

/-- One more attempt is admitted, or an earlier one was. -/
theorem admitted_concat :
    Admitted window limit (attempts ++ [a]) k time ↔ Admitted window limit attempts k time ∨
      Admits window limit attempts a ∧ a.key = some k ∧ a.time = time := by
  constructor
  · rintro ⟨before, a', after, hsplit, hadmits, hkey⟩
    rcases List.eq_nil_or_concat after with rfl | ⟨after, last, rfl⟩
    · obtain ⟨rfl, hlast⟩ := List.append_inj' hsplit rfl
      obtain rfl := (List.cons.inj hlast).1
      exact .inr ⟨hadmits, hkey⟩
    · rw [List.concat_eq_append, ← List.cons_append, ← List.append_assoc] at hsplit
      exact .inl ⟨before, a', after, (List.append_inj' hsplit rfl).1, hadmits, hkey⟩
  · rintro (⟨before, a', after, rfl, hadmits, hkey⟩ | ⟨hadmits, hkey⟩)
    · exact ⟨before, a', after ++ [a], by simp, hadmits, hkey⟩
    · exact ⟨attempts, a, [], rfl, hadmits, hkey⟩

/-- What a memory says of the attempts before: a remembered time is one at which the key was
admitted, and a time at which it was is not after the remembered one, or it is forgotten and older
than the window from then on. -/
structure Recalls (window : ℤ) (limit : ℕ) (attempts : List (Attempt κ)) (m : Memory κ) : Prop where
  sound : ∀ k t, m.get k = some t → Admitted window limit attempts k t
  complete : ∀ k t, Admitted window limit attempts k t →
    (∃ t', m.get k = some t' ∧ t ≤ t') ∨
      ∀ now, (∀ a ∈ attempts, a.time ≤ now) → window ≤ now - t

theorem Recalls.empty : Recalls window limit [] (.empty : Memory κ) where
  sound k t h := by
    rw [Memory.get_empty] at h
    cases h
  complete k t h := by
    obtain ⟨before, a, after, hnil, -⟩ := h
    exact absurd hnil (by simp)

/-- An admitted attempt was not made later than all attempts. -/
theorem Admitted.le (h : Admitted window limit attempts k time) {now : ℤ}
    (hnow : ∀ a ∈ attempts, a.time ≤ now) : time ≤ now := by
  obtain ⟨before, a, after, rfl, -, -, rfl⟩ := h
  exact hnow a (List.mem_append_right _ List.mem_cons_self)

/-- Forgetting what is older than the window. -/
theorem Recalls.prune {m : Memory κ} {now : ℤ} (h : Recalls window limit attempts m)
    (ha : a ∈ attempts) (hnow : a.time = now) :
    Recalls window limit attempts (m.prune window now) where
  sound k t hget := by
    rw [Memory.get_prune] at hget
    exact h.sound k t (Option.filter_eq_some_iff.mp hget).1
  complete k t hadmitted := by
    rcases h.complete k t hadmitted with ⟨t', hget, hle⟩ | hold
    · rw [Memory.get_prune, hget]
      by_cases hrecent : now - t' < window
      · exact .inl ⟨t', by simp [hrecent, Option.filter], hle⟩
      · refine .inr fun later hlater => ?_
        have hlate := hlater a ha
        omega
    · exact .inr hold

/-- One more attempt, under a clock that does not go back. -/
theorem Recalls.step (h : Recalls window limit attempts (memory window limit attempts))
    (hclock : ∀ b ∈ attempts, b.time ≤ a.time) :
    Recalls window limit (attempts ++ [a])
      (step window limit (memory window limit attempts) a) := by
  have hlater : ∀ now, (∀ b ∈ attempts ++ [a], b.time ≤ now) → ∀ b ∈ attempts, b.time ≤ now :=
    fun now hnow b hb => hnow b (List.mem_append_left _ hb)
  unfold Throttle.step
  by_cases hnoted : ∃ k, a.key = some k ∧ Admits window limit attempts a
  · obtain ⟨k, hkey, hadmits⟩ := hnoted
    have hpasses : refuses window (memory window limit attempts) a = false := hadmits
    have hset : Recalls window limit (attempts ++ [a])
        ((memory window limit attempts).set k a.time) := by
      refine ⟨fun k' t hget => ?_, fun k' t hadmitted => ?_⟩
      · rw [Memory.get_set] at hget
        split_ifs at hget with hk
        · exact admitted_concat.mpr (.inr ⟨hadmits, hk ▸ hkey, Option.some.inj hget⟩)
        · exact admitted_concat.mpr (.inl (h.sound k' t hget))
      · rw [Memory.get_set]
        split_ifs with hk
        · refine .inl ⟨a.time, rfl, ?_⟩
          rcases admitted_concat.mp hadmitted with hearlier | ⟨-, -, hlast⟩
          · exact hearlier.le hclock
          · exact hlast.ge
        · rcases admitted_concat.mp hadmitted with hearlier | ⟨-, hlast, -⟩
          · exact (h.complete k' t hearlier).imp_right fun hold now hnow =>
              hold now (hlater now hnow)
          · exact absurd (Option.some.inj (hlast.symm.trans hkey)) hk
    rw [hkey]
    dsimp only
    rw [hpasses, if_neg Bool.false_ne_true]
    split_ifs
    · exact hset.prune (List.mem_append_right _ List.mem_cons_self) rfl
    · exact hset
  · -- the memory is left as it is
    have hsame : Recalls window limit (attempts ++ [a]) (memory window limit attempts) := by
      refine ⟨fun k t hget => admitted_concat.mpr (.inl (h.sound k t hget)),
        fun k t hadmitted => ?_⟩
      rcases admitted_concat.mp hadmitted with hearlier | ⟨hadmits, hkey, -⟩
      · exact (h.complete k t hearlier).imp_right fun hold now hnow => hold now (hlater now hnow)
      · exact absurd ⟨k, hkey, hadmits⟩ hnoted
    cases hkey : a.key with
    | none => exact hsame
    | some k =>
      dsimp only
      have hrefuses : refuses window (memory window limit attempts) a = true := by
        by_contra hpasses
        exact hnoted ⟨k, hkey, Bool.eq_false_of_not_eq_true hpasses⟩
      rw [if_pos hrefuses]
      exact hsame

/-- What the memory of a run recalls. -/
theorem recalls_memory (hclock : attempts.Pairwise fun a b => a.time ≤ b.time) :
    Recalls window limit attempts (memory window limit attempts) := by
  induction attempts using List.reverseRecOn with
  | nil => exact .empty
  | append_singleton attempts a ih =>
    obtain ⟨hbefore, -, hlast⟩ := List.pairwise_append.mp hclock
    rw [memory_concat]
    exact (ih hbefore).step fun b hb => hlast b hb a List.mem_cons_self

/-- An attempt is admitted if and only if every earlier admitted attempt for its key is at least a
window old. -/
theorem admits_iff (hclock : (attempts ++ [a]).Pairwise fun a b => a.time ≤ b.time) :
    Admits window limit attempts a ↔
      ∀ k, a.key = some k → ∀ t, Admitted window limit attempts k t → window ≤ a.time - t := by
  obtain ⟨hbefore, -, hlast⟩ := List.pairwise_append.mp hclock
  have hnow : ∀ b ∈ attempts, b.time ≤ a.time := fun b hb => hlast b hb a List.mem_cons_self
  have hrecalls : Recalls window limit attempts (memory window limit attempts) :=
    recalls_memory hbefore
  unfold Admits refuses
  cases hkey : a.key with
  | none => simp
  | some k =>
    simp only [Option.bind_some, Option.some.injEq, forall_eq']
    cases hget : (memory window limit attempts).get k with
    | none =>
      refine iff_of_true rfl fun t hadmitted => ?_
      rcases hrecalls.complete k t hadmitted with ⟨t', ht', -⟩ | hold
      · rw [hget] at ht'
        cases ht'
      · exact hold a.time hnow
    | some previous =>
      rw [decide_eq_false_iff_not, not_lt]
      constructor
      · intro hpasses t hadmitted
        rcases hrecalls.complete k t hadmitted with ⟨t', ht', hle⟩ | hold
        · obtain rfl := Option.some.inj (hget.symm.trans ht')
          omega
        · exact hold a.time hnow
      · exact fun hall => hall previous (hrecalls.sound k previous hget)

/-- The memory has at most so many keys, or only keys of the window before the attempt that was
noted last. -/
theorem card_memory_le (attempts : List (Attempt κ)) :
    (memory window limit attempts).keys.card ≤ limit ∨
      ∃ a ∈ attempts, ∀ k ∈ (memory window limit attempts).keys,
        a.time - (memory window limit attempts).stamp k < window := by
  induction attempts using List.reverseRecOn with
  | nil => exact .inl (Nat.zero_le _)
  | append_singleton attempts a ih =>
    have hkept : (memory window limit attempts).keys.card ≤ limit ∨
        ∃ b ∈ attempts ++ [a], ∀ k ∈ (memory window limit attempts).keys,
          b.time - (memory window limit attempts).stamp k < window := by
      rcases ih with hfew | ⟨b, hb, hrecent⟩
      · exact .inl hfew
      · exact .inr ⟨b, List.mem_append_left _ hb, hrecent⟩
    rw [memory_concat]
    unfold step
    cases a.key with
    | none => exact hkept
    | some k =>
      dsimp only
      split_ifs with hrefuses hmany
      · exact hkept
      · refine .inr ⟨a, List.mem_append_right _ List.mem_cons_self, fun k' hk' => ?_⟩
        exact (Finset.mem_filter.mp hk').2
      · exact .inl (not_lt.mp hmany)

end Mastermind.Throttle
