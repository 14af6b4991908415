import Mathlib

/-!
# Tables of records

A database table as the list of its records in the order of their creation. A record carries its
own key, which the table assigns when it creates the record and never assigns again. `Table` holds
the two facts that make a key name at most one record, so that a lookup, an update and a count by
key agree without side conditions: `get_eq_some` says what a lookup finds, and `count_update` how
an update moves a count.
-/

namespace Effect

/-- The key of a record. -/
class Keyed (α : Type) where
  key : α → ℕ

open Keyed

/-- Records with distinct keys, all below the key that the next record will get. -/
structure Table (α : Type) [Keyed α] where
  rows : List α
  next : ℕ
  lt_next : ∀ a ∈ rows, key a < next
  nodup : (rows.map key).Nodup

namespace Table

variable {α : Type} [Keyed α]

/-- The table without records. -/
def empty : Table α := ⟨[], 0, by simp, by simp⟩

/-- The record with the key `i`. -/
def get (t : Table α) (i : ℕ) : Option α := t.rows.find? fun a => key a == i

/-- The number of records that satisfy `p`. -/
def count (t : Table α) (p : α → Bool) : ℕ := t.rows.countP p

/-- Creates the record that `mk` builds from its key. -/
def insert (t : Table α) (mk : ℕ → α) (hk : ∀ i, key (mk i) = i) : Table α where
  rows := t.rows ++ [mk t.next]
  next := t.next + 1
  lt_next a ha := by
    rcases List.mem_append.mp ha with ha | ha
    · exact Nat.lt_succ_of_lt (t.lt_next a ha)
    · rw [List.mem_singleton.mp ha, hk]
      exact Nat.lt_succ_self _
  nodup := by
    rw [List.map_append, List.map_singleton, hk]
    refine List.nodup_append.mpr ⟨t.nodup, List.nodup_singleton _, ?_⟩
    intro i hi j hj
    obtain ⟨a, ha, rfl⟩ := List.mem_map.mp hi
    rw [List.mem_singleton.mp hj]
    exact Nat.ne_of_lt (t.lt_next a ha)

/-- Replaces every record that satisfies `p` by its image under `f`, which keeps the key. -/
def modify (t : Table α) (p : α → Bool) (f : α → α) (hf : ∀ a, key (f a) = key a) : Table α where
  rows := t.rows.map fun a => if p a then f a else a
  next := t.next
  lt_next b hb := by
    obtain ⟨a, ha, rfl⟩ := List.mem_map.mp hb
    have h := t.lt_next a ha
    split_ifs
    · rwa [hf]
    · exact h
  nodup := by
    have e : (t.rows.map fun a => if p a then f a else a).map key = t.rows.map key := by
      rw [List.map_map]
      refine List.map_congr_left fun a _ => ?_
      simp only [Function.comp_apply]
      split_ifs
      · exact hf a
      · rfl
    rw [e]
    exact t.nodup

/-- Replaces the record with the key `i` by its image under `f`, which keeps the key. -/
def update (t : Table α) (i : ℕ) (f : α → α) (hf : ∀ a, key (f a) = key a) : Table α :=
  t.modify (fun a => key a == i) f hf

/-- Deletes every record that satisfies `p`. -/
def erase (t : Table α) (p : α → Bool) : Table α where
  rows := t.rows.filter fun a => !p a
  next := t.next
  lt_next a ha := t.lt_next a (List.mem_of_mem_filter ha)
  nodup := t.nodup.sublist ((List.filter_sublist).map key)

section Lookup

/-- Two records of a table with one key are one record. -/
theorem eq_of_key_eq (t : Table α) {a b : α} (ha : a ∈ t.rows) (hb : b ∈ t.rows)
    (h : key a = key b) : a = b :=
  List.inj_on_of_nodup_map t.nodup ha hb h

/-- A lookup finds exactly the record of the table that has the key. -/
theorem get_eq_some {t : Table α} {i : ℕ} {a : α} :
    t.get i = some a ↔ a ∈ t.rows ∧ key a = i := by
  constructor
  · intro h
    exact ⟨List.mem_of_find?_eq_some h, by simpa using List.find?_some h⟩
  · rintro ⟨ha, hi⟩
    cases h : t.get i with
    | none =>
      have := List.find?_eq_none.mp h a ha
      simp [hi] at this
    | some b =>
      have hb : key b = i := by simpa using List.find?_some h
      rw [t.eq_of_key_eq (List.mem_of_find?_eq_some h) ha (hb.trans hi.symm)]

/-- A record of a table is what a lookup of its key finds. -/
theorem get_key {t : Table α} {a : α} (ha : a ∈ t.rows) : t.get (key a) = some a :=
  get_eq_some.mpr ⟨ha, rfl⟩

/-- A key that names a record is below the next one. -/
theorem lt_of_get {t : Table α} {i : ℕ} {a : α} (h : t.get i = some a) : i < t.next := by
  obtain ⟨ha, rfl⟩ := get_eq_some.mp h
  exact t.lt_next a ha

/-- A key that was never assigned names no record. -/
theorem get_eq_none_of_le {t : Table α} {i : ℕ} (h : t.next ≤ i) : t.get i = none := by
  cases hi : t.get i with
  | none => rfl
  | some a => exact absurd (lt_of_get hi) (by omega)

theorem mem_insert {t : Table α} {mk : ℕ → α} (hk : ∀ i, key (mk i) = i) {a : α} :
    a ∈ (t.insert mk hk).rows ↔ a ∈ t.rows ∨ a = mk t.next := by
  simp [insert]

theorem mem_update {t : Table α} {i : ℕ} {f : α → α} (hf : ∀ a, key (f a) = key a) {b : α} :
    b ∈ (t.update i f hf).rows ↔ ∃ a ∈ t.rows, b = if key a = i then f a else a := by
  simp only [update, modify, List.mem_map, beq_iff_eq]
  exact exists_congr fun a => and_congr_right fun _ => eq_comm

theorem mem_erase {t : Table α} {p : α → Bool} {a : α} :
    a ∈ (t.erase p).rows ↔ a ∈ t.rows ∧ p a = false := by
  simp [erase]

@[simp] theorem next_insert (t : Table α) (mk : ℕ → α) (hk : ∀ i, key (mk i) = i) :
    (t.insert mk hk).next = t.next + 1 := rfl

@[simp] theorem next_update (t : Table α) (i : ℕ) (f : α → α) (hf : ∀ a, key (f a) = key a) :
    (t.update i f hf).next = t.next := rfl

@[simp] theorem next_erase (t : Table α) (p : α → Bool) : (t.erase p).next = t.next := rfl

/-- The lookup of the key that a new record got. -/
@[simp] theorem get_insert_next (t : Table α) (mk : ℕ → α) (hk : ∀ i, key (mk i) = i) :
    (t.insert mk hk).get t.next = some (mk t.next) :=
  get_eq_some.mpr ⟨(mem_insert hk).mpr (Or.inr rfl), hk _⟩

/-- Creating a record does not change what the other keys name. -/
theorem get_insert_of_ne {t : Table α} {mk : ℕ → α} (hk : ∀ i, key (mk i) = i) {i : ℕ}
    (h : i ≠ t.next) : (t.insert mk hk).get i = t.get i := by
  have hn : (key (mk t.next) == i) = false := by simpa [hk] using h.symm
  simp [get, insert, hn]

/-- A record that exists is found after another one is created. -/
theorem get_insert_of_get {t : Table α} {mk : ℕ → α} (hk : ∀ i, key (mk i) = i) {i : ℕ} {a : α}
    (h : t.get i = some a) : (t.insert mk hk).get i = some a := by
  rw [get_insert_of_ne hk (Nat.ne_of_lt (lt_of_get h)), h]

/-- The lookup of an updated record. -/
theorem get_update_self {t : Table α} {i : ℕ} {f : α → α} (hf : ∀ a, key (f a) = key a) {a : α}
    (h : t.get i = some a) : (t.update i f hf).get i = some (f a) := by
  obtain ⟨ha, hi⟩ := get_eq_some.mp h
  refine get_eq_some.mpr ⟨(mem_update hf).mpr ⟨a, ha, ?_⟩, by rw [hf, hi]⟩
  rw [if_pos hi]

/-- What a key names after a modification. -/
theorem get_modify {t : Table α} {i : ℕ} {p : α → Bool} {f : α → α}
    (hf : ∀ a, key (f a) = key a) :
    (t.modify p f hf).get i = (t.get i).map fun a => if p a then f a else a := by
  have hkey : ((fun a => key a == i) ∘ fun a => if p a then f a else a) =
      fun a => key a == i := by
    funext a
    simp only [Function.comp_apply]
    split_ifs
    · rw [hf]
    · rfl
  unfold get modify
  rw [List.find?_map, hkey]

/-- What a key names after an update. -/
theorem get_update {t : Table α} {i j : ℕ} {f : α → α} (hf : ∀ a, key (f a) = key a) :
    (t.update i f hf).get j = if j = i then (t.get j).map f else t.get j := by
  unfold update
  rw [get_modify]
  cases h : t.get j with
  | none => simp
  | some a =>
    obtain ⟨-, rfl⟩ := get_eq_some.mp h
    by_cases hi : key a = i <;> simp [hi]

/-- What a key names after records were deleted. -/
theorem get_erase {t : Table α} {p : α → Bool} {i : ℕ} :
    (t.erase p).get i = (t.get i).filter fun a => !p a := by
  ext a
  rw [get_eq_some, mem_erase, Option.filter_eq_some_iff, get_eq_some]
  simp only [Bool.not_eq_true', and_assoc, and_comm]

/-- An update does not change what the other keys name. -/
theorem get_update_of_ne {t : Table α} {i j : ℕ} {f : α → α} (hf : ∀ a, key (f a) = key a)
    (h : j ≠ i) : (t.update i f hf).get j = t.get j := by
  rw [get_update hf, if_neg h]

end Lookup

section Count

theorem count_insert (t : Table α) (mk : ℕ → α) (hk : ∀ i, key (mk i) = i) (p : α → Bool) :
    (t.insert mk hk).count p = t.count p + if p (mk t.next) then 1 else 0 := by
  simp [count, insert, List.countP_append, List.countP_singleton]

/-- Counting by two predicates that agree on the records gives one number. -/
theorem count_congr {t : Table α} {p q : α → Bool} (h : ∀ a ∈ t.rows, p a = q a) :
    t.count p = t.count q :=
  List.countP_congr fun a ha => by rw [h a ha]

/-- The rows of a duplicate-free list that an update changes: the count moves by that one row. -/
theorem countP_update {l : List α} (hn : (l.map key).Nodup) {a : α} (ha : a ∈ l) (f : α → α)
    (p : α → Bool) :
    (l.map fun b => if key b == key a then f b else b).countP p + (if p a then 1 else 0) =
      l.countP p + if p (f a) then 1 else 0 := by
  induction l with
  | nil => cases ha
  | cons b l ih =>
    rw [List.map_cons, List.nodup_cons] at hn
    rcases List.mem_cons.mp ha with rfl | ha
    · have hrest : (l.map fun c => if key c == key a then f c else c) = l := by
        refine (List.map_congr_left fun c hc => ?_).trans (List.map_id l)
        have hne : key c ≠ key a := fun e => hn.1 (e ▸ List.mem_map_of_mem hc)
        simp [hne]
      rw [List.map_cons, hrest]
      simp only [beq_self_eq_true, if_true, List.countP_cons]
      omega
    · have hne : key b ≠ key a := fun e => hn.1 (e ▸ List.mem_map_of_mem ha)
      have := ih hn.2 ha
      rw [List.map_cons]
      simp only [beq_iff_eq, hne, if_false, List.countP_cons] at this ⊢
      omega

/-- An update of the record `a` moves a count from what `a` contributes to what its image does. -/
theorem count_update {t : Table α} {i : ℕ} {a : α} (h : t.get i = some a) (f : α → α)
    (hf : ∀ a, key (f a) = key a) (p : α → Bool) :
    (t.update i f hf).count p + (if p a then 1 else 0) =
      t.count p + if p (f a) then 1 else 0 := by
  obtain ⟨ha, rfl⟩ := get_eq_some.mp h
  exact countP_update t.nodup ha f p

theorem count_erase (t : Table α) (p q : α → Bool) :
    (t.erase q).count p = t.count fun a => p a && !q a := by
  simp [count, erase, List.countP_filter]

end Count

end Table

end Effect
