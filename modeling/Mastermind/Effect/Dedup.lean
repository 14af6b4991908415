import Mathlib

/-!
# Keeping the first of each key

A log that keeps an item unless it holds one with the same key; an item without a key is always
kept. `count_foldl_record_none` and `count_foldl_record` say how often an item is kept: as often as
it comes if it has no key, and otherwise once if and only if it is the first to come with its key.
-/

namespace Effect

variable {α κ : Type*} [DecidableEq κ]

/-- The log after one more item. -/
def record (key : α → Option κ) (log : List α) (a : α) : List α :=
  if (key a).isSome ∧ ∃ b ∈ log, key b = key a then log else log ++ [a]

/-- Whether the log holds a key. -/
abbrev Holds (key : α → Option κ) (log : List α) (k : κ) : Prop := ∃ b ∈ log, key b = some k

theorem record_of_none {key : α → Option κ} {a : α} (h : key a = none) (log : List α) :
    record key log a = log ++ [a] :=
  if_neg (by simp [h])

theorem record_of_holds {key : α → Option κ} {a : α} {k : κ} {log : List α} (h : key a = some k)
    (hlog : Holds key log k) : record key log a = log :=
  if_pos ⟨by simp [h], by rwa [h]⟩

theorem record_of_fresh {key : α → Option κ} {a : α} {k : κ} {log : List α} (h : key a = some k)
    (hlog : ¬Holds key log k) : record key log a = log ++ [a] :=
  if_neg fun hd => hlog (by simpa [h] using hd.2)

/-- A key that the log holds stays in it. -/
theorem holds_record {key : α → Option κ} {log : List α} {k : κ} (h : Holds key log k) (a : α) :
    Holds key (record key log a) k := by
  obtain ⟨b, hb, hk⟩ := h
  unfold record
  split_ifs
  · exact ⟨b, hb, hk⟩
  · exact ⟨b, List.mem_append_left _ hb, hk⟩

variable [BEq α] [LawfulBEq α]

/-- An item without a key is kept as often as it comes. -/
theorem count_foldl_record_none {key : α → Option κ} {a : α} (h : key a = none) (l log : List α) :
    (l.foldl (record key) log).count a = log.count a + l.count a := by
  induction l generalizing log with
  | nil => simp
  | cons b l ih =>
    rw [List.foldl_cons, ih, List.count_cons]
    by_cases hb : b = a
    · subst hb
      rw [record_of_none h, List.count_append]
      simp
      omega
    · have hrec : (record key log b).count a = log.count a := by
        unfold record
        split_ifs
        · rfl
        · simp [List.count_append, hb]
      simp [hrec, hb]

/-- No item is kept whose key the log holds. -/
theorem count_foldl_record_holds {key : α → Option κ} {a : α} {k : κ} (h : key a = some k)
    (l : List α) {log : List α} (hlog : Holds key log k) :
    (l.foldl (record key) log).count a = log.count a := by
  induction l generalizing log with
  | nil => rfl
  | cons b l ih =>
    rw [List.foldl_cons, ih (holds_record hlog b)]
    by_cases hb : b = a
    · subst hb
      rw [record_of_holds h hlog]
    · unfold record
      split_ifs
      · rfl
      · simp [List.count_append, hb]

/-- An item is kept once if and only if it is the first to come with its key. -/
theorem count_foldl_record {key : α → Option κ} {a : α} {k : κ} (h : key a = some k) (l : List α)
    {log : List α} (hlog : ¬Holds key log k) :
    (l.foldl (record key) log).count a = 1 ↔ l.find? (fun b => key b = some k) = some a := by
  have hnone : ∀ {log : List α}, ¬Holds key log k → log.count a = 0 := fun hlog =>
    List.count_eq_zero.mpr fun ha => hlog ⟨a, ha, h⟩
  induction l generalizing log with
  | nil => simp [hnone hlog]
  | cons b l ih =>
    rw [List.foldl_cons]
    by_cases hk : key b = some k
    · -- The first item with the key: the log holds the key from now on.
      have hholds : Holds key (log ++ [b]) k := ⟨b, by simp, hk⟩
      rw [record_of_fresh hk hlog, count_foldl_record_holds h l hholds, List.count_append,
        hnone hlog, Nat.zero_add, List.count_singleton]
      by_cases hb : b = a
      · subst hb
        simp [hk]
      · simp [hk, hb]
    · have hstill : ¬Holds key (record key log b) k := by
        rintro ⟨c, hc, hck⟩
        unfold record at hc
        split_ifs at hc
        · exact hlog ⟨c, hc, hck⟩
        · rcases List.mem_append.mp hc with hc | hc
          · exact hlog ⟨c, hc, hck⟩
          · rw [List.mem_singleton.mp hc] at hck
            exact hk hck
      refine (ih hstill).trans ?_
      simp [hk]

end Effect
