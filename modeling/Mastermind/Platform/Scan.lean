import Mathlib

/-!
# Going through a text with a global search

A search with the flag `g` goes through a text from left to right: where something stands that it
looks for, it takes that and goes on behind it, and a letter at which there is nothing is passed
over. `Scan.pieces` is the text cut in this way, for any function that says what is found at a place
and how many letters it takes. `pieces_found` and `pieces_passed` are the two steps; `pieces_append`
passes over a whole text in which nothing is found. The last section cuts a text at a letter.
-/

namespace Mastermind.Scan

variable {α β : Type*}

/-- What a global search makes of a text: what it finds, and the letters in between. The number
counts the letters of the last find that are still to be passed over. -/
def pieces (here : List α → Option (β × ℕ)) : ℕ → List α → List (α ⊕ β)
  | _, [] => []
  | k + 1, _ :: xs => pieces here k xs
  | 0, x :: xs =>
    match here (x :: xs) with
    | some (b, n) => .inr b :: pieces here (n - 1) xs
    | none => .inl x :: pieces here 0 xs

/-- What a global search finds. -/
def found (here : List α → Option (β × ℕ)) (text : List α) : List β :=
  (pieces here 0 text).filterMap Sum.getRight?

/-- The text with another one in the place of each find. -/
def replaced (here : List α → Option (β × ℕ)) (f : β → List α) (text : List α) : List α :=
  (pieces here 0 text).flatMap (Sum.elim (fun x => [x]) f)

variable {here : List α → Option (β × ℕ)}

theorem pieces_drop (k : ℕ) (text : List α) : pieces here k text = pieces here 0 (text.drop k) := by
  induction k generalizing text with
  | zero => rfl
  | succ k ih =>
    cases text with
    | nil => simp [pieces]
    | cons x xs => rw [pieces, ih, List.drop_succ_cons]

/-- A find is passed over as a whole. -/
theorem pieces_found {a rest : List α} {b : β} (ha : a ≠ [])
    (h : here (a ++ rest) = some (b, a.length)) :
    pieces here 0 (a ++ rest) = .inr b :: pieces here 0 rest := by
  obtain ⟨x, xs, rfl⟩ := List.exists_cons_of_ne_nil ha
  rw [List.cons_append] at h
  rw [List.cons_append, pieces, h]
  simp only [List.length_cons, Nat.add_sub_cancel]
  rw [pieces_drop, List.drop_left]

/-- A letter at which nothing is found stays. -/
theorem pieces_passed {x : α} {xs : List α} (h : here (x :: xs) = none) :
    pieces here 0 (x :: xs) = .inl x :: pieces here 0 xs := by
  rw [pieces, h]

/-- A text in which nothing is found stays. -/
theorem pieces_append {a rest : List α}
    (h : ∀ v, v <:+ a → v ≠ [] → here (v ++ rest) = none) :
    pieces here 0 (a ++ rest) = a.map .inl ++ pieces here 0 rest := by
  induction a with
  | nil => rfl
  | cons x xs ih =>
    have hx := h _ List.suffix_rfl (List.cons_ne_nil x xs)
    rw [List.cons_append] at hx
    rw [List.cons_append, pieces_passed hx,
      ih fun v hv hne => h v (hv.trans (List.suffix_cons x xs)) hne]
    rfl

section Finds

variable {a rest : List α}

theorem found_nil : found here [] = [] := rfl

theorem found_cons {b : β} (ha : a ≠ []) (h : here (a ++ rest) = some (b, a.length)) :
    found here (a ++ rest) = b :: found here rest := by
  rw [found, pieces_found ha h]
  rfl

theorem found_append (h : ∀ v, v <:+ a → v ≠ [] → here (v ++ rest) = none) :
    found here (a ++ rest) = found here rest := by
  have hletters : (a.map (Sum.inl : α → α ⊕ β)).filterMap Sum.getRight? = [] := by
    simp [List.filterMap_map, Function.comp_def]
  rw [found, pieces_append h, List.filterMap_append, hletters, List.nil_append]
  rfl

theorem replaced_cons {f : β → List α} {b : β} (ha : a ≠ [])
    (h : here (a ++ rest) = some (b, a.length)) :
    replaced here f (a ++ rest) = f b ++ replaced here f rest := by
  rw [replaced, pieces_found ha h]
  rfl

theorem replaced_append {f : β → List α}
    (h : ∀ v, v <:+ a → v ≠ [] → here (v ++ rest) = none) :
    replaced here f (a ++ rest) = a ++ replaced here f rest := by
  have hletters : (a.map (Sum.inl : α → α ⊕ β)).flatMap (Sum.elim (fun x => [x]) f) = a := by
    simp [List.flatMap_map]
  rw [replaced, pieces_append h, List.flatMap_append, hletters]
  rfl

end Finds

section Cuts

variable [DecidableEq α] {a : List α} {x : α}

/-- What stands before the first of a kind of letters. -/
theorem takeWhile_ne (ha : x ∉ a) (rest : List α) :
    (a ++ x :: rest).takeWhile (fun u => decide (u ≠ x)) = a := by
  have hall : ∀ u ∈ a, decide (u ≠ x) = true := fun u hu => by
    have hne : u ≠ x := fun h => ha (h ▸ hu)
    simpa using hne
  rw [List.takeWhile_append_of_pos hall, List.takeWhile_cons_of_neg (by simp), List.append_nil]

/-- The text from the first of a kind of letters on. -/
theorem dropWhile_ne (ha : x ∉ a) (rest : List α) :
    (a ++ x :: rest).dropWhile (fun u => decide (u ≠ x)) = x :: rest := by
  have hall : ∀ u ∈ a, decide (u ≠ x) = true := fun u hu => by
    have hne : u ≠ x := fun h => ha (h ▸ hu)
    simpa using hne
  rw [List.dropWhile_append_of_pos hall, List.dropWhile_cons_of_neg (by simp)]

/-- Two texts are cut alike at the first of a kind of letters. -/
theorem append_cons_inj {b r r' : List α} (ha : x ∉ a) (hb : x ∉ b)
    (h : a ++ x :: r = b ++ x :: r') : a = b ∧ r = r' := by
  have hrest : x :: r = x :: r' := by rw [← dropWhile_ne ha r, h, dropWhile_ne hb r']
  have hfirst : a = b := by rw [← takeWhile_ne ha r, h, takeWhile_ne hb r']
  exact ⟨hfirst, (List.cons.inj hrest).2⟩

end Cuts

end Mastermind.Scan
