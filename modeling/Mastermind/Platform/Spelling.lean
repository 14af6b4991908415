import Mastermind.Platform.Regex

/-!
# Expressions that spell words out

An expression in which every repeat has a fixed length matches the words of finitely many shapes. A
shape is a list of classes, one for each letter, and `Regex.spellings` lists the shapes.
`Regex.test_whole` says of an expression between `^` and `$` which texts match.

Of any expression `Regex.Reads` says which words a match can take, and `Regex.within_eq_some_iff` at
which place before a cut a search finds its match.
-/

namespace Mastermind.Regex

variable {α : Type*}

/-- The shapes of the words that an expression matches, where they are finitely many. -/
def spellings : Regex α → Option (List (List (α → Bool)))
  | empty => some [[]]
  | one p => some [[p]]
  | many p least most => if most = some least then some [List.replicate least p] else none
  | seq a b => do
    let us ← a.spellings
    let vs ← b.spellings
    pure (us.flatMap fun u => vs.map (u ++ ·))
  | alt a b => do pure ((← a.spellings) ++ (← b.spellings))
  | group a => a.spellings
  | boundary _ => none
  | start => none
  | finish => none

/-- A word has a shape. -/
def Spells (shape : List (α → Bool)) (word : List α) : Prop :=
  List.Forall₂ (fun p x => p x = true) shape word

@[simp] theorem spells_nil {word : List α} : Spells [] word ↔ word = [] :=
  List.forall₂_nil_left_iff

@[simp] theorem spells_cons {p : α → Bool} {shape : List (α → Bool)} {word : List α} :
    Spells (p :: shape) word ↔ ∃ x xs, p x = true ∧ Spells shape xs ∧ word = x :: xs :=
  List.forall₂_cons_left_iff

theorem spells_append {u v : List (α → Bool)} {word : List α} :
    Spells (u ++ v) word ↔ ∃ a b, Spells u a ∧ Spells v b ∧ word = a ++ b := by
  induction u generalizing word with
  | nil => simp
  | cons p u ih =>
    simp only [List.cons_append, spells_cons, ih]
    constructor
    · rintro ⟨x, xs, hx, ⟨a, b, ha, hb, rfl⟩, rfl⟩
      exact ⟨x :: a, b, ⟨x, a, hx, ha, rfl⟩, hb, rfl⟩
    · rintro ⟨_, b, ⟨x, a, hx, ha, rfl⟩, hb, rfl⟩
      exact ⟨x, a ++ b, hx, ⟨a, b, ha, hb, rfl⟩, rfl⟩

theorem spells_replicate {p : α → Bool} {n : ℕ} {word : List α} :
    Spells (List.replicate n p) word ↔ word.length = n ∧ ∀ x ∈ word, p x = true := by
  induction n generalizing word with
  | zero => simp +contextual
  | succ n ih =>
    rw [List.replicate_succ, spells_cons]
    constructor
    · rintro ⟨x, xs, hx, hxs, rfl⟩
      obtain ⟨rfl, hall⟩ := ih.mp hxs
      exact ⟨rfl, List.forall_mem_cons.mpr ⟨hx, hall⟩⟩
    · rintro ⟨hlength, hall⟩
      obtain ⟨x, xs, rfl⟩ := List.exists_cons_of_length_eq_add_one hlength
      obtain ⟨hx, hxs⟩ := List.forall_mem_cons.mp hall
      exact ⟨x, xs, hx, ih.mpr ⟨by simpa using hlength, hxs⟩, rfl⟩

/-- A letter that no class of a shape has is in none of its words. -/
theorem not_mem_of_spells {shape : List (α → Bool)} {word : List α} {x : α} (h : Spells shape word)
    (hshape : ∀ p ∈ shape, p x = false) : x ∉ word := by
  induction shape generalizing word with
  | nil =>
    rw [spells_nil.mp h]
    exact List.not_mem_nil
  | cons p shape ih =>
    obtain ⟨y, ys, hy, hys, rfl⟩ := spells_cons.mp h
    obtain ⟨hp, hrest⟩ := List.forall_mem_cons.mp hshape
    rw [List.mem_cons, not_or]
    refine ⟨?_, ih hys hrest⟩
    rintro rfl
    rw [hp] at hy
    cases hy

/-- As many letters as a repeat may take are all of its class. -/
theorem of_mem_take {p : α → Bool} {k : ℕ} {l : List α} (hk : k ≤ (l.takeWhile p).length) :
    (l.take k).length = k ∧ ∀ x ∈ l.take k, p x = true := by
  have htake : l.take k = (l.takeWhile p).take k := by
    conv_lhs => rw [← List.takeWhile_append_dropWhile (p := p) (l := l)]
    rw [List.take_append_of_le_length hk]
  rw [htake]
  refine ⟨by rw [List.length_take, min_eq_left hk], fun x hx => ?_⟩
  exact List.mem_takeWhile_imp (List.mem_of_mem_take hx)

/-- A repeat of a fixed length takes so many letters, if they are all of its class. -/
theorem run_exactly {p : α → Bool} {n : ℕ} {c : Cursor α} {rest : List α} :
    (∃ d ∈ (many p n (some n)).run c, d.rest = rest) ↔
      ∃ u, (u.length = n ∧ ∀ x ∈ u, p x = true) ∧ c.rest = u ++ rest := by
  have hreach : reach p n (some n) c.rest =
      if n ≤ (c.rest.takeWhile p).length then [n] else [] := by
    unfold reach
    dsimp only
    split_ifs with h
    · rw [min_eq_left h, Nat.add_sub_cancel_left]
      rfl
    · rw [Nat.sub_eq_zero_of_le (by omega)]
      rfl
  constructor
  · rintro ⟨d, hd, rfl⟩
    obtain ⟨k, hk, rfl⟩ := List.mem_map.mp hd
    rw [hreach] at hk
    split_ifs at hk with hlong
    · obtain rfl := List.mem_singleton.mp hk
      refine ⟨c.rest.take k, of_mem_take hlong, ?_⟩
      rw [Cursor.skip_rest, List.take_append_drop]
    · exact absurd hk List.not_mem_nil
  · rintro ⟨u, ⟨rfl, hall⟩, hrest⟩
    have hlong : u.length ≤ (c.rest.takeWhile p).length := by
      rw [hrest, List.takeWhile_append_of_pos hall, List.length_append]
      exact Nat.le_add_right _ _
    refine ⟨c.skip u.length, List.mem_map.mpr ⟨u.length, ?_, rfl⟩, ?_⟩
    · rw [hreach, if_pos hlong]
      exact List.mem_singleton_self _
    · rw [Cursor.skip_rest, hrest, List.drop_left]

/-- The matches of an expression take the words of its shapes. -/
theorem run_spellings (r : Regex α) {ws : List (List (α → Bool))} (hr : r.spellings = some ws)
    {c : Cursor α} {rest : List α} :
    (∃ d ∈ r.run c, d.rest = rest) ↔ ∃ w ∈ ws, ∃ u, Spells w u ∧ c.rest = u ++ rest := by
  induction r generalizing c rest ws with
  | empty =>
    obtain rfl := Option.some.inj hr
    simp [run]
  | one p =>
    obtain rfl := Option.some.inj hr
    obtain ⟨prev, _ | ⟨x, xs⟩, caps⟩ := c
    · simp [run]
    · by_cases hp : p x
      · simp [run, hp]
      · simp [run, hp]
  | many p least most =>
    simp only [spellings] at hr
    split_ifs at hr with hmost
    obtain rfl := hmost
    obtain rfl := Option.some.inj hr
    rw [run_exactly]
    simp [spells_replicate]
  | seq a b iha ihb =>
    obtain ⟨us, hus, hrest⟩ := Option.bind_eq_some_iff.mp hr
    obtain ⟨vs, hvs, hws⟩ := Option.bind_eq_some_iff.mp hrest
    obtain rfl := Option.some.inj hws
    constructor
    · rintro ⟨d, hd, hdr⟩
      obtain ⟨e, he, hde⟩ := List.mem_flatMap.mp hd
      obtain ⟨u, hu, x, hx, hcx⟩ := (iha hus).mp ⟨e, he, rfl⟩
      obtain ⟨v, hv, y, hy, hey⟩ := (ihb hvs).mp ⟨d, hde, hdr⟩
      refine ⟨u ++ v, List.mem_flatMap.mpr ⟨u, hu, List.mem_map_of_mem hv⟩, x ++ y,
        spells_append.mpr ⟨x, y, hx, hy, rfl⟩, ?_⟩
      rw [hcx, hey, List.append_assoc]
    · rintro ⟨w, hw, z, hz, hcz⟩
      obtain ⟨u, hu, hw⟩ := List.mem_flatMap.mp hw
      obtain ⟨v, hv, rfl⟩ := List.mem_map.mp hw
      obtain ⟨x, y, hx, hy, rfl⟩ := spells_append.mp hz
      obtain ⟨e, he, her⟩ : ∃ e ∈ a.run c, e.rest = y ++ rest :=
        (iha hus).mpr ⟨u, hu, x, hx, by rw [hcz, List.append_assoc]⟩
      obtain ⟨d, hd, hdr⟩ : ∃ d ∈ b.run e, d.rest = rest := (ihb hvs).mpr ⟨v, hv, y, hy, her⟩
      exact ⟨d, List.mem_flatMap.mpr ⟨e, he, hd⟩, hdr⟩
  | alt a b iha ihb =>
    obtain ⟨us, hus, hrest⟩ := Option.bind_eq_some_iff.mp hr
    obtain ⟨vs, hvs, hws⟩ := Option.bind_eq_some_iff.mp hrest
    obtain rfl := Option.some.inj hws
    simp only [run, List.mem_append, or_and_right, exists_or, iha hus, ihb hvs]
  | group a ih =>
    rw [← ih hr]
    simp [run]
  | boundary word => cases hr
  | start => cases hr
  | finish => cases hr

/-- An expression that begins with `^` matches at the beginning or nowhere. -/
theorem test_start (r : Regex α) (text : List α) :
    (seq start r).test text ↔ ∃ d, d ∈ r.run ⟨none, text, []⟩ := by
  have hlater : ∀ (text : List α) (x : α), (seq start r).exec (some x) text = none := by
    intro text
    induction text with
    | nil => intro x; rfl
    | cons y ys ih =>
      intro x
      rw [exec, ih]
      rfl
  have hhere : (seq start r).search text = (seq start r).here none text := by
    cases text with
    | nil => rfl
    | cons x xs => rw [search, exec, hlater, Option.or_none]
  have hrun : (seq start r).run ⟨none, text, []⟩ = r.run ⟨none, text, []⟩ := by
    simp [run]
  rw [test, hhere, here, hrun, Option.isSome_map, List.isSome_head?]
  simp [List.eq_nil_iff_forall_not_mem]

/-- An expression between `^` and `$` matches the texts of its shapes. -/
theorem test_whole {r : Regex α} {ws : List (List (α → Bool))} (hr : r.spellings = some ws)
    (text : List α) : (seq start (seq r finish)).test text ↔ ∃ w ∈ ws, Spells w text := by
  have hfinish : ∀ c : Cursor α, (∃ d, d ∈ finish.run c) ↔ c.rest = [] := by
    intro c
    simp [run]
  rw [test_start]
  constructor
  · rintro ⟨d, hd⟩
    obtain ⟨e, he, hde⟩ := List.mem_flatMap.mp hd
    obtain ⟨w, hw, u, hu, htext⟩ := (run_spellings r hr).mp ⟨e, he, (hfinish e).mp ⟨d, hde⟩⟩
    obtain rfl : text = u := by simpa using htext
    exact ⟨w, hw, hu⟩
  · rintro ⟨w, hw, h⟩
    obtain ⟨e, he, her⟩ : ∃ e ∈ r.run ⟨none, text, []⟩, e.rest = [] :=
      (run_spellings r hr).mpr ⟨w, hw, text, h, (List.append_nil text).symm⟩
    obtain ⟨d, hd⟩ := (hfinish e).mpr her
    exact ⟨d, List.mem_flatMap.mpr ⟨e, he, hd⟩⟩

/-! ## What a match takes of the text -/

/-- A word that an expression can take, wherever the word stands. -/
def Reads : Regex α → List α → Prop
  | empty, u => u = []
  | one p, u => ∃ x, p x = true ∧ u = [x]
  | many p least _, u => least ≤ u.length ∧ ∀ x ∈ u, p x = true
  | seq a b, u => ∃ x y, Reads a x ∧ Reads b y ∧ u = x ++ y
  | alt a b, u => Reads a u ∨ Reads b u
  | group a, u => Reads a u
  | boundary _, u => u = []
  | start, u => u = []
  | finish, u => u = []

/-- What a match takes is such a word. -/
theorem run_reads (r : Regex α) {c d : Cursor α} (h : d ∈ r.run c) :
    ∃ u, r.Reads u ∧ c.rest = u ++ d.rest := by
  induction r generalizing c d with
  | empty =>
    obtain rfl : d = c := by simpa [run] using h
    exact ⟨[], rfl, rfl⟩
  | one p =>
    obtain ⟨prev, _ | ⟨x, xs⟩, caps⟩ := c
    · simp [run] at h
    · simp only [run] at h
      split_ifs at h with hp
      · obtain rfl := List.mem_singleton.mp h
        exact ⟨[x], ⟨x, hp, rfl⟩, rfl⟩
      · simp at h
  | many p least most =>
    obtain ⟨k, hk, rfl⟩ := List.mem_map.mp h
    obtain ⟨hleast, hmost⟩ := mem_reach hk
    obtain ⟨hlength, hall⟩ := of_mem_take hmost
    refine ⟨c.rest.take k, ⟨hlength.symm ▸ hleast, hall⟩, ?_⟩
    rw [Cursor.skip_rest, List.take_append_drop]
  | seq a b iha ihb =>
    obtain ⟨e, he, hde⟩ := List.mem_flatMap.mp h
    obtain ⟨x, hx, hcx⟩ := iha he
    obtain ⟨y, hy, hey⟩ := ihb hde
    exact ⟨x ++ y, ⟨x, y, hx, hy, rfl⟩, by rw [hcx, hey, List.append_assoc]⟩
  | alt a b iha ihb =>
    rcases List.mem_append.mp h with h | h
    · obtain ⟨u, hu, hc⟩ := iha h
      exact ⟨u, .inl hu, hc⟩
    · obtain ⟨u, hu, hc⟩ := ihb h
      exact ⟨u, .inr hu, hc⟩
  | group a ih =>
    obtain ⟨e, he, rfl⟩ := List.mem_map.mp h
    obtain ⟨u, hu, hc⟩ := ih he
    exact ⟨u, hu, hc⟩
  | boundary word =>
    simp only [run] at h
    split_ifs at h
    · simp at h
    · obtain rfl := List.mem_singleton.mp h
      exact ⟨[], rfl, rfl⟩
  | start =>
    simp only [run] at h
    split_ifs at h
    · obtain rfl := List.mem_singleton.mp h
      exact ⟨[], rfl, rfl⟩
    · simp at h
  | finish =>
    simp only [run] at h
    split_ifs at h
    · obtain rfl := List.mem_singleton.mp h
      exact ⟨[], rfl, rfl⟩
    · simp at h

/-- Single letters, one after the other, are taken as they stand. -/
theorem Takes.ones {ps : List (α → Bool)} {w rest : List α} {caps : List (List α)}
    (h : Spells ps w) : Takes (all (ps.map Regex.one)) (w ++ rest) rest caps caps := by
  induction ps generalizing w with
  | nil =>
    rw [spells_nil.mp h]
    exact .empty
  | cons p ps ih =>
    obtain ⟨x, xs, hx, hxs, rfl⟩ := spells_cons.mp h
    exact .seq (.one hx) (ih hxs)

/-- A class or nothing takes a letter of the class. -/
theorem Takes.optional_one {p : α → Bool} {x : α} (hx : p x = true) {rest : List α}
    {caps : List (List α)} : Takes (optional p) (x :: rest) rest caps caps := by
  intro prev
  have hreach : reach p 0 (some 1) (x :: rest) = [1, 0] := by
    simp [reach, hx, List.range']
  refine ⟨(x :: rest)[0]?, ?_⟩
  rw [optional, run, hreach]
  rfl

/-- A class or nothing takes nothing where there is no letter of the class. -/
theorem Takes.optional_empty {p : α → Bool} {rest : List α} (hrest : ∀ x ∈ rest.head?, p x = false)
    {caps : List (List α)} : Takes (optional p) rest rest caps caps := by
  intro prev
  have hreach : reach p 0 (some 1) rest = [0] := by
    cases rest with
    | nil => simp [reach]
    | cons x rest => simp [reach, hrest x rfl]
  refine ⟨prev, ?_⟩
  rw [optional, run, hreach]
  rfl

/-- What single letters read has their shape. -/
theorem reads_ones {ps : List (α → Bool)} {w : List α} :
    (all (ps.map one)).Reads w ↔ Spells ps w := by
  induction ps generalizing w with
  | nil => simp [all, Reads]
  | cons p ps ih =>
    simp only [List.map_cons, all, List.foldr_cons, Reads, spells_cons]
    simp only [all] at ih
    simp only [ih]
    constructor
    · rintro ⟨_, y, ⟨x, hx, rfl⟩, hy, rfl⟩
      exact ⟨x, y, hx, hy, rfl⟩
    · rintro ⟨x, y, hx, hy, rfl⟩
      exact ⟨[x], y, ⟨x, hx, rfl⟩, hy, rfl⟩

/-! ## Where a search finds something -/

/-- The places before a cut, in the order of the search: the text from each on. -/
theorem within_eq_some_iff {r : Regex α} (prev : Option α) (a rest : List α) (ws : List (List α)) :
    r.within prev a rest = some ws ↔
      ∃ i < a.length, r.here (lastOf prev (a.take i)) (a.drop i ++ rest) = some ws ∧
        ∀ j < i, r.here (lastOf prev (a.take j)) (a.drop j ++ rest) = none := by
  induction a generalizing prev with
  | nil => simp [within]
  | cons x xs ih =>
    rw [within, Option.or_eq_some_iff, ih]
    constructor
    · rintro (h | ⟨hnone, i, hi, hsome, hbefore⟩)
      · exact ⟨0, Nat.succ_pos _, h, fun j hj => absurd hj (Nat.not_lt_zero j)⟩
      · refine ⟨i + 1, Nat.succ_lt_succ hi, ?_, fun j hj => ?_⟩
        · rw [List.take_succ_cons, lastOf_cons]
          exact hsome
        · cases j with
          | zero => exact hnone
          | succ j =>
            rw [List.take_succ_cons, lastOf_cons]
            exact hbefore j (Nat.lt_of_succ_lt_succ hj)
    · rintro ⟨i, hi, hsome, hbefore⟩
      cases i with
      | zero => exact .inl hsome
      | succ i =>
        refine .inr ⟨hbefore 0 (Nat.succ_pos i), i, Nat.lt_of_succ_lt_succ hi, ?_, fun j hj => ?_⟩
        · rw [List.take_succ_cons, lastOf_cons] at hsome
          exact hsome
        · have hnone := hbefore (j + 1) (Nat.succ_lt_succ hj)
          rw [List.take_succ_cons, lastOf_cons] at hnone
          exact hnone

end Mastermind.Regex
