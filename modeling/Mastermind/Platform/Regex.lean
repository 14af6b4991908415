import Mathlib

/-!
# Backtracking regular expressions

A regular expression in the semantics of a backtracking engine, over any alphabet. A match from a
place in the text is one of several, which the engine tries in a fixed order: `Regex.run` lists
them all, and the engine's is the first. `Regex.exec` looks for the leftmost place from which
there is a match, as a search without the sticky flag does. A repeat is of one character class,
and greedy.

The rules below say where a match can begin. `Regex.exec_append` cuts a search at any place of the
text: `Regex.within` is the match that begins before the cut, and what follows the cut counts only
if there is none. `Regex.run_firsts` bounds the first letter of a match by `Regex.firsts`, and
`Regex.search_classes` says of which letters the groups consist.
-/

namespace Mastermind

/-- A regular expression. -/
inductive Regex (α : Type*) where
  | empty
  | one (p : α → Bool)
  | many (p : α → Bool) (least : ℕ) (most : Option ℕ)
  | seq (a b : Regex α)
  | alt (a b : Regex α)
  | group (a : Regex α)
  | boundary (word : α → Bool)
  | start
  | finish

namespace Regex

variable {α : Type*}

/-- A place in the text: the letter before it, the text after it, and the groups captured so far. -/
structure Cursor (α : Type*) where
  prev : Option α
  rest : List α
  caps : List (List α)

/-- The place `k` letters further on. -/
def Cursor.skip (c : Cursor α) : ℕ → Cursor α
  | 0 => c
  | k + 1 => ⟨c.rest[k]?, c.rest.drop (k + 1), c.caps⟩

/-- How far a greedy repeat goes from a place: as many letters as it can, then fewer and fewer. -/
def reach (p : α → Bool) (least : ℕ) (most : Option ℕ) (text : List α) : List ℕ :=
  let longest := (text.takeWhile p).length
  let top := match most with
    | none => longest
    | some m => min m longest
  (List.range' least (top + 1 - least)).reverse

/-- Every match of the expression from a place, in the order in which the engine tries them. -/
def run : Regex α → Cursor α → List (Cursor α)
  | empty, c => [c]
  | one p, c =>
    match c.rest with
    | [] => []
    | x :: xs => if p x then [⟨some x, xs, c.caps⟩] else []
  | many p least most, c => (reach p least most c.rest).map c.skip
  | seq a b, c => (run a c).flatMap (run b)
  | alt a b, c => run a c ++ run b c
  | group a, c => (run a c).map fun d =>
      { d with caps := d.caps ++ [c.rest.take (c.rest.length - d.rest.length)] }
  | boundary word, c => if c.prev.any word = c.rest.head?.any word then [] else [c]
  | start, c => if c.prev.isNone then [c] else []
  | finish, c => if c.rest.isEmpty then [c] else []

/-- The groups of the match from a place. -/
def here (r : Regex α) (prev : Option α) (text : List α) : Option (List (List α)) :=
  (r.run ⟨prev, text, []⟩).head?.map Cursor.caps

/-- The groups of the leftmost match. -/
def exec (r : Regex α) : Option α → List α → Option (List (List α))
  | prev, [] => r.here prev []
  | prev, x :: xs => (r.here prev (x :: xs)).or (r.exec (some x) xs)

/-- `text.match(r)`, without the whole match. -/
def search (r : Regex α) (text : List α) : Option (List (List α)) := r.exec none text

/-- `r.test(text)`. -/
def test (r : Regex α) (text : List α) : Bool := (r.search text).isSome

/-- `text.match(r)?.[1]`. -/
def capture (r : Regex α) (text : List α) : Option (List α) := (r.search text).bind List.head?

/-- One after the other. -/
def all (rs : List (Regex α)) : Regex α := rs.foldr seq empty

/-- A class or nothing, rather the class. -/
def optional (p : α → Bool) : Regex α := many p 0 (some 1)

/-! ## Where a match begins -/

/-- Whether the expression can match without a letter. -/
def nullable : Regex α → Bool
  | empty => true
  | one _ => false
  | many _ least _ => least = 0
  | seq a b => a.nullable && b.nullable
  | alt a b => a.nullable || b.nullable
  | group a => a.nullable
  | boundary _ => true
  | start => true
  | finish => true

/-- The letters with which a match can begin. -/
def firsts : Regex α → α → Bool
  | empty, _ => false
  | one p, x => p x
  | many p _ _, x => p x
  | seq a b, x => a.firsts x || a.nullable && b.firsts x
  | alt a b, x => a.firsts x || b.firsts x
  | group a, x => a.firsts x
  | boundary _, _ => false
  | start, _ => false
  | finish, _ => false

theorem mem_reach {p : α → Bool} {least : ℕ} {most : Option ℕ} {text : List α} {k : ℕ}
    (h : k ∈ reach p least most text) : least ≤ k ∧ k ≤ (text.takeWhile p).length := by
  simp only [reach, List.mem_reverse, List.mem_range'_1] at h
  cases most with
  | none => simp only at h; omega
  | some m => simp only at h; omega

theorem Cursor.skip_rest (c : Cursor α) (k : ℕ) : (c.skip k).rest = c.rest.drop k := by
  cases k <;> rfl

/-- A match either takes no letter, which only a nullable expression allows, or takes a letter with
which a match can begin. -/
theorem run_firsts (r : Regex α) {c d : Cursor α} (h : d ∈ r.run c) :
    (r.nullable ∧ d.rest = c.rest) ∨ ∃ x ∈ c.rest.head?, r.firsts x := by
  induction r generalizing c d with
  | empty =>
    obtain rfl : d = c := by simpa [run] using h
    exact .inl ⟨rfl, rfl⟩
  | one p =>
    right
    obtain ⟨prev, _ | ⟨x, xs⟩, caps⟩ := c
    · simp [run] at h
    · simp only [run] at h
      split_ifs at h with hp
      · exact ⟨x, rfl, hp⟩
      · simp at h
  | many p least most =>
    obtain ⟨k, hk, rfl⟩ := List.mem_map.mp h
    have hb := mem_reach hk
    cases k with
    | zero => exact .inl ⟨by simp [nullable]; omega, rfl⟩
    | succ k =>
      right
      obtain ⟨prev, _ | ⟨x, xs⟩, caps⟩ := c
      · simp at hb
      · refine ⟨x, rfl, ?_⟩
        by_contra hp
        have hzero : (List.takeWhile p (x :: xs)).length = 0 := by simp_all [firsts]
        have hpos := hb.2.trans_eq hzero
        omega
  | seq a b iha ihb =>
    obtain ⟨e, he, hd⟩ := List.mem_flatMap.mp h
    rcases iha he with ⟨hna, hea⟩ | ⟨x, hx, hf⟩
    · rcases ihb hd with ⟨hnb, hdb⟩ | ⟨x, hx, hf⟩
      · exact .inl ⟨by simp [nullable, hna, hnb], hdb.trans hea⟩
      · exact .inr ⟨x, hea ▸ hx, by simp [firsts, hna, hf]⟩
    · exact .inr ⟨x, hx, by simp [firsts, hf]⟩
  | alt a b iha ihb =>
    rcases List.mem_append.mp h with h | h
    · rcases iha h with ⟨hn, hd⟩ | ⟨x, hx, hf⟩
      · exact .inl ⟨by simp [nullable, hn], hd⟩
      · exact .inr ⟨x, hx, by simp [firsts, hf]⟩
    · rcases ihb h with ⟨hn, hd⟩ | ⟨x, hx, hf⟩
      · exact .inl ⟨by simp [nullable, hn], hd⟩
      · exact .inr ⟨x, hx, by simp [firsts, hf]⟩
  | group a ih =>
    obtain ⟨e, he, hd⟩ := List.mem_map.mp h
    subst hd
    exact ih (d := e) he
  | boundary word =>
    simp only [run] at h
    split_ifs at h with hb
    · simp at h
    · obtain rfl : d = c := by simpa using h
      exact .inl ⟨rfl, rfl⟩
  | start =>
    simp only [run] at h
    split_ifs at h with hb
    · obtain rfl : d = c := by simpa using h
      exact .inl ⟨rfl, rfl⟩
    · simp at h
  | finish =>
    simp only [run] at h
    split_ifs at h with hb
    · obtain rfl : d = c := by simpa using h
      exact .inl ⟨rfl, rfl⟩
    · simp at h

/-- There is no match from a letter with which no match begins. -/
theorem here_eq_none {r : Regex α} (hn : r.nullable = false) {x : α} (hx : r.firsts x = false)
    (prev : Option α) (xs : List α) : r.here prev (x :: xs) = none := by
  have hrun : r.run ⟨prev, x :: xs, []⟩ = [] := by
    refine List.eq_nil_iff_forall_not_mem.mpr fun d hd => ?_
    rcases run_firsts r hd with ⟨h, -⟩ | ⟨y, hy, hf⟩
    · simp [hn] at h
    · obtain rfl : x = y := by simpa using hy
      simp [hx] at hf
  rw [here, hrun]
  rfl

/-! ## Cutting a search -/

/-- The groups of the leftmost match that begins in the first text, which the second one
follows. -/
def within (r : Regex α) : Option α → List α → List α → Option (List (List α))
  | _, [], _ => none
  | prev, x :: xs, rest => (r.here prev (x :: xs ++ rest)).or (within r (some x) xs rest)

/-- The letter before the place after a text. -/
def lastOf (prev : Option α) (text : List α) : Option α := text.getLast?.or prev

theorem lastOf_cons (prev : Option α) (x : α) (xs : List α) :
    lastOf prev (x :: xs) = lastOf (some x) xs := by
  cases xs with
  | nil => rfl
  | cons y ys =>
    rw [lastOf, lastOf, List.getLast?_cons_cons, List.getLast?_eq_some_getLast (List.cons_ne_nil y ys)]
    rfl

/-- A search finds the leftmost match that begins before the cut, and what it finds after the cut
when there is none. -/
theorem exec_append (r : Regex α) (prev : Option α) (a b : List α) :
    r.exec prev (a ++ b) = (r.within prev a b).or (r.exec (lastOf prev a) b) := by
  induction a generalizing prev with
  | nil => rfl
  | cons x xs ih =>
    rw [List.cons_append, exec, ih, within, Option.or_assoc, lastOf_cons, List.cons_append]

/-- The part of a text before a cut is searched in the same way. -/
theorem within_append (r : Regex α) (prev : Option α) (a b rest : List α) :
    r.within prev (a ++ b) rest =
      (r.within prev a (b ++ rest)).or (r.within (lastOf prev a) b rest) := by
  induction a generalizing prev with
  | nil => rfl
  | cons x xs ih =>
    rw [List.cons_append, within, ih, within, Option.or_assoc, lastOf_cons, List.cons_append,
      List.append_assoc]
    rfl

/-- No match begins in a text of letters with which no match begins. -/
theorem within_eq_none {r : Regex α} (hn : r.nullable = false) {a : List α}
    (ha : ∀ x ∈ a, r.firsts x = false) (prev : Option α) (rest : List α) :
    r.within prev a rest = none := by
  induction a generalizing prev with
  | nil => rfl
  | cons x xs ih =>
    rw [within, List.cons_append, here_eq_none hn (ha x List.mem_cons_self),
      ih (fun y hy => ha y (List.mem_cons_of_mem _ hy))]
    rfl

/-! ## What a match takes -/

/-- From a place before `text`, the first match ends before `rest`, and then `caps'` are
captured. -/
def Takes (r : Regex α) (text rest : List α) (caps caps' : List (List α)) : Prop :=
  ∀ prev, ∃ prev', (r.run ⟨prev, text, caps⟩).head? = some ⟨prev', rest, caps'⟩

section Takes

variable {a b : Regex α} {x y z : List α} {c d e : List (List α)}

theorem Takes.empty : Takes empty x x c c := fun prev => ⟨prev, rfl⟩

theorem Takes.one {p : α → Bool} {u : α} (h : p u) : Takes (one p) (u :: x) x c c :=
  fun _ => ⟨some u, by simp [run, h]⟩

/-- If both parts match, the sequence does. -/
theorem Takes.seq (ha : Takes a x y c d) (hb : Takes b y z d e) : Takes (seq a b) x z c e := by
  intro prev
  obtain ⟨p, hp⟩ := ha prev
  obtain ⟨q, hq⟩ := hb p
  obtain ⟨l, hl⟩ := List.head?_eq_some_iff.mp hp
  refine ⟨q, ?_⟩
  rw [run, hl, List.flatMap_cons, List.head?_append, hq, Option.some_or]

/-- A group captures what is taken. -/
theorem Takes.group {w : List α} (h : Takes a (w ++ x) x c d) :
    Takes (group a) (w ++ x) x c (d ++ [w]) := by
  intro prev
  obtain ⟨p, hp⟩ := h prev
  refine ⟨p, ?_⟩
  rw [run, List.head?_map, hp]
  simp

/-- The first two lengths that a greedy repeat tries. -/
theorem reach_append {p : α → Bool} {least : ℕ} {w : List α} (hw : ∀ u ∈ w, p u)
    (hx : ∀ u ∈ x.head?, p u = false) (hl : least ≤ w.length) :
    reach p least none (w ++ x) = w.length :: (List.range' least (w.length - least)).reverse := by
  have hlen : (w ++ x).takeWhile p = w := by
    rw [List.takeWhile_append_of_pos hw]
    cases x with
    | nil => simp
    | cons u x => simp [hx u rfl]
  have hsucc : w.length + 1 - least = (w.length - least) + 1 := by omega
  have hlast : least + (w.length - least) = w.length := by omega
  rw [reach, hlen, hsucc, List.range'_concat, Nat.one_mul, hlast, List.reverse_append]
  rfl

theorem Cursor.skip_append (prev : Option α) (w : List α) :
    ∃ prev', Cursor.skip ⟨prev, w ++ x, c⟩ w.length = ⟨prev', x, c⟩ := by
  cases w with
  | nil => exact ⟨prev, rfl⟩
  | cons u w => exact ⟨(u :: w ++ x)[w.length]?, by simp [Cursor.skip]⟩

/-- A greedy repeat takes the letters of its class as far as they go. -/
theorem Takes.many {p : α → Bool} {least : ℕ} {w : List α} (hw : ∀ u ∈ w, p u)
    (hx : ∀ u ∈ x.head?, p u = false) (hl : least ≤ w.length) :
    Takes (many p least none) (w ++ x) x c c := by
  intro prev
  obtain ⟨q, hq⟩ := Cursor.skip_append (x := x) (c := c) prev w
  refine ⟨q, ?_⟩
  rw [run, reach_append hw hx hl, List.map_cons, List.head?_cons, hq]

/-- A greedy repeat gives one letter back when what follows it does not match after all of them. -/
theorem Takes.many_seq {p : α → Bool} {w : List α} {v : α} (hw : ∀ u ∈ w ++ [v], p u)
    (hx : ∀ u ∈ x.head?, p u = false) (hfail : ∀ prev, b.run ⟨prev, x, c⟩ = [])
    (hb : Takes b (v :: x) z c e) :
    Takes (Regex.seq (Regex.many p 0 none) b) (w ++ v :: x) z c e := by
  intro prev
  have hlen : (w ++ [v]).length = w.length + 1 := by simp
  have htext : w ++ v :: x = (w ++ [v]) ++ x := by simp
  obtain ⟨q, hq⟩ := Cursor.skip_append (x := x) (c := c) prev (w ++ [v])
  obtain ⟨q', hq'⟩ := Cursor.skip_append (x := v :: x) (c := c) prev w
  obtain ⟨q'', hq''⟩ := hb q'
  refine ⟨q'', ?_⟩
  have hreach : reach p 0 none (w ++ v :: x) =
      (w.length + 1) :: w.length :: (List.range' 0 w.length).reverse := by
    rw [htext, reach_append hw hx (Nat.zero_le _), hlen, Nat.sub_zero, List.range'_concat,
      List.reverse_append]
    simp
  have hall : Cursor.skip ⟨prev, w ++ v :: x, c⟩ (w.length + 1) = ⟨q, x, c⟩ := by
    rw [htext, ← hlen, hq]
  rw [run, run, hreach, List.map_cons, List.map_cons, List.flatMap_cons, List.flatMap_cons, hall,
    hq', hfail, List.nil_append, List.head?_append, hq'', Option.some_or]

/-- What a search from the beginning of a text captures, when there is a match there. -/
theorem search_of_takes (h : Takes a x y [] e) : search (seq start a) x = some e := by
  obtain ⟨q, hq⟩ := h none
  have hhere : here (seq start a) none x = some e := by
    rw [here, run, run, Option.isNone_none, if_pos rfl, List.flatMap_cons, List.flatMap_nil,
      List.append_nil, hq]
    rfl
  cases x with
  | nil => exact hhere
  | cons u x =>
    rw [search, exec, hhere]
    rfl

end Takes

section Classes

variable {α : Type*}

/-- The classes of the groups of an expression, where each group is a repeat. -/
def classes : Regex α → Option (List (α → Bool))
  | group (many p _ _) => some [p]
  | group _ => none
  | alt _ _ => none
  | seq a b => do pure ((← classes a) ++ (← classes b))
  | _ => some []

/-- What a match captures consists of letters of the classes of the groups. -/
theorem run_classes (r : Regex α) {ps : List (α → Bool)} (hr : r.classes = some ps) {c d : Cursor α}
    (h : d ∈ r.run c) :
    ∃ ws, d.caps = c.caps ++ ws ∧ List.Forall₂ (fun w p => ∀ u ∈ w, p u = true) ws ps := by
  induction r generalizing c d ps with
  | empty =>
    obtain rfl := Option.some.inj hr
    obtain rfl : d = c := by simpa [run] using h
    exact ⟨[], by simp, .nil⟩
  | one p =>
    obtain rfl := Option.some.inj hr
    obtain ⟨prev, _ | ⟨x, xs⟩, caps⟩ := c
    · simp [run] at h
    · simp only [run] at h
      split_ifs at h
      · obtain rfl := List.mem_singleton.mp h
        exact ⟨[], by simp, .nil⟩
      · simp at h
  | many p least most =>
    obtain rfl := Option.some.inj hr
    obtain ⟨k, -, rfl⟩ := List.mem_map.mp h
    refine ⟨[], ?_, .nil⟩
    cases k <;> simp [Cursor.skip]
  | seq a b iha ihb =>
    obtain ⟨ps₁, hps₁, hrest⟩ := Option.bind_eq_some_iff.mp hr
    obtain ⟨ps₂, hps₂, hps⟩ := Option.bind_eq_some_iff.mp hrest
    obtain rfl := Option.some.inj hps
    obtain ⟨e, he, hd⟩ := List.mem_flatMap.mp h
    obtain ⟨ws₁, hcaps₁, hws₁⟩ := iha hps₁ he
    obtain ⟨ws₂, hcaps₂, hws₂⟩ := ihb hps₂ hd
    exact ⟨ws₁ ++ ws₂, by rw [hcaps₂, hcaps₁, List.append_assoc], List.rel_append hws₁ hws₂⟩
  | alt a b => cases hr
  | group a =>
    cases a with
    | many p least most =>
      obtain rfl := Option.some.inj hr
      obtain ⟨e, he, rfl⟩ := List.mem_map.mp h
      obtain ⟨k, hk, rfl⟩ := List.mem_map.mp he
      refine ⟨[c.rest.take (c.rest.length - (c.skip k).rest.length)], ?_, .cons ?_ .nil⟩
      · cases k <;> rfl
      · have hle := (mem_reach hk).2
        have htake : c.rest.length - (c.skip k).rest.length ≤ (c.rest.takeWhile p).length := by
          rw [Cursor.skip_rest, List.length_drop]
          omega
        intro u hu
        have hmem : u ∈ c.rest.takeWhile p := by
          have hsub := List.take_subset_take_left c.rest htake hu
          rwa [(List.prefix_iff_eq_take.mp (List.takeWhile_prefix p)).symm] at hsub
        exact List.mem_takeWhile_imp hmem
    | _ => cases hr
  | boundary word =>
    obtain rfl := Option.some.inj hr
    simp only [run] at h
    split_ifs at h
    · simp at h
    · obtain rfl := List.mem_singleton.mp h
      exact ⟨[], by simp, .nil⟩
  | start =>
    obtain rfl := Option.some.inj hr
    simp only [run] at h
    split_ifs at h
    · obtain rfl := List.mem_singleton.mp h
      exact ⟨[], by simp, .nil⟩
    · simp at h
  | finish =>
    obtain rfl := Option.some.inj hr
    simp only [run] at h
    split_ifs at h
    · obtain rfl := List.mem_singleton.mp h
      exact ⟨[], by simp, .nil⟩
    · simp at h

/-- What a search captures consists of letters of the classes of the groups. -/
theorem search_classes {r : Regex α} {ps : List (α → Bool)} (hr : r.classes = some ps)
    {text : List α} {ws : List (List α)} (h : r.search text = some ws) :
    List.Forall₂ (fun w p => ∀ u ∈ w, p u = true) ws ps := by
  have hhere : ∀ prev text ws, r.here prev text = some ws →
      List.Forall₂ (fun w p => ∀ u ∈ w, p u = true) ws ps := by
    intro prev text ws h
    obtain ⟨d, hd, rfl⟩ := Option.map_eq_some_iff.mp h
    obtain ⟨ws, hcaps, hws⟩ := r.run_classes hr (List.mem_of_head? hd)
    rw [hcaps]
    exact hws
  have hexec : ∀ text prev ws, r.exec prev text = some ws →
      List.Forall₂ (fun w p => ∀ u ∈ w, p u = true) ws ps := by
    intro text
    induction text with
    | nil => exact fun prev ws h => hhere prev [] ws h
    | cons x xs ih =>
      intro prev ws h
      rcases Option.or_eq_some_iff.mp h with h | ⟨-, h⟩
      · exact hhere prev (x :: xs) ws h
      · exact ih (some x) ws h
  exact hexec text none ws h

end Classes

end Regex

end Mastermind
