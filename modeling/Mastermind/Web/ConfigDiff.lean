import Mastermind.Platform.Subsequence
import Mastermind.Platform.Utf16

/-!
# The comparison of two configurations

`makeDiff` of the mods page fills a table with the lengths of the longest common subsequences of the
ends of the two texts, from the last lines to the first, and then follows it from the first lines on.
`matrix_eq` says what is in the table, and `walk_eq` that the rows are those of `script`, which has no
table and goes down both lists at once. What the rows say is proved about `script`.
-/

namespace Mastermind.ConfigDiff

/-- The kinds of a row. -/
inductive RowType where
  | same
  | add
  | remove
deriving DecidableEq

/-- A row of the comparison. -/
structure Row (α : Type*) where
  type : RowType
  line : ℕ
  text : α
deriving DecidableEq

section Table

variable {α : Type*} [DecidableEq α]

/-- The assignment to an element of a `Uint32Array`. -/
def uint32 (n : ℕ) : ℕ := n % 2 ^ 32

/-- The inner loop: a row of the table from the row below it. -/
def fillRow (x : α) : List α → List ℕ → List ℕ
  | [], _ => [0]
  | y :: ys, below =>
    let right := fillRow x ys below.tail
    uint32 (if x = y then below.tail.headD 0 + 1 else max (below.headD 0) (right.headD 0)) :: right

/-- The outer loop: the rows of the table. -/
def matrix : List α → List α → List (List ℕ)
  | [], b => [List.replicate (b.length + 1) 0]
  | x :: xs, b => fillRow x b ((matrix xs b).headD []) :: matrix xs b

/-- `matrix[i][j]`. -/
def entry (m : List (List ℕ)) (i j : ℕ) : ℕ := (m.getD i []).getD j 0

/-- The second loop, from two places. -/
def walk (a b : List α) (m : List (List ℕ)) (i j : ℕ) : List (Row α) :=
  if hi : i < a.length then
    if hj : j < b.length then
      if a[i] = b[j] then ⟨.same, i + 1, a[i]⟩ :: walk a b m (i + 1) (j + 1)
      else if entry m (i + 1) j ≤ entry m i (j + 1) then
        ⟨.add, j + 1, b[j]⟩ :: walk a b m i (j + 1)
      else ⟨.remove, i + 1, a[i]⟩ :: walk a b m (i + 1) j
    else ⟨.remove, i + 1, a[i]⟩ :: walk a b m (i + 1) j
  else if hj : j < b.length then ⟨.add, j + 1, b[j]⟩ :: walk a b m i (j + 1)
  else []
termination_by (a.length - i) + (b.length - j)

end Table

/-- `text.split('\n')`. -/
def lines (text : Text) : List Text := List.splitOn 10 text

/-- `makeDiff`. -/
def makeDiff (before after : Text) : List (Row Text) :=
  let a := lines before
  let b := lines after
  if 250000 < a.length * b.length then
    [⟨.remove, 1, Text.of "Large file: original content replaced. Compare editor content carefully."⟩,
      ⟨.add, 1, Text.of "Large file: proposed content appears in editor below."⟩]
  else walk a b (matrix a b) 0 0

/-! ## What is in the table -/

section Proofs

theorem headD_map_tails {α β : Type*} (f : List α → β) (b : List α) (d : β) :
    (b.tails.map f).headD d = f b := by
  cases b <;> rfl

variable {α : Type*} [DecidableEq α]

/-- A row is right if the one below it is. -/
theorem fillRow_eq (x : α) (xs b : List α) (hb : b.length < 2 ^ 32) :
    fillRow x b (b.tails.map (lcsLength xs)) = b.tails.map (lcsLength (x :: xs)) := by
  induction b with
  | nil => simp [fillRow]
  | cons y ys ih =>
    have hys : ys.length < 2 ^ 32 := by
      rw [List.length_cons] at hb
      omega
    have hstore : uint32 (lcsLength (x :: xs) (y :: ys)) = lcsLength (x :: xs) (y :: ys) :=
      Nat.mod_eq_of_lt ((lcsLength_le_right _ _).trans_lt hb)
    rw [List.tails_cons, List.map_cons, List.map_cons, fillRow]
    dsimp only [List.tail_cons, List.headD_cons]
    rw [ih hys, headD_map_tails, headD_map_tails, ← hstore]
    by_cases hxy : x = y
    · rw [if_pos hxy, hxy, lcsLength_cons_self]
    · rw [if_neg hxy, lcsLength_cons_of_ne hxy]

/-- The table holds the longest common subsequences of the ends. -/
theorem matrix_eq (a b : List α) (hb : b.length < 2 ^ 32) :
    matrix a b = a.tails.map fun s => b.tails.map (lcsLength s) := by
  induction a with
  | nil =>
    have htails : ([] : List α).tails = [[]] := rfl
    rw [matrix, htails, List.map_singleton]
    congr 1
    refine (List.eq_replicate_iff.mpr ⟨?_, ?_⟩).symm
    · rw [List.length_map, List.length_tails]
    · intro n hn
      obtain ⟨s, -, rfl⟩ := List.mem_map.mp hn
      exact lcsLength_nil_left s
  | cons x xs ih =>
    rw [matrix, ih, headD_map_tails, fillRow_eq x xs b hb, List.tails_cons, List.map_cons]

theorem entry_matrix {a b : List α} (hb : b.length < 2 ^ 32) {i j : ℕ} (hi : i ≤ a.length)
    (hj : j ≤ b.length) : entry (matrix a b) i j = lcsLength (a.drop i) (b.drop j) := by
  rw [entry, matrix_eq a b hb]
  simp [List.getD_eq_getElem?_getD, Nat.lt_succ_of_le hi, Nat.lt_succ_of_le hj]

/-! ## The rows -/

/-- The rows for the ends of two texts, of which `i` and `j` lines are behind. -/
def script : ℕ → ℕ → List α → List α → List (Row α)
  | _, _, [], [] => []
  | i, j, [], y :: ys => ⟨.add, j + 1, y⟩ :: script i (j + 1) [] ys
  | i, j, x :: xs, [] => ⟨.remove, i + 1, x⟩ :: script (i + 1) j xs []
  | i, j, x :: xs, y :: ys =>
    if x = y then ⟨.same, i + 1, x⟩ :: script (i + 1) (j + 1) xs ys
    else if lcsLength xs (y :: ys) ≤ lcsLength (x :: xs) ys then
      ⟨.add, j + 1, y⟩ :: script i (j + 1) (x :: xs) ys
    else ⟨.remove, i + 1, x⟩ :: script (i + 1) j xs (y :: ys)
termination_by _ _ a b => a.length + b.length

/-- The second loop makes these rows. -/
theorem walk_eq {a b : List α} (hb : b.length < 2 ^ 32) {i j : ℕ} (hi : i ≤ a.length)
    (hj : j ≤ b.length) : walk a b (matrix a b) i j = script i j (a.drop i) (b.drop j) := by
  induction i, j using walk.induct a b (matrix a b) with
  | case1 i j hi' hj' heq ih =>
    rw [walk, dif_pos hi', dif_pos hj', if_pos heq, ih hi' hj', List.drop_eq_getElem_cons hi',
      List.drop_eq_getElem_cons hj', script, if_pos heq]
  | case2 i j hi' hj' hne hle ih =>
    have hle' := hle
    rw [entry_matrix hb hi' hj, entry_matrix hb hi hj', List.drop_eq_getElem_cons hi',
      List.drop_eq_getElem_cons hj'] at hle'
    rw [walk, dif_pos hi', dif_pos hj', if_neg hne, if_pos hle, ih hi hj',
      List.drop_eq_getElem_cons hi', List.drop_eq_getElem_cons hj', script, if_neg hne, if_pos hle']
  | case3 i j hi' hj' hne hle ih =>
    have hle' := hle
    rw [entry_matrix hb hi' hj, entry_matrix hb hi hj', List.drop_eq_getElem_cons hi',
      List.drop_eq_getElem_cons hj'] at hle'
    rw [walk, dif_pos hi', dif_pos hj', if_neg hne, if_neg hle, ih hi' hj,
      List.drop_eq_getElem_cons hi', List.drop_eq_getElem_cons hj', script, if_neg hne, if_neg hle']
  | case4 i j hi' hj' ih =>
    rw [walk, dif_pos hi', dif_neg hj', ih hi' hj, List.drop_eq_getElem_cons hi',
      List.drop_eq_nil_of_le (not_lt.mp hj'), script]
  | case5 i j hi' hj' ih =>
    rw [walk, dif_neg hi', dif_pos hj', ih hi hj', List.drop_eq_getElem_cons hj',
      List.drop_eq_nil_of_le (not_lt.mp hi'), script]
  | case6 i j hi' hj' =>
    rw [walk, dif_neg hi', dif_neg hj', List.drop_eq_nil_of_le (not_lt.mp hi'),
      List.drop_eq_nil_of_le (not_lt.mp hj'), script]

end Proofs

/-! ## What the rows say -/

variable {α : Type*}

/-- The rows that show lines of the original. -/
def originals (rows : List (Row α)) : List (Row α) := rows.filter fun r => r.type ≠ .add

/-- The rows that show lines of the new text. -/
def proposals (rows : List (Row α)) : List (Row α) := rows.filter fun r => r.type ≠ .remove

/-- The number of the changed rows. -/
def changed (rows : List (Row α)) : ℕ := rows.countP fun r => r.type ≠ .same

/-- The place of a row that comes after others: of an added line in the new text, of any other line in
the original. -/
def place (earlier : List (Row α)) : RowType → ℕ
  | .add => (proposals earlier).length
  | _ => (originals earlier).length

/-- The rows show how one text becomes the other: which lines they are, and the number of each. -/
structure Describes (a b : List α) (rows : List (Row α)) : Prop where
  before : (originals rows).map Row.text = a
  after : (proposals rows).map Row.text = b
  numbered : ∀ earlier r later, rows = earlier ++ r :: later → r.line = place earlier r.type + 1

theorem originals_cons (r : Row α) (rows : List (Row α)) :
    originals (r :: rows) = if r.type = .add then originals rows else r :: originals rows := by
  rw [originals, List.filter_cons]
  by_cases h : r.type = .add <;> simp [h, originals]

theorem proposals_cons (r : Row α) (rows : List (Row α)) :
    proposals (r :: rows) = if r.type = .remove then proposals rows else r :: proposals rows := by
  rw [proposals, List.filter_cons]
  by_cases h : r.type = .remove <;> simp [h, proposals]

theorem changed_cons (r : Row α) (rows : List (Row α)) :
    changed (r :: rows) = changed rows + if r.type = .same then 0 else 1 := by
  rw [changed, List.countP_cons]
  by_cases h : r.type = .same <;> simp [h, changed]

/-- Rows that show two texts keep a common subsequence of them. -/
theorem length_le_changed {rows : List (Row α)} : ∃ l : List α,
    l.Sublist ((originals rows).map Row.text) ∧ l.Sublist ((proposals rows).map Row.text) ∧
      (originals rows).length + (proposals rows).length = changed rows + 2 * l.length := by
  induction rows with
  | nil => exact ⟨[], List.nil_sublist _, List.nil_sublist _, rfl⟩
  | cons r rows ih =>
    obtain ⟨l, ha, hb, hl⟩ := ih
    rw [originals_cons, proposals_cons, changed_cons]
    cases h : r.type with
    | same =>
      refine ⟨r.text :: l, ha.cons_cons _, hb.cons_cons _, ?_⟩
      simp only [reduceCtorEq, if_false, if_true, List.length_cons]
      omega
    | add =>
      refine ⟨l, ha, hb.cons _, ?_⟩
      simp only [reduceCtorEq, if_false, if_true, List.length_cons]
      omega
    | remove =>
      refine ⟨l, ha.cons _, hb, ?_⟩
      simp only [reduceCtorEq, if_false, if_true, List.length_cons]
      omega

/-- The place of a row after one more row. -/
theorem place_cons (r : Row α) (earlier : List (Row α)) (t : RowType) :
    place (r :: earlier) t = place earlier t +
      if t = .add then (if r.type = .remove then 0 else 1)
      else if r.type = .add then 0 else 1 := by
  cases t <;> simp only [place, originals_cons, proposals_cons] <;> split_ifs <;> simp_all

/-- Rows that go down two lists, each row for a line of one of them or of both. -/
inductive Follows : ℕ → ℕ → List α → List α → List (Row α) → Prop where
  | done (i j : ℕ) : Follows i j [] [] []
  | same {i j : ℕ} {xs ys : List α} {rows : List (Row α)} (x : α)
      (h : Follows (i + 1) (j + 1) xs ys rows) :
      Follows i j (x :: xs) (x :: ys) (⟨.same, i + 1, x⟩ :: rows)
  | add {i j : ℕ} {xs ys : List α} {rows : List (Row α)} (y : α)
      (h : Follows i (j + 1) xs ys rows) : Follows i j xs (y :: ys) (⟨.add, j + 1, y⟩ :: rows)
  | remove {i j : ℕ} {xs ys : List α} {rows : List (Row α)} (x : α)
      (h : Follows (i + 1) j xs ys rows) : Follows i j (x :: xs) ys (⟨.remove, i + 1, x⟩ :: rows)

theorem Follows.before {i j : ℕ} {a b : List α} {rows : List (Row α)} (h : Follows i j a b rows) :
    (originals rows).map Row.text = a := by
  induction h with
  | done => rfl
  | same x _ ih => simp [originals_cons, ih]
  | add y _ ih => simp [originals_cons, ih]
  | remove x _ ih => simp [originals_cons, ih]

theorem Follows.after {i j : ℕ} {a b : List α} {rows : List (Row α)} (h : Follows i j a b rows) :
    (proposals rows).map Row.text = b := by
  induction h with
  | done => rfl
  | same x _ ih => simp [proposals_cons, ih]
  | add y _ ih => simp [proposals_cons, ih]
  | remove x _ ih => simp [proposals_cons, ih]

/-- The lines are numbered from where the two lists begin. -/
theorem Follows.numbered {i j : ℕ} {a b : List α} {rows : List (Row α)} (h : Follows i j a b rows)
    {earlier later : List (Row α)} {r : Row α} (hrows : rows = earlier ++ r :: later) :
    r.line = (if r.type = .add then j else i) + place earlier r.type + 1 := by
  induction h generalizing earlier with
  | done => cases earlier <;> cases hrows
  | _ _ _ ih =>
    cases earlier with
    | nil =>
      -- the first row
      obtain ⟨rfl, -⟩ := List.cons.inj hrows
      simp [place, originals, proposals]
    | cons first earlier =>
      obtain ⟨rfl, hrest⟩ := List.cons.inj hrows
      rw [ih hrest, place_cons]
      split_ifs <;> first | contradiction | omega

variable [DecidableEq α]

theorem follows_script (i j : ℕ) (a b : List α) : Follows i j a b (script i j a b) := by
  induction i, j, a, b using script.induct with
  | case1 i j => rw [script]; exact .done i j
  | case2 i j y ys ih => rw [script]; exact .add y ih
  | case3 i j x xs ih => rw [script]; exact .remove x ih
  | case4 i j xs y ys ih => rw [script, if_pos rfl]; exact .same y ih
  | case5 i j x xs y ys hne hle ih => rw [script, if_neg hne, if_pos hle]; exact .add y ih
  | case6 i j x xs y ys hne hle ih => rw [script, if_neg hne, if_neg hle]; exact .remove x ih

/-- The rows change no more than they have to: a tie or a step is decided for a longest common
subsequence of what is left. -/
theorem changed_script (i j : ℕ) (a b : List α) :
    changed (script i j a b) + 2 * lcsLength a b = a.length + b.length := by
  induction i, j, a, b using script.induct with
  | case1 i j => rw [script, lcsLength_nil_left]; rfl
  | case2 i j y ys ih =>
    rw [lcsLength_nil_left] at ih ⊢
    rw [script, changed_cons, List.length_cons]
    simp only [reduceCtorEq, if_false]
    omega
  | case3 i j x xs ih =>
    rw [lcsLength_nil_right] at ih ⊢
    rw [script, changed_cons, List.length_cons]
    simp only [reduceCtorEq, if_false]
    omega
  | case4 i j xs y ys ih =>
    rw [script, if_pos rfl, changed_cons, lcsLength_cons_self, List.length_cons, List.length_cons]
    simp only [if_true]
    omega
  | case5 i j x xs y ys hne hle ih =>
    rw [script, if_neg hne, if_pos hle, changed_cons, lcsLength_cons_of_ne hne, max_eq_right hle,
      List.length_cons]
    simp only [reduceCtorEq, if_false, List.length_cons] at ih ⊢
    omega
  | case6 i j x xs y ys hne hle ih =>
    rw [script, if_neg hne, if_neg hle, changed_cons, lcsLength_cons_of_ne hne,
      max_eq_left (not_le.mp hle).le, List.length_cons]
    simp only [reduceCtorEq, if_false, List.length_cons] at ih ⊢
    omega

/-- The rows of two texts that are not too large show how the first becomes the second, and no rows
that do so change fewer lines: as many stay as a longest common subsequence has. -/
theorem makeDiff_minimal (before after : Text)
    (h : (lines before).length * (lines after).length ≤ 250000) :
    Describes (lines before) (lines after) (makeDiff before after) ∧
      (∃ n, IsGreatest { n | ∃ l : List Text, l.Sublist (lines before) ∧ l.Sublist (lines after) ∧
          l.length = n } n ∧
        changed (makeDiff before after) =
          (lines before).length + (lines after).length - 2 * n) ∧
      ∀ rows, Describes (lines before) (lines after) rows →
        changed (makeDiff before after) ≤ changed rows := by
  have hsize : (lines after).length < 2 ^ 32 := by
    have hpos : 0 < (lines before).length := List.length_pos_iff.mpr (List.splitOn_ne_nil _ _)
    have hle := Nat.le_mul_of_pos_left (lines after).length hpos
    omega
  have hrows : makeDiff before after = script 0 0 (lines before) (lines after) := by
    rw [makeDiff, if_neg (not_lt.mpr h), walk_eq hsize (Nat.zero_le _) (Nat.zero_le _), List.drop_zero,
      List.drop_zero]
  have hfollows := follows_script 0 0 (lines before) (lines after)
  have hchanged := changed_script 0 0 (lines before) (lines after)
  rw [hrows]
  refine ⟨⟨hfollows.before, hfollows.after, fun earlier r later hr => ?_⟩, ?_, ?_⟩
  · have hline := hfollows.numbered hr
    rwa [ite_self, zero_add] at hline
  · exact ⟨_, isGreatest_lcsLength (lines before) (lines after), by omega⟩
  · intro rows hdescribes
    obtain ⟨l, ha, hb, hl⟩ := @length_le_changed _ rows
    rw [hdescribes.before] at ha
    rw [hdescribes.after] at hb
    have hcommon := length_le_lcsLength ha hb
    have hbefore := congrArg List.length hdescribes.before
    have hafter := congrArg List.length hdescribes.after
    rw [List.length_map] at hbefore hafter
    omega

theorem makeDiff_minimal_move :
    Describes (lines (Text.of "x\ny")) (lines (Text.of "y\nx"))
        (makeDiff (Text.of "x\ny") (Text.of "y\nx")) ∧
      (∃ n, IsGreatest { n | ∃ l : List Text, l.Sublist (lines (Text.of "x\ny")) ∧
          l.Sublist (lines (Text.of "y\nx")) ∧ l.length = n } n ∧
        changed (makeDiff (Text.of "x\ny") (Text.of "y\nx")) =
          (lines (Text.of "x\ny")).length + (lines (Text.of "y\nx")).length - 2 * n) ∧
      ∀ rows, Describes (lines (Text.of "x\ny")) (lines (Text.of "y\nx")) rows →
        changed (makeDiff (Text.of "x\ny") (Text.of "y\nx")) ≤ changed rows :=
  makeDiff_minimal _ _ (by decide)

end Mastermind.ConfigDiff
