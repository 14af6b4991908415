import Mastermind.Schedule.CronNext

/-!
# The grammar of a cron field

What a field is meant to say: `*`, or a list of decimal integers in range and of steps `*/n`. The
parser reads an item with `parseInt`, which skips blanks before a number and everything after its
digits. So it reads a field as the grammar does if and only if it refuses some item anyway, or has
nothing to skip in any of them.
-/

namespace Mastermind.Cron

open Text

/-- A decimal integer: a sign or none, and digits. -/
inductive Decimal : Text → ℤ → Prop
  | plain {digits : Text} : digits ≠ [] → (∀ u ∈ digits, isDigit u = true) →
      Decimal digits (number digits)
  | plus {digits : Text} : digits ≠ [] → (∀ u ∈ digits, isDigit u = true) →
      Decimal (43 :: digits) (number digits)
  | minus {digits : Text} : digits ≠ [] → (∀ u ∈ digits, isDigit u = true) →
      Decimal (45 :: digits) (-number digits)

/-- What an item of a list means: a number in range, or every so many numbers of the range. -/
inductive ItemDenotes (min max : ℤ) : Text → Set ℤ → Prop
  | number {s : Text} {n : ℤ} : Decimal s n → min ≤ n → n ≤ max → ItemDenotes min max s {n}
  | step {digits : Text} : digits ≠ [] → (∀ u ∈ digits, isDigit u = true) →
      1 ≤ number digits → (number digits : ℤ) ≤ max - min + 1 →
      ItemDenotes min max (Text.of "*/" ++ digits)
        {v | min ≤ v ∧ v ≤ max ∧ (number digits : ℤ) ∣ v - min}

/-- What a field means: every number, or the numbers of its items together. -/
inductive FieldDenotes (min max : ℤ) : Text → Set ℤ → Prop
  | every : FieldDenotes min max (Text.of "*") Set.univ
  | list {str : Text} {sets : List (Set ℤ)} :
      List.Forall₂ (ItemDenotes min max) str.splitComma sets →
      FieldDenotes min max str {v | ∃ S ∈ sets, v ∈ S}

/-- The parser reads a field as the grammar does: it accepts the field if and only if the grammar
gives it a meaning, and then with that meaning. -/
def ReadsAsWritten (str : Text) (min max : ℤ) : Prop :=
  ∀ S, FieldDenotes min max str S ↔
    ∃ set, parseSet str min max = .ok set ∧ {v | set.admits v = true} = S

/-- The parser takes something from an item: a step that is not too long, or a number in range at
its start. -/
def Readable (min max : ℤ) (s : Text) : Prop :=
  match s.stepDigits with
  | some digits => 1 ≤ number digits ∧ (number digits : ℤ) ≤ max - min + 1
  | none => ∃ n, s.parseInt = some n ∧ min ≤ n ∧ n ≤ max

/-- Letters that the number parser skips: blanks around an item, and all that follows its digits. -/
def Skips (s : Text) : Prop :=
  s.stepDigits = none ∧ (s.trim ≠ s ∨ s.trim.unsigned.dropWhile isDigit ≠ [])

/-- The numbers that the parser takes from an item. -/
def itemNumbers (min max : ℤ) (s : Text) : List ℤ :=
  match s.stepDigits with
  | some digits => steps min max (number digits)
  | none => s.parseInt.toList

/-! ## Items -/

/-- The multiples of a step in a range. -/
theorem mem_steps {min max amount v : ℤ} (hamount : 1 ≤ amount) :
    v ∈ steps min max amount ↔ min ≤ v ∧ v ≤ max ∧ amount ∣ v - min := by
  simp only [steps, List.mem_map, List.mem_range]
  constructor
  · rintro ⟨k, hk, rfl⟩
    have hquot : (k : ℤ) ≤ (max - min) / amount := by omega
    have hprod : (k : ℤ) * amount ≤ max - min :=
      (Int.le_ediv_iff_mul_le (by omega)).mp hquot
    have hnonneg : 0 ≤ (k : ℤ) * amount := Int.mul_nonneg (by omega) (by omega)
    exact ⟨by omega, by omega, ⟨k, by ring⟩⟩
  · rintro ⟨hmin, hmax, c, hc⟩
    have hc0 : 0 ≤ c := by
      by_contra hneg
      have := Int.mul_neg_of_pos_of_neg (show 0 < amount by omega) (show c < 0 by omega)
      omega
    have hquot : c ≤ (max - min) / amount := by
      refine (Int.le_ediv_iff_mul_le (by omega)).mpr ?_
      rw [Int.mul_comm]
      omega
    refine ⟨c.toNat, by omega, ?_⟩
    rw [Int.toNat_of_nonneg hc0, Int.mul_comm, ← hc]
    omega

/-- Whether an item is readable can be computed. -/
instance (min max : ℤ) (s : Text) : Decidable (Readable min max s) := by
  unfold Readable
  cases s.stepDigits with
  | some digits => exact inferInstanceAs (Decidable (_ ∧ _))
  | none =>
    cases s.parseInt with
    | some n => exact decidable_of_iff (min ≤ n ∧ n ≤ max) (by simp)
    | none => exact isFalse (by simp)

/-- One item: its numbers if it is readable, otherwise the refusal of the field. -/
theorem parseItem_eq (min max : ℤ) (str s : Text) :
    parseItem str min max s =
      if Readable min max s then .ok (itemNumbers min max s)
      else .error (Text.of "Invalid cron field: " ++ str) := by
  have hcases : Readable min max s ∧ parseItem str min max s = .ok (itemNumbers min max s) ∨
      ¬Readable min max s ∧
        parseItem str min max s = .error (Text.of "Invalid cron field: " ++ str) := by
    unfold parseItem Readable itemNumbers
    cases s.stepDigits with
    | some digits =>
      by_cases hrange : 1 ≤ number digits ∧ (number digits : ℤ) ≤ max - min + 1
      · exact .inl ⟨hrange, if_neg (by omega)⟩
      · exact .inr ⟨hrange, if_pos (by omega)⟩
    | none =>
      cases s.parseInt with
      | none => exact .inr ⟨by simp, rfl⟩
      | some n =>
        by_cases hrange : min ≤ n ∧ n ≤ max
        · exact .inl ⟨⟨n, rfl, hrange⟩, if_neg (by omega)⟩
        · exact .inr ⟨by simpa using hrange, if_pos (by omega)⟩
  rcases hcases with ⟨hread, heq⟩ | ⟨hread, heq⟩
  · rw [heq, if_pos hread]
  · rw [heq, if_neg hread]

/-- A whole list: the numbers of its items if all of them are readable. -/
theorem parseItems_eq (min max : ℤ) (str : Text) (items : List Text) :
    items.mapM (parseItem str min max) =
      if ∀ s ∈ items, Readable min max s then .ok (items.map (itemNumbers min max))
      else .error (Text.of "Invalid cron field: " ++ str) := by
  induction items with
  | nil => rfl
  | cons s items ih =>
    rw [List.mapM_cons, parseItem_eq, ih]
    by_cases hs : Readable min max s
    · by_cases hitems : ∀ s ∈ items, Readable min max s
      · rw [if_pos hs, if_pos hitems, if_pos (List.forall_mem_cons.mpr ⟨hs, hitems⟩)]
        rfl
      · rw [if_pos hs, if_neg hitems, if_neg fun h => hitems (List.forall_mem_cons.mp h).2]
        rfl
    · rw [if_neg hs, if_neg fun h => hs (List.forall_mem_cons.mp h).1]
      rfl

/-- A field other than `*`. -/
theorem parseSet_eq {str : Text} (hstar : str ≠ Text.of "*") (min max : ℤ) :
    parseSet str min max =
      if ∀ s ∈ str.splitComma, Readable min max s then
        .ok (some (str.splitComma.flatMap (itemNumbers min max)))
      else .error (Text.of "Invalid cron field: " ++ str) := by
  unfold parseSet
  rw [if_neg hstar, parseItems_eq]
  split_ifs with hall
  · rw [List.flatMap_def]
    rfl
  · rfl

/-! ## Numbers without letters to skip -/

/-- A digit is no blank and no sign. -/
theorem of_isDigit {u : UInt16} (hu : isDigit u = true) :
    isSpace u = false ∧ u ≠ 45 ∧ u ≠ 43 ∧ u ≠ 42 := by
  have hrange : 48 ≤ u.toNat ∧ u.toNat ≤ 57 := by simpa [isDigit] using hu
  refine ⟨?_, ?_, ?_, ?_⟩
  · exact isSpace_of_isDigit hu
  all_goals
    rintro rfl
    exact absurd hrange (by decide)

/-- A number with nothing to skip: its sign is taken off, and all the rest is digits. -/
theorem decimal_iff {s : Text} {n : ℤ} :
    Decimal s n ↔ s.trim = s ∧ s.unsigned.dropWhile isDigit = [] ∧ s.parseInt = some n := by
  constructor
  · -- The whole text is digits after a sign that is no blank, so trimming keeps it.
    have hread : ∀ (w digits : Text), digits ≠ [] → (∀ u ∈ digits, isDigit u = true) →
        w = digits ∨ w = 43 :: digits ∨ w = 45 :: digits →
        w.trim = w ∧ w.unsigned = digits := by
      intro w digits hne hdigits hw
      obtain ⟨u, us, rfl⟩ := List.exists_cons_of_ne_nil hne
      obtain ⟨-, hminus, hplus, -⟩ := of_isDigit (hdigits u (by simp))
      have hlast : ∀ v, (u :: us).getLast? = some v → isSpace v = false := fun v hv =>
        isSpace_of_isDigit (hdigits v (List.mem_of_getLast? hv))
      rcases hw with rfl | rfl | rfl
      · refine ⟨trim_of_ends fun v hv => ?_, if_neg (by simp [hminus, hplus])⟩
        rcases hv with hv | hv
        · exact isSpace_of_isDigit (hdigits v (List.mem_of_head? hv))
        · exact hlast v hv
      all_goals
        refine ⟨trim_of_ends fun v hv => ?_, if_pos (by simp)⟩
        rcases hv with hv | hv
        · obtain rfl := Option.some.inj hv
          decide
        · exact hlast v (by rwa [List.getLast?_cons_cons] at hv)
    intro h
    have htake : ∀ digits : Text, (∀ u ∈ digits, isDigit u = true) →
        digits.dropWhile isDigit = [] ∧ digits.takeWhile isDigit = digits := fun digits hdigits =>
      ⟨List.dropWhile_eq_nil_iff.mpr hdigits, List.takeWhile_eq_self_iff.mpr hdigits⟩
    cases h with
    | plain hne hdigits =>
      obtain ⟨htrim, hunsigned⟩ := hread _ _ hne hdigits (.inl rfl)
      obtain ⟨hdrop, htake⟩ := htake _ hdigits
      obtain ⟨u, us, rfl⟩ := List.exists_cons_of_ne_nil hne
      refine ⟨htrim, by rw [hunsigned, hdrop], ?_⟩
      unfold Text.parseInt
      rw [htrim, hunsigned, htake]
      rw [if_neg hne, if_neg (by simp [(of_isDigit (hdigits u (by simp))).2.1])]
    | plus hne hdigits =>
      obtain ⟨htrim, hunsigned⟩ := hread _ _ hne hdigits (.inr (.inl rfl))
      obtain ⟨hdrop, htake⟩ := htake _ hdigits
      refine ⟨htrim, by rw [hunsigned, hdrop], ?_⟩
      unfold Text.parseInt
      rw [htrim, hunsigned, htake, if_neg hne, if_neg (by simp)]
    | minus hne hdigits =>
      obtain ⟨htrim, hunsigned⟩ := hread _ _ hne hdigits (.inr (.inr rfl))
      obtain ⟨hdrop, htake⟩ := htake _ hdigits
      refine ⟨htrim, by rw [hunsigned, hdrop], ?_⟩
      unfold Text.parseInt
      rw [htrim, hunsigned, htake, if_neg hne, if_pos (by simp)]
  · rintro ⟨htrim, hdrop, hparse⟩
    -- Without a rest the digits are all that follows the sign.
    have hall : s.unsigned.takeWhile isDigit = s.unsigned := by
      have happend := List.takeWhile_append_dropWhile (p := isDigit) (l := s.unsigned)
      rwa [hdrop, List.append_nil] at happend
    have hdigits : ∀ u ∈ s.unsigned, isDigit u = true := List.takeWhile_eq_self_iff.mp hall
    unfold Text.parseInt at hparse
    rw [htrim, hall] at hparse
    by_cases hne : s.unsigned = []
    · rw [if_pos hne] at hparse
      exact absurd hparse (by simp)
    · rw [if_neg hne] at hparse
      obtain rfl := Option.some.inj hparse
      by_cases hsign : s.head? = some 45 ∨ s.head? = some 43
      · have htail : s.unsigned = s.tail := if_pos hsign
        rw [htail] at hne hdigits ⊢
        obtain ⟨u, us, rfl⟩ := List.exists_cons_of_ne_nil (l := s) (by rintro rfl; exact hne rfl)
        rw [List.tail_cons] at hne hdigits ⊢
        rcases hsign with hu | hu
        · obtain rfl := Option.some.inj hu
          rw [if_pos hu]
          exact .minus hne hdigits
        · obtain rfl := Option.some.inj hu
          rw [if_neg (by simp)]
          exact .plus hne hdigits
      · have hself : s.unsigned = s := if_neg hsign
        rw [hself] at hne hdigits ⊢
        rw [if_neg fun h => hsign (.inl h)]
        exact .plain hne hdigits

/-- What the digits of a step are. -/
theorem stepDigits_eq_some {s digits : Text} :
    s.stepDigits = some digits ↔
      s = Text.of "*/" ++ digits ∧ digits ≠ [] ∧ ∀ u ∈ digits, isDigit u = true := by
  unfold Text.stepDigits
  constructor
  · intro h
    dsimp only at h
    split_ifs at h with hstep
    · obtain rfl := Option.some.inj h
      obtain ⟨htake, hne, hall⟩ := hstep
      refine ⟨?_, hne, by simpa using hall⟩
      rw [← htake, List.take_append_drop]
  · rintro ⟨rfl, hne, hall⟩
    have hdrop : (Text.of "*/" ++ digits).drop 2 = digits := rfl
    rw [if_pos ⟨rfl, by rwa [hdrop], by rw [hdrop]; simpa using hall⟩, hdrop]

/-- A decimal integer is no step. -/
theorem Decimal.stepDigits_eq_none {s : Text} {n : ℤ} (h : Decimal s n) : s.stepDigits = none := by
  have hhead : s.head? ≠ some 42 := by
    cases h with
    | plain hne hdigits =>
      obtain ⟨u, us, rfl⟩ := List.exists_cons_of_ne_nil hne
      simpa using (of_isDigit (hdigits u (by simp))).2.2.2
    | plus => simp
    | minus => simp
  cases hstep : s.stepDigits with
  | none => rfl
  | some digits => exact absurd (congrArg List.head? (stepDigits_eq_some.mp hstep).1) hhead

/-- An item has a meaning if and only if it is readable and has nothing to skip, and the meaning is
its numbers. -/
theorem itemDenotes_iff {min max : ℤ} {s : Text} {S : Set ℤ} :
    ItemDenotes min max s S ↔
      (Readable min max s ∧ ¬Skips s) ∧ S = {v | v ∈ itemNumbers min max s} := by
  cases hstep : s.stepDigits with
  | some digits =>
    obtain ⟨hs, hne, hdigits⟩ := stepDigits_eq_some.mp hstep
    have hskips : ¬Skips s := fun h => absurd (h.1.symm.trans hstep) (by simp)
    have hread : Readable min max s ↔
        1 ≤ number digits ∧ (number digits : ℤ) ≤ max - min + 1 := by
      rw [Readable, hstep]
    have hnumbers : itemNumbers min max s = steps min max (number digits) := by
      rw [itemNumbers, hstep]
    rw [hread, hnumbers]
    constructor
    · intro h
      cases h with
      | number hdecimal => exact absurd (hdecimal.stepDigits_eq_none.symm.trans hstep) (by simp)
      | @step digits' _ _ hone hmax =>
        obtain rfl : digits' = digits := List.append_cancel_left hs
        refine ⟨⟨⟨hone, hmax⟩, hskips⟩, Set.ext fun v => ?_⟩
        exact (mem_steps (by exact_mod_cast hone)).symm
    · rintro ⟨⟨⟨hone, hmax⟩, -⟩, rfl⟩
      have hset : {v | v ∈ steps min max (number digits)} =
          {v | min ≤ v ∧ v ≤ max ∧ (number digits : ℤ) ∣ v - min} :=
        Set.ext fun v => mem_steps (by exact_mod_cast hone)
      rw [hset, hs]
      exact .step hne hdigits hone hmax
  | none =>
    have hread : Readable min max s ↔ ∃ n, s.parseInt = some n ∧ min ≤ n ∧ n ≤ max := by
      rw [Readable, hstep]
    have hskips : Skips s ↔ s.trim ≠ s ∨ s.trim.unsigned.dropWhile isDigit ≠ [] := by
      unfold Skips
      rw [hstep]
      simp
    have hnumbers : itemNumbers min max s = s.parseInt.toList := by
      rw [itemNumbers, hstep]
    rw [hread, hskips, hnumbers]
    constructor
    · intro h
      cases h with
      | @number _ n hdecimal hmin hmax =>
        obtain ⟨htrim, hdrop, hparse⟩ := decimal_iff.mp hdecimal
        refine ⟨⟨⟨n, hparse, hmin, hmax⟩, ?_⟩, ?_⟩
        · rw [htrim]
          simpa using hdrop
        · rw [hparse]
          exact Set.ext fun v => by simp
      | @step digits hne hdigits =>
        exact absurd (stepDigits_eq_some.mpr ⟨rfl, hne, hdigits⟩) (by simp [hstep])
    · rintro ⟨⟨⟨n, hparse, hmin, hmax⟩, hwhole⟩, rfl⟩
      obtain ⟨htrim, hdrop⟩ := not_or.mp hwhole
      have htrim := not_ne_iff.mp htrim
      have hset : {v | v ∈ s.parseInt.toList} = {n} := by
        rw [hparse]
        exact Set.ext fun v => by simp
      rw [hset]
      rw [htrim] at hdrop
      exact .number (decimal_iff.mpr ⟨htrim, not_ne_iff.mp hdrop, hparse⟩) hmin hmax

/-! ## Fields -/

/-- A list has a meaning if and only if all its items have one, and the meaning is their numbers. -/
theorem forall₂_itemDenotes_iff {min max : ℤ} {items : List Text} {sets : List (Set ℤ)} :
    List.Forall₂ (ItemDenotes min max) items sets ↔
      (∀ s ∈ items, Readable min max s ∧ ¬Skips s) ∧
        sets = items.map fun s => {v | v ∈ itemNumbers min max s} := by
  induction items generalizing sets with
  | nil => simp
  | cons s items ih =>
    rw [List.forall_mem_cons, List.map_cons]
    constructor
    · intro h
      cases h with
      | cons hs hitems =>
        obtain ⟨hread, rfl⟩ := itemDenotes_iff.mp hs
        obtain ⟨hreads, rfl⟩ := ih.mp hitems
        exact ⟨⟨hread, hreads⟩, rfl⟩
    · rintro ⟨⟨hread, hreads⟩, rfl⟩
      exact .cons (itemDenotes_iff.mpr ⟨hread, rfl⟩) (ih.mpr ⟨hreads, rfl⟩)

/-- `*` is no item of a list. -/
theorem not_readable_star (min max : ℤ) : ¬∀ s ∈ splitComma (Text.of "*"), Readable min max s := by
  intro h
  have hstar : Readable min max (Text.of "*") := h _ (by decide)
  have hnone : (Text.of "*").parseInt = none := by decide
  have hstep : (Text.of "*").stepDigits = none := by decide
  rw [Readable, hstep] at hstar
  obtain ⟨n, hn, -⟩ := hstar
  exact absurd (hnone.symm.trans hn) (by simp)

/-- What a field means, by its items. -/
theorem fieldDenotes_iff {min max : ℤ} {str : Text} {S : Set ℤ} :
    FieldDenotes min max str S ↔
      if str = Text.of "*" then S = Set.univ
      else (∀ s ∈ str.splitComma, Readable min max s ∧ ¬Skips s) ∧
        S = {v | v ∈ str.splitComma.flatMap (itemNumbers min max)} := by
  have hunion : ∀ items : List Text,
      {v | ∃ S ∈ items.map fun s => {v | v ∈ itemNumbers min max s}, v ∈ S} =
        {v | v ∈ items.flatMap (itemNumbers min max)} := by
    intro items
    ext v
    simp
  constructor
  · intro h
    cases h with
    | every => rw [if_pos rfl]
    | list hitems =>
      obtain ⟨hreads, rfl⟩ := forall₂_itemDenotes_iff.mp hitems
      split_ifs with hstar
      · rw [hstar] at hreads
        exact absurd (fun s hs => (hreads s hs).1) (not_readable_star min max)
      · exact ⟨hreads, hunion _⟩
  · intro h
    split_ifs at h with hstar
    · rw [hstar, h]
      exact .every
    · obtain ⟨hreads, rfl⟩ := h
      rw [← hunion]
      exact .list (forall₂_itemDenotes_iff.mpr ⟨hreads, rfl⟩)

/-- A field is read as written if and only if it is `*`, or one of its items makes the parser refuse
it, or no item has letters that the parser skips. -/
theorem readsAsWritten_iff (str : Text) (min max : ℤ) :
    ReadsAsWritten str min max ↔
      str = Text.of "*" ∨ (∃ s ∈ str.splitComma, ¬Readable min max s) ∨
        ∀ s ∈ str.splitComma, ¬Skips s := by
  by_cases hstar : str = Text.of "*"
  · refine iff_of_true (fun S => ?_) (.inl hstar)
    rw [fieldDenotes_iff, if_pos hstar, parseSet, if_pos hstar]
    constructor
    · rintro rfl
      exact ⟨none, rfl, Set.ext fun v => by simp [Field.admits]⟩
    · rintro ⟨set, hset, rfl⟩
      obtain rfl := Except.ok.inj hset
      exact Set.ext fun v => by simp [Field.admits]
  · have hadmits : ∀ ns : List ℤ, {v | Field.admits (some ns) v = true} = {v | v ∈ ns} :=
      fun ns => Set.ext fun v => by simp [Field.admits]
    by_cases hreads : ∀ s ∈ str.splitComma, Readable min max s
    · have hparsed : parseSet str min max =
          .ok (some (str.splitComma.flatMap (itemNumbers min max))) := by
        rw [parseSet_eq hstar, if_pos hreads]
      constructor
      · intro h
        -- The parser accepts the field, so the grammar has to give it a meaning.
        have hdenotes := (h _).mpr ⟨_, hparsed, rfl⟩
        rw [fieldDenotes_iff, if_neg hstar] at hdenotes
        exact .inr (.inr fun s hs => (hdenotes.1 s hs).2)
      · rintro (h | ⟨s, hs, hnot⟩ | hwhole) S
        · exact absurd h hstar
        · exact absurd (hreads s hs) hnot
        · rw [fieldDenotes_iff, if_neg hstar, hparsed]
          constructor
          · rintro ⟨-, rfl⟩
            exact ⟨_, rfl, hadmits _⟩
          · rintro ⟨set, hset, rfl⟩
            obtain rfl := Except.ok.inj hset
            exact ⟨fun s hs => ⟨hreads s hs, hwhole s hs⟩, hadmits _⟩
    · have hrefused := parseSet_eq hstar min max
      rw [if_neg hreads] at hrefused
      refine iff_of_true (fun S => ?_) (.inr (.inl ?_))
      · rw [fieldDenotes_iff, if_neg hstar, hrefused]
        refine iff_of_false (fun h => hreads fun s hs => (h.1 s hs).1) ?_
        rintro ⟨set, hset, -⟩
        exact absurd hset (by simp)
      · simpa using hreads

/-- The range `1-5` in the field of the weekdays is read as the first of them. -/
theorem range_read_as_number : ¬∀ (str : Text) (min max : ℤ), ReadsAsWritten str min max := by
  intro hall
  have haccepted : parseSet (Text.of "1-5") 0 6 = .ok (some [1]) := by decide +kernel
  have hdenotes := (hall (Text.of "1-5") 0 6 _).mpr ⟨_, haccepted, rfl⟩
  rw [fieldDenotes_iff, if_neg (by decide)] at hdenotes
  refine (hdenotes.1 (Text.of "1-5") (by decide)).2 ⟨by decide, .inr ?_⟩
  decide

end Mastermind.Cron
