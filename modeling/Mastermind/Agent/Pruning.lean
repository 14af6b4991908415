import Mastermind.Agent.Adapter
import Mastermind.Agent.ModArchive
import Mastermind.Platform.CleanPath
import Mastermind.Platform.Clock
import Mastermind.Platform.Spelling

/-!
# Pruning the backups

`pruneFullSaveBackups` of `internal/games/7dtd/adapter.go`: of the backups of whole worlds the newest
ones stay, and everything else in the directory stays as it is. The names of the backups carry the
time at which they were made, and the code sorts the names.
-/

namespace Mastermind.Agent.Pruning

open Calendar Mastermind.Path Regex ModArchive

/-! ## The names of backups -/

/-- The part of the pattern between `^` and `$`. -/
def saveIDBody : Regex Char :=
  .all [.group (.alt (.all ("mastermind".toList.map fun c => .one (· == c)))
      (.all ("snap".toList.map fun c => .one (· == c)))),
    .one (· == '_'), .many Char.isDigit 4 (some 4),
    .one (· == '-'), .many Char.isDigit 2 (some 2), .one (· == '-'), .many Char.isDigit 2 (some 2),
    .one (· == '_'), .many Char.isDigit 2 (some 2),
    .one (· == '-'), .many Char.isDigit 2 (some 2), .one (· == '-'), .many Char.isDigit 2 (some 2)]

/-- `^(mastermind|snap)_\d{4}-\d{2}-\d{2}_\d{2}-\d{2}-\d{2}$`. -/
def saveIDPattern : Regex Char := .seq .start (.seq saveIDBody .finish)

/-- `validSaveID`. -/
def validSaveID (id : String) : Bool := base id = id && saveIDPattern.test id.toList

/-- `saveBackupPath`, with its check. -/
def checkedBackupPath (id : String) : Fallible String :=
  if validSaveID id then .ok (saveBackupPath id) else .error "invalid save ID"

/-! ## The directory -/

/-- An entry of a directory: for a directory, the content is what is below it. -/
structure Entry (C : Type) where
  name : String
  isDir : Bool
  content : C

/-- A directory. The names are distinct, and each is an element of a path. -/
structure Directory (C : Type) where
  entries : List (Entry C)
  normal : ∀ e ∈ entries, Normal e.name
  distinct : (entries.map Entry.name).Nodup

variable {C : Type}

/-- The directory with some of its entries, some of which have another content. -/
def Directory.keep (dir : Directory C) (content : Entry C → C) (p : Entry C → Bool) :
    Directory C where
  entries := (dir.entries.filter p).map fun e => { e with content := content e }
  normal := by
    intro e he
    obtain ⟨d, hd, rfl⟩ := List.mem_map.mp he
    exact dir.normal d (List.mem_of_mem_filter hd)
  distinct := by
    rw [List.map_map]
    exact dir.distinct.sublist (List.filter_sublist.map Entry.name)

/-- What the file system does about the removal of a path: nothing hinders it, or it ends with an
error, after which some content is left. -/
abbrev Removal (C : Type) := String → Option (String × C)

/-- `os.RemoveAll` of a path below the directory of the backups. -/
def removeAll (removal : Removal C) (dir : Directory C) (path : String) :
    Option String × Directory C :=
  match removal path with
  | none => (none, dir.keep Entry.content fun e => saveBackupPath e.name ≠ path)
  | some (err, left) =>
    (some err, dir.keep (fun e => if saveBackupPath e.name = path then left else e.content)
      fun _ => true)

/-- The loop over the surplus. -/
def removeEach (removal : Removal C) : List String → Directory C → Option String × Directory C
  | [], dir => (none, dir)
  | id :: ids, dir =>
    let path := match checkedBackupPath id with
      | .ok path => path
      | .error _ => ""
    match removeAll removal dir path with
    | (some err, dir) => (some err, dir)
    | (none, dir) => removeEach removal ids dir

/-- The condition of the first loop. -/
def isFullSave (e : Entry C) : Bool :=
  e.isDir && hasPrefix e.name "mastermind_" && validSaveID e.name

/-- `pruneFullSaveBackups`, of a directory that can be read. -/
def pruneFullSaveBackups (removal : Removal C) (dir : Directory C) (retention : ℕ) :
    Option String × Directory C :=
  let ids := (dir.entries.filter isFullSave).map Entry.name
  let ids := ids.mergeSort fun a b => decide (b ≤ a)
  if ids.length ≤ retention then (none, dir) else removeEach removal (ids.drop retention) dir

/-! ## What the names look like -/

/-- The shape of a name with a kind of backup before the underscore. -/
def saveIDShape (kind : List Char) : List (Char → Bool) :=
  kind.map (fun c => (· == c)) ++
    [(· == '_'), Char.isDigit, Char.isDigit, Char.isDigit, Char.isDigit,
      (· == '-'), Char.isDigit, Char.isDigit, (· == '-'), Char.isDigit, Char.isDigit,
      (· == '_'), Char.isDigit, Char.isDigit,
      (· == '-'), Char.isDigit, Char.isDigit, (· == '-'), Char.isDigit, Char.isDigit]

theorem spellings_saveIDBody : saveIDBody.spellings =
    some [saveIDShape "mastermind".toList, saveIDShape "snap".toList] := rfl

/-- The name of a full save has one shape. -/
theorem spells_of_isFullSave {e : Entry C} (h : isFullSave e) :
    Spells (saveIDShape "mastermind".toList) e.name.toList := by
  simp only [isFullSave, validSaveID, Bool.and_eq_true] at h
  obtain ⟨⟨-, hprefix⟩, -, htest⟩ := h
  obtain ⟨w, hw, hspells⟩ := (test_whole spellings_saveIDBody _).mp htest
  rcases List.mem_cons.mp hw with rfl | hw
  · exact hspells
  · -- the name of a snapshot begins with another letter
    obtain rfl := List.mem_singleton.mp hw
    obtain ⟨t, ht⟩ := List.isPrefixOf_iff_prefix.mp hprefix
    rw [← ht] at hspells
    obtain ⟨x, xs, hx, -, hcons⟩ := spells_cons.mp hspells
    obtain ⟨rfl, -⟩ := List.cons.inj hcons
    exact absurd hx (by decide)

/-! ## The times in the names -/

/-- The number that the digits of a name write: year, month, day, hour, minute and second. -/
def stampNumber (id : String) : ℕ := decimal (id.toList.filter Char.isDigit)

/-- The moment that such a number denotes, in milliseconds. -/
def stampMoment (n : ℕ) : ℤ :=
  makeDate (makeDay (n / 10 ^ 10 : ℕ) ((n / 10 ^ 8 % 100 : ℕ) - 1) (n / 10 ^ 6 % 100 : ℕ))
    (makeTime (n / 10 ^ 4 % 100 : ℕ) (n / 100 % 100 : ℕ) (n % 100 : ℕ) 0)

/-- The number of days of a month of a year, months from zero. -/
def monthLength (year : ℤ) (month : ℕ) : ℤ :=
  (monthStarts (inLeapYear year) ++ [365 + inLeapYear year]).getD (month + 1) 0 -
    (monthStarts (inLeapYear year)).getD month 0

/-- The fields of the number are those of a date and a time of the day. -/
structure RealStamp (n : ℕ) : Prop where
  month : 1 ≤ n / 10 ^ 8 % 100 ∧ n / 10 ^ 8 % 100 ≤ 12
  date : 1 ≤ n / 10 ^ 6 % 100 ∧
    ((n / 10 ^ 6 % 100 : ℕ) : ℤ) ≤ monthLength (n / 10 ^ 10 : ℕ) (n / 10 ^ 8 % 100 - 1)
  hour : n / 10 ^ 4 % 100 < 24
  minute : n / 100 % 100 < 60
  second : n % 100 < 60

/-- The months of a year lie one behind the other, and within the year. -/
theorem monthLength_spec (year : ℤ) {m : ℕ} (hm : m < 12) :
    0 ≤ (monthStarts (inLeapYear year)).getD m 0 ∧
      (monthStarts (inLeapYear year)).getD m 0 + monthLength year m ≤ 365 + inLeapYear year ∧
      ∀ m' < 12, m < m' → (monthStarts (inLeapYear year)).getD m 0 + monthLength year m ≤
        (monthStarts (inLeapYear year)).getD m' 0 := by
  unfold monthLength
  rcases inLeapYear_cases year with h | h <;> rw [h] <;> clear h <;> revert m <;> decide

/-- Of two real dates, the one with the smaller number is earlier. -/
theorem makeDay_lt {y y' : ℤ} {m m' : ℕ} {d d' : ℤ} (hm : m < 12) (hm' : m' < 12)
    (hlast : d ≤ monthLength y m) (hd' : 1 ≤ d')
    (hlt : y < y' ∨ y = y' ∧ (m < m' ∨ m = m' ∧ d < d')) :
    makeDay y m d < makeDay y' m' d' := by
  obtain ⟨-, hend, hnext⟩ := monthLength_spec y hm
  obtain ⟨hstart, -, -⟩ := monthLength_spec y' hm'
  have hyear : dayFromYear (y + 1) = dayFromYear y + 365 + inLeapYear y := by
    unfold inLeapYear
    omega
  have hdiv : ∀ k : ℕ, k < 12 → (k : ℤ) / 12 = 0 ∧ ((k : ℤ) % 12).toNat = k := by
    intro k hk
    omega
  unfold makeDay
  rw [(hdiv m hm).1, (hdiv m' hm').1, (hdiv m hm).2, (hdiv m' hm').2]
  dsimp only
  rw [add_zero, add_zero]
  rcases hlt with hlt | ⟨rfl, hlt | ⟨rfl, hlt⟩⟩
  · have hmono : dayFromYear (y + 1) ≤ dayFromYear y' :=
      dayFromYear_strictMono.monotone (by omega)
    omega
  · have hmono := hnext m' hm' hlt
    omega
  · omega

/-- The time of a day that the fields of a number make lies within the day, and of two times of one
day the one with the smaller number is earlier. -/
theorem makeTime_lt {a b : ℕ} (hmin : a / 100 % 100 < 60) (hsec : a % 100 < 60)
    (hhour : a / 10 ^ 4 % 100 < 24) :
    makeTime (a / 10 ^ 4 % 100 : ℕ) (a / 100 % 100 : ℕ) (a % 100 : ℕ) 0 < msPerDay ∧
      0 ≤ makeTime (b / 10 ^ 4 % 100 : ℕ) (b / 100 % 100 : ℕ) (b % 100 : ℕ) 0 ∧
      (a / 10 ^ 6 = b / 10 ^ 6 → a < b →
        makeTime (a / 10 ^ 4 % 100 : ℕ) (a / 100 % 100 : ℕ) (a % 100 : ℕ) 0 <
          makeTime (b / 10 ^ 4 % 100 : ℕ) (b / 100 % 100 : ℕ) (b % 100 : ℕ) 0) := by
  have hfields : ∀ n : ℕ,
      n = n / 10 ^ 6 * 10 ^ 6 + n / 10 ^ 4 % 100 * 10 ^ 4 + n / 100 % 100 * 100 + n % 100 := by
    intro n
    omega
  have ha := hfields a
  have hb := hfields b
  clear hfields
  unfold makeTime
  simp only [msPerDay, msPerMinute]
  generalize a / 10 ^ 6 = day at ha ⊢
  generalize b / 10 ^ 6 = day' at hb ⊢
  generalize a / 10 ^ 4 % 100 = hour at ha hhour ⊢
  generalize b / 10 ^ 4 % 100 = hour' at hb ⊢
  generalize a / 100 % 100 = minute at ha hmin ⊢
  generalize b / 100 % 100 = minute' at hb ⊢
  generalize a % 100 = second at ha hsec ⊢
  generalize b % 100 = second' at hb ⊢
  refine ⟨by omega, by omega, ?_⟩
  rintro rfl hlt
  omega

/-- Which fields of the date are smaller when the number of the date is. -/
theorem date_lt {a b : ℕ} (h : a / 10 ^ 6 < b / 10 ^ 6) (ha : 1 ≤ a / 10 ^ 8 % 100)
    (hb : 1 ≤ b / 10 ^ 8 % 100) :
    a / 10 ^ 10 < b / 10 ^ 10 ∨ a / 10 ^ 10 = b / 10 ^ 10 ∧
      (a / 10 ^ 8 % 100 - 1 < b / 10 ^ 8 % 100 - 1 ∨
        a / 10 ^ 8 % 100 - 1 = b / 10 ^ 8 % 100 - 1 ∧
          a / 10 ^ 6 % 100 < b / 10 ^ 6 % 100) := by
  have hfields : ∀ n : ℕ,
      n / 10 ^ 6 = n / 10 ^ 10 * 10 ^ 4 + n / 10 ^ 8 % 100 * 100 + n / 10 ^ 6 % 100 ∧
        n / 10 ^ 8 % 100 < 100 ∧ n / 10 ^ 6 % 100 < 100 := by
    intro n
    omega
  have hfa := hfields a
  have hfb := hfields b
  clear hfields
  generalize a / 10 ^ 6 % 100 = date at hfa ⊢
  generalize b / 10 ^ 6 % 100 = date' at hfb ⊢
  generalize a / 10 ^ 6 = n at h hfa
  generalize b / 10 ^ 6 = n' at h hfb
  generalize a / 10 ^ 8 % 100 = month at ha hfa ⊢
  generalize b / 10 ^ 8 % 100 = month' at hb hfb ⊢
  generalize a / 10 ^ 10 = year at hfa ⊢
  generalize b / 10 ^ 10 = year' at hfb ⊢
  omega

/-- The numbers of real dates are in the order of the moments. -/
theorem stampMoment_lt {a b : ℕ} (ha : RealStamp a) (hb : RealStamp b) (hlt : a < b) :
    stampMoment a < stampMoment b := by
  obtain ⟨hday, hnonneg, htime⟩ := @makeTime_lt a b ha.minute ha.second ha.hour
  obtain ⟨hma, hma'⟩ := ha.month
  obtain ⟨hmb, hmb'⟩ := hb.month
  obtain ⟨hda, hda'⟩ := ha.date
  have hdb := hb.date.1
  have hmonth : ∀ n : ℕ, 1 ≤ n → (n : ℤ) - 1 = (n - 1 : ℕ) := by
    intro n hn
    omega
  unfold stampMoment makeDate
  rw [hmonth _ hma, hmonth _ hmb]
  rcases (Nat.div_le_div_right hlt.le : a / 10 ^ 6 ≤ b / 10 ^ 6).eq_or_lt with hsame | hless
  · have hyear : a / 10 ^ 10 = b / 10 ^ 10 := by
      rw [show 10 ^ 10 = 10 ^ 6 * 10 ^ 4 by rfl, ← Nat.div_div_eq_div_mul, hsame,
        Nat.div_div_eq_div_mul]
    have hm : a / 10 ^ 8 = b / 10 ^ 8 := by
      rw [show 10 ^ 8 = 10 ^ 6 * 10 ^ 2 by rfl, ← Nat.div_div_eq_div_mul, hsame,
        Nat.div_div_eq_div_mul]
    rw [hyear, hm, hsame]
    exact Int.add_lt_add_left (htime hsame hlt) _
  · have hdate := @makeDay_lt (a / 10 ^ 10 : ℕ) (b / 10 ^ 10 : ℕ) (a / 10 ^ 8 % 100 - 1)
      (b / 10 ^ 8 % 100 - 1) (a / 10 ^ 6 % 100 : ℕ) (b / 10 ^ 6 % 100 : ℕ) (by omega) (by omega)
      hda' (by exact_mod_cast hdb) (by exact_mod_cast date_lt hless hma hmb)
    have hmul := Int.mul_le_mul_of_nonneg_right (Int.add_one_le_of_lt hdate)
      (by decide : (0 : ℤ) ≤ msPerDay)
    linarith

/-! ## The order of the names -/

theorem decimal_foldl (n : ℕ) (digits : List Char) :
    digits.foldl (fun n c => 10 * n + (c.toNat - 48)) n =
      n * 10 ^ digits.length + decimal digits := by
  induction digits generalizing n with
  | nil => simp [decimal]
  | cons c cs ih =>
    rw [decimal, List.foldl_cons, List.foldl_cons, ih, ih (10 * 0 + _), List.length_cons, pow_succ]
    ring

theorem decimal_cons (c : Char) (cs : List Char) :
    decimal (c :: cs) = (c.toNat - 48) * 10 ^ cs.length + decimal cs := by
  rw [decimal, List.foldl_cons, decimal_foldl, Nat.mul_zero, Nat.zero_add]

theorem toNat_of_isDigit {c : Char} (h : c.isDigit) : 48 ≤ c.toNat ∧ c.toNat ≤ 57 :=
  Char.isDigit_iff_toNat.mp h

theorem decimal_lt {digits : List Char} (h : ∀ c ∈ digits, c.isDigit) :
    decimal digits < 10 ^ digits.length := by
  induction digits with
  | nil => decide
  | cons c cs ih =>
    obtain ⟨hc, hcs⟩ := List.forall_mem_cons.mp h
    have hdigit := (toNat_of_isDigit hc).2
    have hlt := ih hcs
    rw [decimal_cons, List.length_cons, pow_succ]
    have hmul := Nat.mul_le_mul_right (10 ^ cs.length) (by omega : c.toNat - 48 ≤ 9)
    omega

/-- The classes of a shape are digits and single letters that are none. -/
def Punctuated (shape : List (Char → Bool)) : Prop :=
  ∀ p ∈ shape, p = Char.isDigit ∨ ∃ c, c.isDigit = false ∧ p = (· == c)

theorem punctuated_saveIDShape : Punctuated (saveIDShape "mastermind".toList) := by
  intro p hp
  rcases List.mem_append.mp hp with hp | hp
  · obtain ⟨c, hc, rfl⟩ := List.mem_map.mp hp
    have hall : "mastermind".toList.all fun c => c.isDigit = false := by decide
    exact .inr ⟨c, by simpa using List.all_eq_true.mp hall c hc, rfl⟩
  · simp only [List.mem_cons, List.not_mem_nil, or_false] at hp
    have hdash : ∃ c, c.isDigit = false ∧ (fun x : Char => x == '-') = (· == c) := ⟨'-', rfl, rfl⟩
    have hunder : ∃ c, c.isDigit = false ∧ (fun x : Char => x == '_') = (· == c) := ⟨'_', rfl, rfl⟩
    grind

/-- The words of a shape have as many digits. -/
theorem digits_length {shape : List (Char → Bool)} (hshape : Punctuated shape) {a b : List Char}
    (ha : Spells shape a) (hb : Spells shape b) :
    (a.filter Char.isDigit).length = (b.filter Char.isDigit).length := by
  induction shape generalizing a b with
  | nil => rw [spells_nil.mp ha, spells_nil.mp hb]
  | cons p shape ih =>
    obtain ⟨x, xs, hx, hxs, rfl⟩ := spells_cons.mp ha
    obtain ⟨y, ys, hy, hys, rfl⟩ := spells_cons.mp hb
    obtain ⟨hp, hrest⟩ := List.forall_mem_cons.mp hshape
    have hlength := ih hrest hxs hys
    rcases hp with rfl | ⟨c, hc, rfl⟩
    · rw [List.filter_cons_of_pos hx, List.filter_cons_of_pos hy, List.length_cons,
        List.length_cons, hlength]
    · obtain rfl : x = c := by simpa using hx
      obtain rfl : y = x := by simpa using hy
      rwa [List.filter_cons_of_neg (by simp [hc]), List.filter_cons_of_neg (by simp [hc])]

/-- The order of two numbers by their leading digits. -/
theorem leading_lt_iff {p a b : ℕ} (ha : a < p) (hb : b < p) (x y : ℕ) :
    x * p + a < y * p + b ↔ x < y ∨ x = y ∧ a < b := by
  rcases Nat.lt_trichotomy x y with h | rfl | h
  · have hmul := Nat.mul_le_mul_right p (Nat.succ_le_of_lt h)
    rw [Nat.succ_mul] at hmul
    exact iff_of_true (by omega) (.inl h)
  · simp
  · have hmul := Nat.mul_le_mul_right p (Nat.succ_le_of_lt h)
    rw [Nat.succ_mul] at hmul
    exact iff_of_false (by omega) (by omega)

/-- Two words of such a shape are in the order of the numbers that their digits write. -/
theorem lt_iff_decimal_lt {shape : List (Char → Bool)} (hshape : Punctuated shape)
    {a b : List Char} (ha : Spells shape a) (hb : Spells shape b) :
    a < b ↔ decimal (a.filter Char.isDigit) < decimal (b.filter Char.isDigit) := by
  induction shape generalizing a b with
  | nil => rw [spells_nil.mp ha, spells_nil.mp hb]; simp
  | cons p shape ih =>
    obtain ⟨x, xs, hx, hxs, rfl⟩ := spells_cons.mp ha
    obtain ⟨y, ys, hy, hys, rfl⟩ := spells_cons.mp hb
    obtain ⟨hp, hrest⟩ := List.forall_mem_cons.mp hshape
    rw [List.cons_lt_cons_iff, ih hrest hxs hys]
    rcases hp with rfl | ⟨c, hc, rfl⟩
    · -- the first digit weighs more than all that follow it
      have hlength := digits_length hrest hxs hys
      have hxlt := @decimal_lt (xs.filter Char.isDigit) (by simp)
      have hylt := @decimal_lt (ys.filter Char.isDigit) (by simp)
      rw [hlength] at hxlt
      obtain ⟨hx₁, -⟩ := toNat_of_isDigit hx
      obtain ⟨hy₁, -⟩ := toNat_of_isDigit hy
      have hlt : x < y ↔ x.toNat - 48 < y.toNat - 48 := by
        rw [Char.lt_def, UInt32.lt_iff_toNat_lt, ← Char.toNat, ← Char.toNat]
        omega
      have heq : x = y ↔ x.toNat - 48 = y.toNat - 48 := by
        rw [← Char.toNat_inj]
        omega
      rw [List.filter_cons_of_pos hx, List.filter_cons_of_pos hy, decimal_cons, decimal_cons,
        hlength, leading_lt_iff hxlt hylt, hlt, heq]
    · obtain rfl : x = c := by simpa using hx
      obtain rfl : y = x := by simpa using hy
      rw [List.filter_cons_of_neg (by simp [hc]), List.filter_cons_of_neg (by simp [hc])]
      simp

/-- The names of full saves are in the order of the numbers in them. -/
theorem name_lt_iff {d e : Entry C} (hd : isFullSave d) (he : isFullSave e) :
    d.name < e.name ↔ stampNumber d.name < stampNumber e.name := by
  rw [String.lt_iff_toList_lt]
  exact lt_iff_decimal_lt punctuated_saveIDShape (spells_of_isFullSave hd) (spells_of_isFullSave he)

/-! ## What is removed -/

theorem Directory.keep_content (dir : Directory C) (p : Entry C → Bool) :
    (dir.keep Entry.content p).entries = dir.entries.filter p :=
  List.map_id _

/-- The paths of the backups are distinct. -/
theorem saveBackupPath_inj {a b : String} (ha : Normal a) (hb : Normal b)
    (h : saveBackupPath a = saveBackupPath b) : a = b := by
  have hroot : ∃ base, (∀ e ∈ base, Normal e) ∧ saveBackupRoot = "/" ++ "/".intercalate base := by
    refine ⟨["opt", "regionhealer", "RegionAutoFix", "Saves"], ?_, by decide⟩
    simp only [List.mem_cons, List.not_mem_nil, or_false, forall_eq_or_imp, forall_eq,
      Path.Normal, Plain]
    decide
  obtain ⟨base, hbase, hroot⟩ := hroot
  have hjoin : ∀ c, Normal c → elements (saveBackupPath c) = base ++ [c] := by
    intro c hc
    have hone : ∀ e ∈ [c], Normal e := fun e he => List.mem_singleton.mp he ▸ hc
    have hall : ∀ e ∈ base ++ [c], Plain e := fun e he =>
      (List.mem_append.mp he).elim (fun h => (hbase e h).1) fun h => (hone e h).1
    have hjoin := join_normal hbase hone
    rw [String.intercalate_singleton, ← hroot] at hjoin
    rw [saveBackupPath, hjoin, elements_rooted hall]
  have happend := hjoin a ha
  rw [h, hjoin b hb] at happend
  simpa using happend.symm

/-- What the loop over the surplus leaves, when no removal fails. -/
theorem removeEach_entries {removal : Removal C} {ids : List String} {dir : Directory C}
    (hids : ∀ id ∈ ids, validSaveID id ∧ Normal id) (h : (removeEach removal ids dir).1 = none) :
    (removeEach removal ids dir).2.entries = dir.entries.filter fun e => e.name ∉ ids := by
  induction ids generalizing dir with
  | nil => simp [removeEach]
  | cons id ids ih =>
    obtain ⟨⟨hvalid, hnormal⟩, hrest⟩ := List.forall_mem_cons.mp hids
    have hpath : checkedBackupPath id = .ok (saveBackupPath id) := if_pos hvalid
    unfold removeEach at h ⊢
    rw [hpath] at h ⊢
    dsimp only at h ⊢
    cases hr : removal (saveBackupPath id) with
    | some failure => simp [removeAll, hr] at h
    | none =>
      simp only [removeAll, hr] at h ⊢
      rw [ih hrest h, Directory.keep_content, List.filter_filter]
      refine List.filter_congr fun e he => ?_
      have hname : saveBackupPath e.name = saveBackupPath id ↔ e.name = id :=
        ⟨saveBackupPath_inj (dir.normal e he) hnormal, fun h => h ▸ rfl⟩
      simp only [List.mem_cons, hname, ne_eq, not_or, Bool.decide_and]
      exact Bool.and_comm _ _

/-- Where no path is hindered, the loop ends without an error. -/
theorem removeEach_ok {removal : Removal C} (hremoval : ∀ path, removal path = none)
    (ids : List String) (dir : Directory C) : (removeEach removal ids dir).1 = none := by
  induction ids generalizing dir with
  | nil => rfl
  | cons id ids ih =>
    unfold removeEach
    simp only [removeAll, hremoval]
    exact ih _

/-- The names of the full saves, the newest first. -/
def sortedSaves (dir : Directory C) : List String :=
  ((dir.entries.filter isFullSave).map Entry.name).mergeSort fun a b => decide (b ≤ a)

theorem mem_sortedSaves {dir : Directory C} {id : String} :
    id ∈ sortedSaves dir ↔ ∃ e ∈ dir.entries, isFullSave e ∧ e.name = id := by
  simp [sortedSaves, and_assoc]

theorem sortedSaves_pairwise (dir : Directory C) :
    (sortedSaves dir).Pairwise fun a b => b < a := by
  have hsorted := @List.pairwise_mergeSort _ (fun a b : String => decide (b ≤ a))
    (fun a b c hab hbc => by
      simp only [decide_eq_true_eq] at hab hbc ⊢
      exact hbc.trans hab)
    (fun a b => by simpa using le_total b a) ((dir.entries.filter isFullSave).map Entry.name)
  have hnodup : (sortedSaves dir).Nodup :=
    (List.mergeSort_perm _ _).nodup_iff.mpr
      (dir.distinct.sublist (List.filter_sublist.map Entry.name))
  exact (hsorted.and hnodup).imp fun h => lt_of_le_of_ne (by simpa using h.1) h.2.symm

/-- What `pruneFullSaveBackups` leaves, when no removal fails. -/
theorem pruneFullSaveBackups_entries {removal : Removal C} {dir : Directory C} {retention : ℕ}
    (h : (pruneFullSaveBackups removal dir retention).1 = none) :
    (pruneFullSaveBackups removal dir retention).2.entries =
      dir.entries.filter fun e => e.name ∉ (sortedSaves dir).drop retention := by
  have hids : ∀ id ∈ (sortedSaves dir).drop retention, validSaveID id ∧ Normal id := by
    intro id hid
    obtain ⟨e, he, hsave, rfl⟩ := mem_sortedSaves.mp (List.mem_of_mem_drop hid)
    simp only [isFullSave, Bool.and_eq_true] at hsave
    exact ⟨hsave.2, dir.normal e he⟩
  have hcode : pruneFullSaveBackups removal dir retention =
      if (sortedSaves dir).length ≤ retention then (none, dir)
      else removeEach removal ((sortedSaves dir).drop retention) dir := rfl
  rw [hcode] at h ⊢
  split_ifs at h ⊢ with hfew
  · rw [List.drop_eq_nil_of_le hfew]
    simp
  · exact removeEach_entries hids h

theorem pruneFullSaveBackups_ok {removal : Removal C} (hremoval : ∀ path, removal path = none)
    (dir : Directory C) (retention : ℕ) : (pruneFullSaveBackups removal dir retention).1 = none := by
  unfold pruneFullSaveBackups
  dsimp only
  split_ifs
  · rfl
  · exact removeEach_ok hremoval _ _

/-- Of the full saves as many stay as are asked for. -/
theorem countP_kept (dir : Directory C) (retention : ℕ) :
    (dir.entries.filter fun e => e.name ∉ (sortedSaves dir).drop retention).countP isFullSave =
      min retention (dir.entries.countP isFullSave) := by
  have hperm : (sortedSaves dir).Perm ((dir.entries.filter isFullSave).map Entry.name) :=
    List.mergeSort_perm _ _
  have hlength : (sortedSaves dir).length = dir.entries.countP isFullSave := by
    rw [hperm.length_eq, List.length_map, List.countP_eq_length_filter]
  have hnodup : (sortedSaves dir).Nodup := (sortedSaves_pairwise dir).imp fun h => h.ne'
  have hdisjoint := List.disjoint_take_drop hnodup (le_refl retention)
  -- the names that stay are the first ones of the sorted list
  have hfirst : (sortedSaves dir).filter (fun id => id ∉ (sortedSaves dir).drop retention) =
      (sortedSaves dir).take retention := by
    conv_lhs =>
      enter [2]
      rw [← List.take_append_drop retention (sortedSaves dir)]
    rw [List.filter_append, List.filter_eq_self.mpr fun id hid => by simpa using hdisjoint hid,
      List.filter_eq_nil_iff.mpr fun id hid => by simpa using hid, List.append_nil]
  calc (dir.entries.filter fun e => e.name ∉ (sortedSaves dir).drop retention).countP isFullSave
      = (((dir.entries.filter isFullSave).map Entry.name).filter
          (fun id => id ∉ (sortedSaves dir).drop retention)).length := by
        rw [List.filter_map, List.length_map, List.countP_eq_length_filter, List.filter_filter,
          List.filter_filter]
        simp only [Function.comp_def, Bool.and_comm]
    _ = ((sortedSaves dir).filter (fun id => id ∉ (sortedSaves dir).drop retention)).length :=
        (hperm.symm.filter _).length_eq
    _ = min retention (dir.entries.countP isFullSave) := by
        rw [hfirst, List.length_take, hlength]

/-- The backup of one name was made before that of another: the number in its name is smaller, and
where both are dates its moment is earlier. -/
def Older (a b : String) : Prop :=
  stampNumber a < stampNumber b ∧
    (RealStamp (stampNumber a) → RealStamp (stampNumber b) →
      stampMoment (stampNumber a) < stampMoment (stampNumber b))

/-- When no removal fails, the newest full saves stay, as many as are asked for or all that there
are, and so does everything that is no full save. -/
theorem pruneFullSaveBackups_keeps_newest (removal : Removal C) (dir : Directory C) (retention : ℕ)
    (h : (pruneFullSaveBackups removal dir retention).1 = none) :
    let kept := (pruneFullSaveBackups removal dir retention).2.entries
    kept.Sublist dir.entries ∧
      (∀ e ∈ dir.entries, ¬ isFullSave e → e ∈ kept) ∧
      kept.countP isFullSave = min retention (dir.entries.countP isFullSave) ∧
      ∀ e ∈ kept, isFullSave e → ∀ d ∈ dir.entries, isFullSave d → d ∉ kept →
        Older d.name e.name := by
  intro kept
  have hkept : kept = dir.entries.filter fun e => e.name ∉ (sortedSaves dir).drop retention :=
    pruneFullSaveBackups_entries h
  rw [hkept]
  refine ⟨List.filter_sublist, ?_, countP_kept dir retention, ?_⟩
  · intro e he hother
    refine List.mem_filter.mpr ⟨he, decide_eq_true fun hdrop => hother ?_⟩
    obtain ⟨d, hd, hsave, hname⟩ := mem_sortedSaves.mp (List.mem_of_mem_drop hdrop)
    rwa [← List.inj_on_of_nodup_map dir.distinct hd he hname]
  · intro e he hesave d hd hdsave hgone
    obtain ⟨he, hstay⟩ := List.mem_filter.mp he
    have hdrop : d.name ∈ (sortedSaves dir).drop retention := by
      by_contra hdrop
      exact hgone (List.mem_filter.mpr ⟨hd, decide_eq_true hdrop⟩)
    have htake : e.name ∈ (sortedSaves dir).take retention := by
      have hmem : e.name ∈ sortedSaves dir := mem_sortedSaves.mpr ⟨e, he, hesave, rfl⟩
      rw [← List.take_append_drop retention (sortedSaves dir)] at hmem
      exact (List.mem_append.mp hmem).resolve_right (of_decide_eq_true hstay)
    have hpairwise := sortedSaves_pairwise dir
    rw [← List.take_append_drop retention (sortedSaves dir)] at hpairwise
    have hlt := (name_lt_iff hdsave hesave).mp
      ((List.pairwise_append.mp hpairwise).2.2 _ htake _ hdrop)
    exact ⟨hlt, fun hd he => stampMoment_lt hd he hlt⟩

/-- Two full saves, a snapshot and a file. -/
def someSaves : Directory Unit where
  entries := [⟨"mastermind_2024-01-31_09-00-00", true, ()⟩, ⟨"mastermind_2024-02-01_00-00-00", true, ()⟩,
    ⟨"snap_2023-12-01_00-00-00", true, ()⟩, ⟨"mastermind_notes", false, ()⟩]
  normal := by
    simp only [List.mem_cons, List.not_mem_nil, or_false, forall_eq_or_imp, forall_eq, Path.Normal,
      Plain]
    decide
  distinct := by decide

theorem pruneFullSaveBackups_keeps_newest_one :
    let kept := (pruneFullSaveBackups (fun _ => none) someSaves 1).2.entries
    kept.Sublist someSaves.entries ∧
      (∀ e ∈ someSaves.entries, ¬ isFullSave e → e ∈ kept) ∧
      kept.countP isFullSave = min 1 (someSaves.entries.countP isFullSave) ∧
      ∀ e ∈ kept, isFullSave e → ∀ d ∈ someSaves.entries, isFullSave d → d ∉ kept →
        Older d.name e.name :=
  pruneFullSaveBackups_keeps_newest _ _ _ (pruneFullSaveBackups_ok (fun _ => rfl) _ _)

end Mastermind.Agent.Pruning
