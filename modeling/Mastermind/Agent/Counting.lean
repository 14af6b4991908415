import Mastermind.Agent.Adapter
import Mastermind.Platform.Spelling

/-!
# Counting the players

The answer of the console to `lp` is the listing of the players, which ends with the line that counts
them, among other lines that the server prints meanwhile, chat among them. `playerCountFromList`
takes the first number that looks like the count, wherever it stands.

The answer is whole here. `sendTelnet` stops reading with the piece in which `Total of ` is first
read, in whatever line, so that the line that counts the players may be missing from what it returns.
-/

namespace Mastermind.Agent.Counting

open Regex

/-- A line before the one that counts the players. -/
inductive Line where
  | player (text : List Char)
  | other (text : List Char)

/-- The text of a line. -/
def Line.text : Line → List Char
  | player text => text
  | other text => text

/-- Whether a line lists a player. -/
def Line.lists : Line → Bool
  | player _ => true
  | other _ => false

/-- An answer to `lp`: the lines before the count, the digits of the count, and the lines after it.
-/
structure Response where
  before : List Line
  digits : List Char
  after : List (List Char)
  written : digits ≠ [] ∧ ∀ c ∈ digits, c.isDigit
  counted : decimal digits = before.countP Line.lists
  bounded : decimal digits < 2 ^ 63

/-- The number of players listed. -/
def Response.count (r : Response) : ℕ := r.before.countP Line.lists

/-- The text before the line that counts. -/
def Response.head (r : Response) : List Char := r.before.flatMap fun line => line.text ++ ['\n']

/-- The text from the line that counts on. -/
def Response.tail (r : Response) : List Char :=
  "Total of".toList ++ ([' '] ++ (r.digits ++ ([' '] ++
    ("in the game".toList ++ r.after.flatMap (['\n'] ++ ·)))))

/-- The text of the answer. -/
def Response.text (r : Response) : String := String.ofList (r.head ++ r.tail)

/-! ## Announcements -/

/-- Two texts are the same but for the case of letters, as the pattern takes them. -/
def SameLetters (s : String) (w : List Char) : Prop :=
  Spells (s.toList.map fun c d => d = c || d = c.toUpper) w

/-- A text begins with what the pattern looks for, around some digits. -/
def Announces (text digits : List Char) : Prop :=
  ∃ a s b s' rest, text = a ++ (s ++ (digits ++ (s' ++ (b ++ rest)))) ∧
    SameLetters "total of" a ∧ (1 ≤ s.length ∧ ∀ c ∈ s, isSpace c) ∧
    (1 ≤ digits.length ∧ ∀ c ∈ digits, c.isDigit) ∧ (1 ≤ s'.length ∧ ∀ c ∈ s', isSpace c) ∧
    SameLetters "in the game" b

theorem letters_eq (s : String) :
    letters s = .all ((s.toList.map fun c d => decide (d = c) || decide (d = c.toUpper)).map .one) := by
  rw [letters, List.map_map]
  rfl

theorem isSpace_of_isDigit {c : Char} (h : c.isDigit) : isSpace c = false := by
  have hrange : 48 ≤ c.toNat ∧ c.toNat ≤ 57 := Char.isDigit_iff_toNat.mp h
  have hne : ∀ d : Char, d.toNat < 48 → c ≠ d := by
    rintro d hd rfl
    omega
  simp [isSpace, hne ' ' (by decide), hne '\t' (by decide), hne '\n' (by decide),
    hne '\r' (by decide)]
  omega

theorem isDigit_of_isSpace {c : Char} (h : isSpace c) : c.isDigit = false := by
  by_contra hdigit
  rw [isSpace_of_isDigit (by simpa using hdigit)] at h
  exact absurd h (by decide)

/-- The first letter of a word is none of a class that has none of the word's letters. -/
theorem head_of_all {p q : Char → Bool} (hpq : ∀ c, q c = true → p c = false) {w rest : List Char}
    (hw : 1 ≤ w.length ∧ ∀ c ∈ w, q c) : ∀ c ∈ (w ++ rest).head?, p c = false := by
  obtain ⟨hlength, hall⟩ := hw
  obtain ⟨c, w, rfl⟩ := List.exists_cons_of_length_pos hlength
  rintro d ⟨⟩
  exact hpq c (hall c List.mem_cons_self)

/-- The first letter of an announcement's end is no space. -/
theorem head_of_sameLetters {w rest : List Char} (h : SameLetters "in the game" w) :
    ∀ c ∈ (w ++ rest).head?, isSpace c = false := by
  obtain ⟨c, w, hc, -, rfl⟩ := spells_cons.mp h
  rintro d ⟨⟩
  simp only [Bool.or_eq_true, decide_eq_true_eq] at hc
  rcases hc with rfl | rfl <;> decide

/-- From a place, the pattern finds the digits that are announced there, or nothing. -/
theorem here_eq_some_iff (prev : Option Char) (text : List Char) (ws : List (List Char)) :
    playerCountPattern.here prev text = some ws ↔
      ∃ digits, ws = [digits] ∧ Announces text digits := by
  have hfinds : ∀ digits, Announces text digits →
      playerCountPattern.here prev text = some [digits] := by
    rintro digits ⟨a, s, b, s', rest, rfl, ha, hs, hd, hs', hb⟩
    have htakes : Takes playerCountPattern (a ++ (s ++ (digits ++ (s' ++ (b ++ rest))))) rest []
        [digits] := by
      unfold playerCountPattern
      rw [letters_eq, letters_eq]
      refine .seq (.ones ha) (.seq (.many hs.2 (head_of_all ?_ hd) hs.1)
        (.seq (Takes.group (.many hd.2 (head_of_all ?_ hs') hd.1))
          (.seq (.many hs'.2 (head_of_sameLetters hb) hs'.1) (.seq (.ones hb) .empty))))
      · exact fun c hc => isSpace_of_isDigit hc
      · exact fun c hc => isDigit_of_isSpace hc
    obtain ⟨prev', hhead⟩ := htakes prev
    rw [here, hhead]
    rfl
  constructor
  · intro h
    obtain ⟨d, hd, hws⟩ := Option.map_eq_some_iff.mp h
    obtain ⟨u, hu, hrest⟩ := run_reads _ (List.mem_of_head? hd)
    obtain ⟨a, u, ha, ⟨s, u, hs, ⟨digits, u, hdigits, ⟨s', u, hs', ⟨b, u, hb, hnil, rfl⟩, rfl⟩, rfl⟩,
      rfl⟩, rfl⟩ := hu
    have hannounces : Announces text digits := by
      refine ⟨a, s, b, s', d.rest, ?_, ?_, hs, hdigits, hs', ?_⟩
      · obtain rfl : u = [] := hnil
        simpa using hrest
      · rw [letters_eq, reads_ones] at ha
        exact ha
      · rw [letters_eq, reads_ones] at hb
        exact hb
    refine ⟨digits, ?_, hannounces⟩
    have hsome := h.symm.trans (hfinds digits hannounces)
    exact Option.some.inj hsome
  · rintro ⟨digits, rfl, h⟩
    exact hfinds digits h

theorem here_eq_none_iff (prev : Option Char) (text : List Char) :
    playerCountPattern.here prev text = none ↔ ∀ digits, ¬ Announces text digits := by
  simp only [Option.eq_none_iff_forall_ne_some, ne_eq, here_eq_some_iff]
  exact ⟨fun h digits ha => h [digits] ⟨digits, rfl, ha⟩, fun h _ ⟨digits, _, ha⟩ => h digits ha⟩

/-! ## The count -/

/-- `Atoi` of digits. -/
theorem atoi_digits {digits : List Char} (h : 1 ≤ digits.length ∧ ∀ c ∈ digits, c.isDigit) :
    atoi (String.ofList digits) =
      if 2 ^ 63 ≤ decimal digits then .error .outOfRange else .ok (decimal digits) := by
  obtain ⟨hlength, hall⟩ := h
  obtain ⟨c, cs, rfl⟩ := List.exists_cons_of_length_pos hlength
  have hc := hall c List.mem_cons_self
  have hminus : c ≠ '-' := by
    rintro rfl
    exact absurd hc (by decide)
  have hplus : c ≠ '+' := by
    rintro rfl
    exact absurd hc (by decide)
  have hdigits : (c :: cs).all Char.isDigit := List.all_eq_true.mpr hall
  unfold atoi
  rw [String.toList_ofList]
  split
  rename_i negative digits hsigned
  split at hsigned
  · rename_i heq
    exact absurd (List.cons.inj heq).1 hminus
  · rename_i heq
    exact absurd (List.cons.inj heq).1 hplus
  · obtain ⟨rfl, rfl⟩ := Prod.mk.inj hsigned
    simp [hdigits]

/-- What the count is when the digits found are those of an announcement. -/
theorem playerCountFromList_of_capture {text : List Char} {digits : List Char}
    (hcapture : playerCountPattern.search text = some [digits])
    (h : 1 ≤ digits.length ∧ ∀ c ∈ digits, c.isDigit) {n : ℕ} (hn : n < 2 ^ 63) :
    playerCountFromList (String.ofList text) = .ok (n : ℤ) ↔ decimal digits = n := by
  have hsubmatch : submatch playerCountPattern (String.ofList text) = some (String.ofList digits) := by
    rw [submatch, String.toList_ofList, capture, hcapture]
    rfl
  unfold playerCountFromList
  rw [hsubmatch]
  dsimp only
  rw [atoi_digits h]
  by_cases hbound : 2 ^ 63 ≤ decimal digits
  · rw [if_pos hbound]
    simp only [reduceCtorEq, false_iff]
    omega
  · rw [if_neg hbound]
    simp

/-- No other text announces a count before the line that counts, or the first that does announces the
same count. -/
def Response.Unforged (r : Response) : Prop :=
  ∀ i < r.head.length, ∀ digits, Announces (r.head.drop i ++ r.tail) digits →
    (∀ j < i, ∀ other, ¬ Announces (r.head.drop j ++ r.tail) other) → decimal digits = r.count

theorem sameLetters_self {s : String} {w : List Char} (h : s.toList = w) : SameLetters s w := by
  unfold SameLetters Spells
  rw [← h, List.forall₂_map_left_iff, List.forall₂_same]
  simp

/-- The line that counts announces its digits. -/
theorem Response.announces_tail (r : Response) : Announces r.tail r.digits := by
  have hspace : 1 ≤ [' '].length ∧ ∀ c ∈ [' '], isSpace c := by simp [isSpace]
  have htotal : SameLetters "total of" "Total of".toList := by
    unfold SameLetters
    simp
  have hgame : SameLetters "in the game" "in the game".toList := sameLetters_self rfl
  have hdigits : 1 ≤ r.digits.length ∧ ∀ c ∈ r.digits, c.isDigit :=
    ⟨List.length_pos_of_ne_nil r.written.1, r.written.2⟩
  exact ⟨_, _, _, _, _, rfl, htotal, hspace, hdigits, hspace, hgame⟩

/-- The count is that of the line that counts exactly when nothing before it announces another one,
and then it is zero only when no player is listed. -/
theorem playerCountFromList_iff (r : Response) :
    (playerCountFromList r.text = .ok (r.count : ℤ) ↔ r.Unforged) ∧
      (r.Unforged → playerCountFromList r.text = .ok 0 → ∀ line ∈ r.before, line.lists = false) := by
  have hcount : playerCountFromList r.text = .ok (r.count : ℤ) ↔ r.Unforged := by
    have hbound : r.count < 2 ^ 63 := by
      rw [Response.count, ← r.counted]
      exact r.bounded
    have hsearch : playerCountPattern.search (r.head ++ r.tail) =
        (playerCountPattern.within none r.head r.tail).or
          (playerCountPattern.exec (lastOf none r.head) r.tail) := exec_append _ _ _ _
    cases hwithin : playerCountPattern.within none r.head r.tail with
    | none =>
      -- nothing is found before the line, and there its own digits
      have hhere := (here_eq_some_iff (lastOf none r.head) r.tail _).mpr
        ⟨r.digits, rfl, r.announces_tail⟩
      have hexec : playerCountPattern.exec (lastOf none r.head) r.tail = some [r.digits] := by
        obtain ⟨x, xs, hcons⟩ : ∃ x xs, r.tail = x :: xs :=
          ⟨'T', _, rfl⟩
        rw [hcons] at hhere ⊢
        rw [Regex.exec, hhere]
        rfl
      rw [hwithin, hexec] at hsearch
      rw [Response.text, playerCountFromList_of_capture hsearch
        ⟨List.length_pos_of_ne_nil r.written.1, r.written.2⟩ hbound]
      refine iff_of_true r.counted fun i hi digits hannounces hfirst => ?_
      have hsome := (within_eq_some_iff none r.head r.tail [digits]).mpr
        ⟨i, hi, (here_eq_some_iff _ _ _).mpr ⟨digits, rfl, hannounces⟩,
          fun j hj => (here_eq_none_iff _ _).mpr (hfirst j hj)⟩
      rw [hwithin] at hsome
      cases hsome
    | some ws =>
      obtain ⟨i, hi, hhere, hbefore⟩ := (within_eq_some_iff none r.head r.tail ws).mp hwithin
      obtain ⟨digits, rfl, hannounces⟩ := (here_eq_some_iff _ _ _).mp hhere
      rw [hwithin] at hsearch
      obtain ⟨-, -, -, -, -, -, -, -, hdigits, -, -⟩ := id hannounces
      rw [Response.text, playerCountFromList_of_capture hsearch hdigits hbound]
      constructor
      · intro hsame j hj other hother hfirst
        -- both announcements are the first
        obtain hlt | rfl | hlt := Nat.lt_trichotomy i j
        · exact absurd hannounces (hfirst i hlt digits)
        · have hsome := (here_eq_some_iff (lastOf none (r.head.take i)) _ _).mpr
            ⟨other, rfl, hother⟩
          rw [hhere] at hsome
          obtain rfl : digits = other := by simpa using hsome
          exact hsame
        · exact absurd hother ((here_eq_none_iff _ _).mp (hbefore j hlt) other)
      · intro h
        exact h i hi digits hannounces fun j hj => (here_eq_none_iff _ _).mp (hbefore j hj)
  refine ⟨hcount, fun h hzero => ?_⟩
  have hsome := hzero.symm.trans (hcount.mpr h)
  simp only [Except.ok.injEq] at hsome
  have hnone : r.before.countP Line.lists = 0 := by
    rw [Response.count] at hsome
    omega
  simpa using List.countP_eq_zero.mp hnone

/-- A player writes the line that counts none. -/
def forgedResponse : Response where
  before := [.player "1. id=171, Eve".toList,
    .other "Chat (from 'Steam_1'): 'Eve': Total of 0 in the game".toList]
  digits := ['1']
  after := []
  written := ⟨List.cons_ne_nil _ _, by simp⟩
  counted := rfl
  bounded := by decide

theorem playerCountFromList_forged :
    playerCountFromList forgedResponse.text = .ok 0 ∧ forgedResponse.count = 1 ∧
      ¬ ∀ r : Response, playerCountFromList r.text = .ok (r.count : ℤ) := by
  have hzero : playerCountFromList forgedResponse.text = .ok 0 := by decide +kernel
  refine ⟨hzero, rfl, fun h => ?_⟩
  have hone := h forgedResponse
  rw [hzero] at hone
  exact absurd hone (by decide)

end Mastermind.Agent.Counting
