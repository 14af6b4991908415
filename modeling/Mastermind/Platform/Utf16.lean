import Mastermind.Platform.Regex
import Mastermind.Platform.Text
import Mathlib.Tactic.IntervalCases

/-!
# JavaScript strings in code units

The log parsers of the control plane work on JavaScript strings, whose letters are UTF-16 code
units. `Text` is such a string, with the operations that the parsers use and the character classes
of their patterns. A pattern with the flag `i` compares ASCII letters without their case; no unit
outside ASCII folds into it. `Text.decode` pairs the surrogates, and `Text.byteLength` counts the
bytes of the text in UTF-8. `Text.ofChars` makes the pairs.
-/

namespace Mastermind

/-- A JavaScript string. -/
abbrev Text := List UInt16

/-- Texts are compared by their code units. -/
instance : LawfulBEq Text := inferInstanceAs (LawfulBEq (List UInt16))

namespace Text

/-- The code unit of a letter of the basic plane. -/
def unit (c : Char) : UInt16 := UInt16.ofNat c.toNat

/-- A string literal of letters of the basic plane. -/
def of (s : String) : Text := s.toList.map unit

/-- `\s`. -/
def isSpace (u : UInt16) : Bool := isJsSpace (Char.ofNat u.toNat)

/-- `[0-9]` and `\d`. -/
def isDigit (u : UInt16) : Bool := 48 ≤ u.toNat && u.toNat ≤ 57

/-- An upper-case ASCII letter as the lower-case one, any other unit as it is. -/
def fold (u : UInt16) : UInt16 := if 65 ≤ u.toNat ∧ u.toNat ≤ 90 then u + 32 else u

/-- `[A-Za-z]`. -/
def isLetter (u : UInt16) : Bool := 97 ≤ (fold u).toNat && (fold u).toNat ≤ 122

/-- `[a-f0-9]` with the flag `i`. -/
def isHex (u : UInt16) : Bool := isDigit u || (97 ≤ (fold u).toNat && (fold u).toNat ≤ 102)

/-- `\w`. -/
def isWord (u : UInt16) : Bool := isDigit u || isLetter u || u = 95

/-- `.`, anything but a line terminator. -/
def isDot (u : UInt16) : Bool := u ≠ 10 && u ≠ 13 && u ≠ 0x2028 && u ≠ 0x2029

/-- Anything but the units of a literal. -/
def noneOf (s : String) (u : UInt16) : Bool := !(of s).contains u

/-- `s.trim()`. -/
def trim (s : Text) : Text := ((s.dropWhile isSpace).reverse.dropWhile isSpace).reverse

/-- `s.slice(-n)`, for a positive `n`. -/
def sliceLast (n : ℕ) (s : Text) : Text := s.drop (s.length - n)

/-- `s.split(/\r?\n/)`: the lines that a line end ends, and what follows the last one. -/
def splitLines : Text → List Text × Text
  | [] => ([], [])
  | u :: us =>
    let (lines, last) := splitLines us
    if u = 10 then ([] :: lines, last)
    else if u = 13 ∧ us.head? = some 10 then (lines, last)
    else
      match lines with
      | [] => ([], u :: last)
      | line :: lines => ((u :: line) :: lines, last)

/-- `Number(s)` of a string of digits. -/
def number (s : Text) : ℕ := s.foldl (fun n u => 10 * n + (u.toNat - 48)) 0

/-- A digit is not white space. -/
theorem isSpace_of_isDigit {u : UInt16} (h : isDigit u = true) : isSpace u = false := by
  simp only [isDigit, Bool.and_eq_true, decide_eq_true_eq] at h
  obtain ⟨h1, h2⟩ := h
  unfold isSpace
  interval_cases u.toNat <;> decide

/-- A text without white space at its ends keeps them. -/
theorem trim_of_ends {s : Text}
    (hs : ∀ u, s.head? = some u ∨ s.getLast? = some u → isSpace u = false) : s.trim = s := by
  have hkeep : ∀ t : Text, (∀ u, t.head? = some u → isSpace u = false) →
      t.dropWhile isSpace = t := by
    intro t ht
    cases t with
    | nil => rfl
    | cons u us => rw [List.dropWhile_cons_of_neg (by simp [ht u rfl])]
  unfold trim
  rw [hkeep s fun u hu => hs u (.inl hu),
    hkeep s.reverse fun u hu => hs u (.inr (by simpa using hu)), List.reverse_reverse]

end Text

namespace Regex

/-- A literal. -/
def lit (s : String) : Regex UInt16 := all ((Text.of s).map fun u => one fun v => v = u)

/-- A literal with the flag `i`. -/
def liti (s : String) : Regex UInt16 :=
  all ((Text.of s).map fun u => one fun v => Text.fold v = Text.fold u)

/-- `\b`. -/
def wordEdge : Regex UInt16 := boundary Text.isWord

/-- `\s*`. -/
def spaces : Regex UInt16 := many Text.isSpace 0 none

/-- `\d+`. -/
def digits : Regex UInt16 := many Text.isDigit 1 none

/-- A literal takes itself. -/
theorem takes_lit {s : String} {x : Text} {c : List Text} :
    Takes (lit s) (Text.of s ++ x) x c c := by
  unfold lit
  induction Text.of s with
  | nil => exact .empty
  | cons u w ih => exact .seq (.one (by simp)) ih

/-- A literal with the flag `i` takes itself. -/
theorem takes_liti {s : String} {x : Text} {c : List Text} :
    Takes (liti s) (Text.of s ++ x) x c c := by
  unfold liti
  induction Text.of s with
  | nil => exact .empty
  | cons u w ih => exact .seq (.one (by simp)) ih

end Regex

namespace Text

/-- The first unit of a surrogate pair. -/
def isHigh (u : UInt16) : Bool := 0xd800 ≤ u.toNat && u.toNat < 0xdc00

/-- The second unit of a surrogate pair. -/
def isLow (u : UInt16) : Bool := 0xdc00 ≤ u.toNat && u.toNat < 0xe000

/-- The character of a unit; U+FFFD for half of a pair. -/
def charOf (u : UInt16) : Char := if isHigh u || isLow u then Char.ofNat 0xfffd else Char.ofNat u.toNat

/-- The character of a surrogate pair. -/
def pairOf (u v : UInt16) : Char :=
  Char.ofNat (0x10000 + (u.toNat - 0xd800) * 0x400 + (v.toNat - 0xdc00))

/-- The characters of a string, as they are encoded in UTF-8. -/
def decode : Text → List Char
  | [] => []
  | [u] => [charOf u]
  | u :: v :: us =>
    if isHigh u && isLow v then pairOf u v :: decode us else charOf u :: decode (v :: us)

/-- The bytes of a string in UTF-8. -/
def byteLength (s : Text) : ℕ := (String.ofList (decode s)).utf8ByteSize

theorem decode_cons_cons (u v : UInt16) (us : Text) : decode (u :: v :: us) =
    if isHigh u && isLow v then pairOf u v :: decode us else charOf u :: decode (v :: us) := by
  rw [decode]

/-- A unit that is not half of a pair ends what is before it. -/
theorem decode_append {u : UInt16} (hu : isHigh u = false ∧ isLow u = false) (a b : Text) :
    decode (a ++ u :: b) = decode a ++ charOf u :: decode b := by
  have hhead : ∀ b : Text, decode (u :: b) = charOf u :: decode b := by
    intro b
    cases b with
    | nil => rfl
    | cons v b => rw [decode_cons_cons, hu.1, Bool.false_and, if_neg Bool.false_ne_true]
  induction a using decode.induct with
  | case1 => exact hhead b
  | case2 v =>
    rw [List.cons_append, List.nil_append, decode_cons_cons, hu.2, Bool.and_false,
      if_neg Bool.false_ne_true, hhead]
    rfl
  | case3 v w us hpair ih =>
    rw [List.cons_append, List.cons_append, decode_cons_cons, if_pos hpair, decode_cons_cons,
      if_pos hpair, ih]
    rfl
  | case4 v w us hpair ih =>
    rw [List.cons_append] at ih
    rw [List.cons_append, List.cons_append, decode_cons_cons, if_neg hpair, decode_cons_cons,
      if_neg hpair, ih]
    rfl

/-- ASCII is no half of a pair. -/
theorem not_half_of_ascii {u : UInt16} (hu : u.toNat < 128) : isHigh u = false ∧ isLow u = false := by
  simp only [isHigh, isLow, Bool.and_eq_false_iff, decide_eq_false_iff_not]
  omega

/-- The character of an ASCII unit. -/
theorem charOf_ascii {u : UInt16} (hu : u.toNat < 128) : charOf u = Char.ofNat u.toNat := by
  obtain ⟨hhigh, hlow⟩ := not_half_of_ascii hu
  rw [charOf, hhigh, hlow]
  rfl

theorem toNat_charOf_ascii {u : UInt16} (hu : u.toNat < 128) : (charOf u).toNat = u.toNat := by
  rw [charOf_ascii hu, Char.toNat_ofNat, if_pos (.inl (by omega))]

/-- ASCII is decoded unit by unit. -/
theorem decode_ascii_append {w : Text} (hw : ∀ u ∈ w, u.toNat < 128) (b : Text) :
    decode (w ++ b) = w.map charOf ++ decode b := by
  induction w with
  | nil => rfl
  | cons u w ih =>
    obtain ⟨hu, hrest⟩ := List.forall_mem_cons.mp hw
    rw [List.cons_append, ← List.nil_append (u :: (w ++ b)),
      decode_append (not_half_of_ascii hu), ih hrest]
    rfl

/-- ASCII ends what is before it. -/
theorem decode_append_ascii {w : Text} (hw : ∀ u ∈ w, u.toNat < 128) (hne : w ≠ []) (a b : Text) :
    decode (a ++ (w ++ b)) = decode a ++ (w.map charOf ++ decode b) := by
  obtain ⟨u, w, rfl⟩ := List.exists_cons_of_ne_nil hne
  obtain ⟨hu, hrest⟩ := List.forall_mem_cons.mp hw
  rw [List.cons_append, decode_append (not_half_of_ascii hu), decode_ascii_append hrest]
  rfl

/-- The bytes of ASCII and of what follows it. -/
theorem utf8ByteSize_map_charOf {w : Text} (hw : ∀ u ∈ w, u.toNat < 128) (l : List Char) :
    (String.ofList (w.map charOf ++ l)).utf8ByteSize = w.length + (String.ofList l).utf8ByteSize := by
  induction w with
  | nil => simp
  | cons u w ih =>
    obtain ⟨hu, hrest⟩ := List.forall_mem_cons.mp hw
    have hsize : (charOf u).utf8Size = 1 := by
      rw [Char.utf8Size_eq_one_iff, UInt32.le_iff_toNat_le]
      have hval : (charOf u).val.toNat = u.toNat := toNat_charOf_ascii hu
      have hbound : (127 : UInt32).toNat = 127 := rfl
      omega
    rw [List.map_cons, List.cons_append, String.ofList_cons, String.utf8ByteSize_append,
      String.utf8ByteSize_singleton, hsize, ih hrest, List.length_cons]
    omega

/-- The bytes of a text that begins with ASCII. -/
theorem byteLength_ascii_append {w : Text} (hw : ∀ u ∈ w, u.toNat < 128) (b : Text) :
    byteLength (w ++ b) = w.length + byteLength b := by
  rw [byteLength, decode_ascii_append hw, utf8ByteSize_map_charOf hw]
  rfl

/-- The bytes of a text that ASCII cuts. -/
theorem byteLength_append_ascii {w : Text} (hw : ∀ u ∈ w, u.toNat < 128) (hne : w ≠ [])
    (a b : Text) : byteLength (a ++ (w ++ b)) = byteLength a + (w.length + byteLength b) := by
  rw [byteLength, decode_append_ascii hw hne, String.ofList_append, String.utf8ByteSize_append,
    utf8ByteSize_map_charOf hw]
  rfl

/-- An ASCII character of a text stands in it as a unit. -/
theorem mem_of_mem_decode {s : Text} {c : Char} (h : c ∈ decode s) (hc : c.toNat < 128) :
    ∃ u ∈ s, u.toNat = c.toNat := by
  have hunit : ∀ u : UInt16, c = charOf u → u.toNat = c.toNat := by
    rintro u rfl
    unfold charOf at hc ⊢
    split_ifs at hc ⊢ with hhalf
    · have hvalue : (Char.ofNat 0xfffd).toNat = 65533 := by decide +kernel
      omega
    · have hvalid : u.toNat.isValidChar := by
        have := u.toNat_lt
        simp only [isHigh, isLow, Bool.or_eq_true, Bool.and_eq_true, decide_eq_true_eq] at hhalf
        simp only [Nat.isValidChar]
        omega
      rw [Char.toNat_ofNat, if_pos hvalid]
  induction s using decode.induct with
  | case1 => exact absurd h List.not_mem_nil
  | case2 u => exact ⟨u, List.mem_singleton_self u, hunit u (List.mem_singleton.mp h)⟩
  | case3 u v us hpair ih =>
    rw [decode_cons_cons, if_pos hpair] at h
    rcases List.mem_cons.mp h with hc' | h
    · -- the characters of pairs come after all others
      simp only [isHigh, isLow, Bool.and_eq_true, decide_eq_true_eq] at hpair
      have hvalid : (0x10000 + (u.toNat - 0xd800) * 0x400 + (v.toNat - 0xdc00)).isValidChar := by
        simp only [Nat.isValidChar]
        omega
      rw [hc', pairOf, Char.toNat_ofNat, if_pos hvalid] at hc
      omega
    · obtain ⟨w, hw, hwc⟩ := ih h
      exact ⟨w, List.mem_cons_of_mem u (List.mem_cons_of_mem v hw), hwc⟩
  | case4 u v us hpair ih =>
    rw [decode_cons_cons, if_neg hpair] at h
    rcases List.mem_cons.mp h with h | h
    · exact ⟨u, List.mem_cons_self, hunit u h⟩
    · obtain ⟨w, hw, hwc⟩ := ih h
      exact ⟨w, List.mem_cons_of_mem u hw, hwc⟩

/-! ## Encoding -/

/-- The code units of a character. -/
def unitsOf (c : Char) : Text :=
  if c.toNat < 0x10000 then [unit c]
  else [UInt16.ofNat (0xd800 + (c.toNat - 0x10000) / 0x400),
    UInt16.ofNat (0xdc00 + (c.toNat - 0x10000) % 0x400)]

/-- The string of a list of characters. -/
def ofChars (cs : List Char) : Text := cs.flatMap unitsOf

/-- A character has at most as many code units as bytes. -/
theorem length_unitsOf_le (c : Char) : (unitsOf c).length ≤ c.utf8Size := by
  have hpos := c.utf8Size_pos
  unfold unitsOf
  split_ifs with hplane
  · exact hpos
  · have hfour : c.utf8Size = 4 := by
      have hval : c.val.toNat = c.toNat := rfl
      have hbound : (0xffff : UInt32).toNat = 65535 := rfl
      rw [Char.utf8Size_eq_four_iff, UInt32.lt_iff_toNat_lt]
      omega
    rw [hfour]
    exact (by decide : 2 ≤ 4)

end Text

end Mastermind
