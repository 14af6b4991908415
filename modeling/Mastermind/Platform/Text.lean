import Mathlib

/-!
# Strings as the two runtimes treat them

The control plane runs on JavaScript and the agent on Go. Both compare job types after a change of
letter case, by tables that come with the runtime. `CaseTables` is those tables with what the code
relies on: how they act on ASCII, and that upper-casing in JavaScript leaves no letter that Go
would still turn into an ASCII one. `trim` and `utf16Length` are `String.prototype.trim` and the
`length` of a JavaScript string.
-/

namespace Mastermind

/-- The case tables of the two runtimes: JavaScript maps a code point to a string, Go maps it to a
code point. JavaScript's rule for a final sigma, which looks at the neighbours, is left out: it
chooses between two letters outside ASCII. -/
structure CaseTables where
  jsUpper : Char → List Char
  jsLower : Char → List Char
  goUpper : Char → Char
  goLower : Char → Char
  jsUpper_ascii : ∀ c : Char, c.val < 128 → jsUpper c = [c.toUpper]
  jsLower_ascii : ∀ c : Char, c.val < 128 → jsLower c = [c.toLower]
  goUpper_ascii : ∀ c : Char, c.val < 128 → goUpper c = c.toUpper
  goLower_ascii : ∀ c : Char, c.val < 128 → goLower c = c.toLower
  /-- What JavaScript upper-cases, Go does not upper-case further into ASCII. -/
  jsUpper_goUpper : ∀ c, ∀ d ∈ jsUpper c, (goUpper d).val < 128 → goUpper d = d

/-- The text is ASCII. -/
def isAscii (s : String) : Bool := s.toList.all fun c => c.val < 128

theorem val_lt_of_isAscii {s : String} (h : isAscii s = true) : ∀ c ∈ s.toList, c.val < 128 :=
  fun c hc => of_decide_eq_true (List.all_eq_true.mp h c hc)

namespace CaseTables

variable (T : CaseTables)

/-- `s.toUpperCase()`. -/
def toUpperCase (s : String) : String := String.ofList (s.toList.flatMap T.jsUpper)

/-- `s.toLowerCase()`. -/
def toLowerCase (s : String) : String := String.ofList (s.toList.flatMap T.jsLower)

/-- `strings.ToUpper(s)`. -/
def goToUpper (s : String) : String := String.ofList (s.toList.map T.goUpper)

/-- `strings.ToLower(s)`. -/
def goToLower (s : String) : String := String.ofList (s.toList.map T.goLower)

/-- On ASCII, JavaScript's upper-casing is the ASCII one. -/
theorem toUpperCase_of_ascii {s : String} (hascii : isAscii s = true) :
    T.toUpperCase s = String.ofList (s.toList.map Char.toUpper) := by
  have hs := val_lt_of_isAscii hascii
  have hl : s.toList.flatMap T.jsUpper = s.toList.map Char.toUpper := by
    rw [← List.flatMap_singleton' (s.toList.map Char.toUpper), List.flatMap_map]
    exact List.flatMap_congr fun c hc => T.jsUpper_ascii c (hs c hc)
  rw [toUpperCase, hl]

/-- On ASCII, Go's upper-casing is the ASCII one. -/
theorem goToUpper_of_ascii {s : String} (hascii : isAscii s = true) :
    T.goToUpper s = String.ofList (s.toList.map Char.toUpper) := by
  have hs := val_lt_of_isAscii hascii
  rw [goToUpper, List.map_congr_left fun c hc => T.goUpper_ascii c (hs c hc)]

/-- A string that JavaScript upper-cased and that Go upper-cases to ASCII is that ASCII string. -/
theorem toUpperCase_eq_of_goToUpper {s p : String} (hp : ∀ c ∈ p.toList, c.val < 128)
    (h : T.goToUpper (T.toUpperCase s) = p) : T.toUpperCase s = p := by
  have hl : (s.toList.flatMap T.jsUpper).map T.goUpper = p.toList := by
    rw [← h, goToUpper, toUpperCase, String.toList_ofList, String.toList_ofList]
  have hfix : (s.toList.flatMap T.jsUpper).map T.goUpper = s.toList.flatMap T.jsUpper := by
    refine (List.map_congr_left fun d hd => ?_).trans (List.map_id _)
    obtain ⟨c, -, hc⟩ := List.mem_flatMap.mp hd
    have hascii : (T.goUpper d).val < 128 := hp _ (hl ▸ List.mem_map_of_mem hd)
    exact T.jsUpper_goUpper c d hc hascii
  rw [toUpperCase, ← hfix, hl, String.ofList_toList]

/-- Upper-casing keeps an ASCII letter in ASCII. -/
theorem toUpper_val_lt {c : Char} (h : c.val < 128) : c.toUpper.val < 128 := by
  simp only [Char.toUpper]
  split_ifs with hl
  · have h1 := UInt32.le_iff_toNat_le.mp hl.1
    have h2 := UInt32.le_iff_toNat_le.mp hl.2
    rw [UInt32.lt_iff_toNat_lt, UInt32.toNat_add]
    simp at h1 h2 ⊢
    omega
  · exact h

/-- The runtimes' tables on ASCII and on the letters outside it whose other case is in ASCII. -/
def western : CaseTables where
  jsUpper c :=
    if c.val < 128 then [c.toUpper]
    else if c = 'ß' then ['S', 'S']
    else if c = 'ı' then ['I']
    else if c = 'ſ' then ['S']
    else [c]
  jsLower c := if c.val < 128 then [c.toLower] else if c = 'K' then ['k'] else [c]
  goUpper c :=
    if c.val < 128 then c.toUpper else if c = 'ı' then 'I' else if c = 'ſ' then 'S' else c
  goLower c := if c.val < 128 then c.toLower else if c = 'K' then 'k' else c
  jsUpper_ascii c h := by rw [if_pos h]
  jsLower_ascii c h := by rw [if_pos h]
  goUpper_ascii c h := by rw [if_pos h]
  goLower_ascii c h := by rw [if_pos h]
  jsUpper_goUpper c d hd _ := by
    split_ifs at hd with h
    · rw [List.mem_singleton.mp hd, if_pos (toUpper_val_lt h), Char.toUpper_toUpper_eq_toUpper]
    · obtain rfl : d = 'S' := by simpa using hd
      rfl
    · rw [List.mem_singleton.mp hd]
      rfl
    · rw [List.mem_singleton.mp hd]
      rfl
    · rw [List.mem_singleton.mp hd, if_neg h]
      simp [*]

end CaseTables

/-- White space and line terminators, which `String.prototype.trim` strips. -/
def isJsSpace (c : Char) : Bool :=
  [9, 10, 11, 12, 13, 32, 0xA0, 0x1680, 0x2028, 0x2029, 0x202F, 0x205F, 0x3000, 0xFEFF].contains
    c.toNat || (0x2000 ≤ c.toNat && c.toNat ≤ 0x200A)

/-- White space, which `strings.TrimSpace` strips. -/
def isGoSpace (c : Char) : Bool :=
  [9, 10, 11, 12, 13, 32, 0x85, 0xA0, 0x1680, 0x2028, 0x2029, 0x202F, 0x205F, 0x3000].contains
    c.toNat || (0x2000 ≤ c.toNat && c.toNat ≤ 0x200A)

/-- A string without the characters in `space` at its two ends. -/
def stripBy (space : Char → Bool) (s : String) : String :=
  String.ofList (((s.toList.dropWhile space).reverse.dropWhile space).reverse)

/-- A text that begins with no white space keeps its beginning. -/
theorem dropWhile_of_head {space : Char → Bool} {l : List Char}
    (h : ∀ c, l.head? = some c → space c = false) : l.dropWhile space = l := by
  cases l with
  | nil => rfl
  | cons c l => rw [List.dropWhile_cons_of_neg (by simp [h c rfl])]

/-- A string with no white space at its ends is stripped of nothing. -/
theorem stripBy_of_ends {space : Char → Bool} {l : List Char}
    (hfirst : ∀ c, l.head? = some c → space c = false)
    (hlast : ∀ c, l.getLast? = some c → space c = false) :
    stripBy space (String.ofList l) = String.ofList l := by
  have hback : l.reverse.dropWhile space = l.reverse := by
    refine dropWhile_of_head fun c hc => hlast c ?_
    rwa [List.head?_reverse] at hc
  rw [stripBy, String.toList_ofList, dropWhile_of_head hfirst, hback, List.reverse_reverse]

/-- What is left of a string is part of it. -/
theorem mem_of_mem_stripBy {space : Char → Bool} {s : String} {c : Char}
    (h : c ∈ (stripBy space s).toList) : c ∈ s.toList := by
  rw [stripBy, String.toList_ofList, List.mem_reverse] at h
  have hfront := (List.dropWhile_sublist space).mem h
  exact (List.dropWhile_sublist space).mem (List.mem_reverse.mp hfront)

/-- Something is left of a string unless all of it is white space. -/
theorem stripBy_eq_empty_iff {space : Char → Bool} {s : String} :
    stripBy space s = "" ↔ ∀ c ∈ s.toList, space c = true := by
  rw [← String.toList_inj, stripBy, String.toList_ofList]
  simp only [String.toList_empty, List.reverse_eq_nil_iff, List.dropWhile_eq_nil_iff,
    List.mem_reverse]
  constructor
  · intro h c hc
    by_contra hspace
    -- the first character that is no space is still there
    have hrest : c ∈ s.toList.dropWhile space := by
      rw [← List.takeWhile_append_dropWhile (p := space) (l := s.toList)] at hc
      rcases List.mem_append.mp hc with hc | hc
      · exact absurd (List.mem_takeWhile_imp hc) hspace
      · exact hc
    exact hspace (h c hrest)
  · exact fun h c hc => h c ((List.dropWhile_sublist space).mem hc)

/-- `s.trim()`. -/
def trim (s : String) : String := stripBy isJsSpace s

/-- `strings.TrimSpace(s)`. -/
def goTrimSpace (s : String) : String := stripBy isGoSpace s

/-- `s.length`, in UTF-16 code units. -/
def utf16Length (s : String) : ℕ := (s.toList.map fun c => if c.toNat < 0x10000 then 1 else 2).sum

end Mastermind
