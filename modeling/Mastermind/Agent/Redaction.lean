import Mastermind.Platform.Spelling

/-!
# Redacted error texts

`internal/client/http.go`: the body of a failed response goes into the text of an error, at most 4 KiB
of it, in one line, and with what looks like a credential redacted by regular expressions. The
expressions work on the text: they know a string of a JSON document by its quotes, and take an escaped
quote for the end of it.

A document is redacted token by token (`closed_tokens`). Texts that differ only in values of secret
members, and there only before the first escaped quote, are redacted alike, also where they are cut and
trimmed (`pair_trimRight`, `Pair.redact_eq`).
-/

namespace Mastermind.Agent.Redaction

open Mastermind.Regex

/-- The bytes of a text of ASCII characters. -/
def ascii (s : String) : List UInt8 := s.toList.map fun c => UInt8.ofNat c.toNat

/-! ## The expressions -/

/-- The lower case of an ASCII letter. -/
def toLower (b : UInt8) : UInt8 := if 65 ≤ b ∧ b ≤ 90 then b + 32 else b

/-- `\s`. -/
def isSpace (b : UInt8) : Bool := [9, 10, 12, 13, 32].contains b

/-- `\w`. -/
def isWord (b : UInt8) : Bool :=
  (48 ≤ b && b ≤ 57) || (65 ≤ b && b ≤ 90) || (97 ≤ b && b ≤ 122) || b = 95

/-- A letter in any case. The Kelvin sign folds to `k`, and the long s to `s`. -/
def fold (x : UInt8) : Regex UInt8 :=
  if x = 107 then alt (one fun b => toLower b = x) (all [one (· = 0xE2), one (· = 0x84), one (· = 0xAA)])
  else if x = 115 then alt (one fun b => toLower b = x) (all [one (· = 0xC5), one (· = 0xBF)])
  else one fun b => toLower b = x

/-- A lower-case word in any case. -/
def word (w : List UInt8) : Regex UInt8 := all (w.map fold)

/-- `agentKey|token|password|authorization`. -/
def names : Regex UInt8 :=
  alt (word (ascii "agentkey")) (alt (word (ascii "token"))
    (alt (word (ascii "password")) (word (ascii "authorization"))))

/-- `"(?:agentKey|token|password|authorization)"\s*:\s*"`. -/
def opening : Regex UInt8 :=
  all [one (· = 34), names, one (· = 34), many isSpace 0 none, one (· = 58), many isSpace 0 none,
    one (· = 34)]

/-- `jsonSecretPattern`. -/
def jsonSecretPattern : Regex UInt8 :=
  seq (group opening) (seq (many (· ≠ 34) 0 none) (group (one (· = 34))))

/-- `truncatedSecretPattern`. -/
def truncatedSecretPattern : Regex UInt8 :=
  seq (group opening) (seq (many (· ≠ 34) 0 none) finish)

/-- `bearerPattern`. -/
def bearerPattern : Regex UInt8 :=
  all [boundary isWord, word (ascii "bearer"), many isSpace 1 none,
    many (fun b => !(isSpace b || b = 44 || b = 59)) 1 none]

/-! ## Replacing -/

/-- `ReplaceAllString` for an expression that never matches the empty text: the letters that a match
has taken are passed over. -/
def replaceFrom (r : Regex UInt8) (f : List (List UInt8) → List UInt8) :
    ℕ → Option UInt8 → List UInt8 → List UInt8
  | _, _, [] => []
  -- a letter of the last match
  | k + 1, _, x :: xs => replaceFrom r f k (some x) xs
  | 0, prev, x :: xs =>
    match (r.run ⟨prev, x :: xs, []⟩).head? with
    | some d => f d.caps ++ replaceFrom r f (xs.length - d.rest.length) (some x) xs
    | none => x :: replaceFrom r f 0 (some x) xs

/-- `ReplaceAllString`. -/
def replaceAll (r : Regex UInt8) (f : List (List UInt8) → List UInt8) (text : List UInt8) :
    List UInt8 :=
  replaceFrom r f 0 none text

/-- `[REDACTED]`. -/
def redacted : List UInt8 := ascii "[REDACTED]"

/-- The two groups with the redaction between them. -/
def between (caps : List (List UInt8)) : List UInt8 := caps.getD 0 [] ++ redacted ++ caps.getD 1 []

/-- The group with the redaction behind it. -/
def behind (caps : List (List UInt8)) : List UInt8 := caps.getD 0 [] ++ redacted

/-- The three redactions, one after the other. -/
def redact (detail : List UInt8) : List UInt8 :=
  replaceAll bearerPattern (fun _ => ascii "Bearer " ++ redacted)
    (replaceAll truncatedSecretPattern behind (replaceAll jsonSecretPattern between detail))

/-! ## The error -/

/-- The encoding of a character that is white space. -/
def isSpaceChar : List UInt8 → Bool
  | [a] => (9 ≤ a && a ≤ 13) || a = 32
  -- U+0085 and U+00A0
  | [a, b] => a = 0xC2 && (b = 0x85 || b = 0xA0)
  -- U+1680, U+2000 to U+200A, U+2028, U+2029, U+202F, U+205F and U+3000
  | [a, b, c] =>
    (a = 0xE1 && b = 0x9A && c = 0x80) ||
    (a = 0xE2 && b = 0x80 && ((0x80 ≤ c && c ≤ 0x8A) || c = 0xA8 || c = 0xA9 || c = 0xAF)) ||
    (a = 0xE2 && b = 0x81 && c = 0x9F) ||
    (a = 0xE3 && b = 0x80 && c = 0x80)
  | _ => false

/-- How many bytes the character of a kind takes with which a text begins. -/
def charLength (isChar : List UInt8 → Bool) (text : List UInt8) : ℕ :=
  if isChar (text.take 1) then 1
  else if isChar (text.take 2) then 2
  else if isChar (text.take 3) then 3
  else 0

/-- A text without the characters of a kind with which it begins, at most so many. -/
def stripStart (isChar : List UInt8 → Bool) : ℕ → List UInt8 → List UInt8
  | 0, text => text
  | n + 1, text =>
    if charLength isChar text = 0 then text
    else stripStart isChar n (text.drop (charLength isChar text))

/-- The white space at the end of a text is stripped. -/
def trimRight (text : List UInt8) : List UInt8 :=
  (stripStart (fun c => isSpaceChar c.reverse) text.length text.reverse).reverse

/-- `strings.TrimSpace`. -/
def trimSpace (text : List UInt8) : List UInt8 :=
  trimRight (stripStart isSpaceChar text.length text)

/-- `strings.NewReplacer("\r", " ", "\n", " ")`. -/
def singleLine (b : UInt8) : UInt8 := if b = 13 ∨ b = 10 then 32 else b

/-- `maxErrorBodyBytes`. -/
def maxErrorBodyBytes : ℕ := 4 * 1024

/-- `responseError`. -/
def responseError (operation status body : List UInt8) : List UInt8 :=
  -- one byte more than is kept tells whether the body is longer
  let content := body.take (maxErrorBodyBytes + 1)
  let truncated : Bool := maxErrorBodyBytes < content.length
  let content := if truncated then content.take maxErrorBodyBytes else content
  let detail := trimSpace content
  if detail = [] then operation ++ ascii ": " ++ status
  else
    let detail := redact (detail.map singleLine)
    operation ++ ascii ": " ++ status ++ ascii ": " ++
      if truncated then detail ++ [0xE2, 0x80, 0xA6] else detail

/-! ## Matches -/

/-- The expression has no groups, no places, and no bound on a repeat. -/
def Flat : Regex UInt8 → Prop
  | empty => True
  | one _ => True
  | many _ _ most => most = none
  | seq a b => Flat a ∧ Flat b
  | alt a b => Flat a ∧ Flat b
  | _ => False

theorem caps_of_flat {r : Regex UInt8} (hr : Flat r) {c d : Cursor UInt8} (h : d ∈ r.run c) :
    d.caps = c.caps := by
  induction r generalizing c d with
  | empty =>
    rw [run, List.mem_singleton] at h
    rw [h]
  | one p =>
    obtain ⟨prev, _ | ⟨x, xs⟩, caps⟩ := c
    · simp [run] at h
    · simp only [run] at h
      split_ifs at h
      · rw [List.mem_singleton.mp h]
      · simp at h
  | many p least most =>
    obtain ⟨k, -, rfl⟩ := List.mem_map.mp h
    cases k <;> rfl
  | seq a b iha ihb =>
    obtain ⟨e, he, hd⟩ := List.mem_flatMap.mp h
    rw [ihb hr.2 hd, iha hr.1 he]
  | alt a b iha ihb =>
    rcases List.mem_append.mp h with h | h
    · exact iha hr.1 h
    · exact ihb hr.2 h
  | group a => cases hr
  | boundary word => cases hr
  | start => cases hr
  | finish => cases hr

/-- A flat expression takes every word that it reads. -/
theorem exists_run {r : Regex UInt8} (hr : Flat r) {u rest : List UInt8} (hu : r.Reads u)
    {c : Cursor UInt8} (hc : c.rest = u ++ rest) : ∃ d ∈ r.run c, d.rest = rest := by
  induction r generalizing u rest c with
  | empty =>
    obtain rfl : u = [] := hu
    exact ⟨c, List.mem_singleton_self _, hc⟩
  | one p =>
    obtain ⟨x, hx, rfl⟩ := hu
    obtain ⟨prev, text, caps⟩ := c
    obtain rfl : text = x :: rest := hc
    exact ⟨⟨some x, rest, caps⟩, by simp [run, hx], rfl⟩
  | many p least most =>
    obtain rfl : most = none := hr
    obtain ⟨hleast, hall⟩ := hu
    refine ⟨c.skip u.length, List.mem_map.mpr ⟨u.length, ?_, rfl⟩, ?_⟩
    · have hlong : u.length ≤ (c.rest.takeWhile p).length := by
        rw [hc, List.takeWhile_append_of_pos hall, List.length_append]
        exact Nat.le_add_right _ _
      simp only [reach, List.mem_reverse, List.mem_range'_1]
      omega
    · rw [Cursor.skip_rest, hc, List.drop_left]
  | seq a b iha ihb =>
    obtain ⟨x, y, hx, hy, rfl⟩ := hu
    obtain ⟨e, he, her⟩ := iha hr.1 hx (hc.trans (List.append_assoc x y rest))
    obtain ⟨d, hd, hdr⟩ := ihb hr.2 hy her
    exact ⟨d, List.mem_flatMap.mpr ⟨e, he, hd⟩, hdr⟩
  | alt a b iha ihb =>
    rcases hu with hu | hu
    · obtain ⟨d, hd, hdr⟩ := iha hr.1 hu hc
      exact ⟨d, List.mem_append_left _ hd, hdr⟩
    · obtain ⟨d, hd, hdr⟩ := ihb hr.2 hu hc
      exact ⟨d, List.mem_append_right _ hd, hdr⟩
  | group a => cases hr
  | boundary word => cases hr
  | start => cases hr
  | finish => cases hr

/-- A byte of a letter. -/
def isNameByte (b : UInt8) : Bool := (65 ≤ b && b ≤ 90) || (97 ≤ b && b ≤ 122) || 128 ≤ b

theorem isNameByte_of_toLower {b x : UInt8} (hx : 97 ≤ x ∧ x ≤ 122) (h : toLower b = x) :
    isNameByte b = true := by
  unfold toLower at h
  unfold isNameByte
  split_ifs at h with hupper
  · simp [hupper.1, hupper.2]
  · subst h
    simp [hx.1, hx.2]

/-- A letter in any case is bytes of letters. -/
theorem fold_reads {x : UInt8} (hx : 97 ≤ x ∧ x ≤ 122) {u : List UInt8} (hu : (fold x).Reads u) :
    u ≠ [] ∧ ∀ b ∈ u, isNameByte b = true := by
  have hplain : ∀ {u : List UInt8}, (one fun b => toLower b = x).Reads u →
      u ≠ [] ∧ ∀ b ∈ u, isNameByte b = true := by
    rintro u ⟨b, hb, rfl⟩
    refine ⟨by simp, fun c hc => ?_⟩
    rw [List.mem_singleton.mp hc]
    exact isNameByte_of_toLower hx (by simpa using hb)
  unfold fold at hu
  split_ifs at hu
  · rcases hu with hu | hu
    · exact hplain hu
    · simp only [all, List.foldr_cons, List.foldr_nil, Reads, decide_eq_true_eq] at hu
      obtain ⟨_, _, ⟨_, rfl, rfl⟩, ⟨_, _, ⟨_, rfl, rfl⟩, ⟨_, _, ⟨_, rfl, rfl⟩, rfl, rfl⟩, rfl⟩, rfl⟩ := hu
      simp [isNameByte]
  · rcases hu with hu | hu
    · exact hplain hu
    · simp only [all, List.foldr_cons, List.foldr_nil, Reads, decide_eq_true_eq] at hu
      obtain ⟨_, _, ⟨_, rfl, rfl⟩, ⟨_, _, ⟨_, rfl, rfl⟩, rfl, rfl⟩, rfl⟩ := hu
      simp [isNameByte]
  · exact hplain hu

/-- A lower-case letter. -/
def isLower (b : UInt8) : Bool := 97 ≤ b && b ≤ 122

theorem word_reads {w : List UInt8} (hw : w.all isLower = true) {u : List UInt8}
    (hu : (word w).Reads u) : w.length ≤ u.length ∧ ∀ b ∈ u, isNameByte b = true := by
  induction w generalizing u with
  | nil =>
    obtain rfl : u = [] := hu
    simp
  | cons x w ih =>
    obtain ⟨a, v, ha, hv, rfl⟩ := hu
    rw [List.all_cons, Bool.and_eq_true] at hw
    obtain ⟨hne, hbytes⟩ := fold_reads (by simpa [isLower] using hw.1) ha
    obtain ⟨hlength, hrest⟩ := ih hw.2 hv
    have hpos := List.length_pos_of_ne_nil hne
    refine ⟨by simp only [List.length_cons, List.length_append]; omega, fun b hb => ?_⟩
    rcases List.mem_append.mp hb with hb | hb
    · exact hbytes b hb
    · exact hrest b hb

theorem names_reads {u : List UInt8} (hu : names.Reads u) :
    u ≠ [] ∧ ∀ b ∈ u, isNameByte b = true := by
  have hword : ∀ {w : List UInt8}, w ≠ [] → w.all isLower = true → (word w).Reads u →
      u ≠ [] ∧ ∀ b ∈ u, isNameByte b = true := by
    intro w hne hw hread
    obtain ⟨hlength, hbytes⟩ := word_reads hw hread
    have hpos := List.length_pos_of_ne_nil hne
    exact ⟨List.ne_nil_of_length_pos (by omega), hbytes⟩
  rcases hu with hu | hu | hu | hu
  · exact hword (by decide) (by decide) hu
  · exact hword (by decide) (by decide) hu
  · exact hword (by decide) (by decide) hu
  · exact hword (by decide) (by decide) hu

/-- A word in any ASCII case is read. -/
theorem word_of_toLower (u : List UInt8) : (word (u.map toLower)).Reads u := by
  induction u with
  | nil => rfl
  | cons b u ih =>
    refine ⟨[b], u, ?_, ih, rfl⟩
    have hplain : (one fun c => toLower c = toLower b).Reads [b] := ⟨b, by simp, rfl⟩
    unfold fold
    split_ifs
    · exact .inl hplain
    · exact .inl hplain
    · exact hplain

/-- The text that opens the value of a secret member. -/
def openingText (u w v : List UInt8) : List UInt8 := 34 :: (u ++ 34 :: (w ++ 58 :: (v ++ [34])))

theorem opening_reads {o : List UInt8} : opening.Reads o ↔ ∃ u w v, names.Reads u ∧
    (∀ b ∈ w, isSpace b = true) ∧ (∀ b ∈ v, isSpace b = true) ∧ o = openingText u w v := by
  simp only [opening, all, List.foldr_cons, List.foldr_nil, Reads, decide_eq_true_eq, openingText]
  constructor
  · rintro ⟨_, _, ⟨_, rfl, rfl⟩, ⟨u, _, hu, ⟨_, _, ⟨_, rfl, rfl⟩, ⟨w, _, ⟨-, hw⟩, ⟨_, _, ⟨_, rfl, rfl⟩,
      ⟨v, _, ⟨-, hv⟩, ⟨_, _, ⟨_, rfl, rfl⟩, rfl, rfl⟩, rfl⟩, rfl⟩, rfl⟩, rfl⟩, rfl⟩, rfl⟩
    exact ⟨u, w, v, hu, hw, hv, by simp⟩
  · rintro ⟨u, w, v, hu, hw, hv, rfl⟩
    exact ⟨[34], _, ⟨34, rfl, rfl⟩, ⟨u, _, hu, ⟨[34], _, ⟨34, rfl, rfl⟩, ⟨w, _, ⟨Nat.zero_le _, hw⟩,
      ⟨[58], _, ⟨58, rfl, rfl⟩, ⟨v, _, ⟨Nat.zero_le _, hv⟩, ⟨[34], _, ⟨34, rfl, rfl⟩, rfl, rfl⟩, rfl⟩,
      rfl⟩, rfl⟩, rfl⟩, rfl⟩, by simp⟩

/-- A text is split in one way at the first of a letter. -/
theorem split_unique {a : UInt8} {p p' q q' : List UInt8} (hp : a ∉ p) (hp' : a ∉ p')
    (h : p ++ a :: q = p' ++ a :: q') : p = p' ∧ q = q' := by
  induction p generalizing p' with
  | nil =>
    cases p' with
    | nil => exact ⟨rfl, (List.cons.inj h).2⟩
    | cons b p' => exact absurd (List.cons.inj h).1 (fun heq => hp' (heq ▸ List.mem_cons_self))
  | cons b p ih =>
    cases p' with
    | nil => exact absurd (List.cons.inj h).1 (fun heq => hp (heq ▸ List.mem_cons_self))
    | cons b' p' =>
      obtain ⟨rfl, htail⟩ := List.cons.inj h
      obtain ⟨rfl, hq⟩ := ih (fun hm => hp (List.mem_cons_of_mem _ hm))
        (fun hm => hp' (List.mem_cons_of_mem _ hm)) htail
      exact ⟨rfl, hq⟩

theorem not_mem_of_names {u : List UInt8} (hu : names.Reads u) : 34 ∉ u ∧ 92 ∉ u :=
  ⟨fun h => absurd ((names_reads hu).2 _ h) (by decide),
    fun h => absurd ((names_reads hu).2 _ h) (by decide)⟩

theorem not_mem_of_spaces {w : List UInt8} (hw : ∀ b ∈ w, isSpace b = true) : 34 ∉ w ∧ 58 ∉ w :=
  ⟨fun h => absurd (hw _ h) (by decide), fun h => absurd (hw _ h) (by decide)⟩

theorem openingText_append (u w v t : List UInt8) :
    openingText u w v ++ t = 34 :: (u ++ 34 :: (w ++ 58 :: (v ++ 34 :: t))) := by
  simp [openingText]

theorem ne_quote_of_not_mem {p : List UInt8} (hp : 34 ∉ p) : ∀ b ∈ p, decide (b ≠ 34) = true := by
  intro b hb
  have hne : b ≠ 34 := fun heq => hp (heq ▸ hb)
  exact decide_eq_true hne

/-- What opens a value is read in one way. -/
theorem opening_unique {o o' t t' : List UInt8} (ho : opening.Reads o) (ho' : opening.Reads o')
    (h : o ++ t = o' ++ t') : o = o' ∧ t = t' := by
  obtain ⟨u, w, v, hu, hw, hv, rfl⟩ := opening_reads.mp ho
  obtain ⟨u', w', v', hu', hw', hv', rfl⟩ := opening_reads.mp ho'
  rw [openingText_append, openingText_append] at h
  obtain ⟨hname, h₁⟩ := split_unique (not_mem_of_names hu).1 (not_mem_of_names hu').1
    (List.cons.inj h).2
  obtain ⟨hbefore, h₂⟩ := split_unique (not_mem_of_spaces hw).2 (not_mem_of_spaces hw').2 h₁
  obtain ⟨hafter, htail⟩ := split_unique (not_mem_of_spaces hv).1 (not_mem_of_spaces hv').1 h₂
  exact ⟨by rw [hname, hbefore, hafter], htail⟩

theorem flat_opening : Flat opening := by
  have hfold : ∀ x, Flat (fold x) := by
    intro x
    unfold fold
    split_ifs <;> simp [Flat, all]
  have hword : ∀ w, Flat (word w) := by
    intro w
    induction w with
    | nil => trivial
    | cons x w ih => exact ⟨hfold x, ih⟩
  simp [opening, all, Flat, names, hword]

/-- What a match takes of a value that is opened, before the rest of the expression. -/
theorem value_run {b : Regex UInt8} {prev : Option UInt8} {text : List UInt8} {d : Cursor UInt8}
    (h : d ∈ (seq (group opening) (seq (many (· ≠ 34) 0 none) b)).run ⟨prev, text, []⟩) :
    ∃ o x f, opening.Reads o ∧ 34 ∉ x ∧ text = o ++ (x ++ f.rest) ∧ f.caps = [o] ∧ d ∈ b.run f := by
  obtain ⟨_, hgroup, hd⟩ := List.mem_flatMap.mp h
  obtain ⟨e, he, rfl⟩ := List.mem_map.mp hgroup
  obtain ⟨o, ho, htext⟩ := run_reads opening he
  have hcaps := caps_of_flat flat_opening he
  obtain ⟨f, hf, hrest⟩ := List.mem_flatMap.mp hd
  obtain ⟨x, ⟨-, hx⟩, hxrest⟩ := run_reads (many (fun b : UInt8 => decide (b ≠ 34)) 0 none) hf
  have hfcaps := @caps_of_flat (many (fun b : UInt8 => decide (b ≠ 34)) 0 none) rfl _ _ hf
  dsimp only at htext hxrest hcaps hfcaps
  refine ⟨o, x, f, ho, fun hmem => absurd (hx _ hmem) (by decide), by rw [htext, hxrest], ?_, hrest⟩
  rw [hfcaps, hcaps, htext]
  simp

/-- A value that is opened is taken up to its quote. -/
theorem exists_value_run (b : Regex UInt8) (prev : Option UInt8) {o x : List UInt8}
    (rest : List UInt8) (ho : opening.Reads o) (hx : 34 ∉ x) : ∃ f, f.rest = rest ∧
      ∀ d ∈ b.run f,
        d ∈ (seq (group opening) (seq (many (· ≠ 34) 0 none) b)).run
          ⟨prev, o ++ (x ++ rest), []⟩ := by
  obtain ⟨e, he, herest⟩ :=
    @exists_run _ flat_opening o (x ++ rest) ho ⟨prev, o ++ (x ++ rest), []⟩ rfl
  obtain ⟨f, hf, hfrest⟩ := @exists_run (many (fun b : UInt8 => decide (b ≠ 34)) 0 none) rfl x rest
    ⟨Nat.zero_le _, ne_quote_of_not_mem hx⟩ { e with caps := e.caps ++
      [(o ++ (x ++ rest)).take ((o ++ (x ++ rest)).length - e.rest.length)] } herest
  refine ⟨f, hfrest, fun d hd => ?_⟩
  exact List.mem_flatMap.mpr ⟨_, List.mem_map.mpr ⟨e, he, rfl⟩, List.mem_flatMap.mpr ⟨f, hf, hd⟩⟩

/-- What a match of a value takes. -/
theorem secret_run {prev : Option UInt8} {text : List UInt8} {d : Cursor UInt8}
    (h : d ∈ jsonSecretPattern.run ⟨prev, text, []⟩) :
    ∃ o x, opening.Reads o ∧ 34 ∉ x ∧ text = o ++ (x ++ 34 :: d.rest) ∧ d.caps = [o, [34]] := by
  obtain ⟨o, x, f, ho, hx, htext, hcaps, hclose⟩ := value_run h
  obtain ⟨g, hg, rfl⟩ := List.mem_map.mp hclose
  obtain ⟨q, hq, hqrest⟩ := run_reads (one fun b : UInt8 => decide (b = 34)) hg
  have hgcaps := @caps_of_flat (one fun b : UInt8 => decide (b = 34)) trivial _ _ hg
  obtain ⟨b, hb, rfl⟩ := hq
  obtain rfl : b = 34 := by simpa using hb
  refine ⟨o, x, ho, hx, ?_, ?_⟩
  · rw [htext, hqrest]
    rfl
  · dsimp only
    rw [hgcaps, hcaps, hqrest]
    simp

/-- Nothing matches where no value is opened and closed. -/
theorem secret_none {prev : Option UInt8} {text : List UInt8}
    (h : ∀ o t, opening.Reads o → text ≠ o ++ t) :
    (jsonSecretPattern.run ⟨prev, text, []⟩).head? = none := by
  rw [List.head?_eq_none_iff, List.eq_nil_iff_forall_not_mem]
  intro d hd
  obtain ⟨o, x, ho, -, htext, -⟩ := secret_run hd
  exact h o _ ho htext

/-- A value that is opened and closed matches. -/
theorem secret_head {prev : Option UInt8} {o x rest : List UInt8} (ho : opening.Reads o)
    (hx : 34 ∉ x) : ∃ d, (jsonSecretPattern.run ⟨prev, o ++ (x ++ 34 :: rest), []⟩).head? = some d ∧
      d.rest = rest ∧ d.caps = [o, [34]] := by
  obtain ⟨f, hf, hmatch⟩ :=
    exists_value_run (group (one fun b : UInt8 => decide (b = 34))) prev (34 :: rest) ho hx
  obtain ⟨g, hg, -⟩ :=
    @exists_run (one fun b : UInt8 => decide (b = 34)) trivial [34] rest ⟨34, rfl, rfl⟩ f hf
  have hne : jsonSecretPattern.run ⟨prev, o ++ (x ++ 34 :: rest), []⟩ ≠ [] :=
    List.ne_nil_of_mem (hmatch _ (List.mem_map.mpr ⟨g, hg, rfl⟩))
  obtain ⟨d, l, hl⟩ := List.exists_cons_of_ne_nil hne
  obtain ⟨o', x', ho', hx', htext, hcaps⟩ := secret_run (hl ▸ List.mem_cons_self)
  obtain ⟨rfl, htail⟩ := opening_unique ho ho' htext
  obtain ⟨-, hrest⟩ := split_unique hx hx' htail
  exact ⟨d, by rw [hl]; rfl, hrest.symm, hcaps⟩

/-! ## Redacting piece by piece -/

/-- The text with its closed values redacted. -/
def closed (text : List UInt8) : List UInt8 := replaceAll jsonSecretPattern between text

/-- Letters that a match has taken are passed over. -/
theorem replaceFrom_append (r : Regex UInt8) (f : List (List UInt8) → List UInt8)
    (prev : Option UInt8) (a rest : List UInt8) :
    replaceFrom r f a.length prev (a ++ rest) = replaceFrom r f 0 (lastOf prev a) rest := by
  induction a generalizing prev with
  | nil => rfl
  | cons x a ih =>
    rw [lastOf_cons, List.length_cons, List.cons_append]
    exact ih (some x)

/-- What stands before a value does not matter. -/
theorem replaceFrom_prev (prev : Option UInt8) (text : List UInt8) :
    replaceFrom jsonSecretPattern between 0 prev text = closed text := by
  unfold closed replaceAll
  cases text with
  | nil => rfl
  | cons x xs =>
    by_cases h : ∃ o y rest, opening.Reads o ∧ 34 ∉ y ∧ x :: xs = o ++ (y ++ 34 :: rest)
    · -- a value is opened and closed in one way, so that both matches take the same
      obtain ⟨o, y, rest, ho, hy, htext⟩ := h
      obtain ⟨d, hd, hrest, hcaps⟩ := @secret_head prev _ _ rest ho hy
      obtain ⟨e, he, herest, hecaps⟩ := @secret_head none _ _ rest ho hy
      rw [← htext] at hd he
      rw [replaceFrom, hd, replaceFrom, he]
      dsimp only
      rw [hrest, hcaps, herest, hecaps]
    · have hnone : ∀ p, (jsonSecretPattern.run ⟨p, x :: xs, []⟩).head? = none := by
        intro p
        rw [List.head?_eq_none_iff, List.eq_nil_iff_forall_not_mem]
        intro d hd
        obtain ⟨o, y, ho, hy, htext, -⟩ := secret_run hd
        exact h ⟨o, y, _, ho, hy, htext⟩
      rw [replaceFrom, hnone, replaceFrom, hnone]

theorem closed_nil : closed [] = [] := rfl

/-- Where nothing is opened, a byte stays. -/
theorem closed_cons {x : UInt8} {xs : List UInt8} (h : ∀ o t, opening.Reads o → x :: xs ≠ o ++ t) :
    closed (x :: xs) = x :: closed xs := by
  rw [closed, replaceAll, replaceFrom, secret_none h]
  exact congrArg _ (replaceFrom_prev _ _)

theorem openingText_ne_nil (u w v : List UInt8) : openingText u w v ≠ [] := by simp [openingText]

/-- A value that is opened and closed is redacted. -/
theorem closed_match {o x rest : List UInt8} (ho : opening.Reads o) (hx : 34 ∉ x) :
    closed (o ++ (x ++ 34 :: rest)) = o ++ redacted ++ 34 :: closed rest := by
  obtain ⟨d, hd, hrest, hcaps⟩ := @secret_head none _ _ rest ho hx
  obtain ⟨u, w, v, -, -, -, rfl⟩ := opening_reads.mp ho
  obtain ⟨b, o, hcons⟩ := List.exists_cons_of_ne_nil (openingText_ne_nil u w v)
  rw [hcons] at hd hcaps ⊢
  -- what is passed over is the rest of the opening, the value and its quote
  have hlength : (o ++ (x ++ 34 :: rest)).length - d.rest.length = (o ++ (x ++ [34])).length := by
    rw [hrest]
    simp only [List.length_append, List.length_cons, List.length_nil]
    omega
  have hsplit : o ++ (x ++ 34 :: rest) = o ++ (x ++ [34]) ++ rest := by simp
  rw [closed, replaceAll, List.cons_append, replaceFrom, ← List.cons_append, hd]
  dsimp only
  rw [hlength, hsplit, replaceFrom_append, replaceFrom_prev, hcaps]
  simp [between]

/-- Bytes without quotes stay. -/
theorem closed_append {p : List UInt8} (hp : 34 ∉ p) (rest : List UInt8) :
    closed (p ++ rest) = p ++ closed rest := by
  induction p with
  | nil => rfl
  | cons x p ih =>
    have hne : ∀ o t, opening.Reads o → x :: (p ++ rest) ≠ o ++ t := by
      rintro o t ho heq
      obtain ⟨u, w, v, -, -, -, rfl⟩ := opening_reads.mp ho
      rw [openingText_append] at heq
      exact hp ((List.cons.inj heq).1 ▸ List.mem_cons_self)
    rw [List.cons_append, closed_cons hne, ih fun hm => hp (List.mem_cons_of_mem _ hm)]
    rfl

/-! ## Strings -/

/-- Every quote in the content of a string is behind a backslash. -/
def Escaped (raw : List UInt8) : Prop := ∀ p q, raw = p ++ 34 :: q → p.getLast? = some 92

/-- What follows a quote in the content of a string is like such a content. -/
theorem Escaped.after {p q : List UInt8} (h : Escaped (p ++ 34 :: q)) : Escaped q := by
  rintro p' q' rfl
  have hlast := h (p ++ 34 :: p') q' (by simp)
  cases p' with
  | nil => simp at hlast
  | cons x p' =>
    rw [List.getLast?_append, List.getLast?_cons_cons] at hlast
    cases hget : (x :: p').getLast? with
    | none => simp at hget
    | some z =>
      rw [hget] at hlast
      exact hlast

/-- What follows a string is no value of a member, and no letter. -/
structure Quiet (rest : List UInt8) : Prop where
  letter : ∀ b, rest.head? = some b → isNameByte b = false
  value : ∀ w v t, (∀ b ∈ w, isSpace b = true) → (∀ b ∈ v, isSpace b = true) →
    rest ≠ w ++ 58 :: (v ++ 34 :: t)

/-- Content is a first part without quotes, or such a part, a quote and the rest. -/
theorem quote_cases (r : List UInt8) :
    34 ∉ r ∨ ∃ p q, r = p ++ 34 :: q ∧ 34 ∉ p := by
  by_cases h : 34 ∈ r
  · obtain ⟨p, q, hr, hp⟩ := List.eq_append_cons_of_mem h
    exact .inr ⟨p, q, hr, hp⟩
  · exact .inl h

/-- Nothing is opened at a quote that an escaped one follows. -/
theorem not_opening_escaped {p q : List UInt8} (h : Escaped (p ++ 34 :: q)) (hp : 34 ∉ p)
    (rest o t : List UInt8) (ho : opening.Reads o) : 34 :: (p ++ 34 :: rest) ≠ o ++ t := by
  intro heq
  obtain ⟨u, w, v, hu, -, -, rfl⟩ := opening_reads.mp ho
  rw [openingText_append] at heq
  obtain ⟨rfl, -⟩ := split_unique hp (not_mem_of_names hu).1 (List.cons.inj heq).2
  exact (not_mem_of_names hu).2 (List.mem_of_getLast? (h p q rfl))

/-- Nothing is opened at a quote after which a string ends quietly. -/
theorem not_opening {r rest : List UInt8} (hr : Escaped r) (hrest : Quiet rest) (o t : List UInt8)
    (ho : opening.Reads o) : 34 :: (r ++ 34 :: rest) ≠ o ++ t := by
  rcases quote_cases r with hnone | ⟨p, q, rfl, hp⟩
  · intro heq
    obtain ⟨u, w, v, hu, hw, hv, rfl⟩ := opening_reads.mp ho
    rw [openingText_append] at heq
    obtain ⟨-, hrest'⟩ := split_unique hnone (not_mem_of_names hu).1 (List.cons.inj heq).2
    exact hrest.value w v t hw hv hrest'
  · rw [List.append_assoc, List.cons_append]
    exact not_opening_escaped hr hp _ o t ho

/-- Nothing is opened at a quote that no letter follows. -/
theorem not_opening_end {rest : List UInt8}
    (hrest : ∀ b, rest.head? = some b → isNameByte b = false) (o t : List UInt8)
    (ho : opening.Reads o) : 34 :: rest ≠ o ++ t := by
  intro heq
  obtain ⟨u, w, v, hu, hw, hv, rfl⟩ := opening_reads.mp ho
  rw [openingText_append] at heq
  obtain ⟨hne, hbytes⟩ := names_reads hu
  obtain ⟨b, u, rfl⟩ := List.exists_cons_of_ne_nil hne
  have hbyte := hrest b (by rw [(List.cons.inj heq).2]; rfl)
  rw [hbytes b List.mem_cons_self] at hbyte
  cases hbyte

/-- The end of a string stays as it is. -/
theorem closed_content {r rest : List UInt8} (hr : Escaped r) (hrest : Quiet rest) :
    closed (r ++ 34 :: rest) = r ++ 34 :: closed rest := by
  -- from each quote to the next
  induction hn : r.length using Nat.strong_induction_on generalizing r with
  | _ n ih =>
    rcases quote_cases r with hnone | ⟨p, q, rfl, hp⟩
    · rw [closed_append hnone, closed_cons (not_opening_end hrest.letter)]
    · have hlength : q.length < n := by
        rw [← hn, List.length_append, List.length_cons]
        omega
      rw [List.append_assoc, closed_append hp, List.cons_append,
        closed_cons (not_opening hr.after hrest), ih _ hlength hr.after rfl]
      simp

/-- A string that nothing follows which looks like its value stays as it is. -/
theorem closed_string {raw rest : List UInt8} (hraw : Escaped raw) (hrest : Quiet rest) :
    closed (34 :: (raw ++ 34 :: rest)) = 34 :: (raw ++ 34 :: closed rest) := by
  rw [closed_cons (not_opening hraw hrest), closed_content hraw hrest]

/-- The value of a secret member is redacted up to its first quote. -/
theorem closed_secret {u w v raw rest : List UInt8} (ho : opening.Reads (openingText u w v))
    (hraw : Escaped raw) (hrest : Quiet rest) :
    closed (openingText u w v ++ (raw ++ 34 :: rest)) =
      openingText u w v ++ redacted ++ (raw.dropWhile (· ≠ 34) ++ 34 :: closed rest) := by
  rcases quote_cases raw with hnone | ⟨p, q, rfl, hp⟩
  · have hdrop : raw.dropWhile (· ≠ 34) = [] :=
      List.dropWhile_eq_nil_iff.mpr (ne_quote_of_not_mem hnone)
    rw [closed_match ho hnone, hdrop]
    simp
  · have hdrop : (p ++ 34 :: q).dropWhile (· ≠ 34) = 34 :: q := by
      rw [List.dropWhile_append_of_pos (ne_quote_of_not_mem hp)]
      rfl
    rw [hdrop, List.append_assoc, List.cons_append, closed_match ho hp,
      closed_content hraw.after hrest]
    simp

/-! ## Tokens -/

/-- What a document is written with: a byte outside of the strings, a string that is no name of a
member, the name of a member whose value is no string, or a member whose value is one. -/
inductive Token where
  | other (b : UInt8)
  | string (raw : List UInt8)
  | name (key w v : List UInt8)
  | member (key w v raw : List UInt8)

/-- The text of a token. -/
def Token.render : Token → List UInt8
  | other b => [b]
  | string raw => 34 :: (raw ++ [34])
  | name key w v => 34 :: (key ++ 34 :: (w ++ 58 :: v))
  | member key w v raw => openingText key w v ++ (raw ++ [34])

/-- The text of some tokens. -/
def renderAll (ts : List Token) : List UInt8 := ts.flatMap Token.render

theorem renderAll_cons (t : Token) (ts : List Token) : renderAll (t :: ts) = t.render ++ renderAll ts :=
  rfl

/-- White space, and then a comma or a closing bracket, or nothing. -/
def Closes (rest : List UInt8) : Prop :=
  ∀ b, (rest.dropWhile isSpace).head? = some b → b = 44 ∨ b = 93 ∨ b = 125

/-- The parts of a token are what they should be. -/
def Token.Good : Token → Prop
  | other b => b ≠ 34
  | string raw => Escaped raw
  | name key w v => Escaped key ∧ (∀ b ∈ w, isSpace b = true) ∧ ∀ b ∈ v, isSpace b = true
  | member key w v raw =>
    (Escaped key ∧ (∀ b ∈ w, isSpace b = true) ∧ ∀ b ∈ v, isSpace b = true) ∧ Escaped raw

/-- What can follow a token. -/
def Token.Before : Token → List UInt8 → Prop
  | other _, _ => True
  | string _, rest => Closes rest
  | name _ _ _, rest => ∀ b, rest.head? = some b → b ≠ 34 ∧ isSpace b = false
  | member _ _ _ _, rest => Closes rest

/-- Each token is good, and is followed by what can follow it. -/
def Chain (c : List UInt8) : List Token → Prop
  | [] => True
  | t :: ts => t.Good ∧ t.Before (renderAll ts ++ c) ∧ Chain c ts

theorem not_name_of_space {b : UInt8} (h : isSpace b = true) : isNameByte b = false := by
  simp only [isSpace, List.contains_iff_mem, List.mem_cons, List.not_mem_nil, or_false] at h
  rcases h with rfl | rfl | rfl | rfl | rfl <;> rfl

theorem dropWhile_spaces {w t : List UInt8} (hw : ∀ b ∈ w, isSpace b = true)
    (ht : ∀ b, t.head? = some b → isSpace b = false) : (w ++ t).dropWhile isSpace = t := by
  rw [List.dropWhile_append_of_pos hw]
  cases t with
  | nil => rfl
  | cons b t => rw [List.dropWhile_cons_of_neg (by simp [ht b rfl])]

theorem Closes.quiet {rest : List UInt8} (h : Closes rest) : Quiet rest where
  letter := by
    intro b hb
    cases rest with
    | nil => cases hb
    | cons x rest =>
      obtain rfl : x = b := Option.some.inj hb
      by_cases hx : isSpace x = true
      · exact not_name_of_space hx
      · have hhead := h x (by rw [List.dropWhile_cons_of_neg (by simpa using hx)]; rfl)
        rcases hhead with rfl | rfl | rfl <;> rfl
  value := by
    rintro w v t hw - rfl
    have hhead := h 58 (by rw [dropWhile_spaces hw (by rintro b ⟨⟩; rfl)]; rfl)
    revert hhead
    decide

/-- White space and a colon are no letters. -/
theorem letter_of_colon {w : List UInt8} (hw : ∀ b ∈ w, isSpace b = true) (t : List UInt8) (b : UInt8)
    (hb : (w ++ 58 :: t).head? = some b) : isNameByte b = false := by
  cases w with
  | nil =>
    obtain rfl : 58 = b := Option.some.inj hb
    rfl
  | cons x w =>
    obtain rfl : x = b := Option.some.inj hb
    exact not_name_of_space (hw x List.mem_cons_self)

/-- A name is followed by a colon, but not by a string. -/
theorem quiet_name {w v rest : List UInt8} (hw : ∀ b ∈ w, isSpace b = true)
    (hv : ∀ b ∈ v, isSpace b = true)
    (hrest : ∀ b, rest.head? = some b → b ≠ 34 ∧ isSpace b = false) :
    Quiet (w ++ 58 :: (v ++ rest)) where
  letter := letter_of_colon hw _
  value := by
    intro w' v' t hw' hv' heq
    obtain ⟨-, htail⟩ := split_unique (not_mem_of_spaces hw).2 (not_mem_of_spaces hw').2 heq
    have hdrop := congrArg (List.dropWhile isSpace) htail
    rw [dropWhile_spaces hv fun b hb => (hrest b hb).2,
      dropWhile_spaces hv' (by rintro b ⟨⟩; rfl)] at hdrop
    exact (hrest 34 (by rw [hdrop]; rfl)).1 rfl

/-- A member is redacted in the same way, whatever follows it. -/
theorem exists_closed_member {q w v raw : List UInt8} (hq : Escaped q)
    (hw : ∀ b ∈ w, isSpace b = true) (hv : ∀ b ∈ v, isSpace b = true) (hraw : Escaped raw) :
    ∃ out, ∀ rest, Quiet rest →
      closed (openingText q w v ++ (raw ++ 34 :: rest)) = out ++ closed rest := by
  -- only what stands behind the last quote of the name can be what is looked for
  induction hn : q.length using Nat.strong_induction_on generalizing q with
  | _ n ih =>
    rcases quote_cases q with hnone | ⟨p, q, rfl, hp⟩
    · by_cases hname : names.Reads q
      · -- the value is redacted
        refine ⟨openingText q w v ++ redacted ++ (raw.dropWhile (· ≠ 34) ++ [34]), fun rest hrest => ?_⟩
        rw [closed_secret (opening_reads.mpr ⟨q, w, v, hname, hw, hv, rfl⟩) hraw hrest]
        simp
      · refine ⟨openingText q w v ++ (raw ++ [34]), fun rest hrest => ?_⟩
        have hfirst : ∀ o t, opening.Reads o →
            34 :: (q ++ 34 :: (w ++ 58 :: (v ++ 34 :: (raw ++ 34 :: rest)))) ≠ o ++ t := by
          intro o t ho heq
          obtain ⟨u, w', v', hu, -, -, rfl⟩ := opening_reads.mp ho
          rw [openingText_append] at heq
          obtain ⟨rfl, -⟩ := split_unique hnone (not_mem_of_names hu).1 (List.cons.inj heq).2
          exact hname hu
        have hcolon : (34 : UInt8) ∉ (58 : UInt8) :: v := by
          rw [List.mem_cons, not_or]
          exact ⟨by decide, (not_mem_of_spaces hv).1⟩
        have hvalue : closed (58 :: (v ++ 34 :: (raw ++ 34 :: rest))) =
            58 :: (v ++ closed (34 :: (raw ++ 34 :: rest))) :=
          closed_append hcolon _
        rw [openingText_append, closed_cons hfirst, closed_append hnone,
          closed_cons (not_opening_end (letter_of_colon hw _)),
          closed_append (not_mem_of_spaces hw).1, hvalue, closed_string hraw hrest, openingText]
        simp
    · have hlength : q.length < n := by
        rw [← hn, List.length_append, List.length_cons]
        omega
      obtain ⟨out, hout⟩ := ih _ hlength hq.after rfl
      refine ⟨34 :: (p ++ out), fun rest hrest => ?_⟩
      have hthis := hout rest hrest
      rw [openingText_append] at hthis ⊢
      rw [List.append_assoc, List.cons_append, closed_cons (not_opening_escaped hq hp _),
        closed_append hp, hthis]
      simp

theorem closes_nil : Closes [] := fun _ h => nomatch h

/-- A token is redacted by itself. -/
theorem closed_token {t : Token} (ht : t.Good) {rest : List UInt8} (hrest : t.Before rest) :
    closed (t.render ++ rest) = closed t.render ++ closed rest := by
  cases t with
  | other b =>
    have hb : (34 : UInt8) ∉ [b] := by simpa using Ne.symm ht
    have hself := closed_append hb []
    rw [List.append_nil, closed_nil, List.append_nil] at hself
    rw [Token.render, closed_append hb, hself]
  | string raw =>
    have hself := closed_string ht closes_nil.quiet
    have hall := closed_string ht hrest.quiet
    rw [closed_nil] at hself
    rw [Token.render, hself, List.cons_append, List.append_assoc, List.singleton_append, hall]
    simp
  | name key w v =>
    obtain ⟨hkey, hw, hv⟩ := ht
    have hcolon : (34 : UInt8) ∉ w ++ 58 :: v := by
      rw [List.mem_append, List.mem_cons, not_or, not_or]
      exact ⟨(not_mem_of_spaces hw).1, by decide, (not_mem_of_spaces hv).1⟩
    have hone : ∀ rest : List UInt8, (∀ b, rest.head? = some b → b ≠ 34 ∧ isSpace b = false) →
        closed (34 :: (key ++ 34 :: ((w ++ 58 :: v) ++ rest))) =
          34 :: (key ++ 34 :: ((w ++ 58 :: v) ++ closed rest)) := by
      intro rest hrest
      have hquiet := quiet_name hw hv hrest
      rw [show w ++ 58 :: (v ++ rest) = (w ++ 58 :: v) ++ rest by simp] at hquiet
      rw [closed_string hkey hquiet, closed_append hcolon]
    have hself := hone [] (fun _ h => nomatch h)
    have hall := hone rest hrest
    rw [List.append_nil, closed_nil, List.append_nil] at hself
    rw [Token.render, hself, List.cons_append, List.append_assoc, List.cons_append, hall]
    simp
  | member key w v raw =>
    obtain ⟨⟨hkey, hw, hv⟩, hraw⟩ := ht
    obtain ⟨out, hout⟩ := exists_closed_member hkey hw hv hraw
    have hself := hout [] closes_nil.quiet
    have hall := hout rest hrest.quiet
    rw [closed_nil, List.append_nil] at hself
    rw [Token.render, hself, List.append_assoc, List.append_assoc, List.singleton_append, hall]

/-- Tokens are redacted one by one. -/
theorem closed_tokens {ts : List Token} {c : List UInt8} (h : Chain c ts) :
    closed (renderAll ts ++ c) = ts.flatMap (fun t => closed t.render) ++ closed c := by
  induction ts with
  | nil => rfl
  | cons t ts ih =>
    obtain ⟨hgood, hbefore, hchain⟩ := h
    rw [renderAll, List.flatMap_cons, List.append_assoc, ← renderAll, closed_token hgood hbefore,
      ih hchain, List.flatMap_cons, List.append_assoc]

/-! ## A value that is cut -/

theorem count_openingText (u w v : List UInt8) : 3 ≤ (openingText u w v).count 34 := by
  simp only [openingText, List.count_cons, List.count_append, List.count_nil]
  simp
  omega

/-- With three quotes nothing is opened and closed. -/
theorem closed_of_few {text : List UInt8} (h : text.count 34 ≤ 3) : closed text = text := by
  induction text with
  | nil => rfl
  | cons x xs ih =>
    have hnone : (jsonSecretPattern.run ⟨none, x :: xs, []⟩).head? = none := by
      rw [List.head?_eq_none_iff, List.eq_nil_iff_forall_not_mem]
      intro d hd
      obtain ⟨o, y, ho, -, htext, -⟩ := secret_run hd
      obtain ⟨u, w, v, -, -, -, rfl⟩ := opening_reads.mp ho
      have hcount := count_openingText u w v
      rw [htext, List.count_append, List.count_append, List.count_cons_self] at h
      omega
    have hless : xs.count 34 ≤ 3 := le_trans (List.count_le_count_cons) h
    rw [closed, replaceAll, replaceFrom, hnone]
    dsimp only
    rw [replaceFrom_prev, ih hless]

/-- The text with a value redacted that is cut. -/
def cut (text : List UInt8) : List UInt8 := replaceAll truncatedSecretPattern behind text

/-- What a match of a cut value takes. -/
theorem cut_run {prev : Option UInt8} {text : List UInt8} {d : Cursor UInt8}
    (h : d ∈ truncatedSecretPattern.run ⟨prev, text, []⟩) :
    ∃ o x, opening.Reads o ∧ 34 ∉ x ∧ text = o ++ x ∧ d.rest = [] ∧ d.caps = [o] := by
  obtain ⟨o, x, f, ho, hx, htext, hcaps, hend⟩ := value_run h
  have hfinish : f.rest = [] ∧ d = f := by
    simp only [run] at hend
    split_ifs at hend with hempty
    · exact ⟨by simpa using hempty, List.mem_singleton.mp hend⟩
    · cases hend
  obtain ⟨hempty, rfl⟩ := hfinish
  rw [hempty, List.append_nil] at htext
  exact ⟨o, x, ho, hx, htext, hempty, hcaps⟩

/-- A value that is opened last matches. -/
theorem cut_head {prev : Option UInt8} {o x : List UInt8} (ho : opening.Reads o) (hx : 34 ∉ x) :
    ∃ d, (truncatedSecretPattern.run ⟨prev, o ++ x, []⟩).head? = some d ∧ d.rest = [] ∧
      d.caps = [o] := by
  obtain ⟨f, hf, hmatch⟩ := exists_value_run finish prev [] ho hx
  rw [List.append_nil] at hmatch
  have hfinish : f ∈ finish.run f := by
    simp only [run]
    rw [hf]
    exact List.mem_singleton_self _
  have hne : truncatedSecretPattern.run ⟨prev, o ++ x, []⟩ ≠ [] :=
    List.ne_nil_of_mem (hmatch f hfinish)
  obtain ⟨d, l, hl⟩ := List.exists_cons_of_ne_nil hne
  obtain ⟨o', x', ho', hx', htext, hrest, hcaps⟩ := cut_run (hl ▸ List.mem_cons_self)
  obtain ⟨rfl, -⟩ := opening_unique ho ho' htext
  exact ⟨d, by rw [hl]; rfl, hrest, hcaps⟩

/-- Before the last value nothing is cut. -/
theorem not_cut {y : UInt8} {p o x o' x' : List UInt8} (ho : opening.Reads o) (hx : 34 ∉ x)
    (ho' : opening.Reads o') (hx' : 34 ∉ x') : y :: (p ++ (o ++ x)) ≠ o' ++ x' := by
  intro heq
  obtain ⟨u, w, v, hu, hw, hv, rfl⟩ := opening_reads.mp ho
  obtain ⟨u', w', v', hu', hw', hv', rfl⟩ := opening_reads.mp ho'
  rw [openingText_append, openingText_append] at heq
  -- read from the end, the two texts split at the same quotes and colons
  have hback := congrArg List.reverse heq
  simp only [List.reverse_cons, List.reverse_append, List.append_assoc, List.cons_append,
    List.nil_append] at hback
  obtain ⟨-, h₁⟩ := split_unique (by simpa using hx) (by simpa using hx') hback
  obtain ⟨-, h₂⟩ := split_unique (by simpa using (not_mem_of_spaces hv).2)
    (by simpa using (not_mem_of_spaces hv').2) h₁
  obtain ⟨-, h₃⟩ := split_unique (by simpa using (not_mem_of_spaces hw).1)
    (by simpa using (not_mem_of_spaces hw').1) h₂
  obtain ⟨-, h₄⟩ := split_unique (by simpa using (not_mem_of_names hu).1)
    (by simpa using (not_mem_of_names hu').1) h₃
  simp at h₄

/-- The last value is redacted when it is cut. -/
theorem cut_append {o x : List UInt8} (p : List UInt8) (ho : opening.Reads o) (hx : 34 ∉ x) :
    cut (p ++ (o ++ x)) = p ++ (o ++ redacted) := by
  have hall : ∀ prev, replaceFrom truncatedSecretPattern behind 0 prev (p ++ (o ++ x)) =
      p ++ (o ++ redacted) := by
    induction p with
    | nil =>
      intro prev
      obtain ⟨d, hd, hrest, hcaps⟩ := @cut_head prev _ _ ho hx
      obtain ⟨u, w, v, -, -, -, rfl⟩ := opening_reads.mp ho
      obtain ⟨b, o, hcons⟩ := List.exists_cons_of_ne_nil (openingText_ne_nil u w v)
      rw [hcons] at hd hcaps ⊢
      have hover := replaceFrom_append truncatedSecretPattern behind (some b) (o ++ x) []
      rw [List.append_nil] at hover
      rw [List.nil_append, List.nil_append, List.cons_append, replaceFrom, ← List.cons_append, hd]
      dsimp only
      rw [hrest, List.length_nil, Nat.sub_zero, hover, hcaps]
      simp [behind, replaceFrom]
    | cons y p ih =>
      intro prev
      have hnone : (truncatedSecretPattern.run ⟨prev, y :: (p ++ (o ++ x)), []⟩).head? = none := by
        rw [List.head?_eq_none_iff, List.eq_nil_iff_forall_not_mem]
        intro d hd
        obtain ⟨o', x', ho', hx', htext, -⟩ := cut_run hd
        exact not_cut ho hx ho' hx' htext
      rw [List.cons_append, replaceFrom, hnone, List.cons_append]
      exact congrArg _ (ih _)
  exact hall none

/-! ## Texts that differ in secrets -/

/-- The tokens are one, or members with a secret name whose values differ before their first
quote. -/
def Alike (t t' : Token) : Prop :=
  t = t' ∨ ∃ key w v raw raw', t = .member key w v raw ∧ t' = .member key w v raw' ∧
    names.Reads key ∧ raw.length = raw'.length ∧ raw.dropWhile (· ≠ 34) = raw'.dropWhile (· ≠ 34)

/-- Such tokens are redacted alike. -/
theorem Alike.closed_eq {t t' : Token} (h : Alike t t') (ht : t.Good) (ht' : t'.Good) :
    closed t.render = closed t'.render := by
  rcases h with rfl | ⟨key, w, v, raw, raw', rfl, rfl, hname, -, hdrop⟩
  · rfl
  · obtain ⟨⟨-, hw, hv⟩, hraw⟩ := ht
    have ho := opening_reads.mpr ⟨key, w, v, hname, hw, hv, rfl⟩
    have hone := closed_secret ho hraw closes_nil.quiet
    have hother := closed_secret ho ht'.2 closes_nil.quiet
    rw [Token.render, Token.render, hone, hother, hdrop]

/-- Two remainders are one, or both are inside of a secret value: before its first quote, or behind
it. -/
def Remainder (c c' : List UInt8) : Prop :=
  c = c' ∨ ∃ o x x', opening.Reads o ∧ c = o ++ x ∧ c' = o ++ x' ∧
    ((34 ∉ x ∧ 34 ∉ x') ∨ ∃ p p' q, x = p ++ 34 :: q ∧ x' = p' ++ 34 :: q ∧ 34 ∉ p ∧ 34 ∉ p')

/-- Two texts of alike tokens and a remainder. -/
def Pair (a b : List UInt8) : Prop :=
  ∃ us us' c c', a = renderAll us ++ c ∧ b = renderAll us' ++ c' ∧ Chain c us ∧ Chain c' us' ∧
    List.Forall₂ Alike us us' ∧ Remainder c c'

theorem Chain.good {c : List UInt8} {ts : List Token} (h : Chain c ts) : ∀ t ∈ ts, t.Good := by
  induction ts with
  | nil => simp
  | cons t ts ih =>
    obtain ⟨hgood, -, hchain⟩ := h
    exact List.forall_mem_cons.mpr ⟨hgood, ih hchain⟩

/-- Such texts are redacted alike. -/
theorem Pair.cut_closed {a b : List UInt8} (h : Pair a b) : cut (closed a) = cut (closed b) := by
  obtain ⟨us, us', c, c', rfl, rfl, hchain, hchain', halike, hrest⟩ := h
  rw [closed_tokens hchain, closed_tokens hchain']
  have hsame : us.flatMap (fun t => closed t.render) = us'.flatMap (fun t => closed t.render) := by
    have hgood := hchain.good
    have hgood' := hchain'.good
    clear hchain hchain'
    induction halike with
    | nil => rfl
    | cons halike _ ih =>
      rw [List.flatMap_cons, List.flatMap_cons,
        halike.closed_eq (hgood _ List.mem_cons_self) (hgood' _ List.mem_cons_self),
        ih (fun t ht => hgood t (List.mem_cons_of_mem _ ht))
          (fun t ht => hgood' t (List.mem_cons_of_mem _ ht))]
  rw [hsame]
  rcases hrest with rfl | ⟨o, x, x', ho, rfl, rfl, ⟨hx, hx'⟩ | ⟨p, p', q, rfl, rfl, hp, hp'⟩⟩
  · rfl
  · -- the value is not closed, and the second expression redacts what there is of it
    have hfew : ∀ x : List UInt8, 34 ∉ x → closed (o ++ x) = o ++ x := by
      intro x hx
      refine closed_of_few ?_
      obtain ⟨u, w, v, hu, hw, hv, rfl⟩ := opening_reads.mp ho
      have hcounts : u.count 34 = 0 ∧ w.count 34 = 0 ∧ v.count 34 = 0 ∧ x.count 34 = 0 :=
        ⟨List.count_eq_zero.mpr (not_mem_of_names hu).1,
          List.count_eq_zero.mpr (not_mem_of_spaces hw).1,
          List.count_eq_zero.mpr (not_mem_of_spaces hv).1, List.count_eq_zero.mpr hx⟩
      simp [openingText, List.count_append, hcounts]
    rw [hfew x hx, hfew x' hx', cut_append _ ho hx, cut_append _ ho hx']
  · rw [closed_match ho hp, closed_match ho hp']

/-! ## Cutting and trimming -/

theorem Closes.of_prefix {a b : List UInt8} (hab : a <+: b) (hb : Closes b) : Closes a := by
  obtain ⟨t, rfl⟩ := hab
  intro x hx
  refine hb x ?_
  rw [List.dropWhile_append]
  cases hdrop : a.dropWhile isSpace with
  | nil =>
    rw [hdrop] at hx
    cases hx
  | cons y ys =>
    rw [hdrop] at hx
    simpa using hx

theorem Token.Before.of_prefix {t : Token} {a b : List UInt8} (hab : a <+: b) (hb : t.Before b) :
    t.Before a := by
  cases t with
  | other x => trivial
  | string raw => exact Closes.of_prefix hab hb
  | name key w v =>
    intro x hx
    obtain ⟨rest, rfl⟩ := hab
    refine hb x ?_
    cases a with
    | nil => cases hx
    | cons y a => exact hx
  | member key w v raw => exact Closes.of_prefix hab hb

theorem Chain.of_prefix {a b : List UInt8} {ts : List Token} (hab : a <+: b) (h : Chain b ts) :
    Chain a ts := by
  induction ts with
  | nil => trivial
  | cons t ts ih =>
    obtain ⟨hgood, hbefore, hchain⟩ := h
    exact ⟨hgood, hbefore.of_prefix (List.prefix_append_right_inj _ |>.mpr hab), ih hchain⟩

/-- `agentKey`, `token`, `password` or `authorization`, in any letter case. -/
def isSecret (key : List UInt8) : Bool :=
  key.map toLower = ascii "agentkey" || key.map toLower = ascii "token" ||
    key.map toLower = ascii "password" || key.map toLower = ascii "authorization"

/-- The redaction looks for the names of secret members. -/
theorem names_of_isSecret {key : List UInt8} (h : isSecret key = true) : names.Reads key := by
  have hread := word_of_toLower key
  simp only [isSecret, Bool.or_eq_true, decide_eq_true_eq] at h
  rcases h with ((h | h) | h) | h
  · exact .inl (h ▸ hread)
  · exact .inr (.inl (h ▸ hread))
  · exact .inr (.inr (.inl (h ▸ hread)))
  · exact .inr (.inr (.inr (h ▸ hread)))

/-- Only the length of the content is left. -/
def blot (raw : List UInt8) : List UInt8 := List.replicate raw.length 42

/-- The content from its first quote on is left, and the length of what is before. -/
def blotFront (raw : List UInt8) : List UInt8 :=
  blot (raw.takeWhile (· ≠ 34)) ++ raw.dropWhile (· ≠ 34)

/-- The text of a token with a secret value blotted up to its first quote. -/
def Token.shown : Token → List UInt8
  | member key w v raw =>
    openingText key w v ++ ((if isSecret key then blotFront raw else raw) ++ [34])
  | t => t.render

/-- The text of some tokens with the secret values blotted. -/
def shownAll (ts : List Token) : List UInt8 := ts.flatMap Token.shown

/-- The tokens are one, or secret members with values of one length. -/
def Similar (t t' : Token) : Prop :=
  t = t' ∨ ∃ key w v raw raw', t = .member key w v raw ∧ t' = .member key w v raw' ∧
    isSecret key = true ∧ raw.length = raw'.length

theorem not_mem_blot (raw : List UInt8) : 34 ∉ blot raw := by
  intro h
  exact absurd (List.eq_of_mem_replicate h) (by decide)

theorem blotFront_of_not_mem {raw : List UInt8} (h : 34 ∉ raw) : blotFront raw = blot raw := by
  have hall := ne_quote_of_not_mem h
  rw [blotFront, List.takeWhile_eq_self_iff.mpr hall, List.dropWhile_eq_nil_iff.mpr hall,
    List.append_nil]

theorem blotFront_append {p : List UInt8} (hp : 34 ∉ p) (q : List UInt8) :
    blotFront (p ++ 34 :: q) = blot p ++ 34 :: q := by
  have hall := ne_quote_of_not_mem hp
  rw [blotFront, List.takeWhile_append_of_pos hall, List.dropWhile_append_of_pos hall]
  simp

theorem blot_take (raw : List UInt8) (n : ℕ) : (blot raw).take n = blot (raw.take n) := by
  rw [blot, blot, List.take_replicate, List.length_take]

theorem length_blotFront (raw : List UInt8) : (blotFront raw).length = raw.length := by
  rw [blotFront, blot, List.length_append, List.length_replicate, ← List.length_append,
    List.takeWhile_append_dropWhile]

/-- What is shown of a value that is cut. -/
theorem shown_cases (raw : List UInt8) (n : ℕ) :
    (34 ∉ raw.take n ∧ (blotFront raw).take n = blot (raw.take n)) ∨
      ∃ p q, raw.take n = p ++ 34 :: q ∧ 34 ∉ p ∧ (blotFront raw).take n = blot p ++ 34 :: q := by
  rcases quote_cases raw with hnone | ⟨p, q, rfl, hp⟩
  · left
    rw [blotFront_of_not_mem hnone, blot_take]
    exact ⟨fun h => hnone (List.mem_of_mem_take h), rfl⟩
  · rw [blotFront_append hp]
    have hlength : (blot p).length = p.length := List.length_replicate
    by_cases hn : n ≤ p.length
    · left
      rw [List.take_append_of_le_length hn, List.take_append_of_le_length (hlength ▸ hn), blot_take]
      exact ⟨fun h => hp (List.mem_of_mem_take h), rfl⟩
    · right
      obtain ⟨k, hk⟩ : ∃ k, n - p.length = k + 1 := ⟨n - p.length - 1, by omega⟩
      refine ⟨p, q.take k, ?_, hp, ?_⟩
      · rw [List.take_append, List.take_of_length_le (by omega), hk, List.take_succ_cons]
      · rw [List.take_append, List.take_of_length_le (by omega), hlength, hk, List.take_succ_cons]

/-- Values of which the same is shown are cut before their first quotes, or alike behind them. -/
theorem remainder_take {o raw raw' : List UInt8} (ho : opening.Reads o) {n : ℕ}
    (hshown : (blotFront raw).take n = (blotFront raw').take n) :
    Remainder (o ++ raw.take n) (o ++ raw'.take n) := by
  refine .inr ⟨o, raw.take n, raw'.take n, ho, rfl, rfl, ?_⟩
  rcases shown_cases raw n with ⟨hnone, hblot⟩ | ⟨p, q, htake, hp, hblot⟩
  · rcases shown_cases raw' n with ⟨hnone', -⟩ | ⟨p', q', -, -, hblot'⟩
    · exact .inl ⟨hnone, hnone'⟩
    · rw [hblot, hblot'] at hshown
      exact absurd (hshown ▸ List.mem_append_right _ List.mem_cons_self) (not_mem_blot (raw.take n))
  · rcases shown_cases raw' n with ⟨-, hblot'⟩ | ⟨p', q', htake', hp', hblot'⟩
    · rw [hblot, hblot'] at hshown
      exact absurd (hshown ▸ List.mem_append_right _ List.mem_cons_self) (not_mem_blot (raw'.take n))
    · rw [hblot, hblot'] at hshown
      obtain ⟨-, hq⟩ := split_unique (not_mem_blot p) (not_mem_blot p') hshown
      exact .inr ⟨p, p', q, htake, hq ▸ htake', hp, hp'⟩

theorem length_shown (t : Token) : t.shown.length = t.render.length := by
  cases t with
  | other b => rfl
  | string raw => rfl
  | name key w v => rfl
  | member key w v raw =>
    simp only [Token.shown, Token.render, List.length_append]
    split_ifs
    · rw [length_blotFront]
    · rfl

theorem Similar.length {t t' : Token} (h : Similar t t') : t.render.length = t'.render.length := by
  rcases h with rfl | ⟨key, w, v, raw, raw', rfl, rfl, -, hlength⟩
  · rfl
  · simp [Token.render, hlength]

/-- Similar tokens of which the same is shown are alike. -/
theorem Similar.alike {t t' : Token} (h : Similar t t') (hshown : t.shown = t'.shown) : Alike t t' := by
  rcases h with rfl | ⟨key, w, v, raw, raw', rfl, rfl, hsecret, hlength⟩
  · exact .inl rfl
  · simp only [Token.shown, if_pos hsecret] at hshown
    have hblot : blotFront raw = blotFront raw' :=
      List.append_cancel_right (List.append_cancel_left hshown)
    refine .inr ⟨key, w, v, raw, raw', rfl, rfl, names_of_isSecret hsecret, hlength, ?_⟩
    have hdrop : ∀ raw : List UInt8,
        (blotFront raw).dropWhile (· ≠ 34) = raw.dropWhile (· ≠ 34) := by
      intro raw
      rw [blotFront, List.dropWhile_append_of_pos (ne_quote_of_not_mem (not_mem_blot _)),
        List.dropWhile_idempotent]
    rw [← hdrop raw, hblot, hdrop]

/-- Texts of similar tokens of which the same is shown are alike where they are cut. -/
theorem pair_take {ts ts' : List Token} (hsimilar : List.Forall₂ Similar ts ts')
    (hchain : Chain [] ts) (hchain' : Chain [] ts') {n : ℕ}
    (hshown : (shownAll ts).take n = (shownAll ts').take n) :
    Pair ((renderAll ts).take n) ((renderAll ts').take n) := by
  induction hsimilar generalizing n with
  | nil =>
    exact ⟨[], [], [], [], by simp [renderAll], by simp [renderAll], trivial, trivial, .nil, .inl rfl⟩
  | @cons t t' ts ts' hsimilar _ ih =>
    obtain ⟨hgood, hbefore, hts⟩ := hchain
    obtain ⟨hgood', hbefore', hts'⟩ := hchain'
    have hlength := hsimilar.length
    have hconsShown : ∀ (t : Token) (ts : List Token),
        shownAll (t :: ts) = t.shown ++ shownAll ts := fun _ _ => rfl
    rw [hconsShown, hconsShown, List.take_append, List.take_append, length_shown, length_shown,
      ← hlength] at hshown
    by_cases hn : t.render.length ≤ n
    · -- the whole token is shown
      have hwhole : t.shown.take n = t.shown := List.take_of_length_le (by rwa [length_shown])
      have hwhole' : t'.shown.take n = t'.shown :=
        List.take_of_length_le (by rwa [length_shown, ← hlength])
      rw [hwhole, hwhole'] at hshown
      obtain ⟨hhead, htail⟩ := List.append_inj hshown (by rw [length_shown, length_shown, hlength])
      obtain ⟨us, us', c, c', ha, hb, hc, hc', hus, hrest⟩ := ih hts hts' htail
      refine ⟨t :: us, t' :: us', c, c', ?_, ?_, ⟨hgood, ?_, hc⟩, ⟨hgood', ?_, hc'⟩,
        .cons (hsimilar.alike hhead) hus, hrest⟩
      · rw [renderAll_cons, List.take_append, List.take_of_length_le hn, ha, renderAll_cons,
          List.append_assoc]
      · rw [renderAll_cons, List.take_append, List.take_of_length_le (hlength ▸ hn), ← hlength, hb,
          renderAll_cons, List.append_assoc]
      · rw [← ha]
        rw [List.append_nil] at hbefore
        exact hbefore.of_prefix (List.take_prefix _ _)
      · rw [← hb]
        rw [List.append_nil] at hbefore'
        exact hbefore'.of_prefix (List.take_prefix _ _)
    · -- the token is the last one, and cut
      have hover : n - t.render.length = 0 := by omega
      rw [hover, List.take_zero, List.take_zero, List.append_nil, List.append_nil] at hshown
      have hshort : ∀ (t : Token) (ts : List Token), t.render.length = t'.render.length →
          (renderAll (t :: ts)).take n = t.render.take n := by
        intro t ts ht
        rw [renderAll_cons, List.take_append_of_le_length (by omega)]
      refine ⟨[], [], t.render.take n, t'.render.take n, hshort t ts hlength, hshort t' ts' rfl, trivial,
        trivial, .nil, ?_⟩
      rcases hsimilar with rfl | ⟨key, w, v, raw, raw', rfl, rfl, hsecret, hraw⟩
      · exact .inl rfl
      · obtain ⟨⟨-, hw, hv⟩, -⟩ := hgood
        have ho := opening_reads.mpr ⟨key, w, v, names_of_isSecret hsecret, hw, hv, rfl⟩
        by_cases hopen : n ≤ (openingText key w v).length
        · left
          rw [Token.render, Token.render, List.take_append_of_le_length hopen,
            List.take_append_of_le_length hopen]
        · have hvalue : ∀ raw : List UInt8, n ≤ (openingText key w v).length + raw.length →
              (openingText key w v ++ (raw ++ [34])).take n =
                openingText key w v ++ raw.take (n - (openingText key w v).length) := by
            intro raw hn
            rw [List.take_append, List.take_of_length_le (by omega),
              List.take_append_of_le_length (by omega)]
          have hsize : n ≤ (openingText key w v).length + raw.length := by
            rw [Token.render, List.length_append, List.length_append, List.length_singleton] at hn
            omega
          simp only [Token.shown, if_pos hsecret] at hshown
          rw [hvalue _ (by rw [length_blotFront]; exact hsize),
            hvalue _ (by rw [length_blotFront, ← hraw]; exact hsize)] at hshown
          rw [Token.render, Token.render, hvalue raw hsize, hvalue raw' (hraw ▸ hsize)]
          exact remainder_take ho (List.append_cancel_left hshown)

/-- A quote is in the encoding of no white space. -/
theorem isSpaceChar_of_quote {c : List UInt8} (h : 34 ∈ c) : isSpaceChar c = false := by
  rcases c with _ | ⟨x, _ | ⟨y, _ | ⟨z, _ | ⟨u, c⟩⟩⟩⟩
  · rfl
  · obtain rfl := List.mem_singleton.mp h
    rfl
  · rw [List.mem_cons, List.mem_singleton] at h
    rcases h with rfl | rfl
    · rfl
    · simp [isSpaceChar]
  · rw [List.mem_cons, List.mem_cons, List.mem_singleton] at h
    rcases h with rfl | rfl | rfl
    · rfl
    · simp [isSpaceChar]
    · simp [isSpaceChar]
  · rfl

section Stripping

variable {isChar : List UInt8 → Bool}

/-- A quote belongs to no character of the kind. -/
theorem charLength_append (hquote : ∀ c, 34 ∈ c → isChar c = false) (hnil : isChar [] = false)
    (s p : List UInt8) : charLength isChar (s ++ 34 :: p) = charLength isChar s ∧
      charLength isChar s ≤ s.length := by
  have hwith : ∀ c : List UInt8, isChar (34 :: c) = false := fun c => hquote _ List.mem_cons_self
  rcases s with _ | ⟨a, _ | ⟨b, _ | ⟨c, s⟩⟩⟩
  · simp [charLength, hwith, hnil]
  · have htwo : isChar [a, 34] = false := hquote _ (by simp)
    have hthree : isChar (a :: 34 :: p.take 1) = false := hquote _ (by simp)
    constructor
    · simp only [charLength, List.cons_append, List.nil_append, List.take_succ_cons, List.take_zero,
        htwo, hthree, List.take_nil]
      split_ifs <;> simp_all
    · simp only [charLength, List.take_succ_cons, List.take_nil, List.length_singleton]
      split_ifs <;> simp
  · have hthree : isChar [a, b, 34] = false := hquote _ (by simp)
    constructor
    · simp only [charLength, List.cons_append, List.nil_append, List.take_succ_cons, List.take_zero,
        hthree, List.take_nil]
      split_ifs <;> simp_all
    · simp only [charLength, List.take_succ_cons, List.take_zero, List.take_nil, List.length_cons,
        List.length_nil]
      split_ifs <;> simp
  · constructor
    · simp only [charLength, List.cons_append, List.take_succ_cons, List.take_zero]
      rfl
    · unfold charLength
      simp only [List.length_cons]
      split_ifs <;> omega

/-- Stripping does not go beyond a quote. -/
theorem stripStart_append (hquote : ∀ c, 34 ∈ c → isChar c = false) (hnil : isChar [] = false)
    {n m : ℕ} {s : List UInt8} (p : List UInt8) (hn : s.length ≤ n) (hm : s.length ≤ m) :
    stripStart isChar n (s ++ 34 :: p) = stripStart isChar m s ++ 34 :: p := by
  -- the two sides may strip differently often, but each often enough
  induction n generalizing m s with
  | zero =>
    obtain rfl := List.eq_nil_of_length_eq_zero (Nat.le_zero.mp hn)
    have hzero := (charLength_append hquote hnil [] []).2
    cases m with
    | zero => rfl
    | succ m =>
      rw [stripStart, stripStart, if_pos (Nat.le_zero.mp hzero)]
  | succ n ih =>
    obtain ⟨hsame, hle⟩ := charLength_append hquote hnil s p
    cases m with
    | zero =>
      obtain rfl := List.eq_nil_of_length_eq_zero (Nat.le_zero.mp hm)
      exact if_pos (hsame.trans (Nat.le_zero.mp hle))
    | succ m =>
      rw [stripStart, stripStart, hsame]
      split_ifs with hzero
      · rfl
      · rw [List.drop_append_of_le_length hle]
        have hdrop : (s.drop (charLength isChar s)).length = s.length - charLength isChar s :=
          List.length_drop
        exact ih (by omega) (by omega)

theorem stripStart_suffix (n : ℕ) (s : List UInt8) : stripStart isChar n s <:+ s := by
  induction n generalizing s with
  | zero => exact List.suffix_refl s
  | succ n ih =>
    rw [stripStart]
    split_ifs
    · exact List.suffix_refl s
    · exact (ih _).trans (List.drop_suffix _ _)

end Stripping

theorem trimRight_begins (d : List UInt8) : trimRight d <+: d := by
  rw [← List.reverse_suffix, trimRight, List.reverse_reverse]
  exact stripStart_suffix _ _

/-- Only what is behind the last quote is stripped. -/
theorem trimRight_append (a d : List UInt8) : trimRight (a ++ 34 :: d) = a ++ 34 :: trimRight d := by
  unfold trimRight
  have hrev : (a ++ 34 :: d).reverse = d.reverse ++ 34 :: a.reverse := by simp
  rw [hrev, @stripStart_append _ (fun c hc => isSpaceChar_of_quote (List.mem_reverse.mpr hc)) rfl _
    d.length d.reverse a.reverse (by simp; omega) (by simp)]
  simp

/-- Alike tokens are the same, or the same behind a quote. -/
theorem same_behind {us us' : List Token} (h : List.Forall₂ Alike us us') :
    us = us' ∨ ∃ a b d, renderAll us = a ++ 34 :: d ∧ renderAll us' = b ++ 34 :: d := by
  induction h with
  | nil => exact .inl rfl
  | @cons t t' us us' halike _ ih =>
    rcases ih with rfl | ⟨a, b, d, ha, hb⟩
    · rcases halike with rfl | ⟨key, w, v, raw, raw', rfl, rfl, -, -, -⟩
      · exact .inl rfl
      · refine .inr ⟨openingText key w v ++ raw, openingText key w v ++ raw', renderAll us, ?_, ?_⟩
        · rw [renderAll_cons, Token.render]
          simp
        · rw [renderAll_cons, Token.render]
          simp
    · refine .inr ⟨t.render ++ a, t'.render ++ b, d, ?_, ?_⟩
      · rw [renderAll_cons, ha, List.append_assoc]
      · rw [renderAll_cons, hb, List.append_assoc]

theorem length_renderAll {us us' : List Token} (h : List.Forall₂ Similar us us') :
    (renderAll us).length = (renderAll us').length := by
  induction h with
  | nil => rfl
  | @cons t t' us us' halike _ ih =>
    rw [renderAll_cons, renderAll_cons, List.length_append, List.length_append, halike.length, ih]

/-- They stay alike when they are trimmed. -/
theorem pair_trimRight {ts ts' : List Token} (hsimilar : List.Forall₂ Similar ts ts')
    (hchain : Chain [] ts) (hchain' : Chain [] ts') {n : ℕ}
    (hshown : (shownAll ts).take n = (shownAll ts').take n) :
    Pair (trimRight ((renderAll ts).take n)) (trimRight ((renderAll ts').take n)) := by
  -- the two are as long as each other, or a value is cut before its first quote
  have hsame : ∀ m, trimRight ((renderAll ts).take n) = ((renderAll ts).take n).take m →
      trimRight ((renderAll ts').take n) = ((renderAll ts').take n).take m →
      Pair (trimRight ((renderAll ts).take n)) (trimRight ((renderAll ts').take n)) := by
    intro m h h'
    rw [h, h', List.take_take, List.take_take]
    refine pair_take hsimilar hchain hchain' ?_
    rw [← List.take_take, hshown, List.take_take]
  have hlength : ((renderAll ts).take n).length = ((renderAll ts').take n).length := by
    rw [List.length_take, List.length_take, length_renderAll hsimilar]
  have hbehind : (∃ a b d, (renderAll ts).take n = a ++ 34 :: d ∧ (renderAll ts').take n = b ++ 34 :: d) →
      Pair (trimRight ((renderAll ts).take n)) (trimRight ((renderAll ts').take n)) := by
    rintro ⟨a, b, d, ha, hb⟩
    have hab : a.length = b.length := by
      rw [ha, hb, List.length_append, List.length_append] at hlength
      omega
    obtain ⟨k, hk⟩ : ∃ k, trimRight d = d.take k := ⟨_, List.prefix_iff_eq_take.mp (trimRight_begins d)⟩
    have htake : ∀ a : List UInt8, trimRight (a ++ 34 :: d) = (a ++ 34 :: d).take (a.length + (k + 1)) := by
      intro a
      rw [trimRight_append, hk, List.take_length_add_append, List.take_succ_cons]
    refine hsame (a.length + (k + 1)) ?_ ?_
    · rw [ha, htake]
    · rw [hb, htake, hab]
  obtain ⟨us, us', c, c', ha, hb, hc, hc', hus, hrest⟩ := pair_take hsimilar hchain hchain' hshown
  rcases hrest with rfl | ⟨o, x, x', ho, rfl, rfl, ⟨hx, hx'⟩ | ⟨p, p', q, rfl, rfl, -, -⟩⟩
  · rcases same_behind hus with rfl | ⟨a, b, d, had, hbd⟩
    · obtain ⟨k, hk⟩ : ∃ k, trimRight ((renderAll ts).take n) = ((renderAll ts).take n).take k :=
        ⟨_, List.prefix_iff_eq_take.mp (trimRight_begins _)⟩
      refine hsame k hk ?_
      rw [hb, ← ha, hk]
    · refine hbehind ⟨a, b, d ++ c, ?_, ?_⟩
      · rw [ha, had, List.append_assoc, List.cons_append]
      · rw [hb, hbd, List.append_assoc, List.cons_append]
  · -- what is left of the two values may differ in length
    obtain ⟨u, w, v, -, -, -, hopen⟩ := opening_reads.mp ho
    obtain ⟨o₀, hquote⟩ : ∃ o₀, o = o₀ ++ [34] :=
      ⟨34 :: (u ++ 34 :: (w ++ 58 :: v)), by rw [hopen, openingText]; simp⟩
    have htrim : ∀ r x : List UInt8, trimRight (r ++ (o ++ x)) = r ++ (o ++ trimRight x) := by
      intro r x
      have hsplit : ∀ x : List UInt8, r ++ (o ++ x) = (r ++ o₀) ++ 34 :: x := by
        intro x
        rw [hquote]
        simp
      rw [hsplit, hsplit, trimRight_append]
    have hshorter : ∀ x : List UInt8, o ++ trimRight x <+: o ++ x := fun x =>
      (List.prefix_append_right_inj o).mpr (trimRight_begins x)
    rw [ha, hb, htrim, htrim]
    exact ⟨us, us', o ++ trimRight x, o ++ trimRight x', rfl, rfl, hc.of_prefix (hshorter x),
      hc'.of_prefix (hshorter x'), hus, .inr ⟨o, _, _, ho, rfl, rfl,
        .inl ⟨fun h => hx ((trimRight_begins x).subset h), fun h => hx' ((trimRight_begins x').subset h)⟩⟩⟩
  · refine hbehind ⟨renderAll us ++ (o ++ p), renderAll us' ++ (o ++ p'), q, ?_, ?_⟩
    · rw [ha]
      simp
    · rw [hb]
      simp

/-! ## One line -/

theorem singleLine_eq_iff {b c : UInt8} (hc : c ≠ 32 ∧ c ≠ 10 ∧ c ≠ 13) : singleLine b = c ↔ b = c := by
  unfold singleLine
  split_ifs with hb
  · constructor
    · exact fun h => absurd h.symm hc.1
    · rintro rfl
      rcases hb with hb | hb
      · exact absurd hb hc.2.2
      · exact absurd hb hc.2.1
  · exact Iff.rfl

theorem isSpace_singleLine (b : UInt8) : isSpace (singleLine b) = isSpace b := by
  unfold singleLine
  split_ifs with hb
  · rcases hb with rfl | rfl <;> rfl
  · rfl

theorem map_names {u : List UInt8} (hu : names.Reads u) : u.map singleLine = u := by
  refine (List.map_congr_left fun b hb => ?_).trans (List.map_id u)
  have hbyte := (names_reads hu).2 b hb
  unfold singleLine
  rw [if_neg]
  · rfl
  · rintro (rfl | rfl)
    · exact absurd hbyte (by decide)
    · exact absurd hbyte (by decide)

theorem map_spaces {w : List UInt8} (hw : ∀ b ∈ w, isSpace b = true) :
    ∀ b ∈ w.map singleLine, isSpace b = true := by
  intro b hb
  obtain ⟨c, hc, rfl⟩ := List.mem_map.mp hb
  rw [isSpace_singleLine]
  exact hw c hc

theorem not_mem_map {x : List UInt8} (hx : 34 ∉ x) : 34 ∉ x.map singleLine := by
  intro hm
  obtain ⟨b, hb, hquote⟩ := List.mem_map.mp hm
  rw [(singleLine_eq_iff (by decide)).mp hquote] at hb
  exact hx hb

theorem map_openingText (u w v : List UInt8) : (openingText u w v).map singleLine =
    openingText (u.map singleLine) (w.map singleLine) (v.map singleLine) := by
  simp [openingText, show singleLine 34 = 34 from rfl, show singleLine 58 = 58 from rfl]

theorem dropWhile_map_quote (raw : List UInt8) : (raw.map singleLine).dropWhile (· ≠ 34) =
    (raw.dropWhile (· ≠ 34)).map singleLine := by
  rw [List.dropWhile_map]
  congr 2
  funext b
  simp [singleLine_eq_iff]

theorem Escaped.map {raw : List UInt8} (h : Escaped raw) : Escaped (raw.map singleLine) := by
  intro p q heq
  obtain ⟨p', q', rfl, rfl, hq⟩ := List.map_eq_append_iff.mp heq
  obtain ⟨b, q'', rfl, hb, rfl⟩ := List.map_eq_cons_iff.mp hq
  rw [singleLine_eq_iff (by decide)] at hb
  subst hb
  rw [List.getLast?_map, h p' q'' rfl]
  rfl

/-- The token with its line ends replaced. -/
def Token.oneLine : Token → Token
  | other b => other (singleLine b)
  | string raw => string (raw.map singleLine)
  | name key w v => name (key.map singleLine) (w.map singleLine) (v.map singleLine)
  | member key w v raw =>
    member (key.map singleLine) (w.map singleLine) (v.map singleLine) (raw.map singleLine)

theorem Token.render_oneLine (t : Token) : t.oneLine.render = t.render.map singleLine := by
  cases t with
  | other b => rfl
  | string raw => simp [oneLine, render, show singleLine 34 = 34 from rfl]
  | name key w v =>
    simp [oneLine, render, show singleLine 34 = 34 from rfl, show singleLine 58 = 58 from rfl]
  | member key w v raw => simp [oneLine, render, map_openingText, show singleLine 34 = 34 from rfl]

theorem renderAll_oneLine (ts : List Token) :
    renderAll (ts.map Token.oneLine) = (renderAll ts).map singleLine := by
  unfold renderAll
  rw [List.flatMap_map, List.map_flatMap]
  exact congrArg (fun f => ts.flatMap f) (funext Token.render_oneLine)

theorem Token.Good.oneLine {t : Token} (h : t.Good) : t.oneLine.Good := by
  cases t with
  | other b => exact fun hb => h ((singleLine_eq_iff (by decide)).mp hb)
  | string raw => exact Escaped.map h
  | name key w v => exact ⟨h.1.map, map_spaces h.2.1, map_spaces h.2.2⟩
  | member key w v raw => exact ⟨⟨h.1.1.map, map_spaces h.1.2.1, map_spaces h.1.2.2⟩, h.2.map⟩

theorem Closes.map {rest : List UInt8} (h : Closes rest) : Closes (rest.map singleLine) := by
  intro b hb
  have hspace : isSpace ∘ singleLine = isSpace := funext isSpace_singleLine
  rw [List.dropWhile_map, hspace, List.head?_map] at hb
  obtain ⟨c, hc, rfl⟩ := Option.map_eq_some_iff.mp hb
  rcases h c hc with rfl | rfl | rfl
  · exact .inl rfl
  · exact .inr (.inl rfl)
  · exact .inr (.inr rfl)

theorem Token.Before.oneLine {t : Token} {rest : List UInt8} (h : t.Before rest) :
    t.oneLine.Before (rest.map singleLine) := by
  cases t with
  | other b => trivial
  | string raw => exact Closes.map h
  | name key w v =>
    intro b hb
    rw [List.head?_map] at hb
    obtain ⟨c, hc, rfl⟩ := Option.map_eq_some_iff.mp hb
    rw [isSpace_singleLine]
    exact ⟨fun hquote => (h c hc).1 ((singleLine_eq_iff (by decide)).mp hquote), (h c hc).2⟩
  | member key w v raw => exact Closes.map h

theorem Chain.oneLine {c : List UInt8} {ts : List Token} (h : Chain c ts) :
    Chain (c.map singleLine) (ts.map Token.oneLine) := by
  induction ts with
  | nil => trivial
  | cons t ts ih =>
    obtain ⟨hgood, hbefore, hchain⟩ := h
    refine ⟨hgood.oneLine, ?_, ih hchain⟩
    rw [renderAll_oneLine, ← List.map_append]
    exact hbefore.oneLine

theorem Alike.oneLine {t t' : Token} (h : Alike t t') : Alike t.oneLine t'.oneLine := by
  rcases h with rfl | ⟨key, w, v, raw, raw', rfl, rfl, hname, hlength, hdrop⟩
  · exact .inl rfl
  · refine .inr ⟨key, w.map singleLine, v.map singleLine, raw.map singleLine, raw'.map singleLine, ?_, ?_,
      hname, by simpa using hlength, ?_⟩
    · rw [Token.oneLine, map_names hname]
    · rw [Token.oneLine, map_names hname]
    · rw [dropWhile_map_quote, dropWhile_map_quote, hdrop]

theorem Remainder.map {c c' : List UInt8} (h : Remainder c c') :
    Remainder (c.map singleLine) (c'.map singleLine) := by
  rcases h with rfl | ⟨o, x, x', ho, rfl, rfl, hx⟩
  · exact .inl rfl
  · obtain ⟨u, w, v, hu, hw, hv, rfl⟩ := opening_reads.mp ho
    refine .inr ⟨(openingText u w v).map singleLine, x.map singleLine, x'.map singleLine, ?_,
      List.map_append, List.map_append, ?_⟩
    · rw [map_openingText, map_names hu]
      exact opening_reads.mpr ⟨u, _, _, hu, map_spaces hw, map_spaces hv, rfl⟩
    · rcases hx with ⟨hx, hx'⟩ | ⟨p, p', q, rfl, rfl, hp, hp'⟩
      · exact .inl ⟨not_mem_map hx, not_mem_map hx'⟩
      · refine .inr ⟨p.map singleLine, p'.map singleLine, q.map singleLine, ?_, ?_, not_mem_map hp,
          not_mem_map hp'⟩
        · rw [List.map_append, List.map_cons]
          rfl
        · rw [List.map_append, List.map_cons]
          rfl

/-- Alike texts stay alike in one line. -/
theorem Pair.map {a b : List UInt8} (h : Pair a b) : Pair (a.map singleLine) (b.map singleLine) := by
  obtain ⟨us, us', c, c', rfl, rfl, hc, hc', hus, hrest⟩ := h
  refine ⟨us.map Token.oneLine, us'.map Token.oneLine, c.map singleLine, c'.map singleLine, ?_, ?_,
    hc.oneLine, hc'.oneLine, ?_, hrest.map⟩
  · rw [List.map_append, renderAll_oneLine]
  · rw [List.map_append, renderAll_oneLine]
  · rw [List.forall₂_map_left_iff, List.forall₂_map_right_iff]
    exact hus.imp fun _ _ h => h.oneLine

/-- Alike texts are redacted alike. -/
theorem Pair.redact_eq {a b : List UInt8} (h : Pair a b) : redact a = redact b := by
  have hcut := h.cut_closed
  unfold cut closed at hcut
  rw [redact, hcut, redact]

end Mastermind.Agent.Redaction
