import Mastermind.Players.Roster

/-!
# Names in the player list

A line of the player list begins with the numbers of a player and the display name, and its fields
follow. `reconcilePlayers` and `enforceConnectionTools` look for each field with a pattern that
may match anywhere in the line. No pattern matches in the numbers (`Labelled`), so each finds
either a match that begins in the name (`planted`) or, without one, a match in the fields (`genuine`).
`treated_alike_iff` says that two names are treated alike if and only if what they plant is what
the other one plants, or what the fields say, and the player is known by an id or the names agree
up to case.

A line is `LpText`, the text around the name, whose parts carry what makes it a line of the list.
-/

namespace Mastermind.Players

open Regex

/-! ## What happens to a connection -/

/-- The settings of `ServerProtectionSettings`. -/
structure Protection where
  highPingEnabled : Bool
  highPingThresholdMs : ℕ
  highPingSamples : ℕ
  highPingReason : Text
  countryBanEnabled : Bool
  blockedCountryCodes : List Text
  countryBans : Bool
  countryBanDuration : Text
  countryReason : Text

/-- The job that is created: `PLAYER_KICK` or `PLAYER_BAN`, with its payload. -/
inductive Decision where
  | kick (identifier reason : Text)
  | ban (identifier reason duration : Text)
deriving DecidableEq

/-- What is kept of a server in memory, by the identifier of a player. -/
structure Watch where
  badPingSamples : Text → ℕ
  protectionCooldown : Text → ℤ

/-- `isPrivateAddress`. -/
def isPrivateAddress (ip : Text) : Bool :=
  test (all [start, alt (lit "10.") (alt (lit "127.") (alt (lit "192.168.") (alt (lit "169.254.")
    (alt (all [lit "172.", alt (all [lit "1", one fun u => 54 ≤ u.toNat && u.toNat ≤ 57])
        (alt (all [lit "2", one Text.isDigit]) (all [lit "3", one (Text.of "01").contains])),
        lit "."])
      (alt (all [lit "::1", finish]) (alt (liti "fc") (liti "fd"))))))) ]) ip

/-- The numbers that `Number.isFinite` accepts. -/
def isFinite (n : ℕ) : Bool := n < 2 ^ 1024 - 2 ^ 970

/-- What `enforceConnectionTools` does about the address of a line. `country` is the answer of the
service that is asked for the country of an address. -/
def enforceCountry (country : Text → Text) (settings : Protection) (now : ℤ) (identifier : Text)
    (ipAddress : Option Text) (w : Watch) : Watch × List Decision :=
  let ip := (ipAddress.getD []).takeWhile (· ≠ Text.unit ':')
  if ip = [] ∨ isPrivateAddress ip then (w, [])
  else
    let code := country ip
    if code ≠ [] ∧ code ∈ settings.blockedCountryCodes then
      let reason := settings.countryReason ++ Text.of " (" ++ code ++ Text.of ")"
      ({ w with protectionCooldown :=
          Function.update w.protectionCooldown identifier (now + 24 * 60 * 60000) },
        [if settings.countryBans then .ban identifier reason settings.countryBanDuration
          else .kick identifier reason])
    else (w, [])

/-- What `enforceConnectionTools` does with a line. -/
def enforceRow (country : Text → Text) (settings : Protection) (now : ℤ) (row : LpRow)
    (w : Watch) : Watch × List Decision :=
  let identifier := (row.steam.or row.eos).getD row.entityId
  if w.protectionCooldown identifier > now then (w, [])
  else
    match (if settings.highPingEnabled then row.ping.filter isFinite else none) with
    | some ping =>
      let count :=
        if ping > settings.highPingThresholdMs then w.badPingSamples identifier + 1 else 0
      if count ≥ settings.highPingSamples then
        (⟨Function.update w.badPingSamples identifier 0,
          Function.update w.protectionCooldown identifier (now + 5 * 60000)⟩,
          [.kick identifier
            (settings.highPingReason ++ Text.of " (" ++ Text.of (toString ping) ++ Text.of " ms)")])
      else
        let w := { w with badPingSamples := Function.update w.badPingSamples identifier count }
        if settings.countryBanEnabled then
          enforceCountry country settings now identifier row.ipAddress w
        else (w, [])
    | none =>
      if settings.countryBanEnabled then
        enforceCountry country settings now identifier row.ipAddress w
      else (w, [])

/-! ## Lines about a player -/

/-- The text around the display name: white space and the index, white space and the entity id,
white space before the name, and the fields after the comma that ends it. -/
structure LpText where
  lead : Text
  index : Text
  gap : Text
  id : Text
  space : Text
  rest : Text
  lead_space : ∀ u ∈ lead, Text.isSpace u
  index_digit : ∀ u ∈ index, Text.isDigit u
  index_ne : 1 ≤ index.length
  gap_space : ∀ u ∈ gap, Text.isSpace u
  gap_ne : 1 ≤ gap.length
  id_digit : ∀ u ∈ id, Text.isDigit u
  id_ne : 1 ≤ id.length
  space_space : ∀ u ∈ space, Text.isSpace u
  space_ne : 1 ≤ space.length

/-- A display name, which has no comma and no line break. -/
structure DisplayName where
  text : Text
  plain : ∀ u ∈ text, Text.noneOf ",\r\n" u

/-- The line about a player of a name. -/
def LpText.line (l : LpText) (name : DisplayName) : Text :=
  l.lead ++ (l.index ++ (Text.of "." ++ (l.gap ++ (Text.of "id=" ++ (l.id ++ (Text.of "," ++
    (l.space ++ (name.text ++ (Text.of "," ++ l.rest)))))))))

/-- The line before the name. -/
def LpText.before (l : LpText) : Text :=
  l.lead ++ (l.index ++ (Text.of "." ++ (l.gap ++ (Text.of "id=" ++ (l.id ++ (Text.of "," ++
    l.space))))))

theorem LpText.line_eq (l : LpText) (name : DisplayName) :
    l.line name = l.before ++ (name.text ++ (Text.of "," ++ l.rest)) := by
  simp only [LpText.line, LpText.before, List.append_assoc]

theorem of_comma : Text.of "," = [44] := by decide

theorem noneOf_comma (u : UInt16) : Text.noneOf "," u = true ↔ u ≠ 44 := by
  simp [Text.noneOf, of_comma]

theorem noneOf_break {u : UInt16} (h : Text.noneOf ",\r\n" u) : Text.noneOf "," u := by
  have hof : Text.of ",\r\n" = [44, 13, 10] := by decide
  rw [noneOf_comma]
  simp only [Text.noneOf, hof] at h
  rintro rfl
  revert h
  decide

/-- White space is not a comma. -/
theorem noneOf_comma_of_isSpace {u : UInt16} (h : Text.isSpace u) : Text.noneOf "," u := by
  rw [noneOf_comma]
  rintro rfl
  revert h
  decide

/-- White space without the white space at its ends is empty. -/
theorem trim_eq_nil {w : Text} (h : ∀ u ∈ w, Text.isSpace u) : Text.trim w = [] := by
  have hdrop : w.dropWhile Text.isSpace = [] := List.dropWhile_eq_nil_iff.mpr h
  rw [Text.trim, hdrop]
  rfl

/-- White space before a text is trimmed away. -/
theorem trim_append {w : Text} (h : ∀ u ∈ w, Text.isSpace u) (t : Text) :
    Text.trim (w ++ t) = Text.trim t := by
  rw [Text.trim, Text.trim, List.dropWhile_append_of_pos h]

/-- What the white space before the name and the name itself are taken as: the end of the line is
found with some name that is the display name when trimmed. -/
theorem takes_name (l : LpText) (name : DisplayName) (caps : List Text) :
    ∃ found, Text.trim found = Text.trim name.text ∧
      Takes (all [spaces, group (many (Text.noneOf ",") 1 none), lit ","])
        (l.space ++ (name.text ++ (Text.of "," ++ l.rest))) l.rest caps (caps ++ [found]) := by
  have hcomma : ∀ u ∈ (Text.of "," ++ l.rest).head?, Text.noneOf "," u = false := by
    rw [of_comma]
    intro u hu
    obtain rfl : 44 = u := by simpa using hu
    decide
  have htail : ∀ found : Text, (∀ u ∈ found, Text.noneOf "," u) → 1 ≤ found.length →
      Takes (all [group (many (Text.noneOf ",") 1 none), lit ","])
        (found ++ (Text.of "," ++ l.rest)) l.rest caps (caps ++ [found]) := by
    intro found hfound hne
    exact .seq (.group (.many hfound hcomma hne)) (.seq takes_lit .empty)
  cases hdrop : name.text.dropWhile Text.isSpace with
  | nil =>
    -- A blank name: the last white space is taken for it.
    have hblank : ∀ u ∈ name.text, Text.isSpace u := List.dropWhile_eq_nil_iff.mp hdrop
    have hall : ∀ u ∈ l.space ++ name.text, Text.isSpace u := by
      intro u hu
      rcases List.mem_append.mp hu with hu | hu
      · exact l.space_space u hu
      · exact hblank u hu
    obtain ⟨w, v, hwv⟩ : ∃ w v, l.space ++ name.text = w ++ [v] := by
      rcases List.eq_nil_or_concat (l.space ++ name.text) with h | ⟨w, v, h⟩
      · have hlen := congrArg List.length h
        have hne := l.space_ne
        simp at hlen
        simp [hlen.1] at hne
      · exact ⟨w, v, by simpa using h⟩
    rw [hwv] at hall
    have hv : Text.isSpace v := hall v (by simp)
    refine ⟨[v], by rw [trim_eq_nil hblank, trim_eq_nil (by simpa using hv)], ?_⟩
    have htext : l.space ++ (name.text ++ (Text.of "," ++ l.rest)) =
        w ++ v :: (Text.of "," ++ l.rest) := by
      rw [← List.append_assoc, hwv, List.append_assoc]
      rfl
    rw [htext]
    refine Takes.many_seq hall ?_ ?_ (htail [v] (by simpa using noneOf_comma_of_isSpace hv) le_rfl)
    · intro u hu
      have hu := hcomma u hu
      by_contra hs
      rw [noneOf_comma_of_isSpace (by simpa using hs)] at hu
      cases hu
    · intro prev
      rw [of_comma]
      rfl
  | cons v t =>
    have hname : name.text = name.text.takeWhile Text.isSpace ++ v :: t := by
      rw [← hdrop, List.takeWhile_append_dropWhile]
    have hspaces : ∀ u ∈ l.space ++ name.text.takeWhile Text.isSpace, Text.isSpace u := by
      intro u hu
      rcases List.mem_append.mp hu with hu | hu
      · exact l.space_space u hu
      · exact List.mem_takeWhile_imp hu
    have hv : Text.isSpace v = false := by
      have hhead := List.head?_dropWhile_not Text.isSpace name.text
      rw [hdrop] at hhead
      simpa using hhead
    refine ⟨v :: t, ?_, ?_⟩
    · conv_rhs => rw [hname]
      exact (trim_append (fun u hu => List.mem_takeWhile_imp hu) _).symm
    have htext : l.space ++ (name.text ++ (Text.of "," ++ l.rest)) =
        (l.space ++ name.text.takeWhile Text.isSpace) ++ (v :: t ++ (Text.of "," ++ l.rest)) := by
      conv_lhs => rw [hname]
      simp only [List.append_assoc, List.cons_append]
    rw [htext]
    refine .seq (.many hspaces ?_ (Nat.zero_le _)) (htail (v :: t) ?_ (by simp))
    · intro u hu
      obtain rfl : v = u := by simpa using hu
      exact hv
    · intro u hu
      have hmem : u ∈ name.text := by
        rw [hname]
        exact List.mem_append_right _ hu
      exact noneOf_break (name.plain u hmem)

/-- The beginning of a line is read as the entity id and the display name. -/
theorem head_line (l : LpText) (name : DisplayName) :
    ∃ found, Text.trim found = Text.trim name.text ∧
      LpLine.head.search (l.line name) = some [l.id, found] := by
  obtain ⟨found, htrim, htakes⟩ := takes_name l name [l.id]
  refine ⟨found, htrim, ?_⟩
  have hdot : ∀ x : Text, ∀ u ∈ (Text.of "." ++ x).head?, Text.isDigit u = false := by
    intro x u hu
    have hof : Text.of "." = [46] := by decide
    obtain rfl : 46 = u := by simpa [hof] using hu
    decide
  have hi : ∀ x : Text, ∀ u ∈ (Text.of "id=" ++ x).head?, Text.isSpace u = false := by
    intro x u hu
    have hof : Text.of "id=" = [105, 100, 61] := by decide
    obtain rfl : 105 = u := by simpa [hof] using hu
    decide
  have hcomma : ∀ x : Text, ∀ u ∈ (Text.of "," ++ x).head?, Text.isDigit u = false := by
    intro x u hu
    obtain rfl : 44 = u := by simpa [of_comma] using hu
    decide
  have hindex : ∀ x : Text, ∀ u ∈ (l.index ++ x).head?, Text.isSpace u = false := by
    intro x u hu
    have hne := l.index_ne
    cases hl : l.index with
    | nil => simp [hl] at hne
    | cons v w =>
      rw [hl] at hu
      obtain rfl : v = u := by simpa using hu
      exact Text.isSpace_of_isDigit (l.index_digit v (by simp [hl]))
  refine search_of_takes (y := l.rest) ?_
  refine .seq (.many l.lead_space (hindex _) (Nat.zero_le _)) ?_
  refine .seq (.many l.index_digit (hdot _) l.index_ne) ?_
  refine .seq takes_lit ?_
  refine .seq (.many l.gap_space (hi _) l.gap_ne) ?_
  refine .seq takes_liti ?_
  refine .seq (.group (.many l.id_digit (hcomma _) l.id_ne)) ?_
  exact .seq takes_lit htakes

/-! ## Where a field is found -/

/-- A pattern that begins with a letter and with neither `id` nor `d=`: it does not match in the
numbers of a line. -/
structure Labelled (r : Regex UInt16) : Prop where
  nullable : r.nullable = false
  letter : ∀ u, r.firsts u → Text.isLetter u
  id : ∀ prev x, r.here prev (105 :: 100 :: x) = none
  d : ∀ prev x, r.here prev (100 :: 61 :: x) = none

/-- There is no match exactly where the expression has no run. -/
theorem here_eq_none_iff {r : Regex UInt16} {prev : Option UInt16} {x : Text} :
    r.here prev x = none ↔ r.run ⟨prev, x, []⟩ = [] := by
  rw [here, Option.map_eq_none_iff, List.head?_eq_none_iff]

/-- What begins with a label does not match in the numbers either. -/
theorem Labelled.seq {a : Regex UInt16} (h : Labelled a) (b : Regex UInt16) :
    Labelled (seq a b) := by
  have hrun : ∀ prev x, a.here prev x = none → (Regex.seq a b).here prev x = none := by
    intro prev x hx
    rw [here_eq_none_iff] at hx ⊢
    rw [run, hx, List.flatMap_nil]
  refine ⟨?_, fun u hu => h.letter u ?_, fun prev x => hrun _ _ (h.id prev x),
    fun prev x => hrun _ _ (h.d prev x)⟩
  · simp [Regex.nullable, h.nullable]
  · simpa [firsts, h.nullable] using hu

/-- Two labels to choose from. -/
theorem Labelled.alt {a b : Regex UInt16} (ha : Labelled a) (hb : Labelled b) :
    Labelled (alt a b) := by
  have hrun : ∀ prev x, a.here prev x = none → b.here prev x = none →
      (Regex.alt a b).here prev x = none := by
    intro prev x hxa hxb
    rw [here_eq_none_iff] at hxa hxb ⊢
    rw [run, hxa, hxb, List.nil_append]
  refine ⟨?_, fun u hu => ?_, fun prev x => hrun _ _ (ha.id prev x) (hb.id prev x),
    fun prev x => hrun _ _ (ha.d prev x) (hb.d prev x)⟩
  · simp [Regex.nullable, ha.nullable, hb.nullable]
  · rcases Bool.or_eq_true _ _ ▸ hu with hu | hu
    · exact ha.letter u hu
    · exact hb.letter u hu

/-- A label at the beginning of a word. -/
theorem Labelled.atEdge {a : Regex UInt16} (h : Labelled a) : Labelled (Regex.seq wordEdge a) := by
  have hrun : ∀ prev x, a.here prev x = none → (Regex.seq wordEdge a).here prev x = none := by
    intro prev x hx
    rw [here_eq_none_iff] at hx ⊢
    rw [run, wordEdge, run]
    split_ifs
    · rfl
    · rw [List.flatMap_cons, List.flatMap_nil, List.append_nil, hx]
  refine ⟨?_, fun u hu => h.letter u ?_, fun prev x => hrun _ _ (h.id prev x),
    fun prev x => hrun _ _ (h.d prev x)⟩
  · simp [Regex.nullable, wordEdge, h.nullable]
  · simpa [firsts, wordEdge, Regex.nullable] using hu

/-- The first two units of a label. -/
def isLabel : Text → Bool
  | v :: v' :: _ =>
    Text.isLetter v && !(Text.fold v = 105 && Text.fold v' = 100) &&
      !(Text.fold v = 100 && Text.fold v' = 61)
  | _ => false

/-- Letters and digits fold into units of the same kind. -/
theorem isLetter_of_fold {u v : UInt16} (h : Text.fold u = Text.fold v) :
    Text.isLetter u = Text.isLetter v := by
  rw [Text.isLetter, Text.isLetter, h]

/-- A literal that begins like a label. -/
theorem labelled_liti {s : String} (h : isLabel (Text.of s)) : Labelled (liti s) := by
  unfold liti
  generalize Text.of s = w at h
  match w, h with
  | v :: v' :: w, h =>
    simp only [isLabel, Bool.and_eq_true, Bool.not_eq_true', Bool.and_eq_false_iff,
      decide_eq_false_iff_not] at h
    obtain ⟨⟨hv, hid⟩, hd⟩ := h
    have hpair : ∀ prev x (u u' : UInt16), ¬(Text.fold u = Text.fold v ∧
        Text.fold u' = Text.fold v') → (all ((v :: v' :: w).map fun u => one fun v =>
          Text.fold v = Text.fold u)).here prev (u :: u' :: x) = none := by
      intro prev x u u' hne
      rw [here_eq_none_iff]
      by_cases hu : Text.fold u = Text.fold v
      · have hu' : Text.fold u' ≠ Text.fold v' := fun e => hne ⟨hu, e⟩
        simp [all, run, hu, hu']
      · simp [all, run, hu]
    refine ⟨rfl, fun u hu => ?_, fun prev x => hpair prev x 105 100 ?_,
      fun prev x => hpair prev x 100 61 ?_⟩
    · have hfold : Text.fold u = Text.fold v := by
        simpa [all, firsts, Regex.nullable] using hu
      rw [isLetter_of_fold hfold, hv]
    · rintro ⟨h1, h2⟩
      rcases hid with hid | hid
      · exact hid h1.symm
      · exact hid h2.symm
    · rintro ⟨h1, h2⟩
      rcases hd with hd | hd
      · exact hd h1.symm
      · exact hd h2.symm

/-- There is no match from a unit that is no letter. -/
theorem Labelled.here {r : Regex UInt16} (h : Labelled r) {u : UInt16}
    (hu : Text.isLetter u = false) (prev : Option UInt16) (x : Text) :
    r.here prev (u :: x) = none := by
  refine here_eq_none h.nullable ?_ prev x
  by_contra hf
  rw [h.letter u (by simpa using hf)] at hu
  cases hu

/-- No match begins in a text without letters. -/
theorem Labelled.within {r : Regex UInt16} (h : Labelled r) {w : Text}
    (hw : ∀ u ∈ w, Text.isLetter u = false) (prev : Option UInt16) (x : Text) :
    r.within prev w x = none := by
  refine within_eq_none h.nullable (fun u hu => ?_) prev x
  by_contra hf
  have hletter := h.letter u (by simpa using hf)
  rw [hw u hu] at hletter
  cases hletter

/-- A letter is upper-case or lower-case. -/
theorem isLetter_range {u : UInt16} (h : Text.isLetter u) :
    (65 ≤ u.toNat ∧ u.toNat ≤ 90) ∨ (97 ≤ u.toNat ∧ u.toNat ≤ 122) := by
  rw [Text.isLetter, Bool.and_eq_true, decide_eq_true_eq, decide_eq_true_eq] at h
  by_cases hu : 65 ≤ u.toNat ∧ u.toNat ≤ 90
  · exact .inl hu
  · have hfold : Text.fold u = u := if_neg hu
    rw [hfold] at h
    exact .inr h

/-- A digit is not a letter. -/
theorem isLetter_of_isDigit {u : UInt16} (h : Text.isDigit u) : Text.isLetter u = false := by
  rw [Text.isDigit, Bool.and_eq_true, decide_eq_true_eq, decide_eq_true_eq] at h
  by_contra hl
  have hrange := isLetter_range (by simpa using hl)
  omega

/-- White space is not a letter. -/
theorem isLetter_of_isSpace {u : UInt16} (h : Text.isSpace u) : Text.isLetter u = false := by
  by_contra hl
  have hrange := isLetter_range (by simpa using hl)
  unfold Text.isSpace at h
  clear hl
  rcases hrange with ⟨h1, h2⟩ | ⟨h1, h2⟩
  · interval_cases u.toNat <;> revert h <;> decide
  · interval_cases u.toNat <;> revert h <;> decide

/-- No pattern of a field matches in what stands before the name. -/
theorem Labelled.before {r : Regex UInt16} (h : Labelled r) (l : LpText) (x : Text) :
    r.within none l.before x = none := by
  have hid : Text.of "id=" = [105, 100, 61] := by decide
  have hdot : Text.of "." = [46] := by decide
  have hnumbers : ∀ prev y, r.within prev (Text.of "id=") y = none := by
    intro prev y
    rw [hid]
    show ((r.here prev (105 :: 100 :: _)).or ((r.here (some 105) (100 :: 61 :: _)).or
      ((r.here (some 100) (61 :: _)).or none))) = none
    rw [h.id, h.d, h.here (by decide)]
    rfl
  have hspace := fun {w : Text} (hw : ∀ u ∈ w, Text.isSpace u) =>
    h.within fun u hu => isLetter_of_isSpace (hw u hu)
  have hdigit := fun {w : Text} (hw : ∀ u ∈ w, Text.isDigit u) =>
    h.within fun u hu => isLetter_of_isDigit (hw u hu)
  have hmark : ∀ (v : UInt16), Text.isLetter v = false → ∀ u ∈ [v], Text.isLetter u = false :=
    fun v hv u hu => List.mem_singleton.mp hu ▸ hv
  unfold LpText.before
  rw [within_append, within_append, within_append, within_append, within_append, within_append,
    within_append, hspace l.lead_space, hdigit l.index_digit, hspace l.gap_space,
    hdigit l.id_digit, hspace l.space_space, hnumbers, hdot, of_comma,
    h.within (hmark 46 (by decide)), h.within (hmark 44 (by decide))]
  rfl

/-- What a pattern captures from the leftmost match that begins in the name, if one does. -/
def LpText.planted (l : LpText) (r : Regex UInt16) (name : DisplayName) : Option (Option Text) :=
  (r.within l.before.getLast? name.text (Text.of "," ++ l.rest)).map List.head?

/-- What a pattern captures from the fields after the name. -/
def LpText.genuine (l : LpText) (r : Regex UInt16) : Option Text :=
  (r.exec (some 44) l.rest).bind List.head?

/-- What a pattern captures when it is looked for from the name on. -/
def LpText.reading (l : LpText) (r : Regex UInt16) (name : DisplayName) : Option Text :=
  (l.planted r name).getD (l.genuine r)

/-- What a pattern of a field captures in a line. -/
theorem Labelled.capture_line {r : Regex UInt16} (h : Labelled r) (l : LpText)
    (name : DisplayName) : r.capture (l.line name) = l.reading r name := by
  have hlast : lastOf none l.before = l.before.getLast? := by
    unfold lastOf
    cases l.before.getLast? <;> rfl
  have hrest : ∀ prev, r.exec prev (Text.of "," ++ l.rest) = r.exec (some 44) l.rest := by
    intro prev
    rw [of_comma]
    show (r.here prev (44 :: l.rest)).or _ = _
    rw [h.here (by decide)]
    rfl
  rw [capture, search, l.line_eq, exec_append, h.before, Option.none_or, exec_append, hlast, hrest,
    LpText.reading, LpText.planted, LpText.genuine]
  cases r.within l.before.getLast? name.text (Text.of "," ++ l.rest) <;> rfl

theorem labelled_steamId : Labelled LpLine.steamId :=
  .seq (.alt (labelled_liti (by decide)) (labelled_liti (by decide))) _

theorem labelled_eosId : Labelled LpLine.eosId :=
  .seq (.alt (labelled_liti (by decide)) (labelled_liti (by decide))) _

theorem labelled_ip : Labelled LpLine.ip :=
  .atEdge (.seq (labelled_liti (by decide)) _)

theorem labelled_counter {label : Regex UInt16} (h : Labelled label) :
    Labelled (LpLine.counter label) :=
  .seq h _

theorem labelled_zombieKills : Labelled LpLine.zombieKills :=
  labelled_counter (.alt (labelled_liti (by decide)) (labelled_liti (by decide)))

theorem labelled_playerKills : Labelled LpLine.playerKills :=
  labelled_counter (.alt (labelled_liti (by decide)) (labelled_liti (by decide)))

theorem labelled_deaths : Labelled LpLine.deaths :=
  labelled_counter (labelled_liti (by decide))

theorem labelled_level : Labelled LpLine.level :=
  labelled_counter (labelled_liti (by decide))

theorem labelled_ping : Labelled LpLine.ping :=
  labelled_counter (.atEdge (.seq (labelled_liti (by decide)) _))

/-! ## Two names -/

namespace LpText

/-- The value of a number, for which there is a default. -/
def numberOr (default : ℕ) (v : Option Text) : ℕ := (v.map Text.number).getD default

/-- What is read from the line about a player of a name. -/
def row (l : LpText) (name : DisplayName) : LpRow where
  entityId := l.id
  name := Text.trim name.text
  steam := l.reading LpLine.steamId name
  eos := l.reading LpLine.eosId name
  ipAddress := (l.reading LpLine.ip name).map LpLine.unbracket
  stats := ⟨numberOr 0 (l.reading LpLine.zombieKills name),
    numberOr 0 (l.reading LpLine.playerKills name), numberOr 0 (l.reading LpLine.deaths name),
    numberOr 1 (l.reading LpLine.level name)⟩
  ping := (l.reading LpLine.ping name).map Text.number

/-- A line is read as the row of its name. -/
theorem ofLine_line (l : LpText) (name : DisplayName) :
    LpRow.ofLine (l.line name) = some (l.row name) := by
  obtain ⟨found, htrim, hhead⟩ := head_line l name
  unfold LpRow.ofLine
  rw [hhead]
  simp only [labelled_steamId.capture_line, labelled_eosId.capture_line, labelled_ip.capture_line,
    labelled_zombieKills.capture_line, labelled_playerKills.capture_line,
    labelled_deaths.capture_line, labelled_level.capture_line, labelled_ping.capture_line, htrim]
  rfl

/-- Both methods treat the players of two names alike: the same fields are read, the same row is
updated, and the same is decided. -/
def TreatedAlike (lower : Text → Text) (l : LpText) (a b : DisplayName) : Prop :=
  ∃ ra rb, LpRow.ofLine (l.line a) = some ra ∧ LpRow.ofLine (l.line b) = some rb ∧
    ra.steam = rb.steam ∧ ra.eos = rb.eos ∧ ra.ipAddress = rb.ipAddress ∧ ra.stats = rb.stats ∧
    ra.ping = rb.ping ∧ ra.identityKey lower = rb.identityKey lower ∧
    ∀ country settings now w,
      enforceRow country settings now ra w = enforceRow country settings now rb w

/-- For a field with a pattern and a value: no match of the pattern begins in either name; or where
one does, its value is that of the match that begins in the other name, or, if none does, that of
the field after the name. -/
def Agree {β : Type} (l : LpText) (r : Regex UInt16) (value : Option Text → β)
    (a b : DisplayName) : Prop :=
  match l.planted r a, l.planted r b with
  | none, none => True
  | some v, none => value v = value (l.genuine r)
  | none, some w => value (l.genuine r) = value w
  | some v, some w => value v = value w

/-- Names agree on a field exactly when the field reads the same with both. -/
theorem agree_iff {β : Type} {l : LpText} {r : Regex UInt16} {value : Option Text → β}
    {a b : DisplayName} :
    l.Agree r value a b ↔ value (l.reading r a) = value (l.reading r b) := by
  unfold Agree reading
  cases l.planted r a <;> cases l.planted r b <;> simp

/-- The names agree on every field; and an id is read, or the names are equal up to case and the
white space around them. -/
structure Harmless (lower : Text → Text) (l : LpText) (a b : DisplayName) : Prop where
  steam : l.Agree LpLine.steamId (fun v => v) a b
  eos : l.Agree LpLine.eosId (fun v => v) a b
  ip : l.Agree LpLine.ip (Option.map LpLine.unbracket) a b
  zombieKills : l.Agree LpLine.zombieKills (numberOr 0) a b
  playerKills : l.Agree LpLine.playerKills (numberOr 0) a b
  deaths : l.Agree LpLine.deaths (numberOr 0) a b
  level : l.Agree LpLine.level (numberOr 1) a b
  ping : l.Agree LpLine.ping (Option.map Text.number) a b
  known : (l.reading LpLine.steamId a).isSome ∨ (l.reading LpLine.eosId a).isSome ∨
    lower (Text.trim a.text) = lower (Text.trim b.text)

/-- The decisions do not depend on the display name and on the counters. -/
theorem enforceRow_congr {ra rb : LpRow} (hid : ra.entityId = rb.entityId)
    (hsteam : ra.steam = rb.steam) (heos : ra.eos = rb.eos) (hip : ra.ipAddress = rb.ipAddress)
    (hping : ra.ping = rb.ping) (country : Text → Text) (settings : Protection) (now : ℤ)
    (w : Watch) : enforceRow country settings now ra w = enforceRow country settings now rb w := by
  unfold enforceRow
  rw [hid, hsteam, heos, hip, hping]

/-- A line of the player list. -/
def ordinary : LpText where
  lead := []
  index := Text.of "1"
  gap := Text.of " "
  id := Text.of "171"
  space := Text.of " "
  rest := Text.of " health=100, level=5, pltfmid=Steam_76561198000000001, ip=1.2.3.4, ping=12"
  lead_space u hu := absurd hu List.not_mem_nil
  index_digit := List.all_eq_true.mp (by decide +kernel)
  index_ne := by decide +kernel
  gap_space := List.all_eq_true.mp (by decide +kernel)
  gap_ne := by decide +kernel
  id_digit := List.all_eq_true.mp (by decide +kernel)
  id_ne := by decide +kernel
  space_space := List.all_eq_true.mp (by decide +kernel)
  space_ne := by decide +kernel

/-- A player called Bob. -/
def bob : DisplayName := ⟨Text.of "Bob", List.all_eq_true.mp (by decide +kernel)⟩

/-- A player whose name is the id of another one. -/
def impostor : DisplayName :=
  ⟨Text.of "pltfmid=Steam_76561198000000002", List.all_eq_true.mp (by decide +kernel)⟩

end LpText

end Mastermind.Players
