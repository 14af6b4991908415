import Mastermind.Web.PlayerValues

/-!
# The land claims that the live map shows

`claims_read_iff` says which documents are read as what they say. The expression for land claims
takes those in plain form (`LandClaim.Plain.here`) and no others (`LandClaim.plain_of_here`), so
that the route returns one entry for each of them, with what the start tag of the player shows
(`Document.Laid.claimsLive_eq`). `userid_misread` is a document that is misread: with `nativeuserid`
before `userid`, the expression for `userid` matches inside the longer name.
-/

namespace Mastermind.LiveMap

open Regex Text

section Claims

theorem LandClaim.Plain.text_eq {c : LandClaim} (h : c.Plain) :
    c.text = of "<lpblock" ++ (c.layout.lead ++ (of "pos=\"" ++ (c.x.text ++ (of "," ++ (c.y.text ++
      (of "," ++ (c.z.text ++ (of "\"" ++ (c.trail ++ of "/>"))))))))) := by
  obtain ⟨hbefore, ⟨hbeforeEq, hafterEq, hsingle⟩, hafter, hempty⟩ := h
  simp only [LandClaim.text, LandClaim.pos, Layout.write, Layout.quote, hbefore, hbeforeEq,
    hafterEq, hsingle, hafter, hempty, List.flatMap_nil, List.append_nil, List.append_assoc,
    if_true, List.cons_append]
  rfl

theorem Coordinate.units {c : Coordinate} {u : UInt16} (h : u ∈ c.text) :
    u = 45 ∨ isDigit u = true := by
  rcases List.mem_append.mp h with h | h
  · cases hneg : c.negative with
    | false => simp [hneg] at h
    | true => exact Or.inl (by simpa [hneg] using h)
  · exact Or.inr (c.digits_units u h)

/-- `(-?\d+)` takes a coordinate, and captures it. -/
theorem takes_signed (c : Coordinate) {rest : Text} (hrest : ∀ u ∈ rest.head?, isDigit u = false)
    (caps : List Text) : Takes signed (c.text ++ rest) rest caps (caps ++ [c.text]) := by
  have hdigits : Takes digits (c.digits ++ rest) rest caps caps :=
    .many c.digits_units hrest (List.length_pos_of_ne_nil c.digits_ne)
  refine Takes.group (Takes.seq ?_ hdigits)
  cases hneg : c.negative with
  | true =>
    simp only [Coordinate.text, hneg, if_true]
    exact .optional_one (by decide)
  | false =>
    have htext : c.text = c.digits := by simp [Coordinate.text, hneg]
    rw [htext]
    obtain ⟨d, ds, hd⟩ := List.exists_cons_of_ne_nil c.digits_ne
    refine .optional_empty fun u hu => ?_
    have hu : d = u := by simpa [hd] using hu
    have hdigit := c.digits_units u (by simp [hd, hu])
    by_contra h
    have hminus : u = 45 := by simpa using h
    rw [hminus] at hdigit
    exact absurd hdigit (by decide)

/-- A land claim in plain form is what the expression takes. -/
theorem LandClaim.Plain.here {c : LandClaim} (h : c.Plain) (rest : Text) :
    blockHere (c.text ++ rest) = some ([c.x.text, c.y.text, c.z.text], c.text.length) := by
  have hlead : ∀ u ∈ c.layout.lead, isSpace u = true := fun u hu =>
    isSpace_of_isXmlSpace (c.layout.lead_spaces u hu)
  have htrail : ∀ u ∈ c.trail, isSpace u = true := fun u hu =>
    isSpace_of_isXmlSpace (c.trail_spaces u hu)
  have hlength := List.length_pos_of_ne_nil c.layout.lead_ne
  have htakes : Takes blockPattern (c.text ++ rest) rest [] [c.x.text, c.y.text, c.z.text] := by
    rw [h.text_eq]
    simp only [List.append_assoc]
    have hcomma : ∀ (c : Coordinate) (rest : Text) (caps : List Text),
        Takes signed (c.text ++ (of "," ++ rest)) (of "," ++ rest) caps (caps ++ [c.text]) :=
      fun c rest caps => takes_signed c (by simp [of, Text.unit, isDigit]) caps
    have hquote : ∀ (rest : Text) (caps : List Text), Takes signed (c.z.text ++ (of "\"" ++ rest))
        (of "\"" ++ rest) caps (caps ++ [c.z.text]) :=
      fun rest caps => takes_signed c.z (by simp [of, Text.unit, isDigit]) caps
    exact .seq takes_lit (.seq (.many hlead (by simp [of, Text.unit, isSpace, isJsSpace]) hlength)
      (.seq takes_lit (.seq (hcomma c.x _ _) (.seq takes_lit (.seq (hcomma c.y _ _) (.seq takes_lit
      (.seq (hquote _ _) (.seq takes_lit
        (.seq (.many htrail (by simp [of, Text.unit, isSpace, isJsSpace]) (Nat.zero_le _))
          (.seq takes_lit .empty))))))))))
  obtain ⟨prev, hrun⟩ := htakes none
  rw [blockHere, hrun]
  simp

/-- A coordinate is the number that is written. -/
theorem numberOf_text (c : Coordinate) : numberOf c.text = c.value := by
  cases hneg : c.negative with
  | true => simp [Coordinate.text, Coordinate.value, hneg, numberOf]
  | false =>
    obtain ⟨d, ds, hd⟩ := List.exists_cons_of_ne_nil c.digits_ne
    have hdigit := c.digits_units d (by simp [hd])
    have hvalue : c.value = number (d :: ds) := by simp [Coordinate.value, hneg, hd]
    have htext : c.text = d :: ds := by simp [Coordinate.text, hneg, hd]
    rw [htext, hvalue]
    unfold numberOf
    split
    · next heq =>
      rw [(List.cons.inj heq).1] at hdigit
      exact absurd hdigit (by decide)
    · rfl

/-- No markup begins in a value. -/
theorem Attribute.lt_not_mem_raw (a : Attribute) : 60 ∉ a.raw := by
  intro hmem
  obtain ⟨piece, hpiece, hmem⟩ := List.mem_flatMap.mp hmem
  cases piece with
  | unit u => exact (a.legal u hpiece).1 (List.mem_singleton.mp hmem).symm
  | entity e => cases e <;> exact absurd hmem (by decide)
  | character digits c =>
    have hdigits : 60 ∈ digits := by
      simpa [Piece.text, of, Text.unit] using hmem
    rcases a.denotes digits c hpiece with ⟨-, hall, -⟩ | ⟨hex, rfl, -, hall, -⟩
    · exact absurd (hall 60 hdigits) (by decide)
    · rcases List.mem_cons.mp hdigits with h | h
      · exact absurd h (by decide)
      · exact absurd (hall 60 h) (by decide)

/-- No markup begins in an attribute. -/
theorem lt_not_mem_write {layout : Layout} {name raw : Text} (hname : 60 ∉ name) (hraw : 60 ∉ raw) :
    60 ∉ layout.write name raw := by
  intro hmem
  rcases Layout.mem_write hmem with h | h | h | h | h
  · exact absurd h (by decide)
  · exact hname h
  · exact absurd h (by decide)
  · rcases layout.quote_eq with hq | hq <;> rw [hq] at h <;> exact absurd h (by decide)
  · exact hraw h

theorem Attribute.lt_not_mem (a : Attribute) : 60 ∉ a.text :=
  lt_not_mem_write (fun h => (a.name_units 60 h).2.1 rfl) a.lt_not_mem_raw

theorem lt_not_mem_attributes (attributes : List Attribute) :
    60 ∉ attributes.flatMap Attribute.text := by
  intro hmem
  obtain ⟨a, -, hmem⟩ := List.mem_flatMap.mp hmem
  exact a.lt_not_mem hmem

/-- No markup begins in what is left of a start tag. -/
theorem Player.lt_not_mem_spill (p : Player) : 60 ∉ p.spill := by
  intro hmem
  have hmem := (List.dropWhile_sublist _).subset (List.mem_of_mem_tail hmem)
  rcases List.mem_append.mp hmem with hmem | hmem
  · rcases List.mem_append.mp hmem with hmem | hmem
    · exact lt_not_mem_attributes _ hmem
    · exact absurd (p.trail_spaces 60 hmem) (by decide)
  · exact absurd hmem (by decide)

theorem LandClaim.lt_not_mem_pos (c : LandClaim) : 60 ∉ c.pos := by
  have hcoordinate : ∀ c : Coordinate, 60 ∉ c.text := fun c h =>
    (Coordinate.units h).elim (fun h => absurd h (by decide)) fun h => absurd h (by decide)
  simp [LandClaim.pos, hcoordinate]

/-- The tag of a land claim after its name, up to the last letters. -/
def LandClaim.inner (c : LandClaim) : Text :=
  c.before.flatMap Attribute.text ++ c.layout.write (of "pos") c.pos ++
    c.after.flatMap Attribute.text ++ c.trail

theorem LandClaim.lt_not_mem_inner (c : LandClaim) : 60 ∉ c.inner := by
  have hpos := @lt_not_mem_write c.layout (of "pos") c.pos (by decide) c.lt_not_mem_pos
  have htrail : 60 ∉ c.trail := fun h => absurd (c.trail_spaces 60 h) (by decide)
  simp only [LandClaim.inner, List.mem_append, not_or]
  exact ⟨⟨⟨lt_not_mem_attributes _, hpos⟩, lt_not_mem_attributes _⟩, htrail⟩

/-- How the tag of a land claim ends. -/
def LandClaim.close (c : LandClaim) : Text := if c.emptyTag then of "/>" else of ">"

theorem LandClaim.text_eq (c : LandClaim) :
    c.text = (60 :: (of "lpblock" ++ (c.inner ++ c.close))) ++
      (if c.emptyTag then [] else of "</lpblock>") := by
  cases hempty : c.emptyTag <;>
    simp only [LandClaim.text, LandClaim.inner, LandClaim.close, hempty, List.append_assoc,
      List.cons_append] <;> rfl

/-- Where a property only fails at certain tags, it holds in a land claim that is not one of
them. -/
theorem LandClaim.clear {P : Text → Prop} (hP : OffMarkup P) (c : LandClaim)
    (hopen : ∀ rest, P (of "<lpblock" ++ (c.inner ++ (c.close ++ rest))))
    (hclose : ∀ rest, P (of "</lpblock>" ++ rest)) : Clear P c.text := by
  have htag : Clear P (60 :: (of "lpblock" ++ (c.inner ++ c.close))) := by
    refine hP.markup (fun rest => ?_) fun u hu h => ?_
    · have hrest := hopen rest
      rw [← List.append_assoc c.inner] at hrest
      rw [List.append_assoc]
      exact hrest
    · rw [h] at hu
      have hend : 60 ∉ c.close := by
        unfold LandClaim.close
        split_ifs <;> decide
      rcases List.mem_append.mp hu with h | h
      · exact absurd h (by decide)
      · exact (List.mem_append.mp h).elim c.lt_not_mem_inner hend
  rw [c.text_eq]
  refine htag.append ?_
  split_ifs
  · intro v hv hne
    exact absurd (List.suffix_nil.mp hv) hne
  · refine hP.markup hclose fun u hu h => ?_
    rw [h] at hu
    exact absurd hu (by decide)

theorem LandClaim.clear_ends (c : LandClaim) : Clear (fun text => ¬ Ends text) c.text := by
  refine c.clear offMarkup_ends (fun rest => ?_) fun rest => ?_
  · rintro ⟨tail, heq⟩
    exact absurd (List.cons.inj (List.cons.inj heq).2).1 (by decide)
  · rintro ⟨tail, heq⟩
    exact absurd (List.cons.inj (List.cons.inj (List.cons.inj heq).2).2).1 (by decide)

theorem dropWhile_spaces {a : Text} (ha : ∀ u ∈ a, isSpace u = true) {x : UInt16}
    (hx : isSpace x = false) (rest : Text) : (a ++ x :: rest).dropWhile isSpace = x :: rest := by
  rw [List.dropWhile_append_of_pos ha, List.dropWhile_cons_of_neg (by simp [hx])]

/-- What the expression for land claims takes, read backwards. -/
theorem blockHere_reads {text : Text} (h : blockHere text ≠ none) :
    ∃ s value s' rest, (∀ u ∈ s, isSpace u = true) ∧ 34 ∉ value ∧ (∀ u ∈ s', isSpace u = true) ∧
      text = of "<lpblock" ++
        (s ++ (of "pos=\"" ++ (value ++ 34 :: (s' ++ (of "/>" ++ rest))))) := by
  cases hd : (blockPattern.run ⟨none, text, []⟩).head? with
  | none => simp [blockHere, hd] at h
  | some d =>
    obtain ⟨u, hu, htext⟩ := run_reads blockPattern (List.mem_of_mem_head? hd)
    obtain ⟨_, _, h1, ⟨s, _, ⟨-, hs⟩, ⟨_, _, h2, ⟨x, _, hx, ⟨_, _, h3, ⟨y, _, hy, ⟨_, _, h4,
      ⟨z, _, hz, ⟨_, _, h5, ⟨s', _, ⟨-, hs'⟩, ⟨_, _, h6, h7, rfl⟩, rfl⟩, rfl⟩, rfl⟩, rfl⟩, rfl⟩,
      rfl⟩, rfl⟩, rfl⟩, rfl⟩, rfl⟩ := hu
    rw [reads_lit.mp h1, reads_lit.mp h2, reads_lit.mp h3, reads_lit.mp h4, reads_lit.mp h5,
      reads_lit.mp h6, show _ = [] from h7] at htext
    have hsigned : ∀ w, signed.Reads w → 34 ∉ w := by
      rintro w ⟨a, b, ⟨-, ha⟩, ⟨-, hb⟩, rfl⟩ hmem
      rcases List.mem_append.mp hmem with hmem | hmem
      · exact absurd (ha 34 hmem) (by decide)
      · exact absurd (hb 34 hmem) (by decide)
    refine ⟨s, x ++ (of "," ++ (y ++ (of "," ++ z))), s', d.rest, hs, ?_, hs', ?_⟩
    · simp [hsigned x hx, hsigned y hy, hsigned z hz, of, Text.unit]
    · simpa [of, Text.unit] using htext

/-- An attribute after the white space before it. -/
theorem Layout.dropWhile_write (layout : Layout) {name : Text} {x : UInt16} {xs : Text}
    (hname : name = x :: xs) (hx : isSpace x = false) (raw rest : Text) :
    (layout.write name raw ++ rest).dropWhile isSpace =
      name ++ (layout.beforeEq ++ 61 :: (layout.afterEq ++ layout.quote :: (raw ++
        layout.quote :: rest))) := by
  have hlead : ∀ u ∈ layout.lead, isSpace u = true := fun u hu =>
    isSpace_of_isXmlSpace (layout.lead_spaces u hu)
  have htext : layout.write name raw ++ rest = layout.lead ++ x :: (xs ++ (layout.beforeEq ++
      61 :: (layout.afterEq ++ layout.quote :: (raw ++ layout.quote :: rest)))) := by
    simp [Layout.write, hname]
  rw [htext, dropWhile_spaces hlead hx, hname, List.cons_append]

theorem not_isSpace_of_not_isStop {u : UInt16} (h : isStop u = false) : isSpace u = false := by
  by_contra hspace
  rw [isStop_of_isSpace (by simpa using hspace)] at h
  cases h

/-- The name of an attribute ends at white space or `=`. -/
theorem takeWhile_name {name space : Text} (hname : ∀ u ∈ name, isSpace u = false ∧ u ≠ 61)
    (hspace : ∀ u ∈ space, isXmlSpace u = true) {rest : Text} :
    (name ++ (space ++ 61 :: rest)).takeWhile (fun u => !isSpace u && decide (u ≠ 61)) = name := by
  have hall : ∀ u ∈ name, (!isSpace u && decide (u ≠ 61)) = true := fun u hu => by
    simp [(hname u hu).1, (hname u hu).2]
  rw [List.takeWhile_append_of_pos hall]
  cases space with
  | nil => simp
  | cons u space =>
    have hu := isSpace_of_isXmlSpace (hspace u List.mem_cons_self)
    simp [hu]

/-- White space before `=` or a quote is not that. -/
theorem spaces_eq_nil {a x y : Text} {u : UInt16} (ha : ∀ v ∈ a, isXmlSpace v = true)
    (hu : isXmlSpace u = false) (h : a ++ x = u :: y) : a = [] := by
  cases a with
  | nil => rfl
  | cons v a =>
    have hv := ha v List.mem_cons_self
    rw [(List.cons.inj h).1, hu] at hv
    cases hv

theorem LandClaim.quote_not_mem_pos (c : LandClaim) : 34 ∉ c.pos := by
  have hcoordinate : ∀ c : Coordinate, 34 ∉ c.text := fun c h =>
    (Coordinate.units h).elim (fun h => absurd h (by decide)) fun h => absurd h (by decide)
  simp [LandClaim.pos, hcoordinate]

/-- An attribute that a text with `pos=` begins with is called `pos`. -/
theorem Attribute.name_eq_pos {a : Attribute} {after tail : Text}
    (h : (a.layout.write a.name a.raw ++ after).dropWhile isSpace = of "pos" ++ 61 :: tail) :
    a.name = of "pos" := by
  obtain ⟨x, xs, hx⟩ := List.exists_cons_of_ne_nil a.name_ne
  have hxspace := not_isSpace_of_not_isStop (a.name_units x (by simp [hx])).1
  rw [a.layout.dropWhile_write hx hxspace] at h
  have hunits : ∀ u ∈ a.name, isSpace u = false ∧ u ≠ 61 := fun u hu =>
    ⟨not_isSpace_of_not_isStop (a.name_units u hu).1, (a.name_units u hu).2.2.1⟩
  have hspaces : ∀ u ∈ a.layout.beforeEq, isXmlSpace u = true := fun u hu =>
    a.layout.eq_spaces u (List.mem_append_left _ hu)
  rw [← takeWhile_name hunits hspaces, h]
  exact @takeWhile_name (of "pos") [] (by simp [of, Text.unit, isSpace, isJsSpace]) (by simp) _

/-- A land claim whose tag ends with `/>` behind some white space has no further attribute. -/
theorem LandClaim.ended_of_slash {c : LandClaim} {rest tail : Text}
    (h : (c.after.flatMap Attribute.text ++ (c.trail ++ (c.close ++ rest))).dropWhile isSpace =
      47 :: tail) : c.after = [] ∧ c.emptyTag = true := by
  have hafter : c.after = [] := by
    cases hafter : c.after with
    | nil => rfl
    | cons a after =>
      obtain ⟨x, xs, hx⟩ := List.exists_cons_of_ne_nil a.name_ne
      have hstop := (a.name_units x (by simp [hx])).1
      rw [hafter, List.flatMap_cons, List.append_assoc, Attribute.text,
        a.layout.dropWhile_write hx (not_isSpace_of_not_isStop hstop), hx] at h
      rw [(List.cons.inj h).1] at hstop
      exact absurd hstop (by decide)
  refine ⟨hafter, ?_⟩
  by_contra hopen
  have hclose : c.close = [62] := by
    rw [LandClaim.close, if_neg hopen]
    rfl
  have htrail : ∀ u ∈ c.trail, isSpace u = true := fun u hu =>
    isSpace_of_isXmlSpace (c.trail_spaces u hu)
  rw [hafter, hclose, List.flatMap_nil, List.nil_append, List.singleton_append,
    dropWhile_spaces htrail isSpace_gt] at h
  exact absurd (List.cons.inj h).1 (by decide)

/-- The expression takes no land claim that is not in plain form. -/
theorem LandClaim.plain_of_here {c : LandClaim} {rest : Text}
    (h : blockHere (of "<lpblock" ++ (c.inner ++ (c.close ++ rest))) ≠ none) : c.Plain := by
  obtain ⟨s, value, s', tail, hs, hvalue, hs', htext⟩ := blockHere_reads h
  have htext := congrArg (List.dropWhile isSpace) (List.append_cancel_left htext)
  -- both texts begin with white space, and the expression goes on with `pos="`
  have hpos : isSpace 112 = false := by simp [isSpace, isJsSpace]
  rw [show of "pos=\"" ++ (value ++ 34 :: (s' ++ (of "/>" ++ tail))) =
    112 :: (of "os" ++ (61 :: 34 :: (value ++ 34 :: (s' ++ 47 :: 62 :: tail)))) from rfl,
    dropWhile_spaces hs hpos] at htext
  cases hbefore : c.before with
  | cons a before =>
    -- the first attribute would have to be called `pos` as well
    have hinner : c.inner ++ (c.close ++ rest) = a.layout.write a.name a.raw ++
        (before.flatMap Attribute.text ++ (c.layout.write (of "pos") c.pos ++
          (c.after.flatMap Attribute.text ++ (c.trail ++ (c.close ++ rest))))) := by
      simp only [LandClaim.inner, hbefore, List.flatMap_cons, List.append_assoc, Attribute.text]
    rw [hinner] at htext
    exact absurd (Attribute.name_eq_pos htext) (c.unique a (by simp [hbefore]))
  | nil =>
    have hinner : c.inner ++ (c.close ++ rest) = c.layout.write (of "pos") c.pos ++
        (c.after.flatMap Attribute.text ++ (c.trail ++ (c.close ++ rest))) := by
      simp only [LandClaim.inner, hbefore, List.flatMap_nil, List.nil_append, List.append_assoc]
    have hname : of "pos" = 112 :: of "os" := rfl
    rw [hinner, c.layout.dropWhile_write hname hpos] at htext
    have htext := @List.append_cancel_left _ (of "pos") _ _ htext
    -- `=` and the quote follow at once, so that there is no white space around `=`
    have hbeforeEq := spaces_eq_nil
      (fun u hu => c.layout.eq_spaces u (List.mem_append_left _ hu)) (by decide) htext
    rw [hbeforeEq, List.nil_append] at htext
    have htext := (List.cons.inj htext).2
    have hafterEq := spaces_eq_nil
      (fun u hu => c.layout.eq_spaces u (List.mem_append_right _ hu)) (by decide) htext
    rw [hafterEq, List.nil_append] at htext
    have hquote := (List.cons.inj htext).1
    have hsingle : c.layout.single = false := by
      by_contra h
      rw [Layout.quote, if_pos (by simpa using h)] at hquote
      exact absurd hquote (by decide)
    rw [hquote] at htext
    -- behind the value there are only white space and the end of the tag
    have htail := (Scan.append_cons_inj c.quote_not_mem_pos hvalue (List.cons.inj htext).2).2
    have htail := congrArg (List.dropWhile isSpace) htail
    rw [dropWhile_spaces hs' isSpace_slash] at htail
    obtain ⟨hafter, hempty⟩ := LandClaim.ended_of_slash htail
    exact ⟨hbefore, ⟨hbeforeEq, hafterEq, hsingle⟩, hafter, hempty⟩

theorem LandClaim.clear_blockHere {c : LandClaim} (h : ¬ c.Plain) :
    Clear (fun text => blockHere text = none) c.text := by
  refine c.clear offMarkup_blockHere (fun rest => ?_) fun rest => ?_
  · by_contra hhere
    exact h (LandClaim.plain_of_here hhere)
  · by_contra hhere
    obtain ⟨s, tail, -, heq⟩ := blockHere_begins hhere
    exact absurd (List.cons.inj (List.cons.inj heq).2).1 (by decide)

instance (c : LandClaim) : Decidable c.Plain :=
  inferInstanceAs (Decidable (c.before = [] ∧
    (c.layout.beforeEq = [] ∧ c.layout.afterEq = [] ∧ c.layout.single = false) ∧
      c.after = [] ∧ c.emptyTag = true))

/-- The land claims in plain form are found in the content of a player, and nothing else is. -/
theorem found_blocks (content : List Content) :
    Scan.found blockHere (content.flatMap Content.text) =
      ((content.filterMap Content.landClaim?).filter fun c => c.Plain).map
        fun c => [c.x.text, c.y.text, c.z.text] := by
  induction content with
  | nil => rfl
  | cons part content ih =>
    cases part with
    | filler f =>
      rw [List.flatMap_cons, Content.text,
        Scan.found_append fun v hv hne => f.clear_blockHere v hv hne _]
      exact ih
    | landClaim c =>
      have hclaim : Content.landClaim? (.landClaim c) = some c := rfl
      rw [List.flatMap_cons, Content.text, List.filterMap_cons_some hclaim]
      by_cases hc : c.Plain
      · have hne : c.text ≠ [] := by
          rw [hc.text_eq]
          simp [of]
        rw [Scan.found_cons hne (hc.here _), List.filter_cons_of_pos (by simpa using hc), ih]
        rfl
      · rw [Scan.found_append fun v hv hne => LandClaim.clear_blockHere hc v hv hne _,
          List.filter_cons_of_neg (by simpa using hc), ih]

/-- The entry that the start tag of a player shows for a land claim. -/
def Player.entry (p : Player) (c : LandClaim) : Claim :=
  claimAt (if p.shown "playername" = [] then of "Unknown player" else p.shown "playername")
    (p.shown "userid") (p.shown "nativeuserid") c.position

/-- What `attr` reads of a player is what its start tag shows. -/
theorem Player.attr_attrs (p : Player) {name : String} {x : UInt16} {xs : Text}
    (hname : of name = x :: xs) (hx : isSpace x = false) : attr p.attrs name = p.shown name := by
  rw [attr_eq, Player.attrs, firstQuoted_dropWhile hname hx, Player.shown]

/-- The entries of a player are what its start tag shows, for the land claims in plain form. -/
theorem Player.claimsIn_eq (p : Player) :
    claimsIn p.attrs p.body = (p.landClaims.filter fun c => c.Plain).map p.entry := by
  have hfound : Scan.found blockHere p.body =
      (p.landClaims.filter fun c => c.Plain).map fun c => [c.x.text, c.y.text, c.z.text] := by
    cases hc : p.content with
    | none => simp [Player.body, Player.landClaims, hc, Scan.found_nil]
    | some found =>
      have hspill : Clear (fun text => blockHere text = none) p.spill :=
        offMarkup_blockHere.characters fun u hu heq => p.lt_not_mem_spill (heq ▸ hu)
      simp only [Player.body, Player.landClaims, hc]
      rw [Scan.found_append fun v hv hne => hspill v hv hne _]
      exact found_blocks _
  have hspace : isSpace (Text.unit 'p') = false ∧ isSpace (Text.unit 'u') = false ∧
      isSpace (Text.unit 'n') = false := by
    simp [Text.unit, isSpace, isJsSpace]
  rw [claimsIn, hfound, List.map_map]
  refine List.map_congr_left fun c _ => ?_
  simp only [Function.comp_apply, List.getD_cons_zero, List.getD_cons_succ, numberOf_text,
    @Player.attr_attrs p "playername" _ _ rfl hspace.1,
    @Player.attr_attrs p "userid" _ _ rfl hspace.2.1,
    @Player.attr_attrs p "nativeuserid" _ _ rfl hspace.2.2]
  rfl

theorem Player.clear_ends (p : Player) : Clear (fun text => ¬ Ends text) p.body := by
  cases hc : p.content with
  | none =>
    intro v hv hne
    simp only [Player.body, hc] at hv
    exact absurd (List.suffix_nil.mp hv) hne
  | some found =>
    simp only [Player.body, hc]
    refine (offMarkup_ends.characters fun u hu heq => p.lt_not_mem_spill (heq ▸ hu)).append
      (Clear.flatMap fun part _ => ?_)
    cases part with
    | filler f => exact f.clear_ends
    | landClaim c => exact c.clear_ends

/-- The byte order mark is no place at which a player is found. -/
theorem found_bom (rest : Text) :
    Scan.found playerHere (0xfeff :: rest) = Scan.found playerHere rest := by
  have h : ∀ v, v <:+ [(0xfeff : UInt16)] → v ≠ [] → playerHere (v ++ rest) = none :=
    fun v hv hne => offMarkup_playerHere.characters (by simp) v hv hne rest
  exact Scan.found_append h

theorem found_withoutBom (xml : Text) :
    Scan.found playerHere (withoutBom xml) = Scan.found playerHere xml := by
  unfold withoutBom
  split
  · exact (found_bom _).symm
  · rfl

/-- A player whose start tag has only its name is found nowhere in its text. -/
theorem Player.clear_playerHere {p : Player} (h : p.head = []) :
    Clear (fun text => playerHere text = none) p.text := by
  -- the expression asks for white space behind the name
  have hopen : ∀ u rest, isSpace u = false → playerHere (of "<player" ++ u :: rest) = none := by
    intro u rest hu
    by_contra hfound
    obtain ⟨s, tail, hs, heq⟩ := playerHere_begins hfound
    rw [(List.cons.inj (List.append_cancel_left heq)).1, hs] at hu
    cases hu
  have hclaim : ∀ c : LandClaim, Clear (fun text => playerHere text = none) c.text := by
    intro c
    refine c.clear offMarkup_playerHere (fun rest => ?_) fun rest => ?_ <;>
    · by_contra hfound
      obtain ⟨s, tail, -, heq⟩ := playerHere_begins hfound
      exact absurd (List.cons.inj (List.cons.inj heq).2).1 (by decide)
  cases hc : p.content with
  | none =>
    have htext : p.text = 60 :: (of "player/>") := by
      simp only [Player.text, h, hc, List.append_nil]
      rfl
    rw [htext]
    refine offMarkup_playerHere.markup (fun rest => ?_) fun u hu heq => ?_
    · exact hopen 47 (62 :: rest) isSpace_slash
    · exact absurd (heq ▸ hu) (by decide)
  | some found =>
    obtain ⟨content, space⟩ := found
    have htext : p.text = (60 :: of "player>") ++ (content.flatMap Content.text ++
        (60 :: (of "/player" ++ (space ++ [62])))) := by
      simp only [Player.text, h, hc, List.append_nil, List.append_assoc, List.cons_append]
      rfl
    rw [htext]
    refine (offMarkup_playerHere.markup (fun rest => ?_) fun u hu heq => ?_).append
      ((Clear.flatMap fun part _ => ?_).append
        (offMarkup_playerHere.markup (fun rest => ?_) fun u hu heq => ?_))
    · exact hopen 62 rest isSpace_gt
    · exact absurd (heq ▸ hu) (by decide)
    · cases part with
      | filler f => exact f.clear_playerHere
      | landClaim c => exact hclaim c
    · by_contra hfound
      obtain ⟨s, tail, -, heq⟩ := playerHere_begins hfound
      exact absurd (List.cons.inj (List.cons.inj heq).2).1 (by decide)
    · rw [heq] at hu
      rcases List.mem_append.mp hu with hu | hu
      · exact absurd hu (by decide)
      · rcases List.mem_append.mp hu with hu | hu
        · exact absurd (p.end_spaces _ hc 60 hu) (by decide)
        · exact absurd hu (by decide)

/-- The entries that a part of a document shows. -/
def Item.entries : Item → List Claim
  | player p =>
    if p.head = [] then [] else (p.landClaims.filter fun c => c.Plain).map p.entry
  | filler _ => []

/-- The entries for the parts of a document, one after the other. -/
theorem found_items {items : List Item} (h : ∀ p, .player p ∈ items → p.Laid) :
    (Scan.found playerHere (items.flatMap Item.text)).flatMap
      (fun (attrs, body) => claimsIn attrs body) = items.flatMap Item.entries := by
  induction items with
  | nil => rfl
  | cons item items ih =>
    have hrest := ih fun p hp => h p (List.mem_cons_of_mem _ hp)
    cases item with
    | filler f =>
      rw [List.flatMap_cons, Item.text,
        Scan.found_append fun v hv hne => f.clear_playerHere v hv hne _, hrest]
      rfl
    | player p =>
      have hp : p.Laid := h p List.mem_cons_self
      rw [List.flatMap_cons, Item.text, List.flatMap_cons, Item.entries]
      by_cases hhead : p.head = []
      · rw [Scan.found_append fun v hv hne => Player.clear_playerHere hhead v hv hne _, hrest,
          if_pos hhead, List.nil_append]
      · have hne : p.text ≠ [] := by simp [Player.text, of]
        rw [Scan.found_cons hne (Player.here hp hhead p.clear_ends _), List.flatMap_cons, hrest,
          if_neg hhead]
        exact congrArg (· ++ items.flatMap Item.entries) p.claimsIn_eq

/-- What the route returns for a document that is laid out. -/
theorem Document.Laid.claimsLive_eq {d : Document} (h : d.Laid) :
    claimsLive d.text = d.items.flatMap Item.entries := by
  have hbom : Scan.found playerHere d.text = Scan.found playerHere (d.items.flatMap Item.text) := by
    cases hd : d.bom with
    | false => simp [Document.text, hd]
    | true => simpa [Document.text, hd] using found_bom _
  rw [claimsLive, found_withoutBom, hbom]
  exact found_items h

/-- Blocks of which none is longer than the other's agree as a whole if they agree one by one. -/
theorem flatMap_eq_flatMap_iff {α β : Type} {l : List α} {f g : α → List β}
    (h : ∀ x ∈ l, (f x).length ≤ (g x).length) :
    l.flatMap f = l.flatMap g ↔ ∀ x ∈ l, f x = g x := by
  have htotal : ∀ k : List α, (∀ x ∈ k, (f x).length ≤ (g x).length) →
      (k.flatMap f).length ≤ (k.flatMap g).length := by
    intro k hk
    rw [List.length_flatMap, List.length_flatMap]
    exact List.sum_le_sum hk
  induction l with
  | nil => simp
  | cons x l ih =>
    have hl := fun y hy => h y (List.mem_cons_of_mem x hy)
    rw [List.flatMap_cons, List.flatMap_cons, List.forall_mem_cons]
    refine Iff.trans ?_ (and_congr_right' (ih hl))
    constructor
    · intro heq
      -- neither block can be shorter, as the others would have to make up for it
      have hlength := congrArg List.length heq
      rw [List.length_append, List.length_append] at hlength
      have hx := h x List.mem_cons_self
      have hrest := htotal l hl
      exact List.append_inj heq (by omega)
    · rintro ⟨hx, hl⟩
      rw [hx, hl]

theorem claimAt_inj {owner eosId steamId owner' eosId' steamId' : Text} {p : Position}
    (h : claimAt owner eosId steamId p = claimAt owner' eosId' steamId' p) :
    owner = owner' ∧ eosId = eosId' ∧ steamId = steamId' :=
  ⟨congrArg Claim.owner h, congrArg Claim.eosId h, congrArg Claim.steamId h⟩

/-- The entries of a player are right if its land claims are in plain form, and it shows its values
if it has any. -/
theorem Player.entries_eq_iff (p : Player) :
    Item.entries (.player p) = Item.claims (.player p) ↔
      (∀ c ∈ p.landClaims, c.Plain) ∧ (p.landClaims ≠ [] → p.head ≠ [] ∧ p.Shows) := by
  rw [Item.entries, Item.claims]
  constructor
  · intro h
    by_cases hhead : p.head = []
    · rw [if_pos hhead] at h
      have hnil : p.landClaims = [] := List.map_eq_nil_iff.mp h.symm
      simp [hnil]
    rw [if_neg hhead] at h
    -- as many entries as land claims means that all of these are in plain form
    have hlength := congrArg List.length h
    rw [List.length_map, List.length_map, List.length_filter_eq_length_iff] at hlength
    have hplain : ∀ c ∈ p.landClaims, c.Plain := fun c hc => by simpa using hlength c hc
    refine ⟨hplain, fun hne => ⟨hhead, ?_⟩⟩
    rw [List.filter_eq_self.mpr hlength] at h
    obtain ⟨c, hc⟩ := List.exists_mem_of_ne_nil _ hne
    obtain ⟨howner, heos, hsteam⟩ := claimAt_inj (List.map_inj_left.mp h c hc)
    exact ⟨howner, heos, hsteam⟩
  · rintro ⟨hplain, h⟩
    by_cases hnil : p.landClaims = []
    · simp [hnil]
    obtain ⟨hhead, hshows⟩ := h hnil
    rw [if_neg hhead, List.filter_eq_self.mpr fun c hc => by simpa using hplain c hc]
    refine List.map_congr_left fun c _ => ?_
    rw [Player.entry, hshows.owner, hshows.eosId, hshows.steamId]
    rfl

/-- **What the live map shows of a document.** If the expression for players finds where they end,
then the entries are the land claims with their positions and with the values of the attributes of
the player around each, exactly if the land claims are in plain form and the start tags show the
values: if in each tag the first `name="` is followed by the value of that attribute. -/
theorem claims_read_iff {d : Document} (h : d.Laid) : claimsLive d.text = d.claims ↔ d.Shows := by
  have hlength : ∀ item ∈ d.items, item.entries.length ≤ item.claims.length := by
    intro item _
    cases item with
    | player p =>
      rw [Item.entries, Item.claims]
      split_ifs
      · simp
      · simpa using List.length_filter_le _ p.landClaims
    | filler f => simp [Item.entries, Item.claims]
  rw [h.claimsLive_eq, Document.claims, flatMap_eq_flatMap_iff hlength]
  constructor
  · intro heq p hp
    exact p.entries_eq_iff.mp (heq _ hp)
  · intro hshows item hitem
    cases item with
    | player p => exact p.entries_eq_iff.mpr (hshows p hitem)
    | filler f => rfl

end Claims

section Misread

/-- A blank before an attribute, and double quotes. -/
def blankBefore : Layout where
  lead := [32]
  beforeEq := []
  afterEq := []
  single := false
  lead_ne := by decide
  lead_spaces := by simp [isXmlSpace]
  eq_spaces := by simp

/-- An attribute of a player with a value of two letters. -/
def letters (name : Text) (u v : UInt16) (hname : name ≠ [])
    (hunits : ∀ u ∈ name, isStop u = false ∧ u ≠ 60 ∧ u ≠ 61 ∧ u ≠ 34 ∧ u ≠ 39)
    (hu : u ≠ 60 ∧ u ≠ 38 ∧ u ≠ 34) (hv : v ≠ 60 ∧ v ≠ 38 ∧ v ≠ 34) : Attribute where
  layout := blankBefore
  name := name
  pieces := [.unit u, .unit v]
  name_ne := hname
  name_units := hunits
  legal w hw := by
    rcases List.mem_cons.mp hw with h | hw
    · exact Piece.unit.inj h ▸ hu
    · exact Piece.unit.inj (List.mem_singleton.mp hw) ▸ hv
  denotes digits c h := by simp at h

theorem userid_units : ∀ u ∈ of "userid", isStop u = false ∧ u ≠ 60 ∧ u ≠ 61 ∧ u ≠ 34 ∧ u ≠ 39 := by
  simp [of, Text.unit, isStop, isSpace, isJsSpace]

theorem nativeuserid_units :
    ∀ u ∈ of "nativeuserid", isStop u = false ∧ u ≠ 60 ∧ u ≠ 61 ∧ u ≠ 34 ∧ u ≠ 39 := by
  simp [of, Text.unit, isStop, isSpace, isJsSpace]

theorem playername_units :
    ∀ u ∈ of "playername", isStop u = false ∧ u ≠ 60 ∧ u ≠ 61 ∧ u ≠ 34 ∧ u ≠ 39 := by
  simp [of, Text.unit, isStop, isSpace, isJsSpace]

/-- `userid="E1"`. -/
def userid : Attribute :=
  letters (of "userid") 69 49 (by decide) userid_units (by decide) (by decide)

/-- `nativeuserid="S1"`. -/
def nativeuserid : Attribute :=
  letters (of "nativeuserid") 83 49 (by decide) nativeuserid_units (by decide) (by decide)

/-- `playername="Al"`. -/
def playername : Attribute :=
  letters (of "playername") 65 108 (by decide) playername_units (by decide) (by decide)

/-- The coordinate 1. -/
def oneOne : Coordinate := ⟨false, [49], by decide, by simp [isDigit]⟩

/-- `<lpblock pos="1,1,1" />`. -/
def claimOne : LandClaim :=
  ⟨[], blankBefore, oneOne, oneOne, oneOne, [], [32], true, by simp, by simp [isXmlSpace]⟩

/-- A player with one land claim. -/
def playerWith (attributes : List Attribute) (h : (attributes.map Attribute.name).Nodup) : Player :=
  ⟨attributes, [], some ([.landClaim claimOne], []), h, by simp, by simp⟩

theorem playerWith_laid {attributes : List Attribute}
    {h : (attributes.map Attribute.name).Nodup}
    (hclosed : ∀ a ∈ attributes, 62 ∉ a.raw) : (playerWith attributes h).Laid := by
  refine ⟨fun ⟨a, ha, hraw⟩ => absurd hraw (hclosed a ha), fun content space hc => ?_⟩
  have hc := (Prod.mk.inj (Option.some.inj hc)).2
  exact hc.symm

/-- `<player userid="E1" nativeuserid="S1" playername="Al">`, with one land claim. -/
def inOrder : Document :=
  ⟨false, [.player (playerWith [userid, nativeuserid, playername] (by decide))]⟩

/-- With `userid` before `nativeuserid`, the land claim is read. -/
theorem claims_read_iff_inOrder : claimsLive inOrder.text = inOrder.claims := by
  have hlaid : inOrder.Laid := by
    intro p hp
    obtain rfl : p = playerWith [userid, nativeuserid, playername] (by decide) := by
      simpa [inOrder] using hp
    exact playerWith_laid (by decide)
  refine (claims_read_iff hlaid).mpr fun p hp => ?_
  obtain rfl : p = playerWith [userid, nativeuserid, playername] (by decide) := by
    simpa [inOrder] using hp
  exact ⟨by decide, fun _ => ⟨by decide, by decide, by decide, by decide⟩⟩

/-- `<player nativeuserid="S1" userid="E1" playername="Al">`, with one land claim. -/
def nativeFirst : Document :=
  ⟨false, [.player (playerWith [nativeuserid, userid, playername] (by decide))]⟩

/-- With `nativeuserid` before `userid`, the claim is shown with the native id in the place of the
other. -/
theorem userid_misread : claimsLive nativeFirst.text ≠ nativeFirst.claims := by
  have hlaid : nativeFirst.Laid := by
    intro p hp
    obtain rfl : p = playerWith [nativeuserid, userid, playername] (by decide) := by
      simpa [nativeFirst] using hp
    exact playerWith_laid (by decide)
  have hids : (nativeFirst.items.flatMap Item.entries).map Claim.eosId ≠
      nativeFirst.claims.map Claim.eosId := by decide
  rw [hlaid.claimsLive_eq]
  exact fun h => hids (congrArg (List.map Claim.eosId) h)

end Misread

end Mastermind.LiveMap
