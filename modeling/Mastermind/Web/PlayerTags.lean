import Mastermind.Web.LandClaims

/-!
# Where the live map finds players

The expressions for players, for their end tags and for land claims all begin with `<` and a name,
so that they match at no other place: `Clear` is a property at every place of a text, and
`OffMarkup` is why it has to be shown only where a tag begins. `Player.here` says what the
expression for players takes of a player: its start tag up to the first `>`, and its content.
-/

namespace Mastermind.LiveMap

open Regex Text

section Places

/-- A property holds at each place of a text, whatever follows. -/
def Clear (P : Text → Prop) (a : Text) : Prop := ∀ v, v <:+ a → v ≠ [] → ∀ rest, P (v ++ rest)

/-- A property that holds wherever no markup begins. -/
def OffMarkup (P : Text → Prop) : Prop := ∀ u rest, u ≠ 60 → P (u :: rest)

variable {P : Text → Prop}

theorem Clear.append {a b : Text} (ha : Clear P a) (hb : Clear P b) : Clear P (a ++ b) := by
  intro v hv hne rest
  obtain ⟨t, ht⟩ := hv
  rcases List.append_eq_append_iff.mp ht with ⟨w, hw, rfl⟩ | ⟨w, -, hw⟩
  -- the place is in the first text, unless what it has of that is empty
  · rcases List.eq_nil_or_concat w with rfl | ⟨w', u, rfl⟩
    · exact hb b List.suffix_rfl (by simpa using hne) rest
    · rw [List.append_assoc]
      exact ha _ ⟨t, hw.symm⟩ (by simp) (b ++ rest)
  · exact hb v ⟨w, hw.symm⟩ hne rest

theorem Clear.flatMap {α : Type} {l : List α} {f : α → Text} (h : ∀ x ∈ l, Clear P (f x)) :
    Clear P (l.flatMap f) := by
  induction l with
  | nil =>
    intro v hv hne
    exact absurd (List.suffix_nil.mp hv) hne
  | cons x l ih =>
    rw [List.flatMap_cons]
    exact (h x List.mem_cons_self).append (ih fun y hy => h y (List.mem_cons_of_mem x hy))

theorem OffMarkup.characters (hP : OffMarkup P) {a : Text} (h : ∀ u ∈ a, u ≠ 60) : Clear P a := by
  intro v hv hne rest
  obtain ⟨u, w, rfl⟩ := List.exists_cons_of_ne_nil hne
  exact hP u (w ++ rest) (h u (hv.subset List.mem_cons_self))

/-- In a piece of markup, only the first letter is a place of its own. -/
theorem OffMarkup.markup (hP : OffMarkup P) {a : Text} (hfirst : ∀ rest, P (60 :: (a ++ rest)))
    (h : ∀ u ∈ a, u ≠ 60) : Clear P (60 :: a) := by
  intro v hv hne rest
  rcases List.suffix_cons_iff.mp hv with rfl | hv
  · exact hfirst rest
  · exact hP.characters h v hv hne rest

/-- A word ends at the first letter that ends the name of an element. -/
theorem takeWhile_word {w : Text} (hw : ∀ u ∈ w, isStop u = false) {s : UInt16}
    (hs : isStop s = true) (rest : Text) : (w ++ s :: rest).takeWhile (fun u => !isStop u) = w := by
  rw [List.takeWhile_append_of_pos fun u hu => by simp [hw u hu],
    List.takeWhile_cons_of_neg (by simp [hs]), List.append_nil]

/-- A tag does not begin with a word that is not its name. -/
theorem Tag.begins_ne (t : Tag) {w : Text} (hw : ∀ u ∈ w, isStop u = false) (hne : t.name ≠ w)
    {s : UInt16} (hs : isStop s = true) (rest rest' : Text) :
    t.name ++ t.rest ++ 62 :: rest ≠ w ++ s :: rest' := by
  intro heq
  -- both texts are cut at the first letter that ends a name
  have hname : (t.name ++ t.rest ++ 62 :: rest).takeWhile (fun u => !isStop u) = t.name := by
    have hunits := fun u hu => (t.name_units u hu).1
    rw [List.append_assoc]
    cases hr : t.rest with
    | nil => exact takeWhile_word hunits (by decide) rest
    | cons u us => exact takeWhile_word hunits (t.rest_head u (by simp [hr])) _
  rw [heq, takeWhile_word hw hs] at hname
  exact hne hname.symm

/-- An end tag of a player begins. -/
def Ends (text : Text) : Prop := of "</player>" <+: text

/-- What the expression for players takes begins with the name of the element and a space. -/
theorem playerHere_begins {text : Text} (h : playerHere text ≠ none) :
    ∃ s rest, isSpace s = true ∧ text = of "<player" ++ s :: rest := by
  unfold playerHere at h
  split_ifs at h with hbegins
  · obtain ⟨tail, rfl⟩ := List.isPrefixOf_iff_prefix.mp hbegins
    simp only [List.drop_left] at h
    cases htail : tail with
    | nil => simp [htail] at h
    | cons s rest =>
      refine ⟨s, rest, ?_, rfl⟩
      by_contra hs
      simp [htail, hs] at h
  · exact absurd rfl h

theorem reads_lit {s : String} {u : Text} : (lit s).Reads u ↔ u = of s := by
  have hlit : lit s = all (((of s).map fun u v => decide (v = u)).map Regex.one) := by
    rw [lit, List.map_map]
    rfl
  rw [hlit, reads_ones]
  induction of s generalizing u with
  | nil => exact spells_nil
  | cons x w ih =>
    rw [List.map_cons, spells_cons]
    constructor
    · rintro ⟨y, ys, hy, hys, rfl⟩
      rw [ih.mp hys, of_decide_eq_true hy]
    · rintro rfl
      exact ⟨x, w, by simp, ih.mpr rfl, rfl⟩

/-- What the expression for land claims takes begins with the name of the element and a space. -/
theorem blockHere_begins {text : Text} (h : blockHere text ≠ none) :
    ∃ s rest, isSpace s = true ∧ text = of "<lpblock" ++ s :: rest := by
  cases hd : (blockPattern.run ⟨none, text, []⟩).head? with
  | none => simp [blockHere, hd] at h
  | some d =>
    obtain ⟨u, hu, htext⟩ := run_reads blockPattern (List.mem_of_mem_head? hd)
    obtain ⟨a, b, ha, ⟨c, e, ⟨hlen, hspaces⟩, -, rfl⟩, rfl⟩ := hu
    rw [reads_lit.mp ha] at htext
    obtain ⟨s, c, rfl⟩ := List.exists_cons_of_ne_nil (List.ne_nil_of_length_pos hlen)
    refine ⟨s, c ++ e ++ d.rest, hspaces s List.mem_cons_self, ?_⟩
    simpa using htext

theorem offMarkup_ends : OffMarkup fun text => ¬ Ends text := by
  rintro u rest hu ⟨tail, h⟩
  exact hu (List.cons.inj h).1.symm

theorem offMarkup_playerHere : OffMarkup fun text => playerHere text = none := by
  intro u rest hu
  by_contra h
  obtain ⟨s, tail, -, h⟩ := playerHere_begins h
  exact hu (List.cons.inj h).1

theorem offMarkup_blockHere : OffMarkup fun text => blockHere text = none := by
  intro u rest hu
  by_contra h
  obtain ⟨s, tail, -, h⟩ := blockHere_begins h
  exact hu (List.cons.inj h).1

theorem isStop_of_isSpace {u : UInt16} (h : isSpace u = true) : isStop u = true := by
  simp [isStop, h]

/-- Where a property only fails at a tag with a certain name, it holds in every other tag. -/
theorem Tag.clear (t : Tag) (hP : OffMarkup P) (slash : Bool) {w : Text} (hne : t.name ≠ w)
    (hw : w ≠ []) (hunits : ∀ u ∈ w, isStop u = false)
    (hbegins : ∀ text, ¬ P text → ∃ s rest, isStop s = true ∧
      text = 60 :: ((if slash then [47] else []) ++ w ++ s :: rest)) : Clear P t.text := by
  refine hP.markup (fun more => ?_) ?_
  · by_contra hnot
    obtain ⟨s, rest, hs, htext⟩ := hbegins _ hnot
    have htext := (List.cons.inj htext).2
    obtain ⟨x, xs, hx⟩ := List.exists_cons_of_ne_nil t.name_ne
    obtain ⟨y, ys, hy⟩ := List.exists_cons_of_ne_nil hw
    have hxstop := (t.name_units x (by simp [hx])).1
    have hystop := hunits y (by simp [hy])
    -- where only one of the two has a slash, the other would have it in its name
    cases hslash : t.slash with
    | false =>
      cases slash with
      | false => exact t.begins_ne hunits hne hs more rest (by simpa [hslash] using htext)
      | true =>
        rw [hslash, hx] at htext
        have hhead : x = 47 := by simpa using (List.cons.inj htext).1
        rw [hhead] at hxstop
        exact absurd hxstop (by decide)
    | true =>
      cases slash with
      | false =>
        rw [hslash, hy] at htext
        have hhead : 47 = y := by simpa using (List.cons.inj htext).1
        rw [← hhead] at hystop
        exact absurd hystop (by decide)
      | true => exact t.begins_ne hunits hne hs more rest (by simpa [hslash] using htext)
  · intro u hu
    simp only [List.mem_append, List.mem_singleton] at hu
    rcases hu with ((hu | hu) | hu) | rfl
    · cases hslash : t.slash with
      | false => simp [hslash] at hu
      | true =>
        have hu : u = 47 := by simpa [hslash] using hu
        rw [hu]
        decide
    · exact (t.name_units u hu).2
    · exact t.rest_units u hu
    · decide

theorem player_units : ∀ u ∈ of "player", isStop u = false := by
  simp [of, unit, isStop, isSpace, isJsSpace]

theorem lpblock_units : ∀ u ∈ of "lpblock", isStop u = false := by
  simp [of, unit, isStop, isSpace, isJsSpace]

theorem Filler.clear_ends (f : Filler) : Clear (fun text => ¬ Ends text) f.text := by
  cases f with
  | characters c => exact offMarkup_ends.characters c.noMarkup
  | tag t =>
    refine t.clear offMarkup_ends true t.other.1 (by decide) player_units fun text h => ?_
    obtain ⟨rest, rfl⟩ := not_not.mp h
    exact ⟨62, rest, by decide, rfl⟩

theorem Filler.clear_playerHere (f : Filler) :
    Clear (fun text => playerHere text = none) f.text := by
  cases f with
  | characters c => exact offMarkup_playerHere.characters c.noMarkup
  | tag t =>
    refine t.clear offMarkup_playerHere false t.other.1 (by decide) player_units fun text h => ?_
    obtain ⟨s, rest, hs, rfl⟩ := playerHere_begins h
    exact ⟨s, rest, isStop_of_isSpace hs, rfl⟩

theorem Filler.clear_blockHere (f : Filler) : Clear (fun text => blockHere text = none) f.text := by
  cases f with
  | characters c => exact offMarkup_blockHere.characters c.noMarkup
  | tag t =>
    refine t.clear offMarkup_blockHere false t.other.2 (by decide) lpblock_units fun text h => ?_
    obtain ⟨s, rest, hs, rfl⟩ := blockHere_begins h
    exact ⟨s, rest, isStop_of_isSpace hs, rfl⟩

end Places

section Tags

theorem untilEnd_append {body : Text} (h : Clear (fun text => ¬ Ends text) body) (rest : Text) :
    untilEnd (body ++ (of "</player>" ++ rest)) = some (body, rest) := by
  induction body with
  | nil =>
    have hbegins : (of "</player>").isPrefixOf (of "</player>" ++ rest) = true :=
      List.isPrefixOf_iff_prefix.mpr (List.prefix_append _ _)
    have hcons : of "</player>" ++ rest = 60 :: ((of "</player>").tail ++ rest) := rfl
    rw [List.nil_append, hcons, untilEnd, ← hcons, if_pos hbegins, List.drop_left]
  | cons u body ih =>
    have hnot : ¬ (of "</player>").isPrefixOf (u :: (body ++ (of "</player>" ++ rest))) = true := by
      rw [List.isPrefixOf_iff_prefix]
      exact h (u :: body) List.suffix_rfl (List.cons_ne_nil u body) _
    have hrest := ih fun v hv hne => h v (hv.trans (List.suffix_cons u body)) hne
    rw [List.cons_append, untilEnd, if_neg hnot, hrest]
    rfl

/-- A slash is no white space. -/
theorem isSpace_slash : isSpace 47 = false := by simp [isSpace, isJsSpace]

/-- The end of a tag is no white space. -/
theorem isSpace_gt : isSpace 62 = false := by simp [isSpace, isJsSpace]

/-- The first letter after some spaces is one of the text, if the text has any other letter. -/
theorem head_dropWhile_append {a : Text} {u : UInt16} (hu : u ∈ a) (hspace : isSpace u = false)
    (b : Text) : ∃ v ∈ a, ((a ++ b).dropWhile isSpace).head? = some v := by
  induction a with
  | nil => exact absurd hu List.not_mem_nil
  | cons x a ih =>
    cases hx : isSpace x with
    | false => exact ⟨x, List.mem_cons_self, by simp [hx]⟩
    | true =>
      have hu : u ∈ a := by
        rcases List.mem_cons.mp hu with rfl | hu
        · rw [hx] at hspace
          cases hspace
        · exact hu
      obtain ⟨v, hv, hhead⟩ := ih hu
      exact ⟨v, List.mem_cons_of_mem x hv, by simpa [hx] using hhead⟩

/-- A start tag without the letter `>` in a value ends where it ends. -/
theorem tagEnd_start {tag rest body after : Text} (hclosed : 62 ∉ tag)
    (hslash : ∀ v, 47 :: v <:+ tag → ∃ u ∈ v, isSpace u = false)
    (hend : untilEnd rest = some (body, after)) :
    tagEnd (tag ++ 62 :: rest) = some (tag, body, after) := by
  induction tag with
  | nil =>
    rw [List.nil_append, tagEnd]
    simp [hend]
  | cons u tag ih =>
    have hu : u ≠ 62 := fun h => hclosed (h ▸ List.mem_cons_self)
    -- the letter behind the spaces after a slash is one of the tag, and so not its end
    have hnot : ¬ (u = 47 ∧ ((tag ++ 62 :: rest).dropWhile isSpace).head? = some 62) := by
      rintro ⟨rfl, hhead⟩
      obtain ⟨w, hw, hspace⟩ := hslash tag List.suffix_rfl
      obtain ⟨v, hv, hhead'⟩ := head_dropWhile_append hw hspace (62 :: rest)
      rw [hhead] at hhead'
      exact hclosed (List.mem_cons_of_mem _ (Option.some.inj hhead' ▸ hv))
    have hrest := ih (fun h => hclosed (List.mem_cons_of_mem u h))
      fun v hv => hslash v (hv.trans (List.suffix_cons u tag))
    rw [List.cons_append, tagEnd]
    simp only [if_neg hnot, if_neg hu, hrest, Option.map_some]

/-- An empty-element tag without the letter `>` in a value ends where it ends. -/
theorem tagEnd_empty {tag rest : Text} (hclosed : 62 ∉ tag) :
    tagEnd (tag ++ 47 :: 62 :: rest) = some (tag, [], rest) := by
  induction tag with
  | nil =>
    rw [List.nil_append, tagEnd]
    simp [isSpace_gt]
  | cons u tag ih =>
    have hu : u ≠ 62 := fun h => hclosed (h ▸ List.mem_cons_self)
    have hnot : ¬ (u = 47 ∧ ((tag ++ 47 :: 62 :: rest).dropWhile isSpace).head? = some 62) := by
      rintro ⟨-, hhead⟩
      -- the slash of the end stands before it
      have hsplit : tag ++ 47 :: 62 :: rest = (tag ++ [47]) ++ 62 :: rest := by simp
      obtain ⟨v, hv, hhead'⟩ := head_dropWhile_append (a := tag ++ [47]) (u := 47) (by simp)
        (by decide) (62 :: rest)
      rw [hsplit, hhead'] at hhead
      have hv : v ∈ tag ∨ v = 47 := by simpa using hv
      rcases hv with hv | hv
      · exact hclosed (List.mem_cons_of_mem u (Option.some.inj hhead ▸ hv))
      · rw [hv] at hhead
        exact absurd (Option.some.inj hhead) (by decide)
    rw [List.cons_append, tagEnd]
    simp only [if_neg hnot, if_neg hu, ih fun h => hclosed (List.mem_cons_of_mem u h),
      Option.map_some]

theorem isXmlSpace_iff {u : UInt16} : isXmlSpace u = true ↔ u = 32 ∨ u = 9 ∨ u = 10 ∨ u = 13 := by
  simp [isXmlSpace, or_assoc]

theorem isSpace_of_isXmlSpace {u : UInt16} (h : isXmlSpace u = true) : isSpace u = true := by
  rcases isXmlSpace_iff.mp h with rfl | rfl | rfl | rfl <;> simp [isSpace, isJsSpace]

/-- A unit that is no white space is in no white space. -/
theorem not_mem_of_spaces {a : Text} (ha : ∀ u ∈ a, isXmlSpace u = true) {u : UInt16}
    (hu : isXmlSpace u = false) : u ∉ a := by
  intro hmem
  rw [ha u hmem] at hu
  cases hu

theorem Layout.quote_eq (layout : Layout) : layout.quote = 34 ∨ layout.quote = 39 := by
  unfold Layout.quote
  split_ifs
  · exact Or.inr rfl
  · exact Or.inl rfl

/-- Which units an attribute is written with. -/
theorem Layout.mem_write {layout : Layout} {name raw : Text} {u : UInt16}
    (h : u ∈ layout.write name raw) :
    isXmlSpace u = true ∨ u ∈ name ∨ u = 61 ∨ u = layout.quote ∨ u ∈ raw := by
  simp only [Layout.write, List.mem_append, List.mem_cons, List.not_mem_nil, or_false] at h
  have heq : ∀ v, v ∈ layout.beforeEq ∨ v ∈ layout.afterEq → isXmlSpace v = true := fun v hv =>
    layout.eq_spaces v (List.mem_append.mpr hv)
  rcases h with ((((h | h) | h) | h | h) | h | h) | h
  · exact Or.inl (layout.lead_spaces u h)
  · exact Or.inr (Or.inl h)
  · exact Or.inl (heq u (Or.inl h))
  · exact Or.inr (Or.inr (Or.inl h))
  · exact Or.inl (heq u (Or.inr h))
  · exact Or.inr (Or.inr (Or.inr (Or.inl h)))
  · exact Or.inr (Or.inr (Or.inr (Or.inr h)))
  · exact Or.inr (Or.inr (Or.inr (Or.inl h)))

theorem Attribute.closed {a : Attribute} (h : 62 ∉ a.raw) : 62 ∉ a.text := by
  intro hmem
  rcases Layout.mem_write hmem with hspace | hname | heq | hquote | hraw
  · exact absurd hspace (by decide)
  · exact absurd (a.name_units 62 hname).1 (by decide)
  · exact absurd heq (by decide)
  · rcases a.layout.quote_eq with hq | hq <;> rw [hq] at hquote <;> exact absurd hquote (by decide)
  · exact h hraw

theorem Player.mem_raw_of_mem_head {p : Player} (h : 62 ∈ p.head) :
    ∃ a ∈ p.attributes, 62 ∈ a.raw := by
  rcases List.mem_append.mp h with h | h
  · obtain ⟨a, ha, h⟩ := List.mem_flatMap.mp h
    exact ⟨a, ha, by_contra fun hraw => Attribute.closed hraw h⟩
  · exact absurd (p.trail_spaces 62 h) (by decide)

theorem Player.gt_not_mem_cut (p : Player) : 62 ∉ p.cut := by
  intro h
  have hne := List.mem_takeWhile_imp (p := fun u : UInt16 => decide (u ≠ 62)) h
  exact of_decide_eq_true hne rfl

theorem Player.cut_eq {p : Player} (h : 62 ∉ p.head) : p.cut = p.head := by
  refine List.takeWhile_eq_self_iff.mpr fun u hu => ?_
  have hne : u ≠ 62 := fun heq => h (heq ▸ hu)
  simpa using hne

/-- The start tag is cut at the first `>`, or at its end. -/
theorem Player.cut_spill (p : Player) : p.head ++ [62] = p.cut ++ 62 :: p.spill := by
  by_cases h : 62 ∈ p.head
  · obtain ⟨a, b, hab, ha⟩ := List.eq_append_cons_of_mem h
    have hcut : p.cut = a := by rw [Player.cut, hab, Scan.takeWhile_ne ha]
    have hspill : p.spill = b ++ [62] := by
      rw [Player.spill, hab, List.append_assoc, List.cons_append, Scan.dropWhile_ne ha,
        List.tail_cons]
    rw [hcut, hspill, hab, List.append_assoc, List.cons_append]
  · have hspill : p.spill = [] := by rw [Player.spill, Scan.dropWhile_ne h, List.tail_cons]
    rw [p.cut_eq h, hspill]

/-- A start tag ends with the quote of its last attribute, up to white space. -/
theorem Player.head_eq {p : Player} (h : p.attributes ≠ []) :
    ∃ w q, p.head = w ++ q :: p.trail ∧ (q = 34 ∨ q = 39) := by
  obtain ⟨front, last, hlast⟩ := (List.eq_nil_or_concat p.attributes).resolve_left h
  refine ⟨front.flatMap Attribute.text ++ (last.layout.lead ++ last.name ++ last.layout.beforeEq ++
    61 :: last.layout.afterEq ++ last.layout.quote :: last.raw), last.layout.quote, ?_,
    last.layout.quote_eq⟩
  simp [Player.head, hlast, Attribute.text, Layout.write]

/-- What the first group takes of a start tag. -/
def Player.attrs (p : Player) : Text := p.cut.dropWhile isSpace

/-- What stands in a start tag after the name begins with white space. -/
theorem Player.cut_begins {p : Player} (h : p.head ≠ []) :
    ∃ u xs, p.cut = u :: xs ∧ isSpace u = true := by
  obtain ⟨u, xs, hhead, hu⟩ : ∃ u xs, p.head = u :: xs ∧ isXmlSpace u = true := by
    cases ha : p.attributes with
    | nil =>
      have htrail : p.head = p.trail := by simp [Player.head, ha]
      obtain ⟨u, xs, hu⟩ := List.exists_cons_of_ne_nil h
      exact ⟨u, xs, hu, p.trail_spaces u (by simp [← htrail, hu])⟩
    | cons a rest =>
      obtain ⟨u, lead, hu⟩ := List.exists_cons_of_ne_nil a.layout.lead_ne
      obtain ⟨xs, hxs⟩ : ∃ xs, p.head = u :: xs := by
        simp [Player.head, ha, Attribute.text, Layout.write, hu]
      exact ⟨u, xs, hxs, a.layout.lead_spaces u (by simp [hu])⟩
  have hgt : u ≠ 62 := fun heq => absurd (heq ▸ hu) (by decide)
  refine ⟨u, xs.takeWhile fun w => w ≠ 62, ?_, isSpace_of_isXmlSpace hu⟩
  rw [Player.cut, hhead, List.takeWhile_cons_of_pos (by simpa using hgt)]

/-- A slash in a start tag does not stand at its end. -/
theorem Player.slash {p : Player} {v : Text} (hv : 47 :: v <:+ p.head) :
    ∃ u ∈ v, isSpace u = false := by
  have htrail : (47 : UInt16) ∉ p.trail := fun h => absurd (p.trail_spaces 47 h) (by decide)
  by_cases h : p.attributes = []
  · have hhead : p.head = p.trail := by simp [Player.head, h]
    exact absurd (hv.subset List.mem_cons_self) (hhead ▸ htrail)
  obtain ⟨w, q, hhead, hq⟩ := Player.head_eq h
  have hqspace : isSpace q = false := by
    rcases hq with rfl | rfl <;> simp [isSpace, isJsSpace]
  have hqslash : q ≠ 47 := by
    rcases hq with rfl | rfl <;> decide
  -- the slash stands before the last quote, or it would be that quote or white space
  obtain ⟨t, ht⟩ := hv
  rw [hhead] at ht
  rcases List.append_eq_append_iff.mp ht with ⟨a, -, ha⟩ | ⟨a, -, ha⟩
  · cases a with
    | nil => exact absurd (List.cons.inj ha).1.symm hqslash
    | cons x a =>
      refine ⟨q, ?_, hqspace⟩
      rw [(List.cons.inj ha).2]
      simp
  · have hmem : (47 : UInt16) ∈ q :: p.trail := by
      rw [ha]
      simp
    exact (List.mem_cons.mp hmem).elim (fun h => absurd h.symm hqslash) fun h => absurd h htrail

/-- The text that the second group takes: what is left of the start tag, and the content. -/
def Player.body (p : Player) : Text :=
  match p.content with
  | none => []
  | some (content, _) => p.spill ++ content.flatMap Content.text

/-- What follows the attributes of a player, and how the match ends in it. -/
theorem Player.ends_match {p : Player} (h : p.Laid)
    (hends : Clear (fun text => ¬ Ends text) p.body) (rest : Text) :
    ∃ u close, p.text = of "<player" ++ (p.cut ++ u :: close) ∧ isSpace u = false ∧
      tagEnd (p.attrs ++ (u :: close ++ rest)) = some (p.attrs, p.body, rest) := by
  have hclosed : 62 ∉ p.attrs := fun hmem =>
    p.gt_not_mem_cut ((List.dropWhile_sublist _).subset hmem)
  cases hc : p.content with
  | none =>
    have hgt : 62 ∉ p.head := fun hmem => (h.closed (Player.mem_raw_of_mem_head hmem)).1 hc
    have hbody : p.body = [] := by simp [Player.body, hc]
    refine ⟨47, [62], ?_, isSpace_slash, ?_⟩
    · rw [Player.text, hc, p.cut_eq hgt, List.append_assoc]
      rfl
    · rw [hbody]
      exact tagEnd_empty hclosed
  | some found =>
    obtain ⟨content, space⟩ := found
    obtain rfl := h.ended content space hc
    have hbody : p.body = p.spill ++ content.flatMap Content.text := by simp [Player.body, hc]
    have hslash : ∀ v, 47 :: v <:+ p.attrs → ∃ u ∈ v, isSpace u = false := by
      intro v hv
      have hv := hv.trans (List.dropWhile_suffix _)
      by_cases hgt : 62 ∈ p.head
      · exact (h.closed (Player.mem_raw_of_mem_head hgt)).2 v hv
      · exact Player.slash (p.cut_eq hgt ▸ hv)
    refine ⟨62, p.body ++ of "</player>", ?_, isSpace_gt, ?_⟩
    · have hend : of "</player>" = of "</player" ++ [62] := rfl
      calc p.text
        _ = of "<player" ++ ((p.head ++ [62]) ++ (content.flatMap Content.text ++
              of "</player>")) := by
          simp only [Player.text, hc, hend, List.append_nil, List.append_assoc, List.cons_append,
            List.nil_append]
        _ = of "<player" ++ (p.cut ++ 62 :: (p.body ++ of "</player>")) := by
          rw [p.cut_spill, hbody]
          simp only [List.append_assoc, List.cons_append]
    · have hend := untilEnd_append hends rest
      rw [List.cons_append, List.append_assoc]
      exact tagEnd_start hclosed hslash hend

/-- The expression for players takes a player as it is, if its start tag has more than its name. -/
theorem Player.here {p : Player} (h : p.Laid) (hhead : p.head ≠ [])
    (hends : Clear (fun text => ¬ Ends text) p.body) (rest : Text) :
    playerHere (p.text ++ rest) = some ((p.attrs, p.body), p.text.length) := by
  obtain ⟨u, close, htext, hu, hmatch⟩ := Player.ends_match h hends rest
  -- `\s+` takes the white space after the name, so that the first group begins behind it
  obtain ⟨x, xs, hcut, hx⟩ := Player.cut_begins hhead
  have hshorter : p.attrs.length < p.cut.length := by
    have hle := (List.dropWhile_sublist (l := xs) isSpace).length_le
    rw [Player.attrs, hcut, List.dropWhile_cons_of_pos hx, List.length_cons]
    omega
  have hbegins : (of "<player").isPrefixOf (p.text ++ rest) = true := by
    rw [htext, List.append_assoc]
    exact List.isPrefixOf_iff_prefix.mpr (List.prefix_append _ _)
  have htail : (p.text ++ rest).drop (of "<player").length = p.cut ++ (u :: close ++ rest) := by
    rw [htext, List.append_assoc, List.drop_left, List.append_assoc]
  have hspaced : (p.cut ++ (u :: close ++ rest)).dropWhile isSpace =
      p.attrs ++ (u :: close ++ rest) := by
    rw [List.dropWhile_append, List.cons_append, List.dropWhile_cons_of_neg (by simp [hu])]
    split_ifs with hempty
    · rw [Player.attrs, List.isEmpty_iff.mp hempty, List.nil_append]
    · rfl
  rw [playerHere, if_pos hbegins]
  simp only [htail, hspaced, hmatch]
  rw [if_pos (by simp only [List.length_append]; omega)]
  simp

end Tags

end Mastermind.LiveMap
