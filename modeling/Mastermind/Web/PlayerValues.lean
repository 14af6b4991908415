import Mastermind.Web.PlayerTags

/-!
# What the live map reads of an attribute

`decode_raw` says that the replacements of `decode`, one entity after the other with `&` as the
last, give the value of an attribute that is written with letters and entities: before the last of
them no reference is resolved to `&`, so that none begins in what was resolved. `attr_eq` says what
the expression for an attribute captures.
-/

namespace Mastermind.LiveMap

open Regex Text

section Values

/-- A piece after some of the entities were replaced. -/
def Piece.partly (done : List Entity) : Piece → Text
  | entity e => if e ∈ done then [e.unit] else e.text
  | piece => piece.text

theorem Entity.text_eq (e : Entity) : ∃ w, e.text = 38 :: w ∧ 38 ∉ w := by
  cases e <;> exact ⟨_, rfl, by decide⟩

theorem Entity.not_begins {e e' : Entity} (h : e ≠ e') (rest : Text) :
    ¬ e.text <+: e'.text ++ rest := by
  rintro ⟨tail, ht⟩
  cases e <;> cases e' <;> first
    | exact absurd rfl h
    | simp [Entity.text, of, Text.unit] at ht

theorem literalHere_eq_none {pattern text : Text} (h : ¬ pattern <+: text) :
    literalHere pattern text = none := by
  rw [literalHere, if_neg fun hbegins => h (List.isPrefixOf_iff_prefix.mp hbegins)]

/-- A reference begins with `&`. -/
theorem Entity.here_eq_none (e : Entity) {u : UInt16} (hu : u ≠ 38) (rest : Text) :
    literalHere e.text (u :: rest) = none := by
  refine literalHere_eq_none fun ⟨tail, h⟩ => ?_
  obtain ⟨w, hw, -⟩ := e.text_eq
  rw [hw] at h
  exact hu (List.cons.inj h).1.symm

/-- One of the replacements resolves one entity, in a value where none is resolved to `&`. -/
theorem replace_entity {pieces : List Piece} {done : List Entity} (e : Entity)
    (hamp : .amp ∉ done) (hplain : ∀ piece ∈ pieces, piece.Plain)
    (hlegal : ∀ u, .unit u ∈ pieces → u ≠ 38) :
    Scan.replaced (literalHere e.text) (fun _ => [e.unit]) (pieces.flatMap (Piece.partly done)) =
      pieces.flatMap (Piece.partly (e :: done)) := by
  induction pieces with
  | nil => rfl
  | cons piece pieces ih =>
    have hrest := ih (fun q hq => hplain q (List.mem_cons_of_mem _ hq))
      fun u hu => hlegal u (List.mem_cons_of_mem _ hu)
    rw [List.flatMap_cons, List.flatMap_cons, ← hrest]
    -- a letter that is not `&` stays
    have hletter : ∀ u : UInt16, u ≠ 38 → ∀ rest,
        Scan.replaced (literalHere e.text) (fun _ => [e.unit]) ([u] ++ rest) =
          [u] ++ Scan.replaced (literalHere e.text) (fun _ => [e.unit]) rest := by
      intro u hu rest
      refine Scan.replaced_append fun v hv hne => ?_
      have hv : v = [u] := by
        rcases List.suffix_cons_iff.mp hv with hv | hv
        · exact hv
        · exact absurd (List.suffix_nil.mp hv) hne
      rw [hv]
      exact e.here_eq_none hu rest
    cases piece with
    | unit u => exact hletter u (hlegal u List.mem_cons_self) _
    | character hexadecimal c => exact (hplain _ List.mem_cons_self).elim
    | entity e' =>
      simp only [Piece.partly]
      by_cases hdone : e' ∈ done
      · rw [if_pos hdone, if_pos (List.mem_cons_of_mem e hdone)]
        refine hletter e'.unit ?_ _
        cases e' with
        | amp => exact absurd hdone hamp
        | _ => decide
      · rw [if_neg hdone]
        -- a reference is replaced, or it is another one, in which no reference to `e` begins
        by_cases heq : e' = e
        · rw [heq, if_pos List.mem_cons_self]
          obtain ⟨w, hw, -⟩ := e.text_eq
          have hhere : ∀ rest, literalHere e.text (e.text ++ rest) = some ((), e.text.length) :=
            fun rest => if_pos (List.isPrefixOf_iff_prefix.mpr (List.prefix_append _ _))
          exact Scan.replaced_cons (by simp [hw]) (hhere _)
        · rw [if_neg (by simp [heq, hdone])]
          refine Scan.replaced_append fun v hv hne => ?_
          obtain ⟨w, hw, hletters⟩ := e'.text_eq
          rw [hw] at hv
          rcases List.suffix_cons_iff.mp hv with rfl | hv
          · rw [← hw]
            exact literalHere_eq_none (Entity.not_begins (Ne.symm heq) _)
          · obtain ⟨u, v, rfl⟩ := List.exists_cons_of_ne_nil hne
            have hu : u ≠ 38 := fun h => hletters (h ▸ hv.subset List.mem_cons_self)
            exact e.here_eq_none hu _

/-- `decode` gives the value of an attribute that is written with letters and entities. -/
theorem decode_raw {a : Attribute} (hplain : ∀ piece ∈ a.pieces, piece.Plain) :
    decode a.raw = a.value := by
  have hlegal : ∀ u, .unit u ∈ a.pieces → u ≠ 38 := fun u hu => (a.legal u hu).2.1
  have hstart : a.raw = a.pieces.flatMap (Piece.partly []) := by
    refine List.flatMap_congr fun piece _ => ?_
    cases piece <;> simp [Piece.partly, Piece.text]
  have hend : a.value = a.pieces.flatMap (Piece.partly [.amp, .gt, .lt, .apos, .quot]) := by
    refine List.flatMap_congr fun piece hpiece => ?_
    cases piece with
    | unit u =>
      have hu := hplain _ hpiece
      simp only [Piece.Plain] at hu
      simp only [Piece.value, Piece.partly, Piece.text]
      split_ifs with hspace
      · rw [hu hspace]
      · rfl
    | entity e => cases e <;> rfl
    | character hexadecimal c => exact (hplain _ hpiece).elim
  have hstep := fun done e hamp => @replace_entity a.pieces done e hamp hplain hlegal
  rw [hstart, hend]
  calc decode (a.pieces.flatMap (Piece.partly []))
    _ = replaceLiteral "&amp;" "&" (replaceLiteral "&gt;" ">" (replaceLiteral "&lt;" "<"
          (replaceLiteral "&apos;" "'" (a.pieces.flatMap (Piece.partly [.quot]))))) :=
      congrArg (fun s => replaceLiteral "&amp;" "&" (replaceLiteral "&gt;" ">"
        (replaceLiteral "&lt;" "<" (replaceLiteral "&apos;" "'" s))))
        (hstep [] .quot (by decide))
    _ = replaceLiteral "&amp;" "&" (replaceLiteral "&gt;" ">" (replaceLiteral "&lt;" "<"
          (a.pieces.flatMap (Piece.partly [.apos, .quot])))) :=
      congrArg (fun s => replaceLiteral "&amp;" "&" (replaceLiteral "&gt;" ">"
        (replaceLiteral "&lt;" "<" s))) (hstep [.quot] .apos (by decide))
    _ = replaceLiteral "&amp;" "&" (replaceLiteral "&gt;" ">"
          (a.pieces.flatMap (Piece.partly [.lt, .apos, .quot]))) :=
      congrArg (fun s => replaceLiteral "&amp;" "&" (replaceLiteral "&gt;" ">" s))
        (hstep [.apos, .quot] .lt (by decide))
    _ = replaceLiteral "&amp;" "&" (a.pieces.flatMap (Piece.partly [.gt, .lt, .apos, .quot])) :=
      congrArg (replaceLiteral "&amp;" "&") (hstep [.lt, .apos, .quot] .gt (by decide))
    _ = a.pieces.flatMap (Piece.partly [.amp, .gt, .lt, .apos, .quot]) :=
      hstep [.gt, .lt, .apos, .quot] .amp (by decide)

theorem of_append (s t : String) : of (s ++ t) = of s ++ of t := by
  simp [of]

/-- What the expression for an attribute finds at a place. -/
theorem attr_here (name : String) (text : Text) (prev : Option UInt16) :
    (attrPattern name).here prev text =
      let value := text.drop (of (name ++ "=\"")).length
      if of (name ++ "=\"") <+: text ∧ 34 ∈ value then some [value.takeWhile (· ≠ 34)]
      else none := by
  dsimp only
  split_ifs with h
  · obtain ⟨⟨value, rfl⟩, hquote⟩ := h
    rw [List.drop_left] at hquote ⊢
    -- the value ends at the first quote, where the greedy group stops
    obtain ⟨raw, rest, rfl, hraw⟩ := List.eq_append_cons_of_mem hquote
    have hunits : ∀ u ∈ raw, noneOf "\"" u = true := by
      intro u hu
      have hne : u ≠ 34 := fun h => hraw (h ▸ hu)
      simpa [noneOf, of, Text.unit] using hne
    have htakes : Takes (attrPattern name) (of (name ++ "=\"") ++ (raw ++ (of "\"" ++ rest))) rest
        [] [raw] :=
      .seq takes_lit (.seq (.group (.many hunits (by simp [noneOf, of, Text.unit])
        (Nat.zero_le _))) (.seq takes_lit .empty))
    obtain ⟨prev', hrun⟩ := htakes prev
    have hrun : ((attrPattern name).run
        ⟨prev, of (name ++ "=\"") ++ (raw ++ 34 :: rest), []⟩).head? = some ⟨prev', rest, [raw]⟩ :=
      hrun
    rw [here, hrun, Scan.takeWhile_ne hraw]
    rfl
  · rw [here, Option.map_eq_none_iff, List.head?_eq_none_iff, List.eq_nil_iff_forall_not_mem]
    intro d hd
    obtain ⟨u, ⟨a, b, ha, ⟨v, w, -, ⟨x, y, hx, -, rfl⟩, rfl⟩, rfl⟩, htext⟩ :=
      run_reads (attrPattern name) hd
    rw [reads_lit.mp ha, reads_lit.mp hx] at htext
    simp only at htext
    -- a match would begin with the name and have a quote behind it
    refine h ⟨⟨v ++ (of "\"" ++ y) ++ d.rest, by rw [htext]; simp⟩, ?_⟩
    rw [htext, List.append_assoc, List.drop_left]
    simp [of, Text.unit]

/-- `attr` decodes what stands behind the first `name="`. -/
theorem attr_eq (attrs : Text) (name : String) :
    attr attrs name = decode ((firstQuoted name attrs).getD []) := by
  have hexec : ∀ prev, ((attrPattern name).exec prev attrs).bind List.head? =
      firstQuoted name attrs := by
    induction attrs with
    | nil =>
      intro prev
      have hbegins : ¬ of (name ++ "=\"") <+: [] := by
        rw [of_append, List.prefix_nil]
        simp [of]
      rw [Regex.exec, attr_here, if_neg fun h => hbegins h.1]
      rfl
    | cons u attrs ih =>
      intro prev
      rw [Regex.exec, attr_here, firstQuoted]
      dsimp only
      split_ifs with h
      · rfl
      · rw [Option.none_or, ih]
  rw [attr, capture, search, hexec]

/-- Spaces before the first attribute show nothing. -/
theorem firstQuoted_dropWhile {name : String} {x : UInt16} {xs : Text} (hname : of name = x :: xs)
    (hx : isSpace x = false) (text : Text) :
    firstQuoted name (text.dropWhile isSpace) = firstQuoted name text := by
  induction text with
  | nil => rfl
  | cons u text ih =>
    cases hu : isSpace u with
    | false => rw [List.dropWhile_cons_of_neg (by simp [hu])]
    | true =>
      rw [List.dropWhile_cons_of_pos hu, ih, firstQuoted, if_neg]
      rintro ⟨⟨tail, h⟩, -⟩
      rw [of_append, hname] at h
      rw [(List.cons.inj h).1, hu] at hx
      cases hx

end Values

end Mastermind.LiveMap
