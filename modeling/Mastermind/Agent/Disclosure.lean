import Mastermind.Agent.Redaction

/-!
# What the text of an error discloses

JSON documents as they are written: with any nesting, any white space between the tokens, and any legal
escapes in the strings. A member is secret if its name is one that the redaction looks for, in any
letter case.

`responseError_eq` compares the errors for two documents that differ in secret values only. They are the
same unless the values differ from an escaped quote on.
-/

namespace Mastermind.Agent.Redaction

open Mastermind.Regex

/-! ## Documents -/

/-- The white space of a document. -/
def IsBlank (w : List UInt8) : Prop := ∀ b ∈ w, b = 9 ∨ b = 10 ∨ b = 13 ∨ b = 32

/-- A digit. -/
def isDigit (b : UInt8) : Bool := 48 ≤ b && b ≤ 57

/-- A hexadecimal digit. -/
def isHex (b : UInt8) : Bool := isDigit b || (65 ≤ b && b ≤ 70) || (97 ≤ b && b ≤ 102)

/-- What the content of a string is made of: a byte, or an escape. -/
inductive IsUnit : List UInt8 → Prop
  | plain {b : UInt8} (h : 32 ≤ b) (hquote : b ≠ 34) (hbackslash : b ≠ 92) : IsUnit [b]
  | escape {b : UInt8} (h : b ∈ ascii "\"\\/bfnrt") : IsUnit [92, b]
  | unicode {a b c d : UInt8} (h : [a, b, c, d].all isHex = true) : IsUnit [92, 117, a, b, c, d]

/-- The content of a string. -/
inductive IsContent : List UInt8 → Prop
  | nil : IsContent []
  | append {u raw : List UInt8} (hu : IsUnit u) (hraw : IsContent raw) : IsContent (u ++ raw)

/-- The digits of a number. -/
def IsDigits (ds : List UInt8) : Prop := ds ≠ [] ∧ ∀ b ∈ ds, isDigit b = true

/-- `true`, `false`, `null`, or a number. -/
inductive IsLiteral : List UInt8 → Prop
  | word {text : List UInt8} (h : text = ascii "true" ∨ text = ascii "false" ∨ text = ascii "null") :
    IsLiteral text
  | number {sign ds fraction exponent : List UInt8} (hsign : sign = [] ∨ sign = [45])
    (hds : IsDigits ds) (hzero : ds = [48] ∨ ds.head? ≠ some 48)
    (hfraction : fraction = [] ∨ ∃ fs, IsDigits fs ∧ fraction = 46 :: fs)
    (hexponent : exponent = [] ∨ ∃ e s es, (e = 101 ∨ e = 69) ∧ (s = [] ∨ s = [43] ∨ s = [45]) ∧
      IsDigits es ∧ exponent = e :: (s ++ es)) :
    IsLiteral (sign ++ (ds ++ (fraction ++ exponent)))

mutual

/-- A value as it is written. The lists of bytes called `w` are white space. -/
inductive Value where
  | literal (text : List UInt8)
  | string (raw : List UInt8)
  | emptyArray (w : List UInt8)
  | array (es : Elements)
  | emptyObject (w : List UInt8)
  | object (ms : Members)

/-- The elements of an array. -/
inductive Elements where
  | last (w : List UInt8) (value : Value) (w' : List UInt8)
  | cons (w : List UInt8) (value : Value) (w' : List UInt8) (es : Elements)

/-- The members of an object: white space, the name, white space, a colon, white space, the value, and
white space. -/
inductive Members where
  | last (w key w₁ w₂ : List UInt8) (value : Value) (w' : List UInt8)
  | cons (w key w₁ w₂ : List UInt8) (value : Value) (w' : List UInt8) (ms : Members)

end

mutual

/-- The value is well formed. -/
def Value.WellFormed : Value → Prop
  | .literal text => IsLiteral text
  | .string raw => IsContent raw
  | .emptyArray w => IsBlank w
  | .array es => es.WellFormed
  | .emptyObject w => IsBlank w
  | .object ms => ms.WellFormed

/-- The elements are well formed. -/
def Elements.WellFormed : Elements → Prop
  | .last w value w' => IsBlank w ∧ value.WellFormed ∧ IsBlank w'
  | .cons w value w' es => IsBlank w ∧ value.WellFormed ∧ IsBlank w' ∧ es.WellFormed

/-- The members are well formed. -/
def Members.WellFormed : Members → Prop
  | .last w key w₁ w₂ value w' =>
    IsBlank w ∧ IsContent key ∧ IsBlank w₁ ∧ IsBlank w₂ ∧ value.WellFormed ∧ IsBlank w'
  | .cons w key w₁ w₂ value w' ms =>
    IsBlank w ∧ IsContent key ∧ IsBlank w₁ ∧ IsBlank w₂ ∧ value.WellFormed ∧ IsBlank w' ∧ ms.WellFormed

end

/-- Bytes outside of the strings. -/
def others (w : List UInt8) : List Token := w.map .other

/-- The tokens of a member, from those of its value. -/
def memberTokens (key w₁ w₂ : List UInt8) : Value → List Token → List Token
  | .string raw, _ => [.member key w₁ w₂ raw]
  | _, ts => .name key w₁ w₂ :: ts

mutual

/-- The tokens of a value. -/
def Value.tokens : Value → List Token
  | .literal text => others text
  | .string raw => [.string raw]
  | .emptyArray w => .other 91 :: (others w ++ [.other 93])
  | .array es => .other 91 :: (es.tokens ++ [.other 93])
  | .emptyObject w => .other 123 :: (others w ++ [.other 125])
  | .object ms => .other 123 :: (ms.tokens ++ [.other 125])

/-- The tokens of elements. -/
def Elements.tokens : Elements → List Token
  | .last w value w' => others w ++ (value.tokens ++ others w')
  | .cons w value w' es => others w ++ (value.tokens ++ (others w' ++ .other 44 :: es.tokens))

/-- The tokens of members. -/
def Members.tokens : Members → List Token
  | .last w key w₁ w₂ value w' =>
    others w ++ (memberTokens key w₁ w₂ value value.tokens ++ others w')
  | .cons w key w₁ w₂ value w' ms =>
    others w ++ (memberTokens key w₁ w₂ value value.tokens ++ (others w' ++ .other 44 :: ms.tokens))

end

/-- A document: a value between white space. -/
structure Document where
  before : List UInt8
  value : Value
  after : List UInt8
  wellFormed : IsBlank before ∧ value.WellFormed ∧ IsBlank after

/-- The text of a document. -/
def Document.text (d : Document) : List UInt8 :=
  d.before ++ renderAll (d.value.tokens ++ others d.after)

/-! ## Secrets -/

/-- The value of a secret member, changed. -/
def hideMember (f : List UInt8 → List UInt8) (key : List UInt8) : Value → Value → Value
  | .string raw, _ => .string (if isSecret key then f raw else raw)
  | _, value => value

mutual

/-- The value with its secrets changed. -/
def Value.hide (f : List UInt8 → List UInt8) : Value → Value
  | .literal text => .literal text
  | .string raw => .string raw
  | .emptyArray w => .emptyArray w
  | .array es => .array (es.hide f)
  | .emptyObject w => .emptyObject w
  | .object ms => .object (ms.hide f)

/-- The elements with their secrets changed. -/
def Elements.hide (f : List UInt8 → List UInt8) : Elements → Elements
  | .last w value w' => .last w (value.hide f) w'
  | .cons w value w' es => .cons w (value.hide f) w' (es.hide f)

/-- The members with their secrets changed. -/
def Members.hide (f : List UInt8 → List UInt8) : Members → Members
  | .last w key w₁ w₂ value w' => .last w key w₁ w₂ (hideMember f key value (value.hide f)) w'
  | .cons w key w₁ w₂ value w' ms =>
    .cons w key w₁ w₂ (hideMember f key value (value.hide f)) w' (ms.hide f)

end

/-- The documents differ only in values of secret members, of equal length. -/
def SameButSecrets (d d' : Document) : Prop :=
  d.before = d'.before ∧ d.value.hide blot = d'.value.hide blot ∧ d.after = d'.after

/-- The text of a document with every secret value blotted up to its first escaped quote. -/
def Document.shown (d : Document) : List UInt8 :=
  d.before ++ shownAll (d.value.tokens ++ others d.after)

/-- As far as the error shows them, the secret values differ only before their first escaped quote. -/
def SameShown (d d' : Document) : Prop :=
  d.shown.take maxErrorBodyBytes = d'.shown.take maxErrorBodyBytes

/-! ## The tokens of a document -/

theorem isSpace_of_blank {w : List UInt8} (hw : IsBlank w) : ∀ b ∈ w, isSpace b = true := by
  intro b hb
  rcases hw b hb with rfl | rfl | rfl | rfl <;> rfl

theorem not_quote_of_blank {w : List UInt8} (hw : IsBlank w) : ∀ b ∈ w, b ≠ 34 := by
  rintro b hb rfl
  exact absurd (isSpace_of_blank hw _ hb) (by decide)

/-- A unit leaves the quotes behind backslashes. -/
theorem Escaped.append {u raw : List UInt8} (hu : 34 ∉ u ∨ u = [92, 34]) (hraw : Escaped raw) :
    Escaped (u ++ raw) := by
  intro p q heq
  rcases List.append_eq_append_iff.mp heq with ⟨a, rfl, hrest⟩ | ⟨a, hfront, hrest⟩
  · have hlast := hraw a q hrest
    rw [List.getLast?_append, hlast]
    rfl
  · -- the quote is in the unit
    cases a with
    | nil =>
      have hlast := hraw [] q hrest.symm
      cases hlast
    | cons x a =>
      obtain ⟨rfl, -⟩ := List.cons.inj hrest
      rcases hu with hu | rfl
      · exact absurd (hfront ▸ List.mem_append_right p List.mem_cons_self) hu
      · rcases p with _ | ⟨y, _ | ⟨z, p⟩⟩
        · cases hfront
        · obtain ⟨rfl, -⟩ := List.cons.inj hfront
          rfl
        · have hlong := congrArg List.length hfront
          simp at hlong

theorem escaped_of_content {raw : List UInt8} (h : IsContent raw) : Escaped raw := by
  induction h with
  | nil =>
    intro p q heq
    cases p <;> cases heq
  | @append u raw hu _ ih =>
    refine Escaped.append ?_ ih
    cases hu with
    | plain h hquote hbackslash => exact .inl (by simpa using Ne.symm hquote)
    | @escape b h =>
      by_cases hb : b = 34
      · exact .inr (by rw [hb])
      · refine .inl ?_
        rw [List.mem_cons, List.mem_singleton, not_or]
        exact ⟨by decide, Ne.symm hb⟩
    | @unicode a b c d h =>
      refine .inl fun hm => ?_
      have hhex : ∀ x ∈ [a, b, c, d], x ≠ 34 := by
        rintro x hx rfl
        exact absurd (List.all_eq_true.mp h _ hx) (by decide)
      rcases List.mem_cons.mp hm with hm | hm
      · exact absurd hm (by decide)
      rcases List.mem_cons.mp hm with hm | hm
      · exact absurd hm (by decide)
      · exact hhex 34 hm rfl

/-- The bytes of a literal. -/
def isLiteralByte (b : UInt8) : Bool := 43 ≤ b && b ≤ 122

theorem isLiteralByte_of_digit {b : UInt8} (h : isDigit b = true) : isLiteralByte b = true := by
  simp only [isDigit, isLiteralByte, Bool.and_eq_true, decide_eq_true_eq, UInt8.le_iff_toNat_le] at h ⊢
  obtain ⟨h, h'⟩ := h
  have hlow : (48 : UInt8).toNat = 48 := rfl
  have hhigh : (57 : UInt8).toNat = 57 := rfl
  have hfirst : (43 : UInt8).toNat = 43 := rfl
  have hlast : (122 : UInt8).toNat = 122 := rfl
  omega

theorem literal_bytes {text : List UInt8} (h : IsLiteral text) :
    text ≠ [] ∧ ∀ b ∈ text, isLiteralByte b = true := by
  -- the words, and the parts of a number in their order
  cases h with
  | word h =>
    have hall : text ≠ [] ∧ text.all isLiteralByte = true := by
      rcases h with rfl | rfl | rfl <;> decide
    exact ⟨hall.1, List.all_eq_true.mp hall.2⟩
  | @number sign ds fraction exponent hsign hds hzero hfraction hexponent =>
    refine ⟨fun hnil => ?_, fun b hb => ?_⟩
    · have hparts := List.append_eq_nil_iff.mp hnil
      exact hds.1 (List.append_eq_nil_iff.mp hparts.2).1
    · rcases List.mem_append.mp hb with hb | hb
      · rcases hsign with rfl | rfl
        · cases hb
        · rw [List.mem_singleton.mp hb]
          rfl
      rcases List.mem_append.mp hb with hb | hb
      · exact isLiteralByte_of_digit (hds.2 b hb)
      rcases List.mem_append.mp hb with hb | hb
      · rcases hfraction with rfl | ⟨fs, hfs, rfl⟩
        · cases hb
        rcases List.mem_cons.mp hb with rfl | hb
        · rfl
        · exact isLiteralByte_of_digit (hfs.2 b hb)
      · rcases hexponent with rfl | ⟨e, s, es, he, hs, hes, rfl⟩
        · cases hb
        rcases List.mem_cons.mp hb with rfl | hb
        · rcases he with rfl | rfl <;> rfl
        rcases List.mem_append.mp hb with hb | hb
        · rcases hs with rfl | rfl | rfl
          · cases hb
          · rw [List.mem_singleton.mp hb]
            rfl
          · rw [List.mem_singleton.mp hb]
            rfl
        · exact isLiteralByte_of_digit (hes.2 b hb)

theorem renderAll_append (ts us : List Token) : renderAll (ts ++ us) = renderAll ts ++ renderAll us :=
  List.flatMap_append

theorem renderAll_others (w : List UInt8) : renderAll (others w) = w := by
  unfold renderAll others
  rw [List.flatMap_map]
  exact List.flatMap_singleton' w

theorem chain_append {c : List UInt8} {ts us : List Token} (hts : Chain (renderAll us ++ c) ts)
    (hus : Chain c us) : Chain c (ts ++ us) := by
  induction ts with
  | nil => exact hus
  | cons t ts ih =>
    obtain ⟨hgood, hbefore, hchain⟩ := hts
    refine ⟨hgood, ?_, ih hchain⟩
    change t.Before (renderAll (ts ++ us) ++ c)
    rw [renderAll_append, List.append_assoc]
    exact hbefore

theorem chain_others {c w : List UInt8} (hw : ∀ b ∈ w, b ≠ 34) : Chain c (others w) := by
  induction w with
  | nil => trivial
  | cons b w ih =>
    exact ⟨hw b List.mem_cons_self, trivial, ih fun x hx => hw x (List.mem_cons_of_mem _ hx)⟩

/-- A value begins with a byte that is no white space, and with a quote only if it is a string. -/
theorem Value.head {v : Value} (h : v.WellFormed) : ∃ b rest, renderAll v.tokens = b :: rest ∧
    isSpace b = false ∧ isSpaceChar [b] = false ∧ b ≤ 0x7F ∧ ((∃ raw, v = .string raw) ∨ b ≠ 34) := by
  cases v with
  | literal text =>
    obtain ⟨hne, hbytes⟩ := literal_bytes h
    obtain ⟨b, rest, rfl⟩ := List.exists_cons_of_ne_nil hne
    refine ⟨b, rest, renderAll_others _, ?_⟩
    have hb := hbytes b List.mem_cons_self
    simp only [isLiteralByte, Bool.and_eq_true, decide_eq_true_eq, UInt8.le_iff_toNat_le] at hb
    have hlow : (43 : UInt8).toNat = 43 := rfl
    have hhigh : (122 : UInt8).toNat = 122 := rfl
    have hne : ∀ x : UInt8, x.toNat < 43 → b ≠ x := by
      rintro x hx rfl
      omega
    have h13 : ¬ b ≤ 13 := by
      rw [UInt8.le_iff_toNat_le]
      have : (13 : UInt8).toNat = 13 := rfl
      omega
    refine ⟨?_, ?_, ?_, .inr (hne 34 (by decide))⟩
    · simp [isSpace, hne 9 (by decide), hne 10 (by decide), hne 12 (by decide), hne 13 (by decide),
        hne 32 (by decide)]
    · simp [isSpaceChar, h13, hne 32 (by decide)]
    · rw [UInt8.le_iff_toNat_le]
      have : (0x7F : UInt8).toNat = 127 := rfl
      omega
  | string raw => exact ⟨34, _, rfl, rfl, rfl, by decide, .inl ⟨raw, rfl⟩⟩
  | emptyArray w => exact ⟨91, _, rfl, rfl, rfl, by decide, .inr (by decide)⟩
  | array es => exact ⟨91, _, rfl, rfl, rfl, by decide, .inr (by decide)⟩
  | emptyObject w => exact ⟨123, _, rfl, rfl, rfl, by decide, .inr (by decide)⟩
  | object ms => exact ⟨123, _, rfl, rfl, rfl, by decide, .inr (by decide)⟩

theorem closes_blank {w rest : List UInt8} (hw : IsBlank w)
    (hrest : ∀ b, rest.head? = some b → b = 44 ∨ b = 93 ∨ b = 125) : Closes (w ++ rest) := by
  intro b hb
  have hhead : ∀ b, rest.head? = some b → isSpace b = false := by
    intro b hb
    rcases hrest b hb with rfl | rfl | rfl <;> rfl
  rw [dropWhile_spaces (isSpace_of_blank hw) hhead] at hb
  exact hrest b hb

/-- The tokens of a member follow each other as they should. -/
theorem chain_member {c key w₁ w₂ : List UInt8} {v : Value} (hkey : IsContent key) (hw₁ : IsBlank w₁)
    (hw₂ : IsBlank w₂) (hv : v.WellFormed) (hclose : Closes c) (h : Chain c v.tokens) :
    Chain c (memberTokens key w₁ w₂ v v.tokens) := by
  have hparts : Escaped key ∧ (∀ b ∈ w₁, isSpace b = true) ∧ ∀ b ∈ w₂, isSpace b = true :=
    ⟨escaped_of_content hkey, isSpace_of_blank hw₁, isSpace_of_blank hw₂⟩
  -- a value that is no string does not begin like one
  have hname : (∀ raw, v ≠ .string raw) → Chain c (.name key w₁ w₂ :: v.tokens) := by
    intro hno
    obtain ⟨b, rest, hrender, hspace, -, -, hstring | hquote⟩ := Value.head hv
    · obtain ⟨raw, hraw⟩ := hstring
      exact absurd hraw (hno raw)
    · refine ⟨hparts, ?_, h⟩
      rintro x hx
      rw [hrender] at hx
      obtain rfl := Option.some.inj hx
      exact ⟨hquote, hspace⟩
  cases v with
  | literal text => exact hname (fun _ => nofun)
  | string raw => exact ⟨⟨hparts, escaped_of_content hv⟩, hclose, trivial⟩
  | emptyArray w => exact hname (fun _ => nofun)
  | array es => exact hname (fun _ => nofun)
  | emptyObject w => exact hname (fun _ => nofun)
  | object ms => exact hname (fun _ => nofun)

mutual

/-- The tokens of a value follow each other as they should. -/
theorem Value.chain : ∀ (v : Value) {c : List UInt8}, v.WellFormed → Closes c → Chain c v.tokens
  | .literal text, c, h, _ => by
    refine chain_others fun b hb hquote => ?_
    have hbyte := (literal_bytes h).2 b hb
    rw [hquote] at hbyte
    exact absurd hbyte (by decide)
  | .string raw, c, h, hclose => ⟨escaped_of_content h, hclose, trivial⟩
  | .emptyArray w, c, h, _ => by
    refine ⟨(by decide : (91 : UInt8) ≠ 34), trivial, ?_⟩
    exact chain_append (chain_others (not_quote_of_blank h))
      ⟨(by decide : (93 : UInt8) ≠ 34), trivial, trivial⟩
  | .array es, c, h, _ => by
    refine ⟨(by decide : (91 : UInt8) ≠ 34), trivial, ?_⟩
    exact chain_append (Elements.chain es h) ⟨(by decide : (93 : UInt8) ≠ 34), trivial, trivial⟩
  | .emptyObject w, c, h, _ => by
    refine ⟨(by decide : (123 : UInt8) ≠ 34), trivial, ?_⟩
    exact chain_append (chain_others (not_quote_of_blank h))
      ⟨(by decide : (125 : UInt8) ≠ 34), trivial, trivial⟩
  | .object ms, c, h, _ => by
    refine ⟨(by decide : (123 : UInt8) ≠ 34), trivial, ?_⟩
    exact chain_append (Members.chain ms h) ⟨(by decide : (125 : UInt8) ≠ 34), trivial, trivial⟩

/-- So do those of elements, before the end of the array. -/
theorem Elements.chain : ∀ (es : Elements) {c : List UInt8}, es.WellFormed → Chain (93 :: c) es.tokens
  | .last w v w', c, ⟨hw, hv, hw'⟩ => by
    refine chain_append (chain_others (not_quote_of_blank hw)) ?_
    refine chain_append (Value.chain v hv ?_) (chain_others (not_quote_of_blank hw'))
    rw [renderAll_others]
    exact closes_blank hw' (by rintro b ⟨⟩; exact .inr (.inl rfl))
  | .cons w v w' es, c, ⟨hw, hv, hw', hes⟩ => by
    refine chain_append (chain_others (not_quote_of_blank hw)) ?_
    refine chain_append (Value.chain v hv ?_) ?_
    · rw [renderAll_append, renderAll_others, List.append_assoc]
      exact closes_blank hw' (by rintro b ⟨⟩; exact .inl rfl)
    · exact chain_append (chain_others (not_quote_of_blank hw'))
        ⟨(by decide : (44 : UInt8) ≠ 34), trivial, Elements.chain es hes⟩

/-- And those of members, before the end of the object. -/
theorem Members.chain : ∀ (ms : Members) {c : List UInt8}, ms.WellFormed → Chain (125 :: c) ms.tokens
  | .last w key w₁ w₂ v w', c, ⟨hw, hkey, hw₁, hw₂, hv, hw'⟩ => by
    have hclose : Closes (renderAll (others w') ++ 125 :: c) := by
      rw [renderAll_others]
      exact closes_blank hw' (by rintro b ⟨⟩; exact .inr (.inr rfl))
    refine chain_append (chain_others (not_quote_of_blank hw)) ?_
    exact chain_append (chain_member hkey hw₁ hw₂ hv hclose (Value.chain v hv hclose))
      (chain_others (not_quote_of_blank hw'))
  | .cons w key w₁ w₂ v w' ms, c, ⟨hw, hkey, hw₁, hw₂, hv, hw', hms⟩ => by
    have hclose : Closes (renderAll (others w' ++ .other 44 :: ms.tokens) ++ 125 :: c) := by
      rw [renderAll_append, renderAll_others, List.append_assoc]
      exact closes_blank hw' (by rintro b ⟨⟩; exact .inl rfl)
    refine chain_append (chain_others (not_quote_of_blank hw)) ?_
    refine chain_append (chain_member hkey hw₁ hw₂ hv hclose (Value.chain v hv hclose)) ?_
    exact chain_append (chain_others (not_quote_of_blank hw'))
      ⟨(by decide : (44 : UInt8) ≠ 34), trivial, Members.chain ms hms⟩

end

/-- The tokens of a document follow each other as they should. -/
theorem Document.chain (d : Document) : Chain [] (d.value.tokens ++ others d.after) := by
  obtain ⟨-, hvalue, hafter⟩ := d.wellFormed
  refine chain_append (Value.chain d.value hvalue ?_) (chain_others (not_quote_of_blank hafter))
  rw [renderAll_others]
  exact closes_blank hafter (by rintro b ⟨⟩)

/-! ## Documents that differ in secrets -/

/-- A token with its secret changed. -/
def Token.hide (f : List UInt8 → List UInt8) : Token → Token
  | .member key w v raw => .member key w v (if isSecret key then f raw else raw)
  | t => t

theorem hide_others (f : List UInt8 → List UInt8) (w : List UInt8) :
    (others w).map (Token.hide f) = others w := by
  unfold others
  rw [List.map_map]
  rfl

theorem tokens_hideMember (f : List UInt8 → List UInt8) (key w₁ w₂ : List UInt8) (v : Value)
    (h : (v.hide f).tokens = v.tokens.map (Token.hide f)) :
    memberTokens key w₁ w₂ (hideMember f key v (v.hide f)) (hideMember f key v (v.hide f)).tokens =
      (memberTokens key w₁ w₂ v v.tokens).map (Token.hide f) := by
  cases v with
  | string raw => rfl
  | literal text => exact congrArg (List.cons (Token.name key w₁ w₂)) h
  | emptyArray w => exact congrArg (List.cons (Token.name key w₁ w₂)) h
  | array es => exact congrArg (List.cons (Token.name key w₁ w₂)) h
  | emptyObject w => exact congrArg (List.cons (Token.name key w₁ w₂)) h
  | object ms => exact congrArg (List.cons (Token.name key w₁ w₂)) h

mutual

/-- Hiding the secrets of a value is hiding those of its tokens. -/
theorem Value.tokens_hide (f : List UInt8 → List UInt8) :
    ∀ v : Value, (v.hide f).tokens = v.tokens.map (Token.hide f)
  | .literal text => (hide_others f text).symm
  | .string raw => rfl
  | .emptyArray w => by
    simp only [Value.hide, Value.tokens, List.map_cons, List.map_append, hide_others]
    rfl
  | .array es => by
    simp only [Value.hide, Value.tokens, List.map_cons, List.map_append, Elements.tokens_hide f es]
    rfl
  | .emptyObject w => by
    simp only [Value.hide, Value.tokens, List.map_cons, List.map_append, hide_others]
    rfl
  | .object ms => by
    simp only [Value.hide, Value.tokens, List.map_cons, List.map_append, Members.tokens_hide f ms]
    rfl

theorem Elements.tokens_hide (f : List UInt8 → List UInt8) :
    ∀ es : Elements, (es.hide f).tokens = es.tokens.map (Token.hide f)
  | .last w v w' => by
    simp only [Elements.hide, Elements.tokens, List.map_append, hide_others, Value.tokens_hide f v]
  | .cons w v w' es => by
    simp only [Elements.hide, Elements.tokens, List.map_append, List.map_cons, hide_others,
      Value.tokens_hide f v, Elements.tokens_hide f es]
    rfl

theorem Members.tokens_hide (f : List UInt8 → List UInt8) :
    ∀ ms : Members, (ms.hide f).tokens = ms.tokens.map (Token.hide f)
  | .last w key w₁ w₂ v w' => by
    simp only [Members.hide, Members.tokens, List.map_append, hide_others,
      tokens_hideMember f key w₁ w₂ v (Value.tokens_hide f v)]
  | .cons w key w₁ w₂ v w' ms => by
    simp only [Members.hide, Members.tokens, List.map_append, List.map_cons, hide_others,
      tokens_hideMember f key w₁ w₂ v (Value.tokens_hide f v), Members.tokens_hide f ms]
    rfl

end

/-- Tokens that agree but for secrets are similar. -/
theorem similar_of_hide {t t' : Token} (h : t.hide blot = t'.hide blot) : Similar t t' := by
  cases t with
  | other b => cases t' <;> first | exact .inl h | cases h
  | string raw => cases t' <;> first | exact .inl h | cases h
  | name key w v => cases t' <;> first | exact .inl h | cases h
  | member key w v raw =>
    cases t' with
    | other b => cases h
    | string raw' => cases h
    | name key' w' v' => cases h
    | member key' w' v' raw' =>
      obtain ⟨rfl, rfl, rfl, hraw⟩ := Token.member.inj h
      by_cases hsecret : isSecret key = true
      · rw [if_pos hsecret, if_pos hsecret] at hraw
        have hlength : ∀ raw, (blot raw).length = raw.length := fun _ => List.length_replicate
        refine .inr ⟨key, w, v, raw, raw', rfl, rfl, hsecret, ?_⟩
        rw [← hlength raw, hraw, hlength]
      · rw [if_neg hsecret, if_neg hsecret] at hraw
        exact .inl (by rw [hraw])

/-- The tokens of documents that differ in secrets are similar. -/
theorem similar_tokens {d d' : Document} (h : SameButSecrets d d') :
    List.Forall₂ Similar (d.value.tokens ++ others d.after) (d'.value.tokens ++ others d'.after) := by
  obtain ⟨-, hhide, hafter⟩ := h
  have hvalue : List.Forall₂ Similar d.value.tokens d'.value.tokens := by
    have htokens := congrArg Value.tokens hhide
    rw [Value.tokens_hide, Value.tokens_hide, ← List.forall₂_eq_eq_eq, List.forall₂_map_left_iff,
      List.forall₂_map_right_iff] at htokens
    exact htokens.imp fun _ _ => similar_of_hide
  rw [hafter]
  exact List.rel_append hvalue (List.forall₂_same.mpr fun t _ => .inl rfl)

/-! ## The error -/

/-- The white space at the beginning is stripped. -/
theorem stripStart_blank {w t : List UInt8} (hw : IsBlank w) (ht : charLength isSpaceChar t = 0)
    {n : ℕ} (hn : w.length ≤ n) : stripStart isSpaceChar n (w ++ t) = t := by
  induction w generalizing n with
  | nil =>
    cases n with
    | zero => rfl
    | succ n => exact if_pos ht
  | cons b w ih =>
    cases n with
    | zero => cases hn
    | succ n =>
      have hone : charLength isSpaceChar (b :: (w ++ t)) = 1 := by
        have hb : isSpaceChar [b] = true := by
          rcases hw b List.mem_cons_self with rfl | rfl | rfl | rfl <;> rfl
        unfold charLength
        rw [List.take_succ_cons, List.take_zero, if_pos hb]
      rw [List.cons_append, stripStart, hone, if_neg Nat.one_ne_zero]
      exact ih (fun x hx => hw x (List.mem_cons_of_mem _ hx)) (Nat.le_of_succ_le_succ hn)

theorem charLength_ascii {b : UInt8} (hspace : isSpaceChar [b] = false) (hascii : b ≤ 0x7F)
    (rest : List UInt8) : charLength isSpaceChar (b :: rest) = 0 := by
  have hne : b ≠ 0xC2 ∧ b ≠ 0xE1 ∧ b ≠ 0xE2 ∧ b ≠ 0xE3 := by
    refine ⟨?_, ?_, ?_, ?_⟩ <;> (rintro rfl; revert hascii; decide)
  have htwo : ∀ y, isSpaceChar [b, y] = false := fun y => by simp [isSpaceChar, hne]
  have hthree : ∀ y z, isSpaceChar [b, y, z] = false := fun y z => by simp [isSpaceChar, hne]
  rcases rest with _ | ⟨y, _ | ⟨z, rest⟩⟩
  · simp [charLength, hspace]
  · simp [charLength, hspace, htwo]
  · simp [charLength, hspace, htwo, hthree]

/-- What is left of the beginning of a document without the white space at its ends. -/
theorem trimSpace_take (d : Document) (n : ℕ) : trimSpace (d.text.take n) =
    trimRight ((renderAll (d.value.tokens ++ others d.after)).take (n - d.before.length)) := by
  obtain ⟨hbefore, hvalue, -⟩ := d.wellFormed
  obtain ⟨b, rest, hrender, -, hspace, hascii, -⟩ := Value.head hvalue
  unfold trimSpace Document.text
  rw [List.take_append]
  have hblank : IsBlank (d.before.take n) := fun x hx => hbefore x (List.mem_of_mem_take hx)
  rw [stripStart_blank hblank ?_ (by rw [List.length_append]; exact Nat.le_add_right _ _)]
  rw [renderAll_append, hrender]
  cases n - d.before.length with
  -- nothing but white space is left
  | zero => rfl
  | succ k => exact charLength_ascii hspace hascii _

theorem Pair.eq_nil {a b : List UInt8} (h : Pair a b) (ha : a = []) : b = [] := by
  obtain ⟨us, us', c, c', rfl, rfl, -, -, hus, hrest⟩ := h
  obtain ⟨hus₀, hc⟩ := List.append_eq_nil_iff.mp ha
  cases hus with
  | nil =>
    rcases hrest with rfl | ⟨o, x, x', ho, rfl, -, -⟩
    · exact ha
    · obtain ⟨u, w, v, -, -, -, rfl⟩ := opening_reads.mp ho
      exact absurd (List.append_eq_nil_iff.mp hc).1 (openingText_ne_nil u w v)
  | @cons t _ us _ _ _ =>
    rw [renderAll_cons] at hus₀
    have hempty := (List.append_eq_nil_iff.mp hus₀).1
    cases t <;> cases hempty

theorem Pair.symm {a b : List UInt8} (h : Pair a b) : Pair b a := by
  obtain ⟨us, us', c, c', ha, hb, hc, hc', hus, hrest⟩ := h
  refine ⟨us', us, c', c, hb, ha, hc', hc, ?_, ?_⟩
  · refine hus.flip.imp fun t t' halike => ?_
    rcases halike with rfl | ⟨key, w, v, raw, raw', rfl, rfl, hname, hlength, hdrop⟩
    · exact .inl rfl
    · exact .inr ⟨key, w, v, raw', raw, rfl, rfl, hname, hlength.symm, hdrop.symm⟩
  · rcases hrest with rfl | ⟨o, x, x', ho, hcx, hcx', ⟨hx, hx'⟩ | ⟨p, p', q, hp, hp', hno, hno'⟩⟩
    · exact .inl rfl
    · exact .inr ⟨o, x', x, ho, hcx', hcx, .inl ⟨hx', hx⟩⟩
    · exact .inr ⟨o, x', x, ho, hcx', hcx, .inr ⟨p', p, q, hp', hp, hno', hno⟩⟩

/-- Alike texts are described alike. -/
theorem Pair.describe {a b : List UInt8} (h : Pair a b) (nothing : List UInt8)
    (something : List UInt8 → List UInt8) :
    (if a = [] then nothing else something (redact (a.map singleLine))) =
      if b = [] then nothing else something (redact (b.map singleLine)) := by
  by_cases ha : a = []
  · rw [if_pos ha, if_pos (h.eq_nil ha)]
  · have hb : b ≠ [] := fun hb => ha (h.symm.eq_nil hb)
    rw [if_neg ha, if_neg hb, h.map.redact_eq]

/-- The error cuts a text at its limit. -/
theorem take_of_short {text : List UInt8} {n : ℕ} (h : ¬ n < (text.take (n + 1)).length) :
    text.take (n + 1) = text.take n := by
  rw [List.length_take] at h
  rw [List.take_of_length_le (by omega), List.take_of_length_le (by omega)]

/-- Documents that differ in secret values, and in what the error shows of these only before the first
escaped quote, give the same error. -/
theorem responseError_eq (operation status : List UInt8) {d d' : Document}
    (hsecrets : SameButSecrets d d') (hshown : SameShown d d') :
    responseError operation status d.text = responseError operation status d'.text := by
  have hsimilar := similar_tokens hsecrets
  have hbefore := hsecrets.1
  have hlength : d.text.length = d'.text.length := by
    rw [Document.text, Document.text, List.length_append, List.length_append, hbefore,
      length_renderAll hsimilar]
  have hpair : Pair (trimSpace (d.text.take maxErrorBodyBytes))
      (trimSpace (d'.text.take maxErrorBodyBytes)) := by
    rw [trimSpace_take, trimSpace_take, ← hbefore]
    refine pair_trimRight hsimilar d.chain d'.chain ?_
    rw [SameShown, Document.shown, Document.shown, List.take_append, List.take_append, ← hbefore]
      at hshown
    exact List.append_cancel_left hshown
  have htruncated : maxErrorBodyBytes < (d.text.take (maxErrorBodyBytes + 1)).length ↔
      maxErrorBodyBytes < (d'.text.take (maxErrorBodyBytes + 1)).length := by
    rw [List.length_take, List.length_take, hlength]
  unfold responseError
  dsimp only
  by_cases hlong : maxErrorBodyBytes < (d'.text.take (maxErrorBodyBytes + 1)).length
  · -- the body is cut, and the error says so
    simp only [decide_eq_true (htruncated.mpr hlong), decide_eq_true hlong, if_true, List.take_take,
      Nat.min_eq_left (Nat.le_succ maxErrorBodyBytes)]
    exact hpair.describe _ fun detail =>
      operation ++ ascii ": " ++ status ++ ascii ": " ++ (detail ++ [0xE2, 0x80, 0xA6])
  · have hshort := fun h => hlong (htruncated.mp h)
    simp only [decide_eq_false hshort, decide_eq_false hlong, Bool.false_eq_true, if_false]
    rw [take_of_short hshort, take_of_short hlong]
    exact hpair.describe _ fun detail => operation ++ ascii ": " ++ status ++ ascii ": " ++ detail

/-- `{"token":"…"}`. -/
def tokenDocument (raw : List UInt8) (h : IsContent raw) : Document where
  before := []
  value := .object (.last [] (ascii "token") [] [] (.string raw) [])
  after := []
  wellFormed := by
    have hblank : IsBlank [] := fun _ hb => absurd hb List.not_mem_nil
    have hplain : ∀ {b : UInt8} {raw : List UInt8}, 32 ≤ b → b ≠ 34 → b ≠ 92 → IsContent raw →
        IsContent (b :: raw) := fun h hquote hbackslash hraw =>
      .append (.plain h hquote hbackslash) hraw
    have hkey : IsContent [116, 111, 107, 101, 110] :=
      hplain (by decide) (by decide) (by decide) <| hplain (by decide) (by decide) (by decide) <|
        hplain (by decide) (by decide) (by decide) <| hplain (by decide) (by decide) (by decide) <|
          hplain (by decide) (by decide) (by decide) .nil
    exact ⟨hblank, ⟨hblank, hkey, hblank, hblank, h, hblank⟩, hblank⟩

theorem isContent_letter {b : UInt8} (h : 32 ≤ b) (hquote : b ≠ 34) (hbackslash : b ≠ 92) :
    IsContent [b] :=
  .append (.plain h hquote hbackslash) .nil

/-- A value of one letter is redacted. -/
theorem responseError_eq_letter :
    responseError [] [] (tokenDocument [97] (isContent_letter (by decide) (by decide) (by decide))).text =
      responseError [] []
        (tokenDocument [98] (isContent_letter (by decide) (by decide) (by decide))).text :=
  responseError_eq [] [] ⟨rfl, rfl, rfl⟩ rfl

theorem isContent_quoted {b : UInt8} (h : 32 ≤ b) (hquote : b ≠ 34) (hbackslash : b ≠ 92) :
    IsContent [92, 34, b] :=
  .append (.escape (by decide)) (isContent_letter h hquote hbackslash)

/-- What stands behind an escaped quote is disclosed. -/
theorem quoted_discloses : ∃ d d' : Document, SameButSecrets d d' ∧
    responseError [] [] d.text ≠ responseError [] [] d'.text := by
  refine ⟨tokenDocument [92, 34, 120] (isContent_quoted (by decide) (by decide) (by decide)),
    tokenDocument [92, 34, 121] (isContent_quoted (by decide) (by decide) (by decide)),
    ⟨rfl, rfl, rfl⟩, ?_⟩
  decide +kernel

end Mastermind.Agent.Redaction
