import Mathlib

/-!
# UTF-8 with replacement

Go reads a string rune by rune: at each position the rune whose encoding stands there, or, where
none does, one invalid byte. `runes` is that reading, and `goText` the text in which every invalid
byte has become U+FFFD. Cutting an encoded text into parts keeps its text exactly if every part is
an encoded text itself (`flatMap_goText_eq_iff`): the replacements make a text longer.
-/

namespace Mastermind.Utf8

/-- The bytes of a text. -/
def encode (cs : List Char) : List UInt8 := cs.flatMap String.utf8EncodeChar

/-- U+FFFD. -/
def replacement : Char := Char.ofNat 0xFFFD

/-- The rune whose encoding the bytes begin with. -/
def decodeRune (bytes : List UInt8) : Option Char := bytes.toByteArray.utf8DecodeChar? 0

/-- The runes of a string, with `none` for each invalid byte. -/
def runes : List UInt8 → List (Option Char)
  | [] => []
  | b :: bytes =>
    match decodeRune (b :: bytes) with
    | none => none :: runes bytes
    | some c => some c :: runes (bytes.drop (c.utf8Size - 1))
termination_by bytes => bytes.length
decreasing_by
  all_goals simp

/-- The text of a string: each invalid byte is replaced. -/
def goText (bytes : List UInt8) : List Char := (runes bytes).map fun r => r.getD replacement

/-- A string is valid if it is the encoding of a text. -/
def Valid (bytes : List UInt8) : Prop := ∃ cs, bytes = encode cs

@[simp] theorem encode_nil : encode [] = [] := rfl

@[simp] theorem encode_cons (c : Char) (cs : List Char) :
    encode (c :: cs) = String.utf8EncodeChar c ++ encode cs := rfl

theorem encode_append (cs ds : List Char) : encode (cs ++ ds) = encode cs ++ encode ds :=
  List.flatMap_append

@[simp] theorem runes_nil : runes [] = [] := by simp [runes]

/-- A decoded rune is what the bytes begin with. -/
theorem decodeRune_eq_some {bytes : List UInt8} {c : Char} (h : decodeRune bytes = some c) :
    ∃ rest, bytes = String.utf8EncodeChar c ++ rest := by
  obtain ⟨l, hl⟩ := ByteArray.exists_of_utf8DecodeChar?_eq_some h
  refine ⟨l.data.toList, ?_⟩
  have hdata := congrArg (fun b => b.data.toList) hl
  simpa using hdata

/-- The rune that the bytes begin with is decoded. -/
theorem decodeRune_encode (c : Char) (rest : List UInt8) :
    decodeRune (String.utf8EncodeChar c ++ rest) = some c := by
  rw [decodeRune, List.toByteArray_append]
  exact ByteArray.utf8DecodeChar?_utf8EncodeChar_append

/-- A string that begins with the encoding of a rune is read so. -/
theorem runes_encode_append (c : Char) (rest : List UInt8) :
    runes (String.utf8EncodeChar c ++ rest) = some c :: runes rest := by
  have hlen := String.length_utf8EncodeChar c
  have hpos := c.utf8Size_pos
  cases hc : String.utf8EncodeChar c with
  | nil =>
    rw [hc] at hlen
    simp at hlen
    omega
  | cons b bytes =>
    have hdec := decodeRune_encode c rest
    rw [hc, List.cons_append] at hdec
    have hdrop : (bytes ++ rest).drop (c.utf8Size - 1) = rest := by
      rw [hc, List.length_cons] at hlen
      rw [← hlen, Nat.add_sub_cancel, List.drop_left]
    rw [List.cons_append, runes, hdec]
    simp only [hdrop]

/-- The reading of an encoded text. -/
theorem runes_encode (cs : List Char) : runes (encode cs) = cs.map some := by
  induction cs with
  | nil => exact runes_nil
  | cons c cs ih => rw [encode_cons, runes_encode_append, ih, List.map_cons]

/-- The text of an encoded text. -/
theorem goText_encode (cs : List Char) : goText (encode cs) = cs := by
  rw [goText, runes_encode, List.map_map]
  exact List.map_id cs

/-- Distinct texts have distinct encodings. -/
theorem encode_inj {cs ds : List Char} (h : encode cs = encode ds) : cs = ds := by
  rw [← goText_encode cs, h, goText_encode]

/-- Induction along the reading of a string. -/
theorem runes_induction {P : List UInt8 → Prop} (nil : P [])
    (invalid : ∀ b bytes, runes (b :: bytes) = none :: runes bytes → P bytes → P (b :: bytes))
    (rune : ∀ c rest, P rest → P (String.utf8EncodeChar c ++ rest)) (bytes : List UInt8) :
    P bytes := by
  induction hn : bytes.length using Nat.strong_induction_on generalizing bytes with
  | _ n ih =>
    cases bytes with
    | nil => exact nil
    | cons b bytes =>
      cases hdec : decodeRune (b :: bytes) with
      | none =>
        refine invalid b bytes ?_ (ih bytes.length (by simp [← hn]) bytes rfl)
        rw [runes, hdec]
      | some c =>
        obtain ⟨rest, hrest⟩ := decodeRune_eq_some hdec
        have hpos := c.utf8Size_pos
        rw [hrest]
        refine rune c rest (ih rest.length ?_ rest rfl)
        rw [← hn, hrest, List.length_append, String.length_utf8EncodeChar]
        omega

/-- Every invalid byte makes the text two bytes longer than the string. -/
theorem length_encode_goText (bytes : List UInt8) :
    (encode (goText bytes)).length = bytes.length + 2 * (runes bytes).count none := by
  induction bytes using runes_induction with
  | nil => simp [goText]
  | invalid b bytes hr ih =>
    have hrep : (String.utf8EncodeChar replacement).length = 3 := by decide
    rw [goText] at ih ⊢
    rw [hr, List.map_cons, Option.getD_none, encode_cons, List.length_append, hrep, ih,
      List.count_cons_self, List.length_cons]
    omega
  | rune c rest ih =>
    rw [goText] at ih ⊢
    rw [runes_encode_append, List.map_cons, Option.getD_some, encode_cons, List.length_append, ih,
      List.length_append, List.count_cons_of_ne (by simp)]
    omega

/-- A string without invalid bytes is the encoding of its text. -/
theorem encode_goText {bytes : List UInt8} (h : (runes bytes).count none = 0) :
    encode (goText bytes) = bytes := by
  induction bytes using runes_induction with
  | nil => simp [goText]
  | invalid b bytes hr _ => simp [hr] at h
  | rune c rest ih =>
    rw [runes_encode_append, List.count_cons_of_ne (by simp)] at h
    have hrest := ih h
    rw [goText] at hrest ⊢
    rw [runes_encode_append, List.map_cons, Option.getD_some, encode_cons, hrest]

/-- A string is valid if and only if it has no invalid byte. -/
theorem valid_iff {bytes : List UInt8} : Valid bytes ↔ (runes bytes).count none = 0 := by
  constructor
  · rintro ⟨cs, rfl⟩
    rw [runes_encode]
    exact List.count_eq_zero.mpr (by simp)
  · intro h
    exact ⟨goText bytes, (encode_goText h).symm⟩

/-- The text of an encoded text that has been cut into parts: it is kept if and only if every part
is the encoding of a text. -/
theorem flatMap_goText_eq_iff {parts : List (List UInt8)} {cs : List Char}
    (h : parts.flatten = encode cs) : parts.flatMap goText = cs ↔ ∀ p ∈ parts, Valid p := by
  -- each part's text is as long as the part and twice its invalid bytes
  have hlen : (encode (parts.flatMap goText)).length =
      parts.flatten.length + 2 * (parts.map fun p => (runes p).count none).sum := by
    clear h
    induction parts with
    | nil => rfl
    | cons p parts ih =>
      rw [List.flatMap_cons, encode_append, List.length_append, ih, length_encode_goText,
        List.flatten_cons, List.length_append, List.map_cons, List.sum_cons]
      omega
  constructor
  · intro hcs p hp
    rw [hcs, h] at hlen
    have hsum : (parts.map fun p => (runes p).count none).sum = 0 := by omega
    exact valid_iff.mpr (List.sum_eq_zero_iff.mp hsum _ (List.mem_map_of_mem hp))
  · intro hvalid
    have hflat : encode (parts.flatMap goText) = parts.flatten := by
      clear h hlen
      induction parts with
      | nil => rfl
      | cons p parts ih =>
        rw [List.flatMap_cons, encode_append, List.flatten_cons,
          ih fun q hq => hvalid q (List.mem_cons_of_mem _ hq),
          encode_goText (valid_iff.mp (hvalid p List.mem_cons_self))]
    exact encode_inj (hflat.trans h)

end Mastermind.Utf8
