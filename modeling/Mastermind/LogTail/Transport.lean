import Mastermind.LogTail.AppendOnly
import Mastermind.Platform.Utf8

/-!
# A chunk on its way to the control plane

`StreamLogBytes` of `internal/client/http.go` puts a chunk into a JSON body with `json.Marshal`,
and the control plane parses the body and hands the content to `append`. `requestBody` is what is
sent and `parseBody` what is received of it: the text of the chunk, in which each byte that is not
part of a rune has been replaced (`parseBody_requestBody`). Two things follow. What arrives is the
file's text exactly if no chunk ends inside a rune (`text_survives_iff`), and a body is within the
size limit of the control plane or not depending on how many characters of the chunk are escaped
(`body_within_limit_iff`).
-/

namespace Mastermind.LogTail

open Effect Program Utf8

/-- A hexadecimal digit, as Go writes it. -/
def hexDigit (n : ℕ) : Char :=
  ['0', '1', '2', '3', '4', '5', '6', '7', '8', '9', 'a', 'b', 'c', 'd', 'e', 'f'].getD n '0'

/-- The control characters that have an escape of their own, with its letter. -/
def shortEscapes : List (ℕ × Char) := [(8, 'b'), (12, 'f'), (10, 'n'), (13, 'r'), (9, 't')]

/-- How `json.Marshal` writes a rune, or an invalid byte, of a string. -/
def escapeRune : Option Char → List Char
  | none => ['\\', 'u', 'f', 'f', 'f', 'd']
  | some c =>
    if c = '\\' ∨ c = '"' then ['\\', c]
    else match shortEscapes.lookup c.toNat with
    | some e => ['\\', e]
    | none =>
      if c.toNat < 0x20 ∨ c = '<' ∨ c = '>' ∨ c = '&' then
        ['\\', 'u', '0', '0', hexDigit (c.toNat / 16), hexDigit (c.toNat % 16)]
      else if c.toNat = 0x2028 ∨ c.toNat = 0x2029 then
        ['\\', 'u', '2', '0', '2', hexDigit (c.toNat % 16)]
      else [c]

/-- What the body begins with. -/
def bodyStart : List Char := "\x7b\"content\":\"".toList

/-- What the body ends with. -/
def bodyEnd : List Char := ['"', '\x7d']

/-- `json.Marshal(map[string]string{"content": string(content)})`. -/
def requestBody (content : List UInt8) : List UInt8 :=
  encode (bodyStart ++ (runes content).flatMap escapeRune ++ bodyEnd)

/-- The value of a hexadecimal digit. -/
def hexValue (c : Char) : Option ℕ :=
  if '0' ≤ c ∧ c ≤ '9' then some (c.toNat - 48)
  else if 'a' ≤ c ∧ c ≤ 'f' then some (c.toNat - 87)
  else if 'A' ≤ c ∧ c ≤ 'F' then some (c.toNat - 55)
  else none

/-- The character of the escape `\uabcd`. A surrogate, which Go never writes, has none here. -/
def unicodeEscape (a b c d : Char) : Option Char := do
  let code := (← hexValue a) * 4096 + (← hexValue b) * 256 + (← hexValue c) * 16 + (← hexValue d)
  if 0xD800 ≤ code ∧ code < 0xE000 then none else some (Char.ofNat code)

/-- The character of the escape `\e`. -/
def simpleEscape (e : Char) : Option Char :=
  [('"', '"'), ('\\', '\\'), ('/', '/'), ('b', Char.ofNat 8), ('f', Char.ofNat 12),
    ('n', Char.ofNat 10), ('r', Char.ofNat 13), ('t', Char.ofNat 9)].lookup e

/-- `JSON.parse` inside a string: its characters, and what follows the closing quote. -/
def parseChars : List Char → Option (List Char × List Char)
  | [] => none
  | c :: rest =>
    if c = '"' then some ([], rest)
    else if c = '\\' then
      match rest with
      | [] => none
      | e :: rest =>
        if e = 'u' then
          match rest with
          | x :: y :: z :: w :: rest =>
            (unicodeEscape x y z w).bind fun d => (parseChars rest).map fun p => (d :: p.1, p.2)
          | _ => none
        else (simpleEscape e).bind fun d => (parseChars rest).map fun p => (d :: p.1, p.2)
    else if c.toNat < 0x20 then none
    else (parseChars rest).map fun p => (c :: p.1, p.2)

/-- The `content` of a body that is an object with this one property. -/
def parseBody (body : List UInt8) : Option (List Char) :=
  let text := goText body
  if bodyStart.isPrefixOf text then
    match parseChars (text.drop bodyStart.length) with
    | some (content, rest) => if rest = bodyEnd.tail then some content else none
    | none => none
  else none

/-- The request-body limit of the control plane, in bytes. -/
def bodyLimit : ℕ := 100 * 1024

section RoundTrip

/-- A character that is written as it is is read as it is. -/
theorem parseChars_plain {c : Char} (hq : c ≠ '"') (hb : c ≠ '\\') (hc : ¬ c.toNat < 0x20)
    (rest : List Char) :
    parseChars (c :: rest) = (parseChars rest).map fun p => (c :: p.1, p.2) := by
  rw [parseChars.eq_def]
  simp only [hq, hb, hc, if_false]

theorem parseChars_simple {e c : Char} (he : e ≠ 'u') (h : simpleEscape e = some c)
    (rest : List Char) :
    parseChars ('\\' :: e :: rest) = (parseChars rest).map fun p => (c :: p.1, p.2) := by
  rw [parseChars.eq_def]
  simp [he, h]

theorem parseChars_unicode {x y z w c : Char} (h : unicodeEscape x y z w = some c)
    (rest : List Char) : parseChars ('\\' :: 'u' :: x :: y :: z :: w :: rest) =
      (parseChars rest).map fun p => (c :: p.1, p.2) := by
  rw [parseChars.eq_def]
  simp [h]

/-- A digit is read as what it was written for. -/
theorem hexValue_hexDigit {n : ℕ} (h : n < 16) : hexValue (hexDigit n) = some n := by
  have hall : ∀ n : Fin 16, hexValue (hexDigit n) = some n.val := by decide
  exact hall ⟨n, h⟩

/-- Two digits after two zeros are read as what they were written for. -/
theorem unicodeEscape_hexDigits {n : ℕ} (h : n < 256) :
    unicodeEscape '0' '0' (hexDigit (n / 16)) (hexDigit (n % 16)) = some (Char.ofNat n) := by
  have hhi : hexValue (hexDigit (n / 16)) = some (n / 16) := hexValue_hexDigit (by omega)
  have hlo : hexValue (hexDigit (n % 16)) = some (n % 16) := hexValue_hexDigit (by omega)
  have hzero : hexValue '0' = some 0 := by decide
  have hcode : 0 * 4096 + 0 * 256 + n / 16 * 16 + n % 16 = n := by omega
  have hplain : ¬ (0xD800 ≤ n ∧ n < 0xE000) := by omega
  simp only [unicodeEscape, hhi, hlo, hzero, Option.bind_eq_bind, Option.bind_some, hcode, hplain,
    if_false]

/-- The short escapes are read as what they were written for. -/
theorem simpleEscape_shortEscapes {n : ℕ} {e : Char} (h : shortEscapes.lookup n = some e) :
    e ≠ 'u' ∧ simpleEscape e = some (Char.ofNat n) := by
  have hall : ∀ p ∈ shortEscapes, p.2 ≠ 'u' ∧ simpleEscape p.2 = some (Char.ofNat p.1) := by
    decide
  have hmem : (n, e) ∈ shortEscapes := by
    obtain ⟨l₁, l₂, hl, -⟩ := List.lookup_eq_some_iff.mp h
    rw [hl]
    simp
  exact hall _ hmem

/-- What `json.Marshal` writes for a rune is read as that rune, and what it writes for an invalid
byte as U+FFFD. -/
theorem parseChars_escapeRune (r : Option Char) (rest : List Char) :
    parseChars (escapeRune r ++ rest) =
      (parseChars rest).map fun p => (r.getD replacement :: p.1, p.2) := by
  cases r with
  | none => exact parseChars_unicode (by decide) rest
  | some c =>
    have hself : Char.ofNat c.toNat = c := Char.ofNat_toNat c
    rw [escapeRune, Option.getD_some]
    by_cases hquote : c = '\\' ∨ c = '"'
    · -- the backslash and the quotation mark
      rw [if_pos hquote]
      rcases hquote with rfl | rfl
      · exact parseChars_simple (by decide) (by decide) rest
      · exact parseChars_simple (by decide) (by decide) rest
    rw [if_neg hquote]
    rw [not_or] at hquote
    cases he : shortEscapes.lookup c.toNat with
    | some e =>
      obtain ⟨hu, hsimple⟩ := simpleEscape_shortEscapes he
      rw [hself] at hsimple
      exact parseChars_simple hu hsimple rest
    | none =>
      simp only
      split_ifs with hlow hline
      · -- control characters, and those that are escaped for HTML
        have hn : c.toNat < 256 := by
          rcases hlow with h | rfl | rfl | rfl
          · omega
          all_goals decide
        have hhex := unicodeEscape_hexDigits hn
        rw [hself] at hhex
        exact parseChars_unicode hhex rest
      · -- the two line separators
        refine parseChars_unicode ?_ rest
        rw [← hself]
        rcases hline with h | h
        · rw [h]
          decide
        · rw [h]
          decide
      · rw [not_or] at hlow
        exact parseChars_plain hquote.2 hquote.1 hlow.1 rest

/-- A string of escaped runes is read as its text. -/
theorem parseChars_escaped (rs : List (Option Char)) (rest : List Char) :
    parseChars (rs.flatMap escapeRune ++ '"' :: rest) =
      some (rs.map fun r => r.getD replacement, rest) := by
  induction rs with
  | nil =>
    rw [List.flatMap_nil, List.nil_append, parseChars.eq_def]
    rfl
  | cons r rs ih =>
    rw [List.flatMap_cons, List.append_assoc, parseChars_escapeRune, ih]
    rfl

/-- What the control plane receives of a chunk is its text. -/
theorem parseBody_requestBody (content : List UInt8) :
    parseBody (requestBody content) = some (goText content) := by
  have htext : goText (requestBody content) =
      bodyStart ++ ((runes content).flatMap escapeRune ++ bodyEnd) := by
    rw [requestBody, goText_encode, List.append_assoc]
  have hprefix : bodyStart.isPrefixOf
      (bodyStart ++ ((runes content).flatMap escapeRune ++ bodyEnd)) = true := by
    rw [List.isPrefixOf_iff_prefix]
    exact List.prefix_append _ _
  have hparse : parseChars ((runes content).flatMap escapeRune ++ bodyEnd) =
      some (goText content, bodyEnd.tail) := parseChars_escaped _ _
  rw [parseBody]
  simp only [htext, hprefix, if_true, List.drop_left, hparse]

end RoundTrip

/-- The text of the contents that `append` receives. -/
def receivedText (chunks : List (List UInt8)) : List Char :=
  chunks.flatMap fun chunk => (parseBody (requestBody chunk)).getD []

theorem receivedText_eq (chunks : List (List UInt8)) : receivedText chunks = chunks.flatMap goText := by
  rw [receivedText]
  simp only [parseBody_requestBody, Option.getD_some]

/-- While the tailer follows a growing file, the text that `append` receives of what has been
delivered is the text of that part of the file if and only if no chunk ends inside a rune: each is
an encoded text itself. -/
theorem text_survives_iff {bytes : List UInt8} {t : Tailer} {d : Disk} {trace : List TailEvent}
    {start : ℕ} {cs : List Char}
    (hr : Works tailMachine Round.prog Appends anyCall newTailer (Disk.single bytes)
      ⟨.ret (.ok t), d, trace⟩)
    (hopen : t.file ≠ none) (hs : startOffset trace = some start)
    (hcs : ((d.text 0).take t.ackedOffset).drop start = encode cs) :
    receivedText (delivered trace) = cs ↔ ∀ chunk ∈ delivered trace, Valid chunk := by
  obtain ⟨t', h, ht⟩ := Tracks.of_works appending filesPath trivial hr
  cases h
  rw [receivedText_eq]
  apply flatMap_goText_eq_iff
  rcases ht.segments (path_of_appends hr) with ⟨hclosed, -⟩ | ⟨s, hs', -, -, hflat, -⟩
  · exact absurd hclosed hopen
  · obtain rfl : start = s := Option.some.inj (hs.symm.trans hs')
    exact hflat.trans hcs

/-- A file of one rune that is written and read at once arrives. -/
theorem text_survives_iff_whole :
    ∃ t d trace, script tailMachine Round.prog [(⟨0, false⟩, []), (⟨350, false⟩, [])] newTailer
        (Disk.single [0xC3, 0xA9]) [] = (.ok t, d, trace) ∧
      delivered trace = [[0xC3, 0xA9]] ∧
      (receivedText (delivered trace) = ['é'] ↔ ∀ chunk ∈ delivered trace, Valid chunk) := by
  have hinit : Works tailMachine Round.prog Appends anyCall newTailer (Disk.single [0xC3, 0xA9])
      ⟨.ret (.ok newTailer), Disk.single [0xC3, 0xA9], []⟩ := .init
  have hr := Works.script [(⟨0, false⟩, []), (⟨350, false⟩, [])] (fun _ _ _ => trivial) hinit
  exact ⟨_, _, _, rfl, rfl, text_survives_iff hr (by decide)
    (show startOffset _ = some 0 from rfl) (by decide)⟩

/-- The first byte of a rune alone is not a text. -/
theorem not_valid_lead : ¬ Valid [0xC3] := by
  intro h
  have hdec : decodeRune [0xC3] = none := by decide
  have hruns : runes [0xC3] = [none] := by rw [runes, hdec, runes_nil]
  rw [valid_iff, hruns] at h
  cases h

/-- A rune whose bytes are written one by one, with a batch sent in between, is lost. -/
theorem text_lost_inside_rune :
    ¬ ∀ bytes t d trace start cs, Works tailMachine Round.prog Appends anyCall newTailer
        (Disk.single bytes) ⟨.ret (.ok t), d, trace⟩ → t.file ≠ none →
      startOffset trace = some start → ((d.text 0).take t.ackedOffset).drop start = encode cs →
      receivedText (delivered trace) = cs := by
  intro hall
  have hinit : Works tailMachine Round.prog Appends anyCall newTailer (Disk.single [0xC3])
      ⟨.ret (.ok newTailer), Disk.single [0xC3], []⟩ := .init
  have hfirst := Works.script [(⟨0, false⟩, []), (⟨350, false⟩, [])] (fun _ _ _ => trivial) hinit
  have hwritten := hfirst.environment ⟨0, [0xA9], rfl⟩
  have hsecond := Works.script [(⟨1000, false⟩, []), (⟨1350, false⟩, [])] (fun _ _ _ => trivial)
    hwritten
  have htext := hall _ _ _ _ 0 ['é'] hsecond (by decide) rfl (by decide)
  rw [receivedText_eq] at htext
  have hvalid := (flatMap_goText_eq_iff
    (show [[0xC3], [0xA9]].flatten = encode ['é'] by decide)).mp htext
  exact not_valid_lead (hvalid _ List.mem_cons_self)

section Size

/-- By how many bytes the escape of a rune, or of an invalid byte, is longer. -/
def growth : Option Char → ℕ
  | none => 5
  | some c =>
    if c = '\\' ∨ c = '"' then 1
    else match shortEscapes.lookup c.toNat with
    | some _ => 1
    | none =>
      if c.toNat < 0x20 ∨ c = '<' ∨ c = '>' ∨ c = '&' then 5
      else if c.toNat = 0x2028 ∨ c.toNat = 0x2029 then 3
      else 0

/-- The length of a rune, or of an invalid byte, in the chunk. -/
def width : Option Char → ℕ
  | none => 1
  | some c => c.utf8Size

/-- The escapes are ASCII. -/
theorem length_encode_escape {l : List Char} (h : ∀ c ∈ l, c.utf8Size = 1) :
    (encode l).length = l.length := by
  induction l with
  | nil => rfl
  | cons c l ih =>
    rw [encode_cons, List.length_append, String.length_utf8EncodeChar, h c List.mem_cons_self,
      ih fun d hd => h d (List.mem_cons_of_mem _ hd), List.length_cons]
    omega

/-- A hexadecimal digit is ASCII. -/
theorem utf8Size_hexDigit {n : ℕ} (h : n < 16) : (hexDigit n).utf8Size = 1 := by
  have hall : ∀ n : Fin 16, (hexDigit n).utf8Size = 1 := by decide
  exact hall ⟨n, h⟩

/-- A character below U+0080 is one byte. -/
theorem utf8Size_of_lt {c : Char} (h : c.toNat < 128) : c.utf8Size = 1 := by
  rw [Char.utf8Size_eq_one_iff, UInt32.le_iff_toNat_le]
  have hval : c.val.toNat = c.toNat := rfl
  have hbound : (127 : UInt32).toNat = 127 := rfl
  omega

/-- What is written for a rune is longer than the rune by its growth. -/
theorem length_escapeRune (r : Option Char) :
    (encode (escapeRune r)).length = width r + growth r := by
  cases r with
  | none => decide
  | some c =>
    have hself : Char.ofNat c.toNat = c := Char.ofNat_toNat c
    rw [escapeRune, growth, width]
    by_cases hquote : c = '\\' ∨ c = '"'
    · rw [if_pos hquote, if_pos hquote]
      rcases hquote with rfl | rfl
      · decide
      · decide
    rw [if_neg hquote, if_neg hquote]
    cases he : shortEscapes.lookup c.toNat with
    | some e =>
      have hall : ∀ p ∈ shortEscapes, (Char.ofNat p.1).utf8Size = 1 ∧ p.2.utf8Size = 1 := by
        decide
      obtain ⟨l₁, l₂, hl, -⟩ := List.lookup_eq_some_iff.mp he
      obtain ⟨hc, hsize⟩ := hall (c.toNat, e) (by rw [hl]; simp)
      rw [hself] at hc
      have hback : '\\'.utf8Size = 1 := by decide
      simp [hsize, hc, hback]
    | none =>
      simp only
      split_ifs with hlow hline
      · have hn : c.toNat < 128 := by
          rcases hlow with h | rfl | rfl | rfl
          · omega
          all_goals decide
        have hascii : ∀ d ∈ ['\\', 'u', '0', '0', hexDigit (c.toNat / 16),
            hexDigit (c.toNat % 16)], d.utf8Size = 1 := by
          have hhi := utf8Size_hexDigit (show c.toNat / 16 < 16 by omega)
          have hlo := utf8Size_hexDigit (show c.toNat % 16 < 16 by omega)
          intro d hd
          simp only [List.mem_cons, List.not_mem_nil, or_false] at hd
          rcases hd with rfl | rfl | rfl | rfl | rfl | rfl
          · decide
          · decide
          · decide
          · decide
          · exact hhi
          · exact hlo
        rw [length_encode_escape hascii, utf8Size_of_lt hn]
        rfl
      · rw [← hself]
        rcases hline with h | h
        · rw [h]
          decide
        · rw [h]
          decide
      · simp

/-- The runes of a chunk make it up. -/
theorem sum_width (content : List UInt8) : ((runes content).map width).sum = content.length := by
  induction content using runes_induction with
  | nil => simp
  | invalid b bytes hr ih =>
    rw [hr, List.map_cons, List.sum_cons, ih, List.length_cons, width]
    omega
  | rune c rest ih =>
    rw [runes_encode_append, List.map_cons, List.sum_cons, ih, List.length_append,
      String.length_utf8EncodeChar, width]

/-- The length of the escaped runes. -/
theorem length_escaped (rs : List (Option Char)) :
    (encode (rs.flatMap escapeRune)).length = (rs.map width).sum + (rs.map growth).sum := by
  induction rs with
  | nil => rfl
  | cons r rs ih =>
    rw [List.flatMap_cons, encode_append, List.length_append, length_escapeRune, ih,
      List.map_cons, List.sum_cons, List.map_cons, List.sum_cons]
    omega

/-- The length of a body: the envelope, the chunk, and what its escapes add. -/
theorem length_requestBody (content : List UInt8) :
    (requestBody content).length = 14 + content.length + ((runes content).map growth).sum := by
  have hstart : (encode bodyStart).length = 12 := by decide +kernel
  have hend : (encode bodyEnd).length = 2 := by decide
  rw [requestBody, encode_append, encode_append, List.length_append, List.length_append,
    length_escaped, sum_width, hstart, hend]
  omega

/-- The body of a chunk is within the limit of the control plane if and only if the chunk and what
its escapes add are within 102386 bytes: one byte for a quotation mark, a backslash, a line feed,
a carriage return, a tab, a backspace or a form feed, five for another control character, for
`<`, `>` and `&` and for an invalid byte, and three for a line separator. -/
theorem body_within_limit_iff (content : List UInt8) :
    (requestBody content).length ≤ bodyLimit ↔
      content.length + ((runes content).map growth).sum ≤ 102386 := by
  have hlimit : bodyLimit = 102400 := rfl
  rw [length_requestBody, hlimit]
  omega

/-- A chunk of 64 KiB of one control character is over the limit. -/
theorem body_over_limit :
    ¬ ∀ content : List UInt8, content.length ≤ maxChunkSize →
      (requestBody content).length ≤ bodyLimit := by
  intro hall
  have hlength : ∀ n, (runes (List.replicate n 27)).map growth = List.replicate n 5 := by
    intro n
    induction n with
    | zero => simp
    | succ n ih =>
      have hescape : String.utf8EncodeChar (Char.ofNat 27) = [27] := by decide
      have hstep : List.replicate (n + 1) (27 : UInt8) =
          String.utf8EncodeChar (Char.ofNat 27) ++ List.replicate n 27 := by
        rw [hescape, List.replicate_succ, List.singleton_append]
      have hgrowth : growth (some (Char.ofNat 27)) = 5 := by decide
      rw [hstep, runes_encode_append, List.map_cons, ih, hgrowth, List.replicate_succ]
  have hmax : maxChunkSize = 65536 := rfl
  have hlimit : bodyLimit = 102400 := rfl
  have hshort (n : ℕ) : (List.replicate n (27 : UInt8)).length ≤ n := List.length_replicate.le
  have hsize (n : ℕ) : (requestBody (List.replicate n 27)).length = 14 + n + n * 5 := by
    rw [length_requestBody, hlength, List.length_replicate, List.sum_replicate, smul_eq_mul]
  have hbody := hall _ (hshort maxChunkSize)
  rw [hsize, hmax, hlimit] at hbody
  omega

end Size

end Mastermind.LogTail
