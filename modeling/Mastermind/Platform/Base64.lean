import Mathlib

/-!
# Base64

Bytes as letters of six bits each, three bytes to four letters, with equals signs for the letters
that the last bytes leave out. A reader stops at the first equals sign, skips what is not a letter,
and takes the letters of both alphabets. It reads back what was written (`decode_encode`).
-/

namespace Mastermind.Base64

/-- The letter of six bits. -/
def letter (n : ℕ) : Char :=
  if n < 26 then Char.ofNat (65 + n)
  else if n < 52 then Char.ofNat (97 + (n - 26))
  else if n < 62 then Char.ofNat (48 + (n - 52))
  else if n = 62 then '+'
  else '/'

/-- The six bits of a letter. -/
def value (c : Char) : Option ℕ :=
  if 'A' ≤ c ∧ c ≤ 'Z' then some (c.toNat - 65)
  else if 'a' ≤ c ∧ c ≤ 'z' then some (c.toNat - 97 + 26)
  else if '0' ≤ c ∧ c ≤ '9' then some (c.toNat - 48 + 52)
  else if c = '+' ∨ c = '-' then some 62
  else if c = '/' ∨ c = '_' then some 63
  else none

/-- Bytes cut into six bits each. -/
def sextets : List UInt8 → List ℕ
  | a :: b :: c :: rest =>
    [a.toNat / 4, a.toNat % 4 * 16 + b.toNat / 16, b.toNat % 16 * 4 + c.toNat / 64,
      c.toNat % 64] ++ sextets rest
  | [a, b] => [a.toNat / 4, a.toNat % 4 * 16 + b.toNat / 16, b.toNat % 16 * 4]
  | [a] => [a.toNat / 4, a.toNat % 4 * 16]
  | [] => []

/-- The bytes of six bits each. -/
def bytes : List ℕ → List UInt8
  | k :: l :: m :: n :: rest =>
    [UInt8.ofNat (k * 4 + l / 16), UInt8.ofNat (l % 16 * 16 + m / 4),
      UInt8.ofNat (m % 4 * 64 + n)] ++ bytes rest
  | [k, l, m] => [UInt8.ofNat (k * 4 + l / 16), UInt8.ofNat (l % 16 * 16 + m / 4)]
  | [k, l] => [UInt8.ofNat (k * 4 + l / 16)]
  | _ => []

/-- The signs after the letters of so many bytes. -/
def padding (n : ℕ) : List Char := List.replicate ((3 - n % 3) % 3) '='

/-- The text of bytes. -/
def encode (bs : List UInt8) : List Char := (sextets bs).map letter ++ padding bs.length

/-- The bytes of a text. -/
def decode (cs : List Char) : List UInt8 := bytes ((cs.takeWhile (· ≠ '=')).filterMap value)

theorem value_letter {n : ℕ} (h : n < 64) : value (letter n) = some n := by
  have hall : ∀ n : Fin 64, value (letter n) = some n.val := by decide
  exact hall ⟨n, h⟩

/-- What is not a letter of the alphabet of the writer. -/
theorem letter_ne {n : ℕ} (h : n < 64) : letter n ≠ '=' ∧ letter n ≠ ':' := by
  have hall : ∀ n : Fin 64, letter n ≠ '=' ∧ letter n ≠ ':' := by decide
  exact hall ⟨n, h⟩

theorem lt_of_mem_sextets {bs : List UInt8} : ∀ n ∈ sextets bs, n < 64 := by
  fun_induction sextets bs with
  | case1 a b c rest ih =>
    have ha := a.toNat_lt
    have hb := b.toNat_lt
    have hc := c.toNat_lt
    simp only [List.cons_append, List.nil_append, List.mem_cons, forall_eq_or_imp]
    exact ⟨by omega, by omega, by omega, by omega, ih⟩
  | case2 a b =>
    have ha := a.toNat_lt
    have hb := b.toNat_lt
    simp only [List.mem_cons, List.not_mem_nil, or_false, forall_eq_or_imp, forall_eq]
    exact ⟨by omega, by omega, by omega⟩
  | case3 a =>
    have ha := a.toNat_lt
    simp only [List.mem_cons, List.not_mem_nil, or_false, forall_eq_or_imp, forall_eq]
    exact ⟨by omega, by omega⟩
  | case4 => simp

/-- Bytes are put together from their parts. -/
theorem bytes_sextets (bs : List UInt8) : bytes (sextets bs) = bs := by
  -- what the cuts of a byte add up to is the byte, by the bounds of its neighbours
  have hbyte : ∀ (x : UInt8) (n : ℕ), n = x.toNat → UInt8.ofNat n = x := by
    rintro x n rfl
    exact UInt8.ofNat_toNat
  fun_induction sextets bs with
  | case1 a b c rest ih =>
    have ha := a.toNat_lt
    have hb := b.toNat_lt
    have hc := c.toNat_lt
    simp only [List.cons_append, List.nil_append, bytes]
    rw [ih, hbyte a _ (by omega), hbyte b _ (by omega), hbyte c _ (by omega)]
  | case2 a b =>
    have ha := a.toNat_lt
    have hb := b.toNat_lt
    rw [bytes, hbyte a _ (by omega), hbyte b _ (by omega)]
  | case3 a =>
    have ha := a.toNat_lt
    rw [bytes, hbyte a _ (by omega)]
  | case4 => rfl

/-- The letters end at the first equals sign. -/
theorem takeWhile_encode (bs : List UInt8) :
    (encode bs).takeWhile (· ≠ '=') = (sextets bs).map letter := by
  have hletters : ∀ c ∈ (sextets bs).map letter, decide (c ≠ '=') = true := by
    intro c hc
    obtain ⟨n, hn, rfl⟩ := List.mem_map.mp hc
    exact decide_eq_true (letter_ne (lt_of_mem_sextets n hn)).1
  have hsigns : (padding bs.length).takeWhile (· ≠ '=') = [] := by
    unfold padding
    cases (3 - bs.length % 3) % 3 <;> rfl
  unfold encode
  rw [List.takeWhile_append_of_pos hletters, hsigns, List.append_nil]

/-- **What was written is read back.** -/
theorem decode_encode (bs : List UInt8) : decode (encode bs) = bs := by
  have hvalues : ((sextets bs).map letter).filterMap value = sextets bs := by
    rw [List.filterMap_map]
    have hsome : ∀ n ∈ sextets bs, (value ∘ letter) n = some n :=
      fun n hn => value_letter (lt_of_mem_sextets n hn)
    rw [List.filterMap_congr hsome, List.filterMap_some]
  unfold decode
  rw [takeWhile_encode, hvalues, bytes_sextets]

/-- No text of bytes has a colon. -/
theorem colon_notMem_encode (bs : List UInt8) : ':' ∉ encode bs := by
  intro hmem
  rcases List.mem_append.mp hmem with hmem | hmem
  · obtain ⟨n, hn, hcolon⟩ := List.mem_map.mp hmem
    exact (letter_ne (lt_of_mem_sextets n hn)).2 hcolon
  · exact absurd (List.eq_of_mem_replicate hmem) (by decide)

/-- The text of bytes is empty if there are none. -/
theorem encode_eq_nil {bs : List UInt8} : encode bs = [] ↔ bs = [] := by
  refine ⟨fun h => ?_, fun h => by rw [h]; rfl⟩
  have hdecode := decode_encode bs
  rw [h] at hdecode
  exact hdecode.symm

end Mastermind.Base64
