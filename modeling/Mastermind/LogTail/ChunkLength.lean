import Mastermind.LogTail.Transport
import Mastermind.Platform.Utf16

/-!
# The length of a chunk at the control plane

The tailer cuts chunks by bytes, and `append` of `logs/logs.service.ts` counts UTF-16 code units. A
rune has at most as many units as bytes, and a byte that is part of none becomes one unit. So no chunk
within the limit of the tailer is over that of `append`.
-/

namespace Mastermind.LogTail

open Effect Utf8

/-- The fields of a server that `append` reads. -/
structure LogServer where
  id : ℕ
  orgId : ℕ

/-- The errors of `append`. -/
inductive AppendError where
  | tooLong
  | notFound
deriving DecidableEq

/-- Their messages. -/
def AppendError.message : AppendError → String
  | tooLong => "Log chunk exceeds 64 KiB"
  | notFound => "Server instance not found for agent host"

/-- The row that `append` creates. -/
structure LogRow where
  orgId : ℕ
  serverInstanceId : ℕ
  content : Text
deriving DecidableEq

/-- `append`, up to the row that it creates; `server` is what the lookup finds. -/
def append (server : Option LogServer) (content : Text) : Except AppendError (Option LogRow) :=
  if content = [] then .ok none
  else if 65536 < content.length then .error .tooLong
  else match server with
  | none => .error .notFound
  | some server => .ok (some ⟨server.orgId, server.id, content⟩)

/-- The `content` that `append` is given of a body. -/
def receivedContent (body : List UInt8) : Option Text := (parseBody body).map Text.ofChars

/-- The text of a chunk has at most as many code units as the chunk has bytes. -/
theorem length_ofChars_goText_le (content : List UInt8) :
    (Text.ofChars (goText content)).length ≤ content.length := by
  have hcons : ∀ c cs, Text.ofChars (c :: cs) = Text.unitsOf c ++ Text.ofChars cs :=
    fun _ _ => List.flatMap_cons
  unfold goText
  induction content using runes_induction with
  | nil => simp [Text.ofChars]
  | invalid b bytes hr ih =>
    have hone : (Text.unitsOf replacement).length = 1 := by decide
    rw [hr, List.map_cons, Option.getD_none, hcons, List.length_append, hone, List.length_cons]
    omega
  | rune c rest ih =>
    have hunits := Text.length_unitsOf_le c
    rw [runes_encode_append, List.map_cons, Option.getD_some, hcons, List.length_append,
      List.length_append, String.length_utf8EncodeChar]
    omega

/-- The length check of `append` is the only way to its first error. -/
theorem append_tooLong_iff (server : Option LogServer) (content : Text) :
    append server content = .error .tooLong ↔ 65536 < content.length := by
  unfold append
  split_ifs with hempty hlong
  · rw [hempty]
    simp
  · simp [hlong]
  · cases server <;> simp [hlong]

/-- What `append` is given of a chunk of at most 64 KiB has at most 65536 code units, and passes its
length check. -/
theorem chunk_passes_length_check (content : List UInt8) (h : content.length ≤ maxChunkSize) :
    ∃ text, receivedContent (requestBody content) = some text ∧ text.length ≤ 65536 ∧
      ∀ server, append server text ≠ .error .tooLong := by
  have hlength := (length_ofChars_goText_le content).trans h
  refine ⟨Text.ofChars (goText content), ?_, hlength, fun server herror => ?_⟩
  · rw [receivedContent, parseBody_requestBody]
    rfl
  · exact absurd ((append_tooLong_iff server _).mp herror) (not_lt.mpr hlength)

/-- A rune of four bytes and a byte that is part of no rune. -/
theorem chunk_passes_length_check_pair :
    ∃ text, receivedContent (requestBody [0xF0, 0x9F, 0x98, 0x80, 0xFF]) = some text ∧
      text.length ≤ 65536 ∧ ∀ server, append server text ≠ .error .tooLong :=
  chunk_passes_length_check _ (by decide)

end Mastermind.LogTail
