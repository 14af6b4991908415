import Mastermind.Players.Chat

/-!
# Lines out of chunks

`parseChat` and `parsePlayers` read a log that comes in chunks, each with an unfinished line of its
own that it carries from one chunk to the next. The complete lines of the chunks are those of the
whole log, however it is cut, as long as no line is longer than what a parser carries
(`linesOf_eq`). But a call that fails about a line ends the loop of the parser, and the lines after
it in the same chunk are never processed: in `parsePlayers` an entity id that does not fit its
column is enough, and the name of a player may look like one (`chunk_loses_lines`).
`lines_of_chunks_iff` says that nothing else makes the cuts matter.

Splitting a text is splitting a first part and then the rest after the unfinished line
(`splitLines_append`); so the invariant is that the carried line is what follows the last line feed.
A line that is too long to be carried is never completed, and what is carried has no line feed
then. `loop` is the loop of either parser, over a body that may throw.
-/

namespace Mastermind

namespace Text

/-- A line without the carriage return at its end. -/
def chomp (line : Text) : Text := if line.getLast? = some 13 then line.dropLast else line

/-- The units up to the first line feed are the first line. -/
theorem splitLines_feed {line : Text} (h : 10 ∉ line) (rest : Text) :
    splitLines (line ++ 10 :: rest) = (chomp line :: (splitLines rest).1, (splitLines rest).2) := by
  induction line with
  | nil => rfl
  | cons u us ih =>
    have hu : u ≠ 10 := fun heq => h (heq ▸ List.mem_cons_self)
    have hus : 10 ∉ us := fun hmem => h (List.mem_cons_of_mem _ hmem)
    rw [List.cons_append]
    conv_lhs => unfold splitLines
    rw [ih hus]
    dsimp only
    rw [if_neg hu]
    cases us with
    | nil =>
      -- the line is one unit, which is cut off if it is a carriage return
      by_cases hreturn : u = 13
      · subst hreturn
        rfl
      · have hcut : ¬(u = 13 ∧ ([] ++ 10 :: rest : Text).head? = some 10) :=
          fun hcut => hreturn hcut.1
        rw [if_neg hcut]
        simp [chomp, hreturn]
    | cons v vs =>
      have hv : v ≠ 10 := fun heq => hus (heq ▸ List.mem_cons_self)
      rw [if_neg (by simp [hv])]
      unfold chomp
      rw [List.getLast?_cons_cons, List.dropLast_cons_cons]
      split_ifs <;> rfl

/-- A text without a line feed has no complete line. -/
theorem splitLines_of_not_mem {s : Text} (h : 10 ∉ s) : splitLines s = ([], s) := by
  induction s with
  | nil => rfl
  | cons u us ih =>
    have hu : u ≠ 10 := fun heq => h (heq ▸ List.mem_cons_self)
    have hus : 10 ∉ us := fun hmem => h (List.mem_cons_of_mem _ hmem)
    have hnext : ¬(u = 13 ∧ us.head? = some 10) := fun hcut => hus (List.mem_of_head? hcut.2)
    unfold splitLines
    rw [ih hus]
    dsimp only
    rw [if_neg hu, if_neg hnext]

/-- Induction on the lines of a text. -/
theorem line_induction {P : Text → Prop} (unfinished : ∀ s, 10 ∉ s → P s)
    (feed : ∀ line rest, 10 ∉ line → P rest → P (line ++ 10 :: rest)) (s : Text) : P s := by
  induction hn : s.length using Nat.strong_induction_on generalizing s with
  | _ n ih =>
    by_cases hmem : 10 ∈ s
    · obtain ⟨line, rest, rfl, hline⟩ := List.eq_append_cons_of_mem hmem
      refine feed line rest hline (ih rest.length ?_ rest rfl)
      rw [← hn, List.length_append, List.length_cons]
      omega
    · exact unfinished s hmem

/-- The unfinished line has no line feed, and is the whole text or follows one. -/
theorem splitLines_snd (s : Text) :
    10 ∉ (splitLines s).2 ∧ ((splitLines s).2 = s ∨ ∃ t, s = t ++ 10 :: (splitLines s).2) := by
  induction s using line_induction with
  | unfinished s h =>
    rw [splitLines_of_not_mem h]
    exact ⟨h, .inl rfl⟩
  | feed line rest h ih =>
    rw [splitLines_feed h]
    refine ⟨ih.1, .inr ?_⟩
    rcases ih.2 with hrest | ⟨t, ht⟩
    · exact ⟨line, by rw [hrest]⟩
    · refine ⟨line ++ 10 :: t, ?_⟩
      rw [List.append_assoc, List.cons_append, ← ht]

/-- Splitting a text is splitting a part of it, and then the rest after the unfinished line. -/
theorem splitLines_append (s t : Text) :
    splitLines (s ++ t) = ((splitLines s).1 ++ (splitLines ((splitLines s).2 ++ t)).1,
      (splitLines ((splitLines s).2 ++ t)).2) := by
  induction s using line_induction with
  | unfinished s h =>
    rw [splitLines_of_not_mem h]
    rfl
  | feed line rest h ih =>
    rw [List.append_assoc, List.cons_append, splitLines_feed h, splitLines_feed h, ih]
    rfl

/-- What is carried is from the unfinished line. -/
theorem mem_of_mem_sliceLast {n : ℕ} {u : UInt16} {s : Text} (h : u ∈ s.sliceLast n) : u ∈ s :=
  List.mem_of_mem_drop h

/-- No line that a line feed ends is longer than what a parser carries, with its carriage return. -/
def ShortLines (text : Text) : Prop :=
  ∀ before line after, text = before ++ line ++ 10 :: after → 10 ∉ line → line.length ≤ 4096

/-- The end of a text with short lines has short lines. -/
theorem ShortLines.suffix (before : Text) {text : Text} (h : ShortLines (before ++ text)) :
    ShortLines text := by
  rintro a line b rfl hline
  exact h (before ++ a) line b (by simp) hline

/-- A text of 4096 units has short lines. -/
theorem shortLines_of_length {text : Text} (h : text.length ≤ 4096) : ShortLines text := by
  rintro before line after rfl -
  simp only [List.length_append, List.length_cons] at h
  omega

end Text

namespace Players

open Effect

/-- Without a line feed, whatever is carried, nothing is complete. -/
theorem linesOf_of_not_mem {buffer : Text} {chunks : List Text} (hbuffer : 10 ∉ buffer)
    (hchunks : 10 ∉ chunks.flatten) : linesOf buffer chunks = [] := by
  induction chunks generalizing buffer with
  | nil => rfl
  | cons chunk chunks ih =>
    rw [List.flatten_cons, List.mem_append, not_or] at hchunks
    have hboth : 10 ∉ buffer ++ chunk := fun hmem =>
      (List.mem_append.mp hmem).elim hbuffer hchunks.1
    have hlines : completeLines buffer chunk = ([], Text.sliceLast 4096 (buffer ++ chunk)) := by
      unfold completeLines
      rw [Text.splitLines_of_not_mem hboth]
    rw [linesOf, hlines]
    dsimp only
    exact ih (fun hmem => hboth (Text.mem_of_mem_sliceLast hmem)) hchunks.2

/-- The lines that the chunks make up after an unfinished line are the complete lines of the whole
text. -/
theorem linesOf_eq {buffer : Text} {chunks : List Text} (hbuffer : 10 ∉ buffer)
    (hshort : Text.ShortLines (buffer ++ chunks.flatten)) :
    linesOf buffer chunks = (Text.splitLines (buffer ++ chunks.flatten)).1 := by
  induction chunks generalizing buffer with
  | nil =>
    rw [List.flatten_nil, List.append_nil, Text.splitLines_of_not_mem hbuffer]
    rfl
  | cons chunk chunks ih =>
    rw [List.flatten_cons, ← List.append_assoc] at hshort ⊢
    rw [Text.splitLines_append, linesOf]
    unfold completeLines
    dsimp only
    set last := (Text.splitLines (buffer ++ chunk)).2
    obtain ⟨hlast, hsuffix⟩ := Text.splitLines_snd (buffer ++ chunk)
    have hshort' : Text.ShortLines (last ++ chunks.flatten) := by
      rcases hsuffix with heq | ⟨t, heq⟩
      · rwa [← heq] at hshort
      · rw [heq, List.append_assoc] at hshort
        exact Text.ShortLines.suffix (t ++ [10]) (by simpa using hshort)
    congr 1
    by_cases hlong : last.length ≤ 4096
    · -- the unfinished line is carried whole
      have hcarried : Text.sliceLast 4096 last = last := by
        unfold Text.sliceLast
        rw [Nat.sub_eq_zero_of_le hlong, List.drop_zero]
      rw [hcarried]
      exact ih hlast hshort'
    · -- it is never completed
      have hrest : 10 ∉ chunks.flatten := by
        intro hmem
        obtain ⟨line, rest, hflat, hline⟩ := List.eq_append_cons_of_mem hmem
        have hnot : 10 ∉ last ++ line := fun hmem => (List.mem_append.mp hmem).elim hlast hline
        have hle := hshort' [] (last ++ line) rest (by rw [hflat]; simp) hnot
        rw [List.length_append] at hle
        omega
      have hnone : 10 ∉ last ++ chunks.flatten := fun hmem =>
        (List.mem_append.mp hmem).elim hlast hrest
      rw [linesOf_of_not_mem (fun hmem => hlast (Text.mem_of_mem_sliceLast hmem)) hrest,
        Text.splitLines_of_not_mem hnone]

/-! ## The loops of the two parsers -/

/-- A chunk of a server's log, with the times at which `parsePlayers` reads its lines. `chatFails`
and `playersFail` say about which lines a database call of either parser fails. -/
structure Chunk where
  server : Server
  clock : ℕ → ℤ
  content : Text
  chatFails : ℕ → Bool
  playersFail : ℕ → Bool

/-- What `parseChat` does with a line. The calls are those about a line that it matches. -/
def chatBody (sites : Sites) (verdict : ℕ → Bool) (chunk : Chunk) (events : List ChatEvent)
    (line : Text × ℕ) : Except (List ChatEvent) (List ChatEvent) :=
  if (ChatLine.ofLine line.1).isSome && chunk.chatFails line.2 then .error events
  else .ok (ChatDesk.parseLine sites verdict chunk.server.id events line.1)

/-- What `parsePlayers` does with a line. -/
def playersBody (lower : Text → Text) (chunk : Chunk) (s : Roster) (line : Text × ℕ) :
    Except Roster Roster :=
  if (Lifecycle.ofLine line.1).isSome && chunk.playersFail line.2 then .error s
  else s.parseLine lower chunk.server (chunk.clock line.2) line.1

/-- A call of `parseChat` about the line fails. -/
def chatThrows (chunk : Chunk) (line : Text × ℕ) : Bool :=
  (ChatLine.ofLine line.1).isSome && chunk.chatFails line.2

/-- A call of `parsePlayers` about the line fails: one is refused if the line tells of a player who
joins and its entity id does not fit the column. -/
def playersThrow (chunk : Chunk) (line : Text × ℕ) : Bool :=
  (Lifecycle.ofLine line.1).any fun e =>
    chunk.playersFail line.2 || e.joined && !e.entity.all (· < 2 ^ 31)

section Loops

variable {σ : Type} (body : Chunk → σ → Text × ℕ → Except σ σ)

/-- The lines at which the loop of a parser arrives, and what it leaves. A body that throws ends
it. -/
def loop (chunk : Chunk) : σ → List (Text × ℕ) → List (Text × ℕ) × σ
  | s, [] => ([], s)
  | s, line :: lines =>
    match body chunk s line with
    | .ok s' => (line :: (loop chunk s' lines).1, (loop chunk s' lines).2)
    | .error s' => ([line], s')

/-- The lines that a parser processes in chunks of several servers, each with its server. -/
def linesProcessed : σ → (Id → Text) → List Chunk → List (Id × Text)
  | _, _, [] => []
  | s, buffers, chunk :: chunks =>
    let complete := completeLines (buffers chunk.server.id) chunk.content
    let done := loop body chunk s complete.1.zipIdx
    (done.1.map fun line => (chunk.server.id, line.1)) ++
      linesProcessed done.2 (Function.update buffers chunk.server.id complete.2) chunks

/-- The lines of a server. -/
def linesFor (server : Id) (lines : List (Id × Text)) : List Text :=
  (lines.filter fun line => line.1 = server).map Prod.snd

/-- The chunks of a server. -/
def contentsOf (server : Id) (chunks : List Chunk) : List Text :=
  (chunks.filter fun chunk => chunk.server.id = server).map Chunk.content

/-- No line of the server is followed by another one in its chunk if its body throws. `buffer` is
the unfinished line before the chunks. -/
def Unbroken (throws : Chunk → Text × ℕ → Bool) (server : Id) : Text → List Chunk → Prop
  | _, [] => True
  | buffer, chunk :: chunks =>
    if chunk.server.id = server then
      (∀ line ∈ (completeLines buffer chunk.content).1.zipIdx.dropLast,
        throws chunk line = false) ∧
        Unbroken throws server (completeLines buffer chunk.content).2 chunks
    else Unbroken throws server buffer chunks

instance decidableUnbroken (throws : Chunk → Text × ℕ → Bool) (server : Id) :
    (buffer : Text) → (chunks : List Chunk) → Decidable (Unbroken throws server buffer chunks)
  | _, [] => inferInstanceAs (Decidable True)
  | buffer, chunk :: chunks =>
    have := decidableUnbroken throws server (completeLines buffer chunk.content).2 chunks
    have := decidableUnbroken throws server buffer chunks
    inferInstanceAs (Decidable (if chunk.server.id = server then _ ∧ _ else _))

theorem linesFor_append (server : Id) (xs ys : List (Id × Text)) :
    linesFor server (xs ++ ys) = linesFor server xs ++ linesFor server ys := by
  unfold linesFor
  rw [List.filter_append, List.map_append]

/-- The lines of a chunk belong to its server. -/
theorem linesFor_map (server other : Id) (lines : List (Text × ℕ)) :
    linesFor server (lines.map fun line => (other, line.1)) =
      if other = server then lines.map Prod.fst else [] := by
  unfold linesFor
  split_ifs with hsame
  · have hall : ∀ line ∈ lines.map fun line => (other, line.1),
        decide (line.1 = server) = true := by
      rintro _ hline
      obtain ⟨_, _, rfl⟩ := List.mem_map.mp hline
      simpa using hsame
    rw [List.filter_eq_self.mpr hall, List.map_map]
    rfl
  · have hnone : ∀ line ∈ lines.map fun line => (other, line.1),
        ¬decide (line.1 = server) = true := by
      rintro _ hline
      obtain ⟨_, _, rfl⟩ := List.mem_map.mp hline
      simpa using hsame
    rw [List.filter_eq_nil_iff.mpr hnone]
    rfl

theorem contentsOf_cons (server : Id) (chunk : Chunk) (chunks : List Chunk) :
    contentsOf server (chunk :: chunks) =
      if chunk.server.id = server then chunk.content :: contentsOf server chunks
      else contentsOf server chunks := by
  unfold contentsOf
  split_ifs with hsame
  · rw [List.filter_cons_of_pos (by simpa using hsame), List.map_cons]
  · rw [List.filter_cons_of_neg (by simpa using hsame)]

variable {body} {throws : Chunk → Text × ℕ → Bool}

/-- The loop arrives at the first lines of the chunk. -/
theorem loop_isPrefix (chunk : Chunk) (s : σ) (lines : List (Text × ℕ)) :
    (loop body chunk s lines).1 <+: lines := by
  induction lines generalizing s with
  | nil => exact List.prefix_rfl
  | cons line lines ih =>
    unfold loop
    cases body chunk s line with
    | ok s' => exact (List.prefix_cons_inj line).mpr (ih s')
    | error s' => exact (List.prefix_cons_inj line).mpr (List.nil_prefix)

/-- It arrives at all of them if and only if none but the last one throws. -/
theorem loop_eq_iff
    (hthrows : ∀ chunk s line, throws chunk line = true ↔ ∃ s', body chunk s line = .error s')
    (chunk : Chunk) (s : σ) (lines : List (Text × ℕ)) :
    (loop body chunk s lines).1 = lines ↔ ∀ line ∈ lines.dropLast, throws chunk line = false := by
  induction lines generalizing s with
  | nil => simp [loop]
  | cons line lines ih =>
    unfold loop
    cases hbody : body chunk s line with
    | ok s' =>
      have hline : throws chunk line = false := by
        rw [← Bool.not_eq_true, hthrows chunk s line]
        simp [hbody]
      rw [List.cons_inj_right, ih s']
      cases lines with
      | nil => simp
      | cons next lines => simp [List.dropLast_cons_cons, hline]
    | error s' =>
      have hline : throws chunk line = true := (hthrows chunk s line).mpr ⟨s', hbody⟩
      cases lines with
      | nil => simp
      | cons next lines => simp [List.dropLast_cons_cons, hline]

/-- A parser processes no more lines than there are. -/
theorem length_linesProcessed_le (server : Id) (chunks : List Chunk) (s : σ) (buffers : Id → Text) :
    (linesFor server (linesProcessed body s buffers chunks)).length ≤
      (linesOf (buffers server) (contentsOf server chunks)).length := by
  induction chunks generalizing s buffers with
  | nil => exact le_rfl
  | cons chunk chunks ih =>
    unfold linesProcessed
    dsimp only
    rw [linesFor_append, linesFor_map, contentsOf_cons]
    by_cases hsame : chunk.server.id = server
    · subst hsame
      have hrest := ih (loop body chunk s
        (completeLines (buffers chunk.server.id) chunk.content).1.zipIdx).2
        (Function.update buffers chunk.server.id
          (completeLines (buffers chunk.server.id) chunk.content).2)
      have hfirst : (loop body chunk s
            (completeLines (buffers chunk.server.id) chunk.content).1.zipIdx).1.length ≤ _ :=
        (loop_isPrefix chunk s _).length_le
      rw [Function.update_self] at hrest
      rw [List.length_zipIdx] at hfirst
      rw [if_pos rfl, if_pos rfl, linesOf, List.length_append, List.length_append, List.length_map]
      exact Nat.add_le_add hfirst hrest
    · have hrest := ih (loop body chunk s
        (completeLines (buffers chunk.server.id) chunk.content).1.zipIdx).2
        (Function.update buffers chunk.server.id
          (completeLines (buffers chunk.server.id) chunk.content).2)
      rw [Function.update_of_ne (Ne.symm hsame)] at hrest
      rw [if_neg hsame, if_neg hsame]
      exact hrest

/-- A parser processes the lines that the chunks of a server make up after its unfinished line, if
and only if no line that another one follows in its chunk throws. -/
theorem linesProcessed_eq_iff
    (hthrows : ∀ chunk s line, throws chunk line = true ↔ ∃ s', body chunk s line = .error s')
    (server : Id) (chunks : List Chunk) (s : σ) (buffers : Id → Text) :
    linesFor server (linesProcessed body s buffers chunks) =
        linesOf (buffers server) (contentsOf server chunks) ↔
      Unbroken throws server (buffers server) chunks := by
  induction chunks generalizing s buffers with
  | nil => exact iff_of_true rfl trivial
  | cons chunk chunks ih =>
    unfold linesProcessed Unbroken
    dsimp only
    rw [linesFor_append, linesFor_map, contentsOf_cons]
    have hrest := ih (loop body chunk s
      (completeLines (buffers chunk.server.id) chunk.content).1.zipIdx).2
      (Function.update buffers chunk.server.id
        (completeLines (buffers chunk.server.id) chunk.content).2)
    by_cases hsame : chunk.server.id = server
    · subst hsame
      have hle : (linesFor chunk.server.id (linesProcessed body (loop body chunk s
            (completeLines (buffers chunk.server.id) chunk.content).1.zipIdx).2
            (Function.update buffers chunk.server.id
              (completeLines (buffers chunk.server.id) chunk.content).2) chunks)).length ≤ _ :=
        length_linesProcessed_le chunk.server.id chunks _ _
      rw [Function.update_self] at hrest hle
      rw [if_pos rfl, if_pos rfl, if_pos rfl, linesOf, ← hrest, ← loop_eq_iff hthrows chunk s]
      set lines := (completeLines (buffers chunk.server.id) chunk.content).1.zipIdx
      have hfst : (completeLines (buffers chunk.server.id) chunk.content).1 =
          lines.map Prod.fst := (List.zipIdx_map_fst 0 _).symm
      have hprefix : (loop body chunk s lines).1 <+: lines := loop_isPrefix chunk s lines
      rw [hfst]
      constructor
      · intro heq
        have hlength := congrArg List.length heq
        simp only [List.length_append, List.length_map] at hlength
        have hshort := hprefix.length_le
        have hall : (loop body chunk s lines).1 = lines := hprefix.eq_of_length (by omega)
        rw [hall] at heq ⊢
        exact ⟨rfl, List.append_cancel_left heq⟩
      · rintro ⟨hall, heq⟩
        rw [heq, hall]
    · rw [Function.update_of_ne (Ne.symm hsame)] at hrest
      rw [if_neg hsame, if_neg hsame, if_neg hsame]
      exact hrest

end Loops

/-! ## The two parsers -/

theorem chatThrows_iff (sites : Sites) (verdict : ℕ → Bool) (chunk : Chunk)
    (events : List ChatEvent) (line : Text × ℕ) :
    chatThrows chunk line = true ↔ ∃ s', chatBody sites verdict chunk events line = .error s' := by
  unfold chatThrows chatBody
  split_ifs with hfails <;> simp [hfails]

/-- What a line tells is refused for the entity id of a player who joins alone. -/
theorem follow_error_iff (lower : Text → Text) (server : Server) (now : ℤ) (e : Lifecycle)
    (s : Roster) :
    (∃ s', s.follow lower server now e = .error s') ↔
      e.joined = true ∧ (e.entity.all (· < 2 ^ 31)) = false := by
  have hfits : (Roster.joining lower server e).fits = e.entity.all (· < 2 ^ 31) := by
    simp [Roster.joining, Roster.Sighting.fits]
  unfold Roster.follow
  dsimp only
  generalize s.reconcileNameFallback lower server.id (e.identityKey lower) e.name e.steam e.eos = r
  cases hjoined : e.joined with
  | true =>
    cases hentity : e.entity.all (· < 2 ^ 31) with
    | true =>
      have hsight : ∃ s', r.sight (Roster.joining lower server e) now = .ok s' := by
        unfold Roster.sight
        rw [hfits, hentity, if_pos rfl]
        split <;> exact ⟨_, rfl⟩
      obtain ⟨s', hsight⟩ := hsight
      rw [hsight]
      cases (r.byKey server.id (e.identityKey lower)).any Player.online <;> simp [bind, Except.bind]
    | false =>
      have hsight : r.sight (Roster.joining lower server e) now = .error r := by
        unfold Roster.sight
        rw [hfits, hentity, if_neg Bool.false_ne_true]
      rw [hsight]
      simp [bind, Except.bind]
  | false =>
    cases r.byKey server.id (e.identityKey lower) with
    | none => simp
    | some p => cases hon : p.online <;> simp [hon]

/-- A line is refused for its entity id alone. -/
theorem playersThrow_iff (lower : Text → Text) (chunk : Chunk) (s : Roster) (line : Text × ℕ) :
    playersThrow chunk line = true ↔ ∃ s', playersBody lower chunk s line = .error s' := by
  unfold playersThrow playersBody Roster.parseLine
  cases hline : Lifecycle.ofLine line.1 with
  | none => simp
  | some e =>
    cases hfails : chunk.playersFail line.2 with
    | true => simp
    | false => simpa using (follow_error_iff lower chunk.server (chunk.clock line.2) e s).symm

/-- With no failing call the loops are those of `parseChat` and `parsePlayers`. -/
theorem loop_chatBody (sites : Sites) (verdict : ℕ → Bool) (s : ChatDesk) {chunk : Chunk}
    (h : ∀ i, chunk.chatFails i = false) :
    (loop (chatBody sites verdict) chunk s.events
        (completeLines (s.chatLineBuffers chunk.server.id) chunk.content).1.zipIdx).2 =
      (s.parseChat sites verdict chunk.server.id chunk.content).events := by
  unfold ChatDesk.parseChat
  dsimp only
  rw [← List.zipIdx_map_fst 0 (completeLines _ _).1, List.foldl_map]
  generalize s.events = events
  rw [List.zipIdx_map_fst]
  generalize (completeLines _ _).1.zipIdx = lines
  induction lines generalizing events with
  | nil => rfl
  | cons line lines ih =>
    have hbody : chatBody sites verdict chunk events line =
        .ok (ChatDesk.parseLine sites verdict chunk.server.id events line.1) := by
      simp [chatBody, h]
    rw [loop, hbody, List.foldl_cons]
    exact ih _

theorem loop_playersBody (lower : Text → Text) (d : Desk) {chunk : Chunk}
    (h : ∀ i, chunk.playersFail i = false) :
    (loop (playersBody lower) chunk d.roster
        (completeLines (d.lineBuffers chunk.server.id) chunk.content).1.zipIdx).2 =
      (d.parsePlayers lower chunk.server chunk.clock chunk.content).roster := by
  unfold Desk.parsePlayers Desk.timedLines Roster.parseLines
  dsimp only
  rw [List.foldlM_map]
  generalize d.roster = s
  generalize (completeLines _ _).1.zipIdx = lines
  induction lines generalizing s with
  | nil => rfl
  | cons line lines ih =>
    have hbody : playersBody lower chunk s line =
        s.parseLine lower chunk.server (chunk.clock line.2) line.1 := by
      simp [playersBody, h]
    rw [loop, hbody, List.foldlM_cons]
    cases s.parseLine lower chunk.server (chunk.clock line.2) line.1 with
    | ok s' => exact ih s'
    | error s' => rfl

/-- However the logs of several servers are cut into chunks and mixed, each parser processes the
complete lines of a log, if no line is longer than what it carries, exactly when no call of its
loop fails about a line that another one follows in its chunk. -/
theorem lines_of_chunks_iff (sites : Sites) (verdict : ℕ → Bool) (lower : Text → Text)
    (events : List ChatEvent) (roster : Roster) (server : Id) (chunks : List Chunk)
    (hshort : Text.ShortLines (contentsOf server chunks).flatten) :
    (linesFor server (linesProcessed (chatBody sites verdict) events (fun _ => []) chunks) =
        (Text.splitLines (contentsOf server chunks).flatten).1 ↔
      Unbroken chatThrows server [] chunks) ∧
    (linesFor server (linesProcessed (playersBody lower) roster (fun _ => []) chunks) =
        (Text.splitLines (contentsOf server chunks).flatten).1 ↔
      Unbroken playersThrow server [] chunks) := by
  have hlines : linesOf [] (contentsOf server chunks) =
      (Text.splitLines (contentsOf server chunks).flatten).1 := linesOf_eq List.not_mem_nil hshort
  rw [← hlines]
  exact ⟨linesProcessed_eq_iff (chatThrows_iff sites verdict) server chunks events _,
    linesProcessed_eq_iff (playersThrow_iff lower) server chunks roster _⟩

/-- The message about a player whose name looks like an entity id that no column holds. -/
def refusedLine : Text := Text.of "INF GMSG: Player 'EntityID=4294967296' joined the game"

/-- The message about another player. -/
def bobLine : Text := Text.of "INF GMSG: Player 'Bob' joined the game"

/-- A chunk about which no call fails but those that a column refuses. -/
def plainChunk (server : Id) (content : Text) : Chunk :=
  ⟨⟨server, 0, Text.of "Server"⟩, fun _ => 0, content, fun _ => false, fun _ => false⟩

/-- The refused line is cut between its carriage return and its line feed, and is the last one of
its chunk. -/
def cutChunks : List Chunk :=
  [plainChunk 0 (refusedLine ++ [13]), plainChunk 1 (bobLine ++ [10]), plainChunk 0 [10],
    plainChunk 0 (bobLine ++ [10])]

theorem lines_of_chunks_iff_cut :
    linesFor 0 (linesProcessed (chatBody ⟨fun _ => 0, fun _ => []⟩ fun _ => false) []
        (fun _ => []) cutChunks) = [refusedLine, bobLine] ∧
      linesFor 0 (linesProcessed (playersBody id) Roster.empty (fun _ => []) cutChunks) =
        [refusedLine, bobLine] := by
  have hlines := lines_of_chunks_iff ⟨fun _ => 0, fun _ => []⟩ (fun _ => false) id [] Roster.empty 0
    cutChunks (Text.shortLines_of_length (by decide +kernel))
  have hwhole : (Text.splitLines (contentsOf 0 cutChunks).flatten).1 = [refusedLine, bobLine] := by
    decide +kernel
  rw [hwhole] at hlines
  exact ⟨hlines.1.mpr (by decide +kernel), hlines.2.mpr (by decide +kernel)⟩

/-- In one chunk the line after the refused one is not processed. -/
theorem chunk_loses_lines :
    ¬∀ (sites : Sites) (verdict : ℕ → Bool) (lower : Text → Text) (events : List ChatEvent)
      (roster : Roster) (server : Id) (chunks : List Chunk),
      Text.ShortLines (contentsOf server chunks).flatten →
        linesFor server (linesProcessed (chatBody sites verdict) events (fun _ => []) chunks) =
            (Text.splitLines (contentsOf server chunks).flatten).1 ∧
          linesFor server (linesProcessed (playersBody lower) roster (fun _ => []) chunks) =
            (Text.splitLines (contentsOf server chunks).flatten).1 := by
  intro h
  have hboth := h ⟨fun _ => 0, fun _ => []⟩ (fun _ => false) id [] Roster.empty 0
    [plainChunk 0 (refusedLine ++ 10 :: bobLine ++ [10])]
    (Text.shortLines_of_length (by decide +kernel))
  exact absurd hboth.2 (by decide +kernel)

end Players

end Mastermind
