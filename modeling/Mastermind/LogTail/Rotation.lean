import Mastermind.LogTail.AppendOnly

/-!
# Rotation of the log

The followed file is renamed once and a new one is created under its path, at any moment and
between any two calls. The tailer notices it, finishes the old file and goes on with the new one.
It takes the old file to be finished when nothing is pending, which an upload of a full buffer
brings about with the rest of the file unread (`rotation_loses_backlog`). Where it closes the old
file only when that has been read to its end, and nothing is appended to it afterwards, what it
delivers is the old file and then the new one (`rotation_loses_nothing`).
-/

namespace Mastermind.LogTail

open Effect Program

/-- What others do: append to files, rename the first file away, and then create a second one under
the path. -/
def Rotates (_ : List TailEvent) (d d' : Disk) : Prop :=
  (∃ i bytes, d' = (DiskEvent.append i bytes).apply d) ∨
    (d.path = some 0 ∧ d' = DiskEvent.rename.apply d) ∨
    (d.path = none ∧ d' = DiskEvent.create.apply d)

/-- The same, with nothing appended to a file that the tailer has left. -/
def RotatesCleanly (trace : List TailEvent) (d d' : Disk) : Prop :=
  (∃ i bytes, i ∉ filesLeft trace ∧ d' = (DiskEvent.append i bytes).apply d) ∨
    (d.path = some 0 ∧ d' = DiskEvent.rename.apply d) ∨
    (d.path = none ∧ d' = DiskEvent.create.apply d)

/-- Whether a call leaves no byte unread: a file that is closed has been read to its end. -/
def drains : TailEvent → Bool
  | ⟨_, .close h, _, before, _⟩ =>
    (before.handles[h]?).all fun x => (before.text x.file).length ≤ x.offset
  | _ => true

/-- A file that is closed for its replacement has been read to its end. -/
def Drained (_ : List TailEvent) (e : TailEvent) : Prop := drains e = true

theorem drained_of_all {events : List TailEvent} (h : events.all drains = true) :
    ∀ older, ∀ e ∈ events, Drained older e :=
  fun _ e he => List.all_eq_true.mp h e he

/-- How far the rotation has come: the file still has its name, has lost it, or has been
replaced. -/
def View.Rotating (v : View) : Prop :=
  (v.files.length = 1 ∧ (v.path = some 0 ∨ v.path = none)) ∨
    (v.files.length = 2 ∧ v.path = some 1)

/-- What a followed file is read after: nothing, or the old file from where the tailer started. -/
def RotationBase (v : View) (r : Bool) (i : ℕ) (base : List UInt8) (start : ℕ) : Prop :=
  v.Rotating ∧
    ((0 ∉ v.left ∧ base = [] ∧ v.started = some start ∧
        ((i = 0 ∧ (r = true → v.path = some 1)) ∨ (i = 1 ∧ r = false ∧ v.path = some 1))) ∨
      (0 ∈ v.left ∧ i = 1 ∧ r = false ∧ v.path = some 1 ∧ start = 0 ∧
        ∃ s, v.started = some s ∧ base = (v.files.getD 0 []).drop s))

variable {trace : List TailEvent} {d d' : Disk}

/-- The environment takes the rotation forward only. -/
theorem RotatesCleanly.rotating (he : RotatesCleanly trace d d')
    (h : (View.of trace d).Rotating) : (View.of trace d').Rotating ∧
      (d.path = some 1 → d'.path = some 1) ∧ (0 ∈ filesLeft trace → d.path = some 1 →
        d'.files.getD 0 [] = d.files.getD 0 []) := by
  unfold View.Rotating at h ⊢
  simp only [View.of] at h ⊢
  rcases he with ⟨i, bytes, hi, rfl⟩ | ⟨hp, rfl⟩ | ⟨hp, rfl⟩
  · simp only [DiskEvent.apply, List.length_modify]
    refine ⟨h, id, fun h0 _ => ?_⟩
    have hne : i ≠ 0 := fun hc => hi (hc ▸ h0)
    simp [List.getD_eq_getElem?_getD, hne]
  · rw [hp] at h ⊢
    simp [DiskEvent.apply] at h ⊢
    exact h
  · rw [hp] at h ⊢
    simp [DiskEvent.apply] at h ⊢
    simp [h]

/-- A rotation after which nothing of the old file is missing. -/
def rotation : Situation RotatesCleanly Drained where
  Idle v := v.Rotating ∧ 0 ∉ v.left
  Opened v i := v.Rotating ∧ 0 ∉ v.left ∧ (i = 0 ∨ (i = 1 ∧ v.path = some 1))
  Next v _ j := j = 1
  Base := RotationBase
  grows := by
    rintro trace d d' (⟨i, bytes, -, rfl⟩ | ⟨-, rfl⟩ | ⟨-, rfl⟩)
    all_goals exact DiskEvent.grows _ d
  environment_idle he h := ⟨(he.rotating h.1).1, h.2⟩
  environment_opened he h := ⟨(he.rotating h.1).1, h.2.1, h.2.2.imp id fun hi =>
    ⟨hi.1, (he.rotating h.1).2.1 hi.2⟩⟩
  environment_next _ h := h
  environment_base := by
    rintro trace d d' r i base start he ⟨hrot, h⟩
    obtain ⟨hrot', hpath, hold⟩ := he.rotating hrot
    refine ⟨hrot', ?_⟩
    rcases h with ⟨h0, hb, hs, h⟩ | ⟨h0, hi, hr, hp, hs, s, hst, hb⟩
    · refine .inl ⟨h0, hb, hs, ?_⟩
      rcases h with ⟨hi, hr⟩ | ⟨hi, hr, hp⟩
      · exact .inl ⟨hi, fun h => hpath (hr h)⟩
      · exact .inr ⟨hi, hr, hpath hp⟩
    · refine .inr ⟨h0, hi, hr, hpath hp, hs, s, hst, ?_⟩
      rw [hb]
      exact congrArg _ (hold h0 hp).symm
  opens := by
    rintro v i ⟨hrot, h0⟩ hp
    refine ⟨hrot, h0, ?_⟩
    rcases hrot with ⟨-, hp' | hp'⟩ | ⟨-, hp'⟩
    · exact .inl (Option.some.inj (hp.symm.trans hp'))
    · rw [hp] at hp'
      cases hp'
    · exact .inr ⟨Option.some.inj (hp.symm.trans hp'), hp'⟩
  starts := by
    rintro v i start ⟨hrot, h0, hi⟩
    refine ⟨hrot, .inl ⟨h0, rfl, rfl, ?_⟩⟩
    rcases hi with rfl | ⟨rfl, hp⟩
    · exact .inl ⟨rfl, fun h => by cases h⟩
    · exact .inr ⟨rfl, rfl, hp⟩
  observes := by
    rintro v r i base start j ⟨hrot, h⟩ hj
    refine ⟨hrot, ?_⟩
    have hone : i = 1 → v.path = some 1 → (i != j) = false := by
      intro hi hp
      have hj1 : j = 1 := Option.some.inj (hj.symm.trans hp)
      simp [hi, hj1]
    rcases h with ⟨h0, hb, hs, h⟩ | ⟨h0, hi, hr, hp, h⟩
    · refine .inl ⟨h0, hb, hs, ?_⟩
      rcases h with ⟨rfl, hr⟩ | ⟨hi, hr, hp⟩
      · refine .inl ⟨rfl, fun hne => ?_⟩
        rcases hrot with ⟨-, hp | hp⟩ | ⟨-, hp⟩
        · obtain rfl : j = 0 := Option.some.inj (hj.symm.trans hp)
          cases hne
        · rw [hj] at hp
          cases hp
        · exact hp
      · exact .inr ⟨hi, hone hi hp, hp⟩
    · exact .inr ⟨h0, hi, hone hi hp, hp, h⟩
  replaces := by
    rintro v i base start j ⟨hrot, h⟩ hj
    rcases h with ⟨-, -, -, ⟨-, hr⟩ | ⟨-, hr, -⟩⟩ | ⟨-, -, hr, -⟩
    · exact Option.some.inj (hj.symm.trans (hr rfl))
    · cases hr
    · cases hr
  switches := by
    rintro trace d i j base start h offset r d' ⟨hrot, hbase⟩ rfl hh hlen hc
    -- the handle has come to the end of the file
    have hend : (d.text i).take offset = d.text i := by
      simp only [Drained, drains, hh, Option.all_some, decide_eq_true_eq] at hc
      exact List.take_of_length_le hc
    refine ⟨hrot, .inr ?_⟩
    rcases hbase with ⟨-, rfl, hs, ⟨rfl, hr⟩ | ⟨-, hr, -⟩⟩ | ⟨-, -, hr, -⟩
    · refine ⟨List.mem_cons_self, rfl, rfl, hr rfl, rfl, start, hs, ?_⟩
      rw [hend]
      rfl
    · cases hr
    · cases hr

/-- Between two rounds, what is delivered and what is held is the followed file so far, and before
it, once the old file has been left, all of that from where the tailer started. -/
def Continues (t : Tailer) (trace : List TailEvent) (d : Disk) : Prop :=
  ∀ f, t.file = some f → ∃ i start, d.Holds f i t.readOffset ∧ startOffset trace = some start ∧
    if 0 ∈ filesLeft trace then
      i = 1 ∧ (delivered trace).flatten = (d.text 0).drop start ++ (d.text 1).take t.ackedOffset ∧
        t.pending = ((d.text 1).take t.readOffset).drop t.ackedOffset
    else (delivered trace).flatten = ((d.text i).take t.ackedOffset).drop start ∧
      t.pending = ((d.text i).take t.readOffset).drop t.ackedOffset

/-- In every run in which the old file is closed only after it has been read to its end, and is not
appended to afterwards, nothing is lost and nothing is duplicated. -/
theorem rotation_loses_nothing (bytes : List UInt8) {t : Tailer} {d : Disk}
    {trace : List TailEvent}
    (hr : Works tailMachine Round.prog RotatesCleanly Drained newTailer (Disk.single bytes)
      ⟨.ret (.ok t), d, trace⟩) : Continues t trace d := by
  have hidle : rotation.Idle (View.of [] (Disk.single bytes)) :=
    ⟨.inl ⟨rfl, .inl rfl⟩, List.not_mem_nil⟩
  obtain ⟨t', h, ht⟩ := Tracks.of_works rotation filesPath hidle hr
  cases h
  intro f hf
  obtain ⟨i, base, start, hh, ha, -, hbase⟩ := ht.opened f hf
  obtain ⟨hdel, hpend⟩ := ha.split ht.offsets hh.2.2
  rcases hbase with ⟨h0, rfl, hs, -⟩ | ⟨h0, rfl, -, -, rfl, s, hs, rfl⟩
  · refine ⟨i, start, hh, hs, ?_⟩
    rw [if_neg (show 0 ∉ filesLeft trace from h0)]
    exact ⟨hdel, hpend⟩
  · refine ⟨1, s, hh, hs, ?_⟩
    rw [if_pos (show 0 ∈ filesLeft trace from h0)]
    exact ⟨rfl, hdel, hpend⟩

/-- The rounds of a rotation with a short old file: it is delivered, and then the new file. -/
theorem rotation_loses_nothing_short :
    ∃ t d trace, Works tailMachine Round.prog RotatesCleanly Drained newTailer
        (Disk.single [111, 49]) ⟨.ret (.ok t), d, trace⟩ ∧
      delivered trace = [[111, 49], [110]] ∧ filesLeft trace = [0] ∧ Continues t trace d := by
  have hinit : Works tailMachine Round.prog RotatesCleanly Drained newTailer
      (Disk.single [111, 49]) ⟨.ret (.ok newTailer), Disk.single [111, 49], []⟩ := .init
  have hopened := Works.script [(⟨0, false⟩, [])] (drained_of_all rfl) hinit
  have hrenamed := hopened.environment (.inr (.inl ⟨rfl, rfl⟩))
  have hcreated := hrenamed.environment (.inr (.inr ⟨rfl, rfl⟩))
  have hwritten := hcreated.environment (.inl ⟨1, [110], by decide, rfl⟩)
  have hdone := Works.script [(⟨1000, false⟩, []), (⟨2000, false⟩, []), (⟨3000, false⟩, [])]
    (drained_of_all rfl) hwritten
  exact ⟨_, _, _, hdone, by decide, by decide, rotation_loses_nothing _ hdone⟩

/-- The tailer that has opened an empty file. -/
def watching : Tailer := { newTailer with file := some 0, initialized := true }

/-- A round that finds the file replaced while more than a buffer of it is unread uploads one
buffer and leaves. -/
theorem replaced_round {big : List UInt8} (h : maxChunkSize < big.length)
    (trace : List TailEvent) :
    let p := Round.prog ⟨1000, false⟩ watching
    let d : Disk := ⟨[big, []], some 1, [⟨0, 0⟩]⟩
    (p.run tailMachine [] d).1 = .ok { watching with file := some 1 } ∧
      (p.run tailMachine [] d).2.2.files = [big, []] ∧
      delivered (p.events tailMachine [] d trace) = delivered trace ++ [big.take maxChunkSize] ∧
      startOffset (p.events tailMachine [] d trace) = startOffset trace ∧
      filesLeft (p.events tailMachine [] d trace) = 0 :: filesLeft trace := by
  have hmin : min 65536 big.length = 65536 := by
    rw [maxChunkSize] at h
    omega
  have hne : big ≠ [] := by
    rintro rfl
    simp at h
  simp [Round.prog, Tailer.step, Tailer.follow, unlessError, watching, newTailer,
    Tailer.observePath, Tailer.fill, Tailer.flush, Tailer.switchToReplacement, Bind.bind,
    Program.bind, attempt, pure, run, events, tailMachine, Call.exec, Disk.openPath, Disk.stat,
    Disk.statPath, Disk.read, Disk.text, maxChunkSize, delivered, startOffset, filesLeft, hmin,
    hne]

/-- A backlog that is longer than the buffer when the replacement is noticed is lost: the tailer
opens the empty file, 65537 bytes are appended, the file is renamed and a new one created. -/
theorem rotation_loses_backlog :
    ¬ ∀ bytes t d trace, Works tailMachine Round.prog Rotates anyCall newTailer
        (Disk.single bytes) ⟨.ret (.ok t), d, trace⟩ → Continues t trace d := by
  intro hall
  obtain ⟨big, hbig⟩ : ∃ big : List UInt8, maxChunkSize < big.length :=
    ⟨List.replicate 65537 120, by rw [List.length_replicate]; decide⟩
  have hinit : Works tailMachine Round.prog Rotates anyCall newTailer
      (Disk.single []) ⟨.ret (.ok newTailer), Disk.single [], []⟩ := .init
  have hopened := Works.script [(⟨0, false⟩, [])] (fun _ _ _ => trivial) hinit
  have hwritten := hopened.environment (.inl ⟨0, big, rfl⟩)
  have hrenamed := hwritten.environment (.inr (.inl ⟨rfl, rfl⟩))
  have hcreated : Works tailMachine Round.prog Rotates anyCall newTailer (Disk.single [])
      ⟨.ret (.ok watching), ⟨[big, []], some 1, [⟨0, 0⟩]⟩, _⟩ :=
    hrenamed.environment (.inr (.inr ⟨rfl, rfl⟩))
  have hlost := Works.alone [] (fun _ _ _ => trivial) (Works.start ⟨1000, false⟩ hcreated)
  obtain ⟨hrun, hfiles, hdel, hstart, hleft⟩ := replaced_round hbig
    (script tailMachine Round.prog [(⟨0, false⟩, [])] newTailer (Disk.single []) []).2.2
  rw [hrun] at hlost
  obtain ⟨i, start, -, hs, hif⟩ := hall _ _ _ _ hlost 1 rfl
  obtain rfl : 0 = start := Option.some.inj (hstart.symm.trans hs)
  rw [if_pos (hleft ▸ List.mem_cons_self), hdel] at hif
  -- what has been accepted is shorter than the old file
  have hlen := congrArg List.length hif.2.1
  rw [Disk.text, hfiles] at hlen
  have hshort : (big.take maxChunkSize).length ≤ maxChunkSize := List.length_take_le _ _
  have hold : (delivered (script tailMachine Round.prog [(⟨0, false⟩, [])] newTailer
      (Disk.single []) []).2.2) = [] := rfl
  rw [hold] at hlen
  simp only [List.nil_append, List.flatten_singleton, List.length_append, List.drop_zero,
    List.getD_cons_zero] at hlen
  omega

end Mastermind.LogTail
