import Mastermind.LogTail.Offsets

/-!
# A log that only grows

While others only append to the files, the tailer delivers the followed file from where it started,
once and in order (`delivered_exactly_once`). No replacement is ever seen, so that the base of
`Tracks` is empty.
-/

namespace Mastermind.LogTail

open Effect Program

/-- The environment that only appends to files. -/
def Appends (_ : List TailEvent) (d d' : Disk) : Prop :=
  ∃ i bytes, d' = (DiskEvent.append i bytes).apply d

/-- Any call may occur. -/
def anyCall (_ : List TailEvent) (_ : TailEvent) : Prop := True

theorem anyCall_all (trace : List TailEvent) (e : TailEvent) : anyCall trace e := trivial

theorem Appends.path {trace : List TailEvent} {d d' : Disk} (h : Appends trace d d') :
    d'.path = d.path := by
  obtain ⟨i, bytes, rfl⟩ := h
  rfl

/-- The followed file is the one that the path names, and it has been followed from the start. -/
def appending : Situation Appends anyCall where
  Idle _ := True
  Opened v i := v.path = some i
  Next _ _ _ := False
  Base v r i base start := v.path = some i ∧ r = false ∧ base = [] ∧ v.started = some start
  grows := by
    rintro trace d d' ⟨i, bytes, rfl⟩
    exact DiskEvent.grows _ d
  environment_idle _ h := h
  environment_opened he h := he.path.trans h
  environment_next _ h := h
  environment_base he h := ⟨he.path.trans h.1, h.2⟩
  opens _ h := h
  starts _ h := ⟨h, rfl, rfl, rfl⟩
  observes := by
    rintro v r i base start j ⟨hp, -, hb, hs⟩ hj
    obtain rfl : i = j := Option.some.inj (hp.symm.trans hj)
    exact ⟨hp, by simp, hb, hs⟩
  replaces h _ := by cases h.2.1
  switches h _ _ _ _ := by cases h.2.1

/-- Calls that failed deliver nothing and start nothing. -/
theorem failed_trace {failed : List TailEvent} (trace : List TailEvent)
    (h : ∀ e ∈ failed, e.answer = .error tailMachine.fault) :
    delivered (failed ++ trace) = delivered trace ∧
      startOffset (failed ++ trace) = startOffset trace := by
  induction failed with
  | nil => exact ⟨rfl, rfl⟩
  | cons e failed ih =>
    obtain ⟨n, s, r, w, w'⟩ := e
    obtain rfl : r = .error tailMachine.fault := h ⟨n, s, r, w, w'⟩ List.mem_cons_self
    obtain ⟨hdel, hstart⟩ := ih fun e he => h e (List.mem_cons_of_mem _ he)
    have hcons : delivered (⟨n, s, .error tailMachine.fault, w, w'⟩ :: (failed ++ trace)) =
        delivered (failed ++ trace) ∧
        startOffset (⟨n, s, .error tailMachine.fault, w, w'⟩ :: (failed ++ trace)) =
          startOffset (failed ++ trace) := by
      cases s <;> exact ⟨List.append_nil _, rfl⟩
    exact ⟨hcons.1.trans hdel, hcons.2.trans hstart⟩

/-- The path of a disk with one file names it. -/
theorem filesPath {bytes : List UInt8} (i : ℕ) (h : (Disk.single bytes).path = some i) :
    i < (Disk.single bytes).files.length := by
  obtain rfl : 0 = i := Option.some.inj h
  exact Nat.zero_lt_one

variable {bytes : List UInt8} {t : Tailer} {d : Disk} {trace : List TailEvent}

/-- The path goes on to name the one file. -/
theorem path_of_appends {c : Worker Answer IOError Tailer Disk}
    (hr : Works tailMachine Round.prog Appends anyCall newTailer (Disk.single bytes) c) :
    c.store.path = some 0 := by
  induction hr with
  | init => rfl
  | start _ _ ih => exact ih
  | @call s k w trace r w' _ ho _ ih =>
    rcases ho with ⟨-, hw⟩ | ⟨-, -, hw⟩
    · have hp : ((Call.exec s w).2).path = w.path := by
        cases s with
        | «open» =>
          show w.openPath.2.path = w.path
          unfold Disk.openPath
          split <;> simp_all
        | read h n =>
          show (w.read h n).2.path = w.path
          unfold Disk.read
          split <;> rfl
        | seek _ _ | stat _ | statPath | close _ | discard _ | upload _ => rfl
      rw [hw]
      exact hp.trans ih
    · rw [hw]
      exact ih
  | environment _ he ih => exact he.path.trans ih

/-- What is delivered and what is held, between two rounds: nothing yet, or the file from the start
offset to the acknowledged one, and from there to the read offset. -/
def Segments (t : Tailer) (trace : List TailEvent) (text : List UInt8) : Prop :=
  (t.file = none ∧ delivered trace = []) ∨
    ∃ start, startOffset trace = some start ∧ start ≤ t.ackedOffset ∧
      t.readOffset ≤ text.length ∧
      (delivered trace).flatten = (text.take t.ackedOffset).drop start ∧
      t.pending = (text.take t.readOffset).drop t.ackedOffset

/-- The invariant says what the segments are. -/
theorem Tracks.segments (ht : Tracks appending t trace d) (hpath : d.path = some 0) :
    Segments t trace (d.text 0) := by
  cases hf : t.file with
  | none => exact .inl ⟨hf, (ht.closed hf).1⟩
  | some f =>
    obtain ⟨i, base, start, hh, ha, hp, -, rfl, hs⟩ := ht.opened f hf
    obtain rfl : 0 = i := Option.some.inj (hpath.symm.trans hp)
    obtain ⟨hdel, hpend⟩ := ha.split ht.offsets hh.2.2
    exact .inr ⟨start, hs, ha.started, hh.2.2, hdel, hpend⟩

/-- A flush that fails leaves the tailer as it was. -/
theorem flush_failed {t t' : Tailer} {plan : List Bool} {d : Disk} {e : IOError}
    (h : (t.flush.run tailMachine plan d).1 = .ok (t', some e)) : t' = t := by
  unfold Tailer.flush at h
  split_ifs at h with hempty
  · cases h
  · simp only [streamLogBytes, attempt, Bind.bind, Program.bind, run] at h
    cases hplan : plan.headD false with
    | true =>
      rw [hplan] at h
      cases h
      rfl
    | false =>
      rw [hplan] at h
      cases h

/-- While the file is only appended to, whichever calls fail and whenever: at any point what the
control plane has accepted is a part of the file that starts at the start offset; between two
rounds it ends at the acknowledged offset, from which what is held goes on to the read offset; no
chunk is longer than 64 KiB; and a flush that fails leaves the tailer as it was. -/
theorem delivered_exactly_once (bytes : List UInt8) :
    (∀ c, Works tailMachine Round.prog Appends anyCall newTailer (Disk.single bytes) c →
      delivered c.trace = [] ∨ ∃ start acked, startOffset c.trace = some start ∧ start ≤ acked ∧
        acked ≤ (c.store.text 0).length ∧
        (delivered c.trace).flatten = ((c.store.text 0).take acked).drop start) ∧
    (∀ t d trace, Works tailMachine Round.prog Appends anyCall newTailer (Disk.single bytes)
        ⟨.ret (.ok t), d, trace⟩ →
      t.readOffset = t.ackedOffset + t.pending.length ∧
      (∀ c ∈ attempted trace, c.length ≤ maxChunkSize) ∧ Segments t trace (d.text 0)) ∧
    ∀ (t : Tailer) plan d t' e, (t.flush.run tailMachine plan d).1 = .ok (t', some e) →
      t' = t := by
  refine ⟨?_, ?_, fun _ _ _ _ _ => flush_failed⟩
  · -- a run that is stopped here, with every further call failing, ends its round
    intro c hr
    obtain ⟨r, failed, hfailed, hw⟩ := Works.abandon (fun _ => rfl) anyCall_all hr
    obtain ⟨hdel, hstart⟩ := failed_trace c.trace hfailed
    obtain ⟨t, rfl, ht⟩ := Tracks.of_works appending filesPath trivial hw
    have hoffsets := ht.offsets
    rcases ht.segments (path_of_appends hr) with ⟨-, hnil⟩ | ⟨start, hs, hle, hlen, hseg, -⟩
    · exact .inl (hdel.symm.trans hnil)
    · rw [hstart] at hs
      rw [hdel] at hseg
      exact .inr ⟨start, t.ackedOffset, hs, hle, by omega, hseg⟩
  · intro t d trace hr
    obtain ⟨t', h, ht⟩ := Tracks.of_works appending filesPath trivial hr
    cases h
    exact ⟨ht.offsets, ht.chunks, ht.segments (path_of_appends hr)⟩

/-- A batch whose upload fails once is delivered by the next round. -/
theorem delivered_exactly_once_retry :
    ∃ t d trace, script tailMachine Round.prog
        [(⟨100000, false⟩, []), (⟨100350, false⟩, [false, false, false, true]),
          (⟨100700, false⟩, [])] newTailer (Disk.single [114, 101]) [] = (.ok t, d, trace) ∧
      delivered trace = [[114, 101]] ∧ t.ackedOffset = 2 ∧
      t.readOffset = t.ackedOffset + t.pending.length ∧ Segments t trace (d.text 0) := by
  have hinit : Works tailMachine Round.prog Appends anyCall newTailer (Disk.single [114, 101])
      ⟨.ret (.ok newTailer), Disk.single [114, 101], []⟩ := .init
  have hr := Works.script [(⟨100000, false⟩, []), (⟨100350, false⟩, [false, false, false, true]),
    (⟨100700, false⟩, [])] (fun _ _ _ => trivial) hinit
  obtain ⟨ho, -, hs⟩ := (delivered_exactly_once [114, 101]).2.1 _ _ _ hr
  exact ⟨_, _, _, rfl, rfl, rfl, ho, hs⟩

end Mastermind.LogTail
