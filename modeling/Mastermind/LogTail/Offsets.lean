import Mastermind.LogTail.Tailer

/-!
# What the offsets of a tailer stand for

`Tracks` is the invariant of the tailer: what it has delivered and what it holds is the part of
the followed file between an offset where it started and the read offset, after what came from a
file that it left before (`base`). What `base` can be depends on what others do to the files, so
it is a parameter: a `Situation` says how the environment acts, which calls occur, and which bases
are possible in which view of the files. Each function of the tailer keeps `Tracks` in every
situation; `Tailer.step_tracks` assembles them.
-/

namespace Mastermind.LogTail

open Effect Program Relation

/-- What the environment does to the files at most: they grow, files are added, and the path names
an existing file or none. -/
structure Disk.Grows (d d' : Disk) : Prop where
  handles : d'.handles = d.handles
  files : d.files.length ≤ d'.files.length
  text : ∀ i < d.files.length, d.text i <+: d'.text i
  path : (∀ i, d.path = some i → i < d.files.length) → ∀ i, d'.path = some i → i < d'.files.length

/-- Every event makes the files grow. -/
theorem DiskEvent.grows (e : DiskEvent) (d : Disk) : d.Grows (e.apply d) := by
  cases e with
  | append i bytes =>
    refine ⟨rfl, by simp [apply], ?_, ?_⟩
    · intro j hj
      simp only [apply, Disk.text, List.getD_eq_getElem?_getD, List.getElem?_modify]
      rw [List.getElem?_eq_getElem hj]
      by_cases hij : i = j
      · simp [hij]
      · simp [hij]
    · intro h j hj
      simpa [apply] using h j hj
  | rename => exact ⟨rfl, le_rfl, fun j _ => List.prefix_rfl, fun _ j hj => by cases hj⟩
  | create =>
    refine ⟨rfl, by simp [apply], ?_, ?_⟩
    · intro j hj
      have hget : (d.files ++ [[]])[j]? = d.files[j]? := List.getElem?_append_left hj
      simp [apply, Disk.text, List.getD_eq_getElem?_getD, hget]
    · intro _ j hj
      obtain rfl : d.files.length = j := by simpa [apply] using hj
      simp [apply]

/-- What an invariant may depend on: where the tailer started, the files that it has left, and the
files with the one that the path names. -/
structure View where
  started : Option ℕ
  left : List ℕ
  files : List (List UInt8)
  path : Option ℕ

/-- The view after the calls of a trace. -/
def View.of (trace : List TailEvent) (d : Disk) : View :=
  ⟨startOffset trace, filesLeft trace, d.files, d.path⟩

/-- What the environment does, which calls occur, and what is known of a followed file. `Idle` is
known before a file is followed, `Opened` of a file that has just been opened, `Next` of one that has been opened as the
replacement of another, and `Base v r i base from` of the followed file `i`: it is read from the
offset `from` on after `base`, and `r` says whether it was found replaced. -/
structure Situation (env : List TailEvent → Disk → Disk → Prop)
    (cond : List TailEvent → TailEvent → Prop) where
  Idle : View → Prop
  Opened : View → ℕ → Prop
  Next : View → ℕ → ℕ → Prop
  Base : View → Bool → ℕ → List UInt8 → ℕ → Prop
  grows : ∀ {trace d d'}, env trace d d' → d.Grows d'
  environment_idle : ∀ {trace d d'}, env trace d d' → Idle (View.of trace d) →
    Idle (View.of trace d')
  environment_opened : ∀ {trace d d' i}, env trace d d' → Opened (View.of trace d) i →
    Opened (View.of trace d') i
  environment_next : ∀ {trace d d' i j}, env trace d d' → Next (View.of trace d) i j →
    Next (View.of trace d') i j
  environment_base : ∀ {trace d d' r i base start}, env trace d d' →
    Base (View.of trace d) r i base start → Base (View.of trace d') r i base start
  opens : ∀ {v i}, Idle v → v.path = some i → Opened v i
  starts : ∀ {v i} (start), Opened v i → Base { v with started := some start } false i [] start
  observes : ∀ {v r i base start j}, Base v r i base start → v.path = some j →
    Base v (i != j) i base start
  replaces : ∀ {v i base start j}, Base v true i base start → v.path = some j → Next v i j
  /-- The old file is closed, with the offset of its handle where the condition sees it. -/
  switches : ∀ {trace d i j base start h offset r d'},
    Base (View.of trace d) true i base start → Next (View.of trace d) i j →
    d.handles[h]? = some ⟨i, offset⟩ → offset ≤ (d.text i).length →
    cond trace ⟨0, .close h, r, d, d'⟩ →
    Base { View.of trace d with left := i :: filesLeft trace } false j
      (base ++ ((d.text i).take offset).drop start) 0

section Tracks

variable {env : List TailEvent → Disk → Disk → Prop} {cond : List TailEvent → TailEvent → Prop}

/-- The handle `h` of a tailer is of an existing file and at the offset. -/
def Disk.Holds (d : Disk) (h i offset : ℕ) : Prop :=
  d.handles[h]? = some ⟨i, offset⟩ ∧ i < d.files.length ∧ offset ≤ (d.text i).length

/-- What a tailer has delivered and holds is `base` and then the followed file from `start` to the
read offset, in this order, and the two offsets say where one ends and the other begins. -/
structure Tailer.Accounts (t : Tailer) (trace : List TailEvent) (text base : List UInt8)
    (start : ℕ) : Prop where
  started : start ≤ t.ackedOffset
  acked : (delivered trace).flatten.length + start = base.length + t.ackedOffset
  content : (delivered trace).flatten ++ t.pending = base ++ (text.take t.readOffset).drop start

/-- The invariant of a tailer in a situation. -/
structure Tracks (S : Situation env cond) (t : Tailer) (trace : List TailEvent) (d : Disk) :
    Prop where
  path : ∀ i, d.path = some i → i < d.files.length
  noReset : t.resetPending = false
  bounded : t.pending.length ≤ maxChunkSize
  chunks : ∀ c ∈ attempted trace, c.length ≤ maxChunkSize
  offsets : t.readOffset = t.ackedOffset + t.pending.length
  closed : t.file = none → delivered trace = [] ∧ t.pending = [] ∧ S.Idle (View.of trace d)
  opened : ∀ h, t.file = some h → ∃ i base start, d.Holds h i t.readOffset ∧
    t.Accounts trace (d.text i) base start ∧ S.Base (View.of trace d) t.replaced i base start

variable {S : Situation env cond} {t : Tailer} {trace : List TailEvent} {d d' : Disk}

theorem Disk.Grows.holds {h i offset : ℕ} (hg : d.Grows d') (hh : d.Holds h i offset) :
    d'.Holds h i offset := by
  obtain ⟨hh, hi, ho⟩ := hh
  have hlen := (hg.text i hi).length_le
  have hfiles := hg.files
  exact ⟨by rw [hg.handles, hh], by omega, by omega⟩

/-- A file that grows keeps the part before the read offset. -/
theorem Tailer.Accounts.grows {i start : ℕ} {base : List UInt8}
    (h : t.Accounts trace (d.text i) base start) (hg : d.Grows d') (hi : i < d.files.length)
    (ho : t.readOffset ≤ (d.text i).length) : t.Accounts trace (d'.text i) base start := by
  obtain ⟨rest, hrest⟩ := hg.text i hi
  refine ⟨h.started, h.acked, ?_⟩
  rw [h.content, ← hrest, List.take_append_of_le_length ho]

/-- What is delivered ends at the acknowledged offset, and what is held goes from there to the read
offset. -/
theorem Tailer.Accounts.split {text base : List UInt8} {start : ℕ}
    (h : t.Accounts trace text base start) (ho : t.readOffset = t.ackedOffset + t.pending.length)
    (hlen : t.readOffset ≤ text.length) :
    (delivered trace).flatten = base ++ (text.take t.ackedOffset).drop start ∧
      t.pending = (text.take t.readOffset).drop t.ackedOffset := by
  have hstarted := h.started
  have hacked := h.acked
  have htake : text.take t.readOffset =
      text.take t.ackedOffset ++ (text.drop t.ackedOffset).take t.pending.length := by
    rw [ho, List.take_add]
  have hlength : (text.take t.ackedOffset).length = t.ackedOffset := by
    rw [List.length_take]
    omega
  have hcontent := h.content
  rw [htake, List.drop_append_of_le_length (by omega), ← List.append_assoc] at hcontent
  obtain ⟨hdel, hpend⟩ := List.append_inj hcontent (by
    rw [List.length_append, List.length_drop, hlength]
    omega)
  refine ⟨hdel, ?_⟩
  rw [htake, List.drop_append, hlength, Nat.sub_self, List.drop_eq_nil_of_le hlength.le,
    List.nil_append, List.drop_zero]
  exact hpend

/-- What the environment does keeps the invariant. -/
theorem Tracks.environment (ht : Tracks S t trace d) (he : env trace d d') :
    Tracks S t trace d' := by
  have hg := S.grows he
  refine ⟨hg.path ht.path, ht.noReset, ht.bounded, ht.chunks, ht.offsets, ?_, ?_⟩
  · intro hnone
    obtain ⟨hdel, hpend, hidle⟩ := ht.closed hnone
    exact ⟨hdel, hpend, S.environment_idle he hidle⟩
  intro h hf
  obtain ⟨i, base, start, hh, ha, hb⟩ := ht.opened h hf
  exact ⟨i, base, start, hg.holds hh, ha.grows hg hh.2.1 hh.2.2, S.environment_base he hb⟩

/-- A property that the environment keeps holds after all that it does. -/
theorem keeps_environment {P : Disk → Prop} (hP : ∀ d d', P d → env trace d d' → P d') (h : P d)
    (he : ReflTransGen (env trace) d d') : P d' := by
  induction he with
  | refl => exact h
  | tail _ hs ih => exact hP _ _ ih hs

/-- The calls that only look: they keep the files, and no handle of theirs is the followed one. -/
def Call.Looks : Call → Prop
  | .open | .stat _ | .statPath | .discard _ => True
  | _ => False

/-- What a call that only looks does to the disk. -/
theorem Call.Looks.outcome {c : Call} (hc : c.Looks) {r : Except IOError (Answer c)}
    (ho : tailMachine.Outcome c d r d') :
    d'.files = d.files ∧ d'.path = d.path ∧
      ∀ (h : ℕ) (x : Handle), d.handles[h]? = some x → d'.handles[h]? = some x := by
  rcases ho with ⟨-, rfl⟩ | ⟨-, -, rfl⟩
  · cases c with
    | «open» =>
      show d.openPath.2.files = d.files ∧ d.openPath.2.path = d.path ∧
        ∀ (h : ℕ) (x : Handle), d.handles[h]? = some x → d.openPath.2.handles[h]? = some x
      unfold Disk.openPath
      split
      · exact ⟨rfl, rfl, fun _ _ hx => hx⟩
      · rename_i i _
        refine ⟨rfl, rfl, fun h x hx => ?_⟩
        have hlt : h < d.handles.length := (List.getElem?_eq_some_iff.mp hx).1
        show (d.handles ++ [⟨i, 0⟩])[h]? = some x
        rw [List.getElem?_append_left hlt, hx]
    | stat _ | statPath | discard _ => exact ⟨rfl, rfl, fun _ _ hx => hx⟩
    | seek _ _ | read _ _ | close _ | upload _ => exact hc.elim
  · exact ⟨rfl, rfl, fun _ _ hx => hx⟩

/-- A call that only looks leaves what the trace says. -/
theorem Call.Looks.keeps {c : Call} (hc : c.Looks) (trace : List TailEvent) (d d' : Disk)
    (r : Except IOError (Answer c)) :
    attempted (⟨0, c, r, d, d'⟩ :: trace) = attempted trace ∧
      delivered (⟨0, c, r, d, d'⟩ :: trace) = delivered trace ∧
      startOffset (⟨0, c, r, d, d'⟩ :: trace) = startOffset trace ∧
      filesLeft (⟨0, c, r, d, d'⟩ :: trace) = filesLeft trace := by
  cases c with
  | «open» | stat _ | statPath | discard _ => simp [attempted, delivered, startOffset, filesLeft]
  | seek _ _ | read _ _ | close _ | upload _ => exact hc.elim

/-- A call that changes neither the files, nor the handles there were, nor what the trace says,
keeps the invariant. -/
theorem Tracks.unchanged {c : Call} {r : Except IOError (Answer c)} (ht : Tracks S t trace d)
    (hfiles : d'.files = d.files) (hpath : d'.path = d.path)
    (hhandles : ∀ (h : ℕ) (x : Handle), d.handles[h]? = some x → d'.handles[h]? = some x)
    (hatt : attempted (⟨0, c, r, d, d'⟩ :: trace) = attempted trace)
    (hdel : delivered (⟨0, c, r, d, d'⟩ :: trace) = delivered trace)
    (hstart : startOffset (⟨0, c, r, d, d'⟩ :: trace) = startOffset trace)
    (hleft : filesLeft (⟨0, c, r, d, d'⟩ :: trace) = filesLeft trace) :
    Tracks S t (⟨0, c, r, d, d'⟩ :: trace) d' := by
  have htext : d'.text = d.text := by funext i; rw [Disk.text, Disk.text, hfiles]
  have hview : View.of (⟨0, c, r, d, d'⟩ :: trace) d' = View.of trace d := by
    simp only [View.of, hstart, hleft, hfiles, hpath]
  refine ⟨?_, ht.noReset, ht.bounded, by rw [hatt]; exact ht.chunks, ht.offsets,
    by rw [hdel, hview]; exact ht.closed, ?_⟩
  · rw [hpath, hfiles]
    exact ht.path
  · intro h hf
    obtain ⟨i, base, start, ⟨hh, hi, hlen⟩, ha, hb⟩ := ht.opened h hf
    refine ⟨i, base, start, ⟨hhandles _ _ hh, by rw [hfiles]; exact hi, by rw [htext]; exact hlen⟩,
      ⟨ha.started, by rw [hdel]; exact ha.acked, by rw [hdel, htext]; exact ha.content⟩, ?_⟩
    rw [hview]
    exact hb

/-- A call that only looks keeps the invariant. -/
theorem Tracks.looks {c : Call} {r : Except IOError (Answer c)} (ht : Tracks S t trace d)
    (hc : c.Looks) (ho : tailMachine.Outcome c d r d') :
    Tracks S t (⟨0, c, r, d, d'⟩ :: trace) d' := by
  obtain ⟨hfiles, hpath, hhandles⟩ := hc.outcome ho
  obtain ⟨hatt, hdel, hstart, hleft⟩ := hc.keeps trace d d' r
  exact ht.unchanged hfiles hpath hhandles hatt hdel hstart hleft

/-- A call that fails changes nothing on the disk. -/
theorem error_outcome {c : Call} {e : IOError} (ho : tailMachine.Outcome c d (.error e) d') :
    d' = d := by
  rcases ho with ⟨hr, hd⟩ | ⟨-, -, hd⟩
  · rw [hd]
    cases c with
    | «open» =>
      simp only [tailMachine, Call.exec, Disk.openPath] at hr ⊢
      cases hp : d.path with
      | none => rfl
      | some i => rw [hp] at hr; cases hr
    | read h n =>
      simp only [tailMachine, Call.exec, Disk.read] at hr ⊢
      cases hp : d.handles[h]? with
      | none => rfl
      | some x => rw [hp] at hr; cases hr
    | seek _ _ => cases hr
    | stat _ | statPath | close _ | discard _ | upload _ => rfl
  · exact hd

/-- A seek or a read that fails keeps the invariant. -/
theorem Tracks.failed {c : Call} {e : IOError} (ht : Tracks S t trace d)
    (hc : (∃ h n, c = .seek h n) ∨ ∃ h n, c = .read h n)
    (ho : tailMachine.Outcome c d (.error e) d') :
    Tracks S t (⟨0, c, .error e, d, d'⟩ :: trace) d' := by
  obtain rfl := error_outcome ho
  rcases hc with ⟨h, n, rfl⟩ | ⟨h, n, rfl⟩
  · exact ht.unchanged rfl rfl (fun _ _ hx => hx) (List.append_nil _) (List.append_nil _) rfl rfl
  · exact ht.unchanged rfl rfl (fun _ _ hx => hx) (List.append_nil _) (List.append_nil _) rfl rfl

/-- How a script of the tailer ends: with a tailer that satisfies `P` and the invariant. -/
def Ends (S : Situation env cond) (P : Tailer → Prop)
    (r : Except IOError (Tailer × Option IOError)) (x : List TailEvent × Disk) : Prop :=
  ∃ t err, r = .ok (t, err) ∧ P t ∧ Tracks S t x.1 x.2

/-- The precondition amid the environment of the situation. -/
abbrev Ensures (S : Situation env cond) (P : Tailer → Prop) (p : Script) (trace : List TailEvent)
    (d : Disk) : Prop :=
  p.wp (amid tailMachine env cond) (Ends S P) (trace, d)

variable {P Q : Tailer → Prop}

/-- Returning the tailer as it is. -/
theorem ensures_return {err : Option IOError} (hP : P t) (ht : Tracks S t trace d) :
    Ensures S P (pure (t, err)) trace d :=
  (wp_pure _ _ _).mpr ⟨t, err, rfl, hP, ht⟩

/-- A function of the tailer after another, unless that ended with an error. -/
theorem ensures_unlessError {p : Script} {f : Tailer → Script}
    (hp : Ensures S P p trace d) (hPQ : ∀ t, P t → Q t)
    (hf : ∀ t trace d, P t → Tracks S t trace d → Ensures S Q (f t) trace d) :
    Ensures S Q (unlessError p f) trace d := by
  unfold unlessError
  refine wp_bind_of amid_monotone hp ?_ ?_
  · rintro ⟨t, err⟩ x ⟨t', err', h, hP, ht⟩
    cases h
    cases err with
    | none => exact hf t x.1 x.2 hP ht
    | some e => exact ensures_return (hPQ t hP) ht
  · rintro e x ⟨t', err', h, -⟩
    cases h

/-- A call amid the environment: the environment keeps the invariant and what else is known, `R`,
and the call has an outcome. -/
theorem ensures_call {c : Call} {R : Disk → Prop} {α : Type} {f : Except IOError (Answer c) →
      Program Answer IOError α}
    {K : Except IOError α → List TailEvent × Disk → Prop}
    (ht : Tracks S t trace d) (hR : R d) (hstable : ∀ d d', R d → env trace d d' → R d')
    (hf : ∀ d₁ r d₂, Tracks S t trace d₁ → R d₁ → tailMachine.Outcome c d₁ r d₂ →
      cond trace ⟨0, c, r, d₁, d₂⟩ →
      (f r).wp (amid tailMachine env cond) K (⟨0, c, r, d₁, d₂⟩ :: trace, d₂)) :
    (attempt c >>= f).wp (amid tailMachine env cond) K (trace, d) := by
  rw [wp_bind, wp_attempt]
  intro d₁ hd₁ r d₂ ho hcond
  have hkeep : Tracks S t trace d₁ ∧ R d₁ :=
    keeps_environment (P := fun d => Tracks S t trace d ∧ R d)
      (fun d d' h he => ⟨h.1.environment he, hstable d d' h.2 he⟩) ⟨ht, hR⟩ hd₁
  exact (andThen_ok _ _ _ _).mpr (hf d₁ r d₂ hkeep.1 hkeep.2 ho hcond)

/-- A call that only looks, whose answer nothing more is known of. -/
theorem ensures_look {c : Call} {α : Type} {f : Except IOError (Answer c) →
      Program Answer IOError α}
    {K : Except IOError α → List TailEvent × Disk → Prop}
    (ht : Tracks S t trace d) (hc : c.Looks)
    (hf : ∀ r trace d, Tracks S t trace d → (f r).wp (amid tailMachine env cond) K (trace, d)) :
    (attempt c >>= f).wp (amid tailMachine env cond) K (trace, d) := by
  apply ensures_call (R := fun _ => True) ht trivial (fun _ _ _ _ => trivial)
  intro d₁ r d₂ ht₁ _ ho _
  exact hf r _ _ (ht₁.looks hc ho)

/-- A script that gives up: it closes the file it opened, and the tailer is as before. -/
theorem ensures_discard {h : ℕ} {e : IOError} (hP : P t) (ht : Tracks S t trace d) :
    Ensures S P (do let _ ← discardFile h; return (t, some e)) trace d :=
  ensures_look ht trivial fun _ _ _ ht => ensures_return hP ht

/-- A file that has just been opened under the path: its handle is at the start, and it is known to
have `n` bytes. -/
def Fresh (S : Situation env cond) (trace : List TailEvent) (h n : ℕ) (d : Disk) : Prop :=
  ∃ i, d.Holds h i 0 ∧ n ≤ (d.text i).length ∧ S.Opened (View.of trace d) i

theorem Fresh.environment {h n : ℕ} (hf : Fresh S trace h n d) (he : env trace d d') :
    Fresh S trace h n d' := by
  obtain ⟨i, hh, hn, ho⟩ := hf
  have hlen := ((S.grows he).text i hh.2.1).length_le
  exact ⟨i, (S.grows he).holds hh, hn.trans hlen, S.environment_opened he ho⟩

/-- A call that only looks leaves the view as it is. -/
theorem Call.Looks.view {c : Call} {r : Except IOError (Answer c)} (hc : c.Looks)
    (ho : tailMachine.Outcome c d r d') (trace : List TailEvent) :
    View.of (⟨0, c, r, d, d'⟩ :: trace) d' = View.of trace d ∧ d'.text = d.text := by
  obtain ⟨hfiles, hpath, -⟩ := hc.outcome ho
  obtain ⟨-, -, hstart, hleft⟩ := hc.keeps trace d d' r
  exact ⟨by simp only [View.of, hstart, hleft, hfiles, hpath],
    by funext i; rw [Disk.text, Disk.text, hfiles]⟩

/-- A call that only looks keeps what a handle is at. -/
theorem Call.Looks.holds {c : Call} {r : Except IOError (Answer c)} {h i offset : ℕ}
    (hc : c.Looks) (ho : tailMachine.Outcome c d r d') (hh : d.Holds h i offset) :
    d'.Holds h i offset := by
  obtain ⟨hfiles, -, hhandles⟩ := hc.outcome ho
  obtain ⟨hh, hi, hlen⟩ := hh
  exact ⟨hhandles _ _ hh, by rw [hfiles]; exact hi, by rw [Disk.text, hfiles]; exact hlen⟩

/-- What `os.Open` has done when it succeeds. -/
theorem openPath_outcome {r : Except IOError ℕ} {h : ℕ} (ht : Tracks S t trace d)
    (ho : tailMachine.Outcome .open d r d') (hr : r = .ok h) :
    ∃ i, d.path = some i ∧ d'.Holds h i 0 := by
  subst hr
  rcases ho with ⟨hr, rfl⟩ | ⟨-, hr, -⟩
  · simp only [tailMachine, Call.exec, Disk.openPath] at hr ⊢
    cases hp : d.path with
    | none => rw [hp] at hr; cases hr
    | some i =>
      rw [hp] at hr
      obtain rfl : h = d.handles.length := by simpa using hr
      exact ⟨i, rfl, by simp, ht.path i hp, Nat.zero_le _⟩
  · cases hr

/-- What `f.Stat()` has returned when it succeeds. -/
theorem stat_outcome {h i offset : ℕ} {r : Except IOError FileInfo} {info : FileInfo}
    (hh : d.handles[h]? = some ⟨i, offset⟩) (ho : tailMachine.Outcome (.stat h) d r d')
    (hr : r = .ok info) : info = ⟨i, (d.text i).length⟩ ∧ d' = d := by
  subst hr
  rcases ho with ⟨hr, hd⟩ | ⟨-, hr, -⟩
  · have hs : Except.ok info = d.stat h := hr
    rw [Disk.stat, hh] at hs
    exact ⟨Except.ok.inj hs, hd⟩
  · cases hr

/-- What `os.Stat` has returned when it succeeds. -/
theorem statPath_outcome {r : Except IOError FileInfo} {info : FileInfo}
    (ho : tailMachine.Outcome .statPath d r d') (hr : r = .ok info) :
    d.path = some info.file ∧ d' = d := by
  subst hr
  rcases ho with ⟨hr, hd⟩ | ⟨-, hr, -⟩
  · have hs : Except.ok info = d.statPath := hr
    unfold Disk.statPath at hs
    cases hp : d.path with
    | none => rw [hp] at hs; cases hs
    | some i =>
      rw [hp] at hs
      cases hs
      exact ⟨rfl, hd⟩
  · cases hr

/-- A fresh file stays fresh under a call that only looks, and a `Stat` tells how long it is. -/
theorem Fresh.looks {c : Call} {r : Except IOError (Answer c)} {h n : ℕ}
    (hf : Fresh S trace h n d) (hc : c.Looks) (ho : tailMachine.Outcome c d r d') :
    Fresh S (⟨0, c, r, d, d'⟩ :: trace) h n d' := by
  obtain ⟨i, hh, hn, hop⟩ := hf
  obtain ⟨hview, htext⟩ := hc.view ho trace
  exact ⟨i, hc.holds ho hh, by rw [htext]; exact hn, by rw [hview]; exact hop⟩

theorem Fresh.stat {h n : ℕ} {info : FileInfo} (hf : Fresh S trace h n d)
    (ho : tailMachine.Outcome (.stat h) d (.ok info) d') :
    Fresh S (⟨0, .stat h, .ok info, d, d'⟩ :: trace) h info.size d' := by
  obtain ⟨i, hh, -, hop⟩ := hf
  obtain ⟨rfl, -⟩ := stat_outcome hh.1 ho rfl
  have hfresh : Fresh S trace h (d.text i).length d := ⟨i, hh, le_rfl, hop⟩
  exact hfresh.looks (c := .stat h) trivial ho

/-- A seek changes the offset of one handle. -/
theorem seek_outcome {h offset : ℕ} (ho : tailMachine.Outcome (.seek h offset) d (.ok ()) d') :
    d' = (d.seek h offset).2 := by
  rcases ho with ⟨-, hd⟩ | ⟨-, hr, -⟩
  · exact hd
  · cases hr

/-- The tailer after `open`, whose seek to `start` succeeded. -/
theorem Tracks.seek {h n start : ℕ} (ht : Tracks S t trace d) (hnone : t.file = none)
    (hf : Fresh S trace h n d) (hs : start ≤ n)
    (ho : tailMachine.Outcome (.seek h start) d (.ok ()) d') :
    Tracks S { t with
        file := some h
        initialized := true
        readOffset := start
        ackedOffset := start
        replaced := false
        missing := false
        resetPending := false }
      (⟨0, .seek h start, .ok (), d, d'⟩ :: trace) d' := by
  obtain rfl := seek_outcome ho
  obtain ⟨hdel, hpend, -⟩ := ht.closed hnone
  obtain ⟨i, ⟨hh, hi, -⟩, hn, hop⟩ := hf
  refine ⟨ht.path, rfl, ht.bounded, by simpa [attempted] using ht.chunks, by simp [hpend],
    fun hc => by simp at hc, ?_⟩
  intro f hf
  obtain rfl : h = f := Option.some.inj hf
  refine ⟨i, [], start, ⟨?_, hi, hs.trans hn⟩, ⟨le_rfl, ?_, ?_⟩, ?_⟩
  · simp [Disk.seek, hh]
  · simp [delivered, hdel]
  · -- nothing has been read
    have hlen : ((d.text i).take start).length ≤ start := by simp
    have hempty : ((d.text i).take start).drop start = [] := List.drop_eq_nil_of_le hlen
    show (delivered _).flatten ++ t.pending = [] ++ ((d.text i).take start).drop start
    rw [hempty, hpend]
    simp [delivered, hdel]
  · exact S.starts start hop

/-- `open` of a tailer that follows no file. -/
theorem Tailer.openFile_tracks (hnone : t.file = none) (ht : Tracks S t trace d) :
    Ensures S (fun _ => True) t.openFile trace d := by
  unfold Tailer.openFile
  apply ensures_call (R := fun _ => True) ht trivial (fun _ _ _ _ => trivial)
  intro d₁ r d₂ ht₁ _ ho _
  have ht₂ := ht₁.looks (c := .open) trivial ho
  cases r with
  | error e => exact ensures_return trivial ht₂
  | ok f =>
    obtain ⟨i, hp, hh⟩ := openPath_outcome ht₁ ho rfl
    have hfresh : Fresh S (⟨0, .open, .ok f, d₁, d₂⟩ :: trace) f 0 d₂ := by
      refine ⟨i, hh, Nat.zero_le _, S.opens ?_ ?_⟩
      · exact (ht₂.closed hnone).2.2
      · rw [← hp]
        exact (Call.Looks.outcome (c := .open) trivial ho).2.1
    apply ensures_call ht₂ hfresh (fun _ _ => Fresh.environment)
    intro d₃ r d₄ ht₃ hf₃ ho _
    have ht₄ := ht₃.looks (c := .stat f) trivial ho
    cases r with
    | error e => exact ensures_discard trivial ht₄
    | ok info =>
      apply ensures_call ht₄ (hf₃.stat ho) (fun _ _ => Fresh.environment)
      intro d₅ r d₆ ht₅ hf₅ ho _
      cases r with
      | error e => exact ensures_discard trivial (ht₅.failed (.inl ⟨_, _, rfl⟩) ho)
      | ok u =>
        refine ensures_return trivial (ht₅.seek hnone hf₅ ?_ ho)
        split_ifs
        · exact Nat.sub_le _ _
        · exact Nat.zero_le _

/-- What the tailer notes about the path and the clock keeps the invariant, if what it notes about a
replacement is possible. -/
theorem Tracks.notes {replaced missing : Bool} {since : ℤ} (ht : Tracks S t trace d)
    (hb : ∀ f i base start, t.file = some f → d.Holds f i t.readOffset →
      S.Base (View.of trace d) t.replaced i base start →
      S.Base (View.of trace d) replaced i base start) :
    Tracks S { t with missing := missing, replaced := replaced, pendingSince := since } trace d := by
  refine ⟨ht.path, ht.noReset, ht.bounded, ht.chunks, ht.offsets, ht.closed, ?_⟩
  intro f hf
  obtain ⟨i, base, start, hh, ha, hbase⟩ := ht.opened f hf
  exact ⟨i, base, start, hh, ⟨ha.started, ha.acked, ha.content⟩, hb f i base start hf hh hbase⟩

/-- `observePath`. The file is never found shorter than it was read, so that nothing is reset. -/
theorem Tailer.observePath_tracks {f : ℕ} (hf : t.file = some f) (ht : Tracks S t trace d) :
    Ensures S (fun t => t.file = some f) (t.observePath f) trace d := by
  unfold Tailer.observePath
  apply ensures_call (R := fun _ => True) ht trivial (fun _ _ _ _ => trivial)
  intro d₁ r d₂ ht₁ _ ho _
  have ht₂ := ht₁.looks (c := .stat f) trivial ho
  cases r with
  | error e => exact ensures_return hf ht₂
  | ok openInfo =>
    obtain ⟨i, base, start, hh, ha, hb⟩ := ht₁.opened f hf
    obtain ⟨rfl, hd⟩ := stat_outcome hh.1 ho rfl
    have hsize : ¬ (d₁.text i).length < t.readOffset := not_lt.mpr hh.2.2
    simp only [hsize, if_false]
    -- which file the handle is of does not change
    apply ensures_call (R := fun d => (d.handles[f]?).map Handle.file = some i) ht₂
    · rw [hd, hh.1]
      rfl
    · intro d d' hR he
      rw [(S.grows he).handles, hR]
    · intro d₃ r d₄ ht₃ hi ho _
      have ht₄ := ht₃.looks (c := .statPath) trivial ho
      cases r with
      | error e =>
        cases e with
        | notExist => exact ensures_return hf (ht₄.notes fun _ _ _ _ _ _ hb => hb)
        | canceled => exact ensures_return hf ht₄
        | other => exact ensures_return hf ht₄
      | ok pathInfo =>
        obtain ⟨hp, rfl⟩ := statPath_outcome ho rfl
        refine ensures_return hf (ht₄.notes fun g i' base start hg hh hb => ?_)
        obtain rfl : f = g := Option.some.inj (hf.symm.trans hg)
        obtain rfl : i' = i := by simpa [hh.1] using hi
        exact S.observes hb hp

/-- What a read that succeeds returns, and what it does to the handles. -/
theorem read_outcome {h n i offset : ℕ} {bytes : List UInt8}
    (hh : d.handles[h]? = some ⟨i, offset⟩)
    (ho : tailMachine.Outcome (.read h n) d (.ok bytes) d') :
    bytes = ((d.text i).drop offset).take n ∧
      d' = { d with handles := d.handles.set h ⟨i, offset + bytes.length⟩ } := by
  rcases ho with ⟨hr, hd⟩ | ⟨-, hr, -⟩
  · simp only [tailMachine, Call.exec, Disk.read, hh] at hr hd
    cases hr
    exact ⟨rfl, hd⟩
  · cases hr

/-- The tailer after a read: what it holds goes on with what follows the read offset. -/
theorem Tracks.read {f n : ℕ} {bytes : List UInt8} (ht : Tracks S t trace d)
    (since : ℤ) (hf : t.file = some f) (hn : n ≤ maxChunkSize - t.pending.length)
    (ho : tailMachine.Outcome (.read f n) d (.ok bytes) d') :
    Tracks S { t with
        pendingSince := since
        pending := t.pending ++ bytes
        readOffset := t.readOffset + bytes.length }
      (⟨0, .read f n, .ok bytes, d, d'⟩ :: trace) d' := by
  obtain ⟨i, base, start, ⟨hh, hi, hlen⟩, ha, hb⟩ := ht.opened f hf
  obtain ⟨hbytes, rfl⟩ := read_outcome hh ho
  have hlt : f < d.handles.length := (List.getElem?_eq_some_iff.mp hh).1
  have hroom : bytes.length ≤ n := hbytes ▸ List.length_take_le _ _
  have hsize : bytes.length ≤ (d.text i).length - t.readOffset := by
    have := List.length_take_le' n ((d.text i).drop t.readOffset)
    rwa [← hbytes, List.length_drop] at this
  have hbounded := ht.bounded
  have hoffsets := ht.offsets
  -- the file up to the new read offset is the file up to the old one, and then what was read
  have htake : (d.text i).take (t.readOffset + bytes.length) =
      (d.text i).take t.readOffset ++ bytes := by
    have hprefix : bytes <+: (d.text i).drop t.readOffset := hbytes ▸ List.take_prefix _ _
    rw [List.take_add, ← List.prefix_iff_eq_take.mp hprefix]
  refine ⟨ht.path, ht.noReset, ?_, ?_, ?_, ?_, ?_⟩
  · simp only [List.length_append]
    omega
  · have hatt (d' : Disk) :
        attempted (⟨0, .read f n, .ok bytes, d, d'⟩ :: trace) = attempted trace :=
      List.append_nil _
    rw [hatt]
    exact ht.chunks
  · simp only [List.length_append]
    omega
  · intro hnone
    rw [show t.file = none from hnone] at hf
    cases hf
  · intro g hg
    obtain rfl : f = g := Option.some.inj (hf.symm.trans hg)
    have hdel (d' : Disk) :
        delivered (⟨0, .read f n, .ok bytes, d, d'⟩ :: trace) = delivered trace :=
      List.append_nil _
    refine ⟨i, base, start, ⟨?_, hi, ?_⟩, ⟨ha.started, ?_, ?_⟩, hb⟩
    · exact List.getElem?_set_self hlt
    · show t.readOffset + bytes.length ≤ (d.text i).length
      omega
    · rw [hdel]
      exact ha.acked
    · have hstart : start ≤ ((d.text i).take t.readOffset).length := by
        have := ha.started
        rw [List.length_take]
        omega
      show (delivered _).flatten ++ (t.pending ++ bytes) =
        base ++ ((d.text i).take (t.readOffset + bytes.length)).drop start
      rw [hdel, htake, List.drop_append_of_le_length hstart, ← List.append_assoc, ha.content,
        List.append_assoc]

/-- The read part of `step`. -/
theorem Tailer.fill_tracks {f : ℕ} {now : ℤ} (hf : t.file = some f) (ht : Tracks S t trace d) :
    Ensures S (fun t => t.file = some f) (t.fill f now) trace d := by
  unfold Tailer.fill
  apply ensures_call (R := fun _ => True) ht trivial (fun _ _ _ _ => trivial)
  intro d₁ r d₂ ht₁ _ ho _
  cases r with
  | error e => exact ensures_return hf (ht₁.failed (.inr ⟨_, _, rfl⟩) ho)
  | ok bytes =>
    by_cases hempty : bytes.length = 0
    · -- the end of the file: at most the age of the batch changes
      obtain rfl := List.eq_nil_of_length_eq_zero hempty
      have hread (since : ℤ) := ht₁.read since hf le_rfl ho
      simp only [List.append_nil, List.length_nil, Nat.add_zero] at hread
      simp only [List.length_nil, if_true]
      split_ifs
      · exact ensures_return hf (hread _)
      · exact ensures_return hf (hread t.pendingSince)
    · simp only [hempty, if_false]
      exact ensures_return hf (ht₁.read _ hf le_rfl ho)

/-- `flush`: a batch that is accepted moves from what is held to what is delivered. -/
theorem Tailer.flush_tracks {f : ℕ} (hf : t.file = some f) (ht : Tracks S t trace d) :
    Ensures S (fun t => t.file = some f) t.flush trace d := by
  unfold Tailer.flush
  split_ifs with hempty
  · exact ensures_return hf ht
  apply ensures_call (R := fun _ => True) ht trivial (fun _ _ _ _ => trivial)
  intro d₁ r d₂ ht₁ _ ho _
  have hd : d₂ = d₁ := by
    rcases ho with ⟨-, hd⟩ | ⟨-, -, hd⟩
    · exact hd
    · exact hd
  subst hd
  have hatt : ∀ c ∈ attempted (⟨0, .upload t.pending, r, d₂, d₂⟩ :: trace),
      c.length ≤ maxChunkSize := by
    intro c hc
    rcases List.mem_append.mp hc with hc | hc
    · exact ht₁.chunks c hc
    · rw [List.mem_singleton.mp hc]
      exact ht₁.bounded
  cases r with
  | error e =>
    have hdel : delivered (⟨0, .upload t.pending, .error e, d₂, d₂⟩ :: trace) = delivered trace :=
      List.append_nil _
    refine ensures_return hf ⟨ht₁.path, ht₁.noReset, ht₁.bounded, hatt, ht₁.offsets,
      by rw [hdel]; exact ht₁.closed, ?_⟩
    intro g hg
    obtain ⟨i, base, start, hh, ha, hb⟩ := ht₁.opened g hg
    exact ⟨i, base, start, hh,
      ⟨ha.started, by rw [hdel]; exact ha.acked, by rw [hdel]; exact ha.content⟩, hb⟩
  | ok u =>
    have hdel : delivered (⟨0, .upload t.pending, .ok u, d₂, d₂⟩ :: trace) =
        delivered trace ++ [t.pending] := rfl
    have hoffsets := ht₁.offsets
    refine ensures_return hf ⟨ht₁.path, ht₁.noReset, Nat.zero_le _, hatt, hoffsets, ?_, ?_⟩
    · intro hnone
      rw [show t.file = none from hnone] at hf
      cases hf
    · intro g hg
      obtain ⟨i, base, start, hh, ha, hb⟩ := ht₁.opened g hg
      have hstarted := ha.started
      have hacked := ha.acked
      refine ⟨i, base, start, hh, ⟨?_, ?_, ?_⟩, hb⟩
      · show start ≤ t.ackedOffset + t.pending.length
        omega
      · show (delivered _).flatten.length + start =
          base.length + (t.ackedOffset + t.pending.length)
        rw [hdel, List.flatten_append, List.length_append, List.flatten_singleton]
        omega
      · show (delivered _).flatten ++ [] = _
        rw [hdel, List.flatten_append, List.flatten_singleton, List.append_nil, ha.content]

/-- A replacement that has just been opened. -/
def Replacing (S : Situation env cond) (t : Tailer) (trace : List TailEvent) (old h : ℕ)
    (d : Disk) : Prop :=
  ∃ i j base start, d.Holds h j 0 ∧ d.Holds old i t.readOffset ∧
    t.Accounts trace (d.text i) base start ∧ S.Base (View.of trace d) true i base start ∧
    S.Next (View.of trace d) i j

theorem Replacing.environment {old h : ℕ} (hr : Replacing S t trace old h d)
    (he : env trace d d') : Replacing S t trace old h d' := by
  obtain ⟨i, j, base, start, hnew, hold, ha, hb, hn⟩ := hr
  have hg := S.grows he
  exact ⟨i, j, base, start, hg.holds hnew, hg.holds hold, ha.grows hg hold.2.1 hold.2.2,
    S.environment_base he hb, S.environment_next he hn⟩

theorem Replacing.looks {c : Call} {r : Except IOError (Answer c)} {old h : ℕ}
    (hr : Replacing S t trace old h d) (hc : c.Looks) (ho : tailMachine.Outcome c d r d') :
    Replacing S t (⟨0, c, r, d, d'⟩ :: trace) old h d' := by
  obtain ⟨i, j, base, start, hnew, hold, ha, hb, hn⟩ := hr
  obtain ⟨hview, htext⟩ := hc.view ho trace
  obtain ⟨-, hdel, -, -⟩ := hc.keeps trace d d' r
  refine ⟨i, j, base, start, hc.holds ho hnew, hc.holds ho hold,
    ⟨ha.started, by rw [hdel]; exact ha.acked, by rw [hdel, htext]; exact ha.content⟩, ?_, ?_⟩
  · rw [hview]
    exact hb
  · rw [hview]
    exact hn

/-- The tailer after the old file is closed: everything from it is delivered. -/
theorem Tracks.close {old h : ℕ} {r : Except IOError Unit} (ht : Tracks S t trace d)
    (hpending : t.pending = []) (hr : Replacing S t trace old h d)
    (ho : tailMachine.Outcome (.close old) d r d') (hc : cond trace ⟨0, .close old, r, d, d'⟩) :
    Tracks S { t with
        file := some h
        readOffset := 0
        ackedOffset := 0
        replaced := false
        missing := false
        resetPending := false }
      (⟨0, .close old, r, d, d'⟩ :: trace) d' := by
  obtain rfl : d' = d := by
    rcases ho with ⟨-, hd⟩ | ⟨-, -, hd⟩
    · exact hd
    · exact hd
  obtain ⟨i, j, base, start, hnew, hold, ha, hb, hn⟩ := hr
  have hatt : attempted (⟨0, .close old, r, d', d'⟩ :: trace) = attempted trace :=
    List.append_nil _
  have hdel : delivered (⟨0, .close old, r, d', d'⟩ :: trace) = delivered trace :=
    List.append_nil _
  have hleft : filesLeft (⟨0, .close old, r, d', d'⟩ :: trace) = i :: filesLeft trace := by
    simp [filesLeft, hold.1]
  refine ⟨ht.path, rfl, ht.bounded, by rw [hatt]; exact ht.chunks, by simp [hpending],
    fun hnone => by simp at hnone, ?_⟩
  intro g hg
  obtain rfl : h = g := Option.some.inj hg
  have hcontent := ha.content
  rw [hpending, List.append_nil] at hcontent
  refine ⟨j, base ++ ((d'.text i).take t.readOffset).drop start, 0, hnew, ⟨le_rfl, ?_, ?_⟩, ?_⟩
  · rw [hdel, hcontent]
  · show (delivered _).flatten ++ t.pending = _ ++ ((d'.text j).take 0).drop 0
    rw [hdel, hcontent, hpending]
    simp
  · have hbase := S.switches hb hn hold.1 hold.2.2 hc
    show S.Base ⟨startOffset trace, filesLeft (⟨0, .close old, r, d', d'⟩ :: trace), d'.files,
      d'.path⟩ false j _ 0
    rw [hleft]
    exact hbase

/-- `switchToReplacement`, with everything from the old file delivered. -/
theorem Tailer.switchToReplacement_tracks {old : ℕ} (hf : t.file = some old)
    (hpending : t.pending = []) (hreplaced : t.replaced = true) (ht : Tracks S t trace d) :
    Ensures S (fun _ => True) (t.switchToReplacement old) trace d := by
  unfold Tailer.switchToReplacement
  apply ensures_call (R := fun _ => True) ht trivial (fun _ _ _ _ => trivial)
  intro d₁ r d₂ ht₁ _ ho _
  have ht₂ := ht₁.looks (c := .open) trivial ho
  cases r with
  | error e => exact ensures_return trivial ht₂
  | ok f =>
    obtain ⟨j, hp, hnew⟩ := openPath_outcome ht₁ ho rfl
    obtain ⟨i, base, start, hh, ha, hb⟩ := ht₂.opened old hf
    rw [hreplaced] at hb
    have hp₂ : d₂.path = some j := by
      rw [← hp]
      exact (Call.Looks.outcome (c := .open) trivial ho).2.1
    have hrep : Replacing S t (⟨0, .open, .ok f, d₁, d₂⟩ :: trace) old f d₂ :=
      ⟨i, j, base, start, hnew, hh, ha, hb, S.replaces hb hp₂⟩
    apply ensures_call ht₂ hrep (fun _ _ => Replacing.environment)
    intro d₃ r d₄ ht₃ hr₃ ho _
    have ht₄ := ht₃.looks (c := .stat f) trivial ho
    cases r with
    | error e => exact ensures_discard trivial ht₄
    | ok info =>
      apply ensures_call ht₄ (hr₃.looks (c := .stat f) trivial ho)
        (fun _ _ => Replacing.environment)
      intro d₅ r d₆ ht₅ hr₅ ho hcond
      have ht₆ := ht₅.close hpending hr₅ ho hcond
      cases r with
      | error e => exact ensures_return trivial ht₆
      | ok u => exact ensures_return trivial ht₆

/-- What `step` does with the open file. -/
theorem Tailer.follow_tracks {f : ℕ} {now : ℤ} (hf : t.file = some f) (ht : Tracks S t trace d) :
    Ensures S (fun _ => True) (t.follow f now) trace d := by
  unfold Tailer.follow
  have hany : ∀ t : Tailer, t.file = some f → True := fun _ _ => trivial
  apply ensures_unlessError (t.observePath_tracks hf ht) hany
  intro t trace d hf ht
  refine ensures_unlessError (P := fun t => t.file = some f) ?_ hany ?_
  · -- nothing is ever reset
    rw [ht.noReset]
    exact ensures_return hf ht
  intro t trace d hf ht
  refine ensures_unlessError (P := fun t => t.file = some f) ?_ hany ?_
  · split_ifs
    · exact t.fill_tracks hf ht
    · exact ensures_return hf ht
  intro t trace d hf ht
  refine ensures_unlessError (P := fun t => t.file = some f) ?_ hany ?_
  · split_ifs
    · exact t.flush_tracks hf ht
    · exact ensures_return hf ht
  intro t trace d hf ht
  split_ifs with hswitch
  · rw [Bool.and_eq_true, decide_eq_true_eq] at hswitch
    exact t.switchToReplacement_tracks hf (List.eq_nil_of_length_eq_zero hswitch.1) hswitch.2 ht
  · exact ensures_return trivial ht

/-- Every step keeps the invariant. -/
theorem Tailer.step_tracks (now : ℤ) (cancelled : Bool) (ht : Tracks S t trace d) :
    Ensures S (fun _ => True) (t.step now cancelled) trace d := by
  unfold Tailer.step
  split_ifs with hc hnone
  · exact ensures_return trivial ht
  all_goals
    refine ensures_unlessError (P := fun _ => True) ?_ (fun _ h => h) ?_
  · exact t.openFile_tracks (by simpa using hnone) ht
  rotate_left
  · exact ensures_return trivial ht
  all_goals
    -- the file is open, or the attempt to open it has failed
    intro t trace d _ ht
    cases hf : t.file with
    | none => exact ensures_return trivial ht
    | some f => exact t.follow_tracks hf ht

/-- A new tailer, with nothing delivered. -/
theorem Tracks.init (hpath : ∀ i, d.path = some i → i < d.files.length)
    (hidle : S.Idle (View.of [] d)) : Tracks S newTailer [] d where
  path := hpath
  noReset := rfl
  bounded := Nat.zero_le _
  chunks c hc := by cases hc
  offsets := rfl
  closed _ := ⟨rfl, rfl, hidle⟩
  opened f hf := by cases hf

/-- A run in the situation has the invariant whenever it is between two rounds. -/
theorem Tracks.of_works (S : Situation env cond) {d₀ : Disk}
    (hpath : ∀ i, d₀.path = some i → i < d₀.files.length) (hidle : S.Idle (View.of [] d₀)) {r : Except IOError Tailer}
    (hr : Works tailMachine Round.prog env cond newTailer d₀ ⟨.ret r, d, trace⟩) :
    ∃ t, r = .ok t ∧ Tracks S t trace d := by
  refine Works.idle (I := Tracks S) (.init hpath hidle) (fun _ _ _ _ => Tracks.environment) ?_ hr
  intro o t trace d ht
  unfold Round.prog
  refine wp_bind_of amid_monotone (t.step_tracks o.now o.cancelled ht) ?_ ?_
  · rintro ⟨t', err⟩ x ⟨t'', err', h, -, ht'⟩
    cases h
    exact (wp_pure _ _ _).mpr ⟨t', rfl, ht'⟩
  · rintro e x ⟨t', err', h, -⟩
    cases h

end Tracks

end Mastermind.LogTail
