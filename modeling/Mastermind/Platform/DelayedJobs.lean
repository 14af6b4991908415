import Mathlib

/-!
# Delayed jobs

A queue of jobs that are known by their ids, each with the moment from which a worker may take it.
A job stays under its id when it is finished, so that an id which has had a job is not given a
second one: `add` does nothing there. `remove` takes a job out, whatever became of it, unless a worker is
on it. A job that a worker is on carries what the worker noted when it took it.
-/

namespace Mastermind

namespace DelayedJobs

variable {κ ρ : Type}

/-- What has become of a job. -/
inductive Phase (ρ : Type) where
  | waiting
  | active (note : ρ)
  | finished

/-- A job. -/
structure Job (ρ : Type) where
  due : ℕ
  phase : Phase ρ

end DelayedJobs

/-- The jobs of a queue by their ids. -/
abbrev DelayedJobs (κ ρ : Type) := κ → Option (DelayedJobs.Job ρ)

namespace DelayedJobs

variable {κ ρ : Type} [DecidableEq κ]

/-- Adds a job, unless there is one with its id. -/
def add (q : DelayedJobs κ ρ) (k : κ) (due : ℕ) : DelayedJobs κ ρ :=
  if (q k).isSome then q else Function.update q k (some ⟨due, .waiting⟩)

/-- Removes a job. Nothing changes if a worker is on it. -/
def remove (q : DelayedJobs κ ρ) (k : κ) : DelayedJobs κ ρ :=
  match q k with
  | some ⟨_, .active _⟩ => q
  | _ => Function.update q k none

/-- A worker takes a job that is due. -/
def take (q : DelayedJobs κ ρ) (k : κ) (now : ℕ) (note : ρ) : DelayedJobs κ ρ :=
  match q k with
  | some ⟨due, .waiting⟩ => if due ≤ now then Function.update q k (some ⟨due, .active note⟩) else q
  | _ => q

/-- A worker is done with a job. -/
def finish (q : DelayedJobs κ ρ) (k : κ) : DelayedJobs κ ρ :=
  match q k with
  | some ⟨due, .active _⟩ => Function.update q k (some ⟨due, .finished⟩)
  | _ => q

/-- A job waits. -/
def Waiting (q : DelayedJobs κ ρ) (k : κ) : Prop := ∃ due, q k = some ⟨due, .waiting⟩

/-- A worker is on a job, and has noted `note`. -/
def Active (q : DelayedJobs κ ρ) (k : κ) (note : ρ) : Prop := ∃ due, q k = some ⟨due, .active note⟩

/-- A worker has taken a job. -/
def Begun (q : DelayedJobs κ ρ) (k : κ) : Prop := ∃ job, q k = some job ∧ job.phase ≠ .waiting

variable {q : DelayedJobs κ ρ} {k k' : κ} {due now : ℕ} {note note' : ρ}

omit [DecidableEq κ] in
theorem Active.begun (h : Active q k note) : Begun q k := by
  obtain ⟨due, hdue⟩ := h
  exact ⟨_, hdue, nofun⟩

omit [DecidableEq κ] in
theorem Waiting.not_begun (h : Waiting q k) : ¬Begun q k := by
  obtain ⟨due, hdue⟩ := h
  rintro ⟨job, hjob, hphase⟩
  rw [hdue] at hjob
  exact hphase (Option.some.inj hjob ▸ rfl)

omit [DecidableEq κ] in
theorem Active.note_eq (h : Active q k note) (h' : Active q k note') : note = note' := by
  obtain ⟨due, hdue⟩ := h
  obtain ⟨due', hdue'⟩ := h'
  rw [hdue] at hdue'
  cases hdue'
  rfl

/-! What each operation does to the job that it names. -/

/-- A removed job is gone, or a worker is on it. -/
theorem remove_cases (q : DelayedJobs κ ρ) (k : κ) :
    (∃ note, Active q k note ∧ remove q k = q) ∨ remove q k = Function.update q k none := by
  unfold remove
  rcases hjob : q k with _ | ⟨due, _ | note | _⟩
  · exact .inr rfl
  · exact .inr rfl
  · exact .inl ⟨note, ⟨due, hjob⟩, rfl⟩
  · exact .inr rfl

theorem take_cases (q : DelayedJobs κ ρ) (k : κ) (now : ℕ) (note : ρ) :
    take q k now note = q ∨ ∃ due, q k = some ⟨due, .waiting⟩ ∧ due ≤ now ∧
      take q k now note = Function.update q k (some ⟨due, .active note⟩) := by
  unfold take
  rcases q k with _ | ⟨due, _ | _ | _⟩
  · exact .inl rfl
  · dsimp only
    split_ifs with hdue
    · exact .inr ⟨due, rfl, hdue, rfl⟩
    · exact .inl rfl
  · exact .inl rfl
  · exact .inl rfl

theorem finish_cases (q : DelayedJobs κ ρ) (k : κ) :
    finish q k = q ∨ ∃ due note, q k = some ⟨due, .active note⟩ ∧
      finish q k = Function.update q k (some ⟨due, .finished⟩) := by
  unfold finish
  rcases q k with _ | ⟨due, _ | note | _⟩
  · exact .inl rfl
  · exact .inl rfl
  · exact .inr ⟨due, note, rfl, rfl⟩
  · exact .inl rfl

/-! Other ids than the one that an operation names keep their jobs. -/

theorem add_of_ne (h : k ≠ k') : add q k' due k = q k := by
  unfold add
  split_ifs
  · rfl
  · exact Function.update_of_ne h _ _

theorem remove_of_ne (h : k ≠ k') : remove q k' k = q k := by
  rcases remove_cases q k' with ⟨-, -, heq⟩ | heq
  · rw [heq]
  · rw [heq, Function.update_of_ne h]

theorem take_of_ne (h : k ≠ k') : take q k' now note k = q k := by
  rcases take_cases q k' now note with heq | ⟨_, _, _, heq⟩
  · rw [heq]
  · rw [heq, Function.update_of_ne h]

theorem finish_of_ne (h : k ≠ k') : finish q k' k = q k := by
  rcases finish_cases q k' with heq | ⟨_, _, _, heq⟩
  · rw [heq]
  · rw [heq, Function.update_of_ne h]

/-- A job that is there stays as it is when one is added. -/
theorem add_of_some {job : Job ρ} (h : q k = some job) : add q k' due k = some job := by
  by_cases hk : k = k'
  · subst hk
    unfold add
    rw [if_pos (by rw [h]; rfl), h]
  · rw [add_of_ne hk, h]

/-- What is under an id after an addition was there, or it waits. -/
theorem of_add {job : Job ρ} (h : add q k' due k = some job) :
    q k = some job ∨ k = k' ∧ job = ⟨due, .waiting⟩ := by
  by_cases hk : k = k'
  · subst hk
    unfold add at h
    split_ifs at h
    · exact .inl h
    · rw [Function.update_self] at h
      exact .inr ⟨rfl, (Option.some.inj h).symm⟩
  · exact .inl (by rwa [add_of_ne hk] at h)

theorem Waiting.add (h : Waiting q k) : Waiting (add q k' due) k := by
  obtain ⟨due', hdue⟩ := h
  exact ⟨due', add_of_some hdue⟩

theorem Active.add (h : Active q k note) : Active (add q k' due) k note := by
  obtain ⟨due', hdue⟩ := h
  exact ⟨due', add_of_some hdue⟩

/-- A job that was added waits, unless one with its id had begun. -/
theorem waiting_add_self (h : ¬Begun q k) : Waiting (add q k due) k := by
  unfold DelayedJobs.add
  split_ifs with hsome
  · obtain ⟨⟨due', phase⟩, hjob⟩ := Option.isSome_iff_exists.mp hsome
    cases phase with
    | waiting => exact ⟨due', hjob⟩
    | active note => exact absurd ⟨_, hjob, nofun⟩ h
    | finished => exact absurd ⟨_, hjob, nofun⟩ h
  · exact ⟨due, Function.update_self _ _ _⟩

theorem begun_of_add (h : Begun (add q k' due) k) : Begun q k := by
  obtain ⟨job, hjob, hphase⟩ := h
  rcases of_add hjob with hjob | ⟨-, rfl⟩
  · exact ⟨job, hjob, hphase⟩
  · exact absurd rfl hphase

theorem active_of_add (h : Active (add q k' due) k note) : Active q k note := by
  obtain ⟨due', hjob⟩ := h
  rcases of_add hjob with hjob | ⟨-, hnot⟩
  · exact ⟨due', hjob⟩
  · cases hnot

/-- What is under an id after a removal was there. -/
theorem of_remove {job : Job ρ} (h : remove q k' k = some job) : q k = some job := by
  by_cases hk : k = k'
  · subst hk
    rcases remove_cases q k with ⟨-, -, heq⟩ | heq
    · rwa [heq] at h
    · rw [heq, Function.update_self] at h
      cases h
  · rwa [remove_of_ne hk] at h

theorem begun_of_remove (h : Begun (remove q k') k) : Begun q k := by
  obtain ⟨job, hjob, hphase⟩ := h
  exact ⟨job, of_remove hjob, hphase⟩

theorem active_of_remove (h : Active (remove q k') k note) : Active q k note := by
  obtain ⟨due', hjob⟩ := h
  exact ⟨due', of_remove hjob⟩

/-- A job that was removed and added again waits, unless a worker is on it. -/
theorem waiting_add_remove (h : ∀ note, ¬Active q k note) : Waiting (add (remove q k) k due) k := by
  rcases remove_cases q k with ⟨note, hactive, -⟩ | heq
  · exact absurd hactive (h note)
  · refine waiting_add_self ?_
    rintro ⟨job, hjob, -⟩
    rw [heq, Function.update_self] at hjob
    cases hjob

theorem Active.remove (h : Active q k note) : Active (remove q k') k note := by
  by_cases hk : k = k'
  · subst hk
    rcases remove_cases q k with ⟨-, -, heq⟩ | heq
    · rwa [heq]
    · obtain ⟨due, hdue⟩ := h
      unfold DelayedJobs.remove at heq
      rw [hdue] at heq
      exact ⟨due, by unfold DelayedJobs.remove; rw [hdue]; exact hdue⟩
  · obtain ⟨due, hdue⟩ := h
    exact ⟨due, by rwa [remove_of_ne hk]⟩

/-- What is under an id after a worker took a job. -/
theorem of_take {job : Job ρ} (h : take q k' now note k = some job) :
    q k = some job ∨
      k = k' ∧ ∃ due, q k = some ⟨due, .waiting⟩ ∧ due ≤ now ∧ job = ⟨due, .active note⟩ := by
  rcases take_cases q k' now note with heq | ⟨due, hjob, hdue, heq⟩
  · exact .inl (by rwa [heq] at h)
  · by_cases hk : k = k'
    · subst hk
      rw [heq, Function.update_self] at h
      exact .inr ⟨rfl, due, hjob, hdue, (Option.some.inj h).symm⟩
    · exact .inl (by rwa [take_of_ne hk] at h)

/-- A job that waited still does, or the worker that took it is on it. -/
theorem Waiting.take (h : Waiting q k) :
    Waiting (take q k' now note) k ∨ k = k' ∧ Active (take q k' now note) k note := by
  rcases take_cases q k' now note with heq | ⟨due, -, -, heq⟩
  · exact .inl (by rwa [heq])
  · by_cases hk : k = k'
    · subst hk
      exact .inr ⟨rfl, due, by rw [heq, Function.update_self]⟩
    · obtain ⟨due', hdue⟩ := h
      exact .inl ⟨due', by rwa [take_of_ne hk]⟩

theorem Active.take (h : Active q k note) : Active (take q k' now note') k note := by
  obtain ⟨due, hdue⟩ := h
  rcases take_cases q k' now note' with heq | ⟨due', hjob, -, -⟩
  · exact ⟨due, by rwa [heq]⟩
  · have hk : k ≠ k' := by
      rintro rfl
      rw [hdue] at hjob
      cases hjob
    exact ⟨due, by rwa [take_of_ne hk]⟩

/-- What is under an id after a worker was done with a job. -/
theorem of_finish {job : Job ρ} (h : finish q k' k = some job) :
    q k = some job ∨ k = k' ∧ Begun q k ∧ job.phase = .finished := by
  rcases finish_cases q k' with heq | ⟨due, note, hjob, heq⟩
  · exact .inl (by rwa [heq] at h)
  · by_cases hk : k = k'
    · subst hk
      rw [heq, Function.update_self] at h
      exact .inr ⟨rfl, ⟨_, hjob, nofun⟩, Option.some.inj h ▸ rfl⟩
    · exact .inl (by rwa [finish_of_ne hk] at h)

/-- A job keeps its moment. -/
theorem due_of_finish {job : Job ρ} (h : finish q k' k = some job) :
    ∃ job', q k = some job' ∧ job'.due = job.due := by
  rcases finish_cases q k' with heq | ⟨due, note, hjob, heq⟩
  · exact ⟨job, by rwa [heq] at h, rfl⟩
  · by_cases hk : k = k'
    · subst hk
      rw [heq, Function.update_self] at h
      exact ⟨_, hjob, Option.some.inj h ▸ rfl⟩
    · exact ⟨job, by rwa [finish_of_ne hk] at h, rfl⟩

theorem begun_of_finish (h : Begun (finish q k') k) : Begun q k := by
  obtain ⟨job, hjob, hphase⟩ := h
  rcases of_finish hjob with hjob | ⟨-, hbegun, -⟩
  · exact ⟨job, hjob, hphase⟩
  · exact hbegun

theorem active_of_finish (h : Active (finish q k') k note) : Active q k note := by
  obtain ⟨due, hjob⟩ := h
  rcases of_finish hjob with hjob | ⟨-, -, hphase⟩
  · exact ⟨due, hjob⟩
  · cases hphase

theorem Waiting.finish (h : Waiting q k) : Waiting (finish q k') k := by
  rcases finish_cases q k' with heq | ⟨due, note, hjob, -⟩
  · rwa [heq]
  · have hk : k ≠ k' := by
      rintro rfl
      exact h.not_begun ⟨_, hjob, nofun⟩
    obtain ⟨due', hdue⟩ := h
    exact ⟨due', by rwa [finish_of_ne hk]⟩

theorem Active.finish_of_ne (h : Active q k note) (hk : k ≠ k') : Active (finish q k') k note := by
  obtain ⟨due, hdue⟩ := h
  exact ⟨due, by rwa [DelayedJobs.finish_of_ne hk]⟩

end DelayedJobs

end Mastermind
