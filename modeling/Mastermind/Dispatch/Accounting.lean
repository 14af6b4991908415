import Mastermind.Effect.Ledger
import Mastermind.Dispatch.Integrity
import Mastermind.Dispatch.RunRules
import Mastermind.Dispatch.ScheduleRules

/-!
# The counters of batches

A batch's five counters should say how many of its runs have each status. They are not counted but
booked: an operation first moves runs and then adds increments to the batch, or, when it creates a
batch, books the runs before it creates them. `Accounts db d` is the invariant of the states in
between: the counters are right up to the debts `d`, which the operation has still to settle. Each
update of the stores moves the debts by entries (`Accounts.updateJobRun`,
`Accounts.updateJobBatch`), and an operation keeps `Accounts · 0` if its entries cancel.

Those of the stale sweep and of a host's removal do not: they move runs and book nothing. So the
counters are right after any complete operations among which no sweep releases and no removal
deletes a run of a batch (`Op.Accounted`, `counters_eq_tally`).
-/

namespace Mastermind

open Effect Effect.Program

/-- The batch and the status of a run, if its job belongs to a batch. -/
def Database.runClass (db : Database) (r : JobRun) : Option (Id × JobRunStatus) :=
  (db.batchOf r).map fun b => (b, r.status)

/-- How many runs each batch has in each status. -/
def Database.ledger (db : Database) : Ledger (Id × JobRunStatus) := db.jobRuns.tally db.runClass

/-- The ledger is the tally. -/
theorem Database.ledger_apply (db : Database) (b : Id) (st : JobRunStatus) :
    db.ledger (b, st) = db.tally b st := by
  refine congrArg Nat.cast (Table.count_congr fun r _ => ?_)
  unfold runClass
  cases db.batchOf r with
  | none => rfl
  | some b' =>
    rw [Bool.eq_iff_iff]
    simp

/-- The increment of a batch's update for the runs in a status. -/
def BatchPatch.increment (p : BatchPatch) : JobRunStatus → ℤ
  | .pending => p.pendingCount
  | .running => p.runningCount
  | .success => p.successCount
  | .failed => p.failedCount
  | .cancelled => p.cancelledCount

/-- The increments that an update of the batch `b` books. -/
def BatchPatch.booking (p : BatchPatch) (b : Id) : Ledger (Id × JobRunStatus) :=
  fun k => if k.1 = b then p.increment k.2 else 0

/-- The five counters of a batch. -/
def JobBatch.sum (b : JobBatch) : ℤ :=
  b.pendingCount + b.runningCount + b.successCount + b.failedCount + b.cancelledCount

/-- The counters of every batch are the numbers of its runs in each status, but for the debts `d`,
and they sum to its total. The jobs of batches have the types that batches give them. -/
structure Accounts (db : Database) (d : Ledger (Id × JobRunStatus)) : Prop where
  integrity : Integrity db
  counter : ∀ b ∈ db.jobBatches.rows, ∀ st, b.counter st + d (b.id, st) = db.ledger (b.id, st)
  total : ∀ b ∈ db.jobBatches.rows, b.totalCount = b.sum
  batchType : ∀ j ∈ db.jobs.rows, j.batchId.isSome = true → ∃ t : BatchType, j.type = t.jobType

namespace Accounts

variable {env : Env} {may : Stmt → World → Prop} {w : World} {d : Ledger (Id × JobRunStatus)}

/-- The invariant looks at the jobs, the runs and the batches. -/
theorem congr {db db' : Database} (h : Accounts db d) (hi : Integrity db')
    (hj : db'.jobs = db.jobs) (hr : db'.jobRuns = db.jobRuns)
    (hb : db'.jobBatches = db.jobBatches) : Accounts db' d := by
  have hclass : db'.runClass = db.runClass := by
    funext r
    unfold Database.runClass Database.batchOf
    rw [hj]
  have hledger : db'.ledger = db.ledger := by
    unfold Database.ledger
    rw [hr, hclass]
  refine ⟨hi, ?_, ?_, ?_⟩
  · rw [hb, hledger]
    exact h.counter
  · rw [hb]
    exact h.total
  · rw [hj]
    exact h.batchType

/-- The invariant does not look at the rest of the stores. -/
theorem frame {db db' : Database} (h : Accounts db d) (hh : db'.hosts = db.hosts)
    (hs : db'.serverInstances = db.serverInstances) (hj : db'.jobs = db.jobs)
    (hr : db'.jobRuns = db.jobRuns) (hb : db'.jobBatches = db.jobBatches) : Accounts db' d :=
  h.congr (h.integrity.congr hh hs hj hr hb) hj hr hb

section Jobs

/-- A new job has no runs yet. -/
theorem insertJob (h : Accounts w.db d) {data : JobData}
    (hd : w.db.refersToRecords data = true)
    (ht : data.batchId.isSome = true → ∃ t : BatchType, data.type = t.jobType) :
    Accounts (w.insertJob data).db d := by
  have hledger : (w.insertJob data).db.ledger = w.db.ledger := by
    refine Table.tally_congr fun r hr => ?_
    obtain ⟨j, hj⟩ := h.integrity.jobOfRun r hr
    unfold Database.runClass Database.batchOf
    rw [World.get_insertJob hj, hj]
  refine ⟨h.integrity.insertJob hd, fun b hb st => ?_, h.total, fun j hj hbatch => ?_⟩
  · rw [hledger]
    exact h.counter b hb st
  · rcases World.mem_insertJob.mp hj with hj | rfl
    · exact h.batchType j hj hbatch
    · exact ht hbatch

/-- Another payload leaves a job in its batch. -/
theorem updateJob (h : Accounts w.db d) (id : Id) (payload : JsonObject) :
    Accounts (w.updateJob id payload).db d := by
  have hbatch (i : Id) : ((w.updateJob id payload).db.jobs.get i).bind Job.batchId =
      (w.db.jobs.get i).bind Job.batchId := by
    unfold World.updateJob
    rw [Table.get_update]
    split_ifs
    · cases w.db.jobs.get i <;> rfl
    · rfl
  have hledger : (w.updateJob id payload).db.ledger = w.db.ledger := by
    refine Table.tally_congr fun r hr => ?_
    unfold Database.runClass Database.batchOf
    rw [hbatch]
  refine ⟨h.integrity.updateJob id payload, fun b hb st => ?_, h.total, fun j' hj' hb => ?_⟩
  · rw [hledger]
    exact h.counter b hb st
  · obtain ⟨j, hj, rfl⟩ := World.mem_updateJob.mp hj'
    split_ifs at hb ⊢ <;> exact h.batchType j hj hb

/-- A job whose server instance is gone stays in its batch. -/
theorem removeServerInstance (h : Accounts w.db d) (id : Id) :
    Accounts (w.removeServerInstance id).db d := by
  have hbatch (i : Id) : ((w.removeServerInstance id).db.jobs.get i).bind Job.batchId =
      (w.db.jobs.get i).bind Job.batchId := by
    unfold World.removeServerInstance
    rw [Table.get_modify]
    cases w.db.jobs.get i with
    | none => rfl
    | some j =>
      simp only [Option.map_some, Option.bind_some]
      split_ifs <;> rfl
  have hledger : (w.removeServerInstance id).db.ledger = w.db.ledger := by
    refine Table.tally_congr fun r hr => ?_
    unfold Database.runClass Database.batchOf
    rw [hbatch]
  refine ⟨h.integrity.removeServerInstance id, fun b hb st => ?_, h.total, fun j' hj' hb => ?_⟩
  · rw [hledger]
    exact h.counter b hb st
  · obtain ⟨j, hj, rfl⟩ := List.mem_map.mp hj'
    split_ifs at hb ⊢ <;> exact h.batchType j hj hb

end Jobs

section Runs

/-- A new run of a batch is owed to its counter of pending runs. -/
theorem insertJobRun (h : Accounts w.db d) {jobId hostId : Id} {j : Job}
    (hj : w.db.jobs.get jobId = some j) (hh : (w.db.hosts.get hostId).isSome = true) :
    Accounts (w.insertJobRun jobId hostId).db
      (d + Ledger.entry (j.batchId.map fun b => (b, .pending)) 1) := by
  have hledger : (w.insertJobRun jobId hostId).db.ledger =
      w.db.ledger + Ledger.entry (j.batchId.map fun b => (b, .pending)) 1 := by
    have hclass : w.db.runClass (pendingRun jobId hostId w.db.jobRuns.next) =
        j.batchId.map fun b => (b, .pending) := by
      unfold Database.runClass Database.batchOf pendingRun
      rw [hj, Option.bind_some]
    rw [← hclass]
    exact Table.tally_insert _ _ (key_pendingRun jobId hostId)
  have hjob : (w.db.jobs.get jobId).isSome = true := by rw [hj]; rfl
  refine ⟨h.integrity.insertJobRun hjob hh, fun b hb st => ?_, h.total, h.batchType⟩
  rw [hledger, Pi.add_apply, Pi.add_apply, ← h.counter b hb st, add_assoc]

/-- A run of a batch that changes its status is owed to one counter and by another. -/
theorem updateJobRun (h : Accounts w.db d) {id : Id} {r : JobRun}
    (hr : w.db.jobRuns.get id = some r) (p : RunPatch) :
    Accounts (w.updateJobRun id p).db
      (d + (Ledger.entry ((w.db.batchOf r).map fun b => (b, p.status?.getD r.status)) 1 -
        Ledger.entry ((w.db.batchOf r).map fun b => (b, r.status)) 1)) := by
  have hclass : w.db.runClass (p.apply w.now r) =
      (w.db.batchOf r).map fun b => (b, p.status?.getD r.status) := by
    cases p <;> rfl
  have hledger : (w.updateJobRun id p).db.ledger = w.db.ledger +
      (Ledger.entry (w.db.runClass (p.apply w.now r)) 1 - Ledger.entry (w.db.runClass r) 1) :=
    Table.tally_update hr (p.apply w.now) (p.key_apply w.now)
  refine ⟨h.integrity.updateJobRun id p, fun b hb st => ?_, h.total, h.batchType⟩
  rw [hledger, hclass, Pi.add_apply, Pi.add_apply, ← h.counter b hb st, add_assoc]
  rfl

/-- An update that leaves a run its status owes nothing, nor does one of a run of no batch. -/
theorem updateJobRun_of_eq (h : Accounts w.db d) {id : Id} {r : JobRun}
    (hr : w.db.jobRuns.get id = some r) (p : RunPatch)
    (hp : p.status?.getD r.status = r.status ∨ w.db.batchOf r = none) :
    Accounts (w.updateJobRun id p).db d := by
  have := h.updateJobRun hr p
  rcases hp with hp | hp <;> simpa [hp] using this

/-- A run of the batch `b` that gets the status `st` is owed to one counter and by another. -/
theorem moveRun (h : Accounts w.db d) {id b : Id} {r : JobRun}
    (hr : w.db.jobRuns.get id = some r) (hb : w.db.batchOf r = some b) {p : RunPatch}
    {st : JobRunStatus} (hp : p.status? = some st) :
    Accounts (w.updateJobRun id p).db
      (d + (Ledger.entry (some (b, st)) 1 - Ledger.entry (some (b, r.status)) 1)) := by
  have := h.updateJobRun hr p
  rwa [hb, hp] at this

/-- A host whose runs are of no batch owes nothing when it is removed. -/
theorem removeHost (h : Accounts w.db d) {id : Id} (audit : AuditLog)
    (hs : (w.db.serverInstances.rows.any fun s => s.hostId == id) = false)
    (hr : ∀ r ∈ w.db.jobRuns.rows, r.hostId = id → w.db.batchOf r = none) :
    Accounts (w.removeHost id audit).db d := by
  have hledger : (w.removeHost id audit).db.ledger = w.db.ledger := by
    refine Table.tally_erase fun r hmem hid => ?_
    have hbatch : w.db.batchOf r = none := hr r hmem (by simpa using hid)
    show (w.db.batchOf r).map _ = none
    rw [hbatch]
    rfl
  refine ⟨h.integrity.removeHost audit hs, fun b hb st => ?_, h.total, h.batchType⟩
  rw [hledger]
  exact h.counter b hb st

end Runs

section Batches

/-- A new batch of `n` servers has booked `n` pending runs and has none. -/
theorem insertJobBatch (h : Accounts w.db d) (data : BatchData)
    (hd : ∀ st, d (w.db.jobBatches.next, st) = 0) :
    Accounts (w.insertJobBatch data).db
      (d + Ledger.entry (some (w.db.jobBatches.next, .pending)) (-data.n)) := by
  refine ⟨h.integrity.insertJobBatch data, fun b hb st => ?_, fun b hb => ?_, h.batchType⟩
  · have hsame : (w.insertJobBatch data).db.ledger = w.db.ledger := rfl
    rw [hsame]
    rcases World.mem_insertJobBatch.mp hb with hb | rfl
    · -- an older batch
      have hne : b.id ≠ w.db.jobBatches.next := Nat.ne_of_lt (w.db.jobBatches.lt_next b hb)
      have hentry : Ledger.entry (some (w.db.jobBatches.next, JobRunStatus.pending)) (-(data.n : ℤ))
          (b.id, st) = 0 := by
        simp [Ledger.entry, Ne.symm hne]
      rw [Pi.add_apply, hentry, add_zero]
      exact h.counter b hb st
    · have hnone : w.db.ledger (w.db.jobBatches.next, st) = 0 := by
        refine Table.tally_eq_zero fun r hr hclass => ?_
        -- a run of the new batch would have a job of a batch that does not exist
        obtain ⟨j, hj⟩ := h.integrity.jobOfRun r hr
        unfold Database.runClass Database.batchOf at hclass
        rw [hj, Option.bind_some] at hclass
        obtain ⟨b', hb', hpair⟩ := Option.map_eq_some_iff.mp hclass
        obtain ⟨rfl, -⟩ := Prod.mk.inj hpair
        obtain ⟨x, hx⟩ := h.integrity.batchOfJob j (Table.get_eq_some.mp hj).1 _ hb'
        exact absurd (Table.lt_of_get hx) (lt_irrefl _)
      have hid : (data.row w.now w.db.jobBatches.next).id = w.db.jobBatches.next := rfl
      rw [hid, hnone, Pi.add_apply, hd]
      cases st <;> simp [JobBatch.counter, BatchData.row, Ledger.entry]
  · rcases World.mem_insertJobBatch.mp hb with hb | rfl
    · exact h.total b hb
    · simp [JobBatch.sum, BatchData.row]

/-- An update of a batch settles the debts that it books, if it books as many runs as it takes. -/
theorem updateJobBatch (h : Accounts w.db d) (id : Id) (p : BatchPatch)
    (hp : p.pendingCount + p.runningCount + p.successCount + p.failedCount + p.cancelledCount = 0) :
    Accounts (w.updateJobBatch id p).db (d - p.booking id) := by
  refine ⟨h.integrity.updateJobBatch id p, fun b' hb' st => ?_, fun b' hb' => ?_, h.batchType⟩
  · obtain ⟨b, hb, rfl⟩ := World.mem_updateJobBatch.mp hb'
    have hsame : (w.updateJobBatch id p).db.ledger = w.db.ledger := rfl
    have hcounter := h.counter b hb st
    rw [hsame]
    split_ifs with hid
    · have hmoved : (p.apply w.now b).counter st = b.counter st + p.increment st := by
        cases st <;> rfl
      have hbooked : p.booking id ((p.apply w.now b).id, st) = p.increment st := by
        show (if b.id = id then _ else _) = _
        rw [if_pos hid]
      show (p.apply w.now b).counter st + (d (b.id, st) - p.booking id ((p.apply w.now b).id, st)) = _
      rw [hmoved, hbooked]
      show _ = w.db.ledger (b.id, st)
      omega
    · have hbooked : p.booking id (b.id, st) = 0 := if_neg hid
      rw [Pi.sub_apply, hbooked, sub_zero]
      exact hcounter
  · obtain ⟨b, hb, rfl⟩ := World.mem_updateJobBatch.mp hb'
    have htotal := h.total b hb
    split_ifs
    · simp only [JobBatch.sum, BatchPatch.apply] at htotal ⊢
      omega
    · exact htotal

/-- An update of a batch that books all that is owed settles it. -/
theorem settle (h : Accounts w.db d) {b : Id} {p : BatchPatch} (hp : p.booking b = d)
    (hsum : p.pendingCount + p.runningCount + p.successCount + p.failedCount +
      p.cancelledCount = 0) : Accounts (w.updateJobBatch b p).db 0 := by
  have := h.updateJobBatch b p hsum
  rwa [hp, sub_self] at this

end Batches

section Operations

/-- The counters are right. -/
abbrev Right (w : World) : Prop := Accounts w.db 0

/-- The failures of an operation that completes: none. -/
abbrev never : Stmt → World → Prop := fun _ _ => False

/-- The run that a path creates is owed to its batch, if it has one. -/
theorem run (h : Accounts w.db d) (c : Creation) (hc : c.Refers w)
    (ht : c.data.batchId.isSome = true → ∃ t : BatchType, c.data.type = t.jobType) :
    Accounts (c.run w).db (d + Ledger.entry (c.data.batchId.map fun b => (b, .pending)) 1) := by
  have hjob : (c.job w).db.jobs.get w.db.jobs.next = some (c.data.row w.db.jobs.next) :=
    Table.get_insert_next w.db.jobs c.data.row c.data.key_row
  exact (h.insertJob hc.1 ht).insertJobRun hjob hc.2

/-- What is dispatched for no batch owes nothing. -/
theorem ends (h : Accounts w.db d) {c : Creation} (hc : c.data.batchId = none) {w' : World}
    (he : c.Ends may w w') : Accounts w'.db d := by
  have ht : c.data.batchId.isSome = true → ∃ t : BatchType, c.data.type = t.jobType := by
    rw [hc]
    exact fun h => nomatch h
  have hrun (hrefers : c.Refers w) : Accounts (c.run w).db d := by
    have := h.run c hrefers ht
    rwa [hc, Option.map_none, Ledger.entry_none, add_zero] at this
  cases he with
  | job hrefers => exact h.insertJob hrefers ht
  | run hrefers _ => exact hrun hrefers
  | queued hrefers => exact hrun hrefers

/-- Creating a batch books its pending runs and then creates as many. -/
theorem createBatch (h : Right w) (orgId : Id) (userId : Option Id) (dto : CreateBatchDto) :
    (BatchesService.createBatch orgId userId dto).wp (alone env never)
      (fun _ w' => Right w') w := by
  let b := w.db.jobBatches.next
  -- in the loop, the runs that are still to be created are booked and do not exist
  let I (rest : List ServerInstance) (w₁ : World) : Prop :=
    Accounts w₁.db (Ledger.entry (some (b, .pending)) (-rest.length)) ∧
      (w₁.db.jobBatches.get b).isSome = true ∧
        ∀ si ∈ rest, w₁.db.serverInstances.get si.id = some si
  have refers (si : ServerInstance) (rest : List ServerInstance) (w₁ : World)
      (hI : I (si :: rest) w₁) : (BatchesService.creation orgId userId dto b si).Refers w₁ := by
    obtain ⟨hacc, hbatch, hservers⟩ := hI
    have hsi := hservers si List.mem_cons_self
    obtain ⟨x, hx⟩ := hacc.integrity.host_of_server hsi
    refine ⟨?_, by rw [BatchesService.creation, hx]; rfl⟩
    simp [Database.refersToRecords, BatchesService.creation, hsi, hbatch]
  apply BatchesService.createBatch_rule orgId userId dto I
  · exact fun _ => h
  · -- the batch is created
    intro _
    refine ⟨?_, ?_, fun si hsi => ?_⟩
    · have := h.insertJobBatch ⟨orgId, dto.type, (w.db.batchServers orgId dto).length, userId⟩
        fun _ => rfl
      rwa [zero_add] at this
    · exact congrArg Option.isSome (Table.get_insert_next w.db.jobBatches _ fun _ => rfl)
    · exact Table.get_key (List.mem_of_mem_filter hsi)
  · -- a run is created
    rintro si rest w₁ audit ⟨hacc, hbatch, hservers⟩ hrefers
    refine ⟨?_, hbatch, fun s hs => hservers s (List.mem_cons_of_mem _ hs)⟩
    have hrun := hacc.run _ hrefers fun _ => ⟨dto.type, rfl⟩
    have hdebt : Ledger.entry (some (b, JobRunStatus.pending)) (-((si :: rest).length : ℤ)) +
        Ledger.entry (some (b, JobRunStatus.pending)) 1 =
          Ledger.entry (some (b, JobRunStatus.pending)) (-(rest.length : ℤ)) := by
      rw [Ledger.entry_add]
      congr 1
      push_cast [List.length_cons]
      omega
    rw [← hdebt]
    exact hrun.frame rfl rfl rfl rfl rfl
  · intro si rest w₁ w₂ e hI _ hfault
    obtain ⟨_, _, hnever⟩ := hfault (refers si rest w₁ hI)
    exact hnever.elim
  · rintro w₁ r logs ⟨hacc, -, -⟩
    rw [List.length_nil, Nat.cast_zero, neg_zero, Ledger.entry_zero] at hacc
    exact hacc.frame rfl rfl rfl rfl rfl

/-- The booking of a cancellation. -/
theorem booking_cancellation (b : Id) (n : ℕ) :
    (BatchesService.cancellation n).booking b =
      Ledger.entry (some (b, .cancelled)) n - Ledger.entry (some (b, .pending)) n := by
  funext ⟨b', st⟩
  by_cases hb : b' = b
  · subst hb
    cases st <;> simp [BatchPatch.booking, BatchPatch.increment, BatchesService.cancellation,
      BatchPatch.none, Ledger.entry]
  · cases st <;> simp [BatchPatch.booking, Ledger.entry, hb, Ne.symm hb]

/-- Cancelling a batch cancels its pending runs and then books as many. -/
theorem cancelBatch (h : Right w) (orgId batchId : Id) :
    (BatchesService.cancelBatch orgId batchId).wp (alone env never) (fun _ w' => Right w') w := by
  -- in the loop, `n` runs are cancelled and not booked, and those still to come are as they were
  let I (rest : List (Job × Option JobRun)) (n : ℕ) (w₁ : World) : Prop :=
    Accounts w₁.db
        (Ledger.entry (some (batchId, .cancelled)) n - Ledger.entry (some (batchId, .pending)) n) ∧
      (w₁.db.jobBatches.get batchId).isSome = true ∧
      (∀ x ∈ rest, ∀ r, x.2 = some r →
        w₁.db.jobRuns.get r.id = some r ∧ w₁.db.batchOf r = some batchId) ∧
      rest.Pairwise fun x y => ∀ r r', x.2 = some r → y.2 = some r' → r.id ≠ r'.id
  apply BatchesService.cancelBatch_rule orgId batchId I
  · exact fun _ => h
  · intro x hx _ _
    refine ⟨?_, by rw [hx]; rfl, fun y hy r hr => Database.mem_batchRuns hy hr,
      w.db.batchRuns_pairwise batchId⟩
    simpa using h
  · rintro j run rest n w₁ ⟨hacc, hbatch, hruns, hdistinct⟩ _
    exact ⟨hacc, hbatch, fun x hx => hruns x (List.mem_cons_of_mem _ hx), hdistinct.of_cons⟩
  · rintro j r rest n w₁ w₂ ⟨hacc, hbatch, hruns, hdistinct⟩ hpending _ hw₂
    obtain ⟨hr, hof⟩ := hruns _ List.mem_cons_self r rfl
    -- the run is cancelled; its entry may stay in the queue
    have hcancelled : I rest (n + 1) (w₁.updateJobRun r.id .cancel) := by
      refine ⟨?_, hbatch, fun x hx r' hr' => ?_, hdistinct.of_cons⟩
      · have hmoved := hacc.moveRun hr hof (rfl : RunPatch.cancel.status? = some .cancelled)
        have hdebt : Ledger.entry (some (batchId, JobRunStatus.cancelled)) (n : ℤ) -
            Ledger.entry (some (batchId, JobRunStatus.pending)) (n : ℤ) +
              (Ledger.entry (some (batchId, JobRunStatus.cancelled)) 1 -
                Ledger.entry (some (batchId, JobRunStatus.pending)) 1) =
            Ledger.entry (some (batchId, JobRunStatus.cancelled)) ((n + 1 : ℕ) : ℤ) -
              Ledger.entry (some (batchId, JobRunStatus.pending)) ((n + 1 : ℕ) : ℤ) := by
          rw [Nat.cast_add, Nat.cast_one, ← Ledger.entry_add, ← Ledger.entry_add]
          abel
        rw [hpending, hdebt] at hmoved
        exact hmoved
      · obtain ⟨hget, hof'⟩ := hruns x (List.mem_cons_of_mem _ hx) r' hr'
        have hne : r.id ≠ r'.id := (List.pairwise_cons.mp hdistinct).1 x hx r r' rfl hr'
        refine ⟨?_, hof'⟩
        unfold World.updateJobRun
        rw [Table.get_update_of_ne _ hne.symm]
        exact hget
    rcases hw₂ with rfl | rfl
    · exact hcancelled
    · obtain ⟨hacc', hrest⟩ := hcancelled
      exact ⟨hacc'.frame rfl rfl rfl rfl rfl, hrest⟩
  · rintro j r rest n w₁ e ⟨-, -, hruns, -⟩ _ hfault
    -- an error would mean that a run of the batch is gone
    have hpresent : (w₁.db.jobRuns.get r.id).isSome = true := by
      rw [(hruns _ List.mem_cons_self r rfl).1]
      rfl
    obtain ⟨_, _, hnever⟩ := hfault hpresent
    exact hnever.elim
  · rintro n w₁ e ⟨-, hbatch, -⟩ hfault
    obtain ⟨_, _, hnever⟩ := hfault hbatch
    exact hnever.elim
  · rintro n w₁ r logs progress ⟨hacc, -⟩
    have hright := hacc.settle (booking_cancellation batchId n)
      (by simp [BatchesService.cancellation, BatchPatch.none])
    exact hright.frame rfl rfl rfl rfl rfl

/-- The booking of a start. -/
theorem booking_started (b : Id) :
    BatchesService.started.booking b =
      Ledger.entry (some (b, .running)) 1 - Ledger.entry (some (b, .pending)) 1 := by
  funext ⟨b', st⟩
  by_cases hb : b' = b
  · subst hb
    cases st <;> simp [BatchPatch.booking, BatchPatch.increment, BatchesService.started,
      BatchPatch.none, Ledger.entry]
  · cases st <;> simp [BatchPatch.booking, Ledger.entry, hb, Ne.symm hb]

/-- An agent's claim moves a run from pending to running and books it. -/
theorem markJobRunStarted (h : Right w) (hostId jobRunId : Id) :
    (JobsService.markJobRunStarted hostId jobRunId).wp (alone env never)
      (fun _ w' => Right w') w := by
  apply JobsService.markJobRunStarted_rule
  · exact fun _ _ => h
  · intro run j hrun hj _ hpending
    have hof : w.db.batchOf run = j.batchId := by
      unfold Database.batchOf
      rw [hj, Option.bind_some]
    have hmem := (Table.get_eq_some.mp hj).1
    cases hb : j.batchId with
    | none =>
      rw [if_neg (by simp)]
      exact (wp_pure _ _ _).mpr (h.updateJobRun_of_eq hrun .start (.inr (hof.trans hb)))
    | some b =>
      rw [if_pos Option.isSome_some]
      obtain ⟨x, hx⟩ := h.integrity.batchOfJob j hmem b hb
      have hjob : (w.updateJobRun jobRunId .start).db.jobs.get j.id = some j :=
        Table.get_key hmem
      apply BatchesService.recordJobRunStarted_rule hjob hb hx
      · rintro ⟨_, _, hnever⟩
        exact hnever.elim
      · intro r progress
        have hmoved := h.moveRun hrun (hof.trans hb) (rfl : RunPatch.start.status? = some .running)
        rw [hpending, zero_add] at hmoved
        have hright := hmoved.settle (booking_started b) rfl
        exact hright.frame rfl rfl rfl rfl rfl

/-- Making entries due changes the queues only. -/
theorem promoted (h : Accounts w.db d) {w' : World} (hp : Promoted w w') : Accounts w'.db d := by
  obtain ⟨q, rfl, -⟩ := hp
  exact h.frame rfl rfl rfl rfl rfl

/-- A poll starts at most one run. -/
theorem poll (h : Right w) (hostId : Id) (mutationBusy : Bool) :
    (AgentJobsController.poll hostId mutationBusy).wp (alone env never)
      (fun _ w' => Right w') w := by
  apply AgentJobsController.poll_spec
  · exact fun _ => h
  · exact fun w' hp => h.promoted hp
  · intro host w₁ e _ hp _ _
    have hclaimed : Right (w₁.dequeue host.orgId e.id) :=
      (h.promoted hp).frame rfl rfl rfl rfl rfl
    refine wp_bind_of alone_monotone (hclaimed.markJobRunStarted hostId e.data.jobRunId) ?_ ?_
    · exact fun _ _ h' => (wp_pure _ _ _).mpr h'
    · exact fun _ _ h' => h'

/-- A report ends its run with success or failure. -/
theorem runStatus_cases (dto : ReportResultDto) :
    dto.runStatus = .success ∨ dto.runStatus = .failed := by
  unfold ReportResultDto.runStatus
  split_ifs
  · exact .inl rfl
  · exact .inr rfl

/-- The booking of the end of a running run. -/
theorem booking_completion (b : Id) {st : JobRunStatus} (hst : st = .success ∨ st = .failed) :
    (BatchesService.completion st .running).booking b =
      Ledger.entry (some (b, st)) 1 - Ledger.entry (some (b, .running)) 1 := by
  funext ⟨b', st'⟩
  by_cases hb : b' = b
  · subst hb
    rcases hst with rfl | rfl <;> cases st' <;> simp [BatchPatch.booking, BatchPatch.increment,
      BatchesService.completion, BatchPatch.none, Ledger.entry]
  · cases st' <;> simp [BatchPatch.booking, Ledger.entry, hb, Ne.symm hb]

/-- Nothing follows the end of a job of a batch: none of the batch types asks for it. -/
theorem afterResult_of_batchType {j : Job} (t : BatchType) (ht : j.type = t.jobType)
    (runStatus : JobRunStatus) (output : Option String) (tools : List ConnectionTool) :
    JobsService.afterResult env j runStatus output tools = pure () := by
  unfold JobsService.afterResult
  cases t <;> simp [ht, BatchType.jobType]

/-- A report moves a run from running to the status reported and books it. -/
theorem reportJobResult (h : Right w) (hostId jobRunId : Id) (dto : ReportResultDto)
    (tools : List ConnectionTool) :
    (JobsService.reportJobResult env hostId jobRunId dto tools).wp (alone env never)
      (fun _ w' => Right w') w := by
  apply JobsService.reportJobResult_rule
  · exact fun _ => h
  · intro run j hrun hj _ hrunning
    have hof : w.db.batchOf run = j.batchId := by
      unfold Database.batchOf
      rw [hj, Option.bind_some]
    have hmem := (Table.get_eq_some.mp hj).1
    cases hb : j.batchId with
    | none =>
      -- the run owes nothing, and what follows it creates jobs of no batch
      have hmoved := h.updateJobRun_of_eq hrun (.finish dto.runStatus dto.runResult)
        (.inr (hof.trans hb))
      have hafter : (JobsService.afterResult env j dto.runStatus dto.output tools).wp
          (alone env never) (fun _ w' => Right w')
          (w.updateJobRun jobRunId (.finish dto.runStatus dto.runResult)) :=
        JobsService.afterResult_keeps (I := Right) dto.runStatus dto.output tools
        (fun w₁ w₂ _ tool c hw₁ hc he => by
          obtain ⟨_, _, _, _⟩ := hc
          exact hw₁.ends rfl he)
        (fun hw₁ => hw₁.updateJob j.id _)
        (fun w₁ uploads hw₁ => hw₁.frame rfl rfl rfl rfl rfl) hmoved
      refine wp_bind_of alone_monotone hafter ?_ (fun _ _ h' => h')
      intro _ w₁ hw₁
      rw [if_neg (by simp)]
      exact (wp_pure _ _ _).mpr hw₁
    | some b =>
      obtain ⟨t, ht⟩ := h.batchType j hmem (by rw [hb]; rfl)
      rw [afterResult_of_batchType t ht, wp_bind, wp_pure, andThen_ok, if_pos Option.isSome_some]
      obtain ⟨x, hx⟩ := h.integrity.batchOfJob j hmem b hb
      have hjob : (w.updateJobRun jobRunId (.finish dto.runStatus dto.runResult)).db.jobs.get j.id =
          some j := Table.get_key hmem
      have hst := runStatus_cases dto
      have hmoved := h.moveRun hrun (hof.trans hb)
        (rfl : (RunPatch.finish dto.runStatus dto.runResult).status? = some dto.runStatus)
      rw [hrunning, zero_add] at hmoved
      have hright := hmoved.settle (booking_completion b hst)
        (by rcases hst with hst | hst <;> simp [hst, BatchesService.completion, BatchPatch.none])
      apply BatchesService.recordJobRunCompleted_rule _ _ hjob hb hx
      · rintro ⟨_, _, hnever⟩
        exact hnever.elim
      · exact fun _ progress => hright.frame rfl rfl rfl rfl rfl
      · -- closing the batch moves no counter
        intro _ _ _ status progress
        have hnothing : (BatchesService.closing status).booking b = 0 := by
          funext ⟨b', st⟩
          unfold BatchPatch.booking
          split_ifs
          · cases st <;> rfl
          · rfl
        have hclosed := hright.settle hnothing rfl
        exact hclosed.frame rfl rfl rfl rfl rfl

/-- The sweep releases runs that owe nothing, if none that it finds stale is a run of a batch. -/
theorem failStaleRunningJobs (h : Right w)
    (hstale : ∀ r ∈ w.db.jobRuns.rows, r.status = .running →
      JobsService.heartbeat r + JobsService.staleAfter < w.now → w.db.batchOf r = none) :
    JobsService.failStaleRunningJobs.wp (alone env never) (fun _ w' => Right w') w := by
  -- a run that is still to come may have been changed, but not its job
  let I (rest : List JobRun) (w₁ : World) : Prop :=
    Right w₁ ∧ ∀ run ∈ rest, JobsService.heartbeat run + JobsService.staleAfter < w.now →
      ∀ r, w₁.db.jobRuns.get run.id = some r → w₁.db.batchOf r = none
  apply JobsService.failStaleRunningJobs_rule I
  · exact fun _ => h
  · refine ⟨h, fun run hrun hsilent r hr => ?_⟩
    obtain ⟨hmem, hrunning⟩ := List.mem_filter.mp hrun
    have hget : w.db.jobRuns.get run.id = some run := Table.get_key hmem
    obtain rfl := Option.some.inj (hget.symm.trans hr)
    exact hstale run hmem (by simpa using hrunning) hsilent
  · rintro run rest w₁ ⟨hacc, hrest⟩ -
    exact ⟨hacc, fun r hr => hrest r (List.mem_cons_of_mem _ hr)⟩
  · rintro run rest w₁ ⟨hacc, hrest⟩ hsilent hrunning
    obtain ⟨r, hr, -⟩ := (Option.any_eq_true _ _).mp hrunning
    have hnone := hrest run List.mem_cons_self hsilent r hr
    refine ⟨hacc.updateJobRun_of_eq hr _ (.inr hnone), fun run' hrun' hsilent' r' hr' => ?_⟩
    unfold World.updateJobRun at hr'
    rw [Table.get_update] at hr'
    have hold := hrest run' (List.mem_cons_of_mem _ hrun') hsilent'
    split_ifs at hr' with hid
    · obtain ⟨r₀, hr₀, rfl⟩ := Option.map_eq_some_iff.mp hr'
      exact hold r₀ hr₀
    · exact hold r' hr'
  · exact fun rest w₁ _ hI => hI.1
  · exact fun w₁ hI => hI.1

end Operations

end Accounts

/-- The operation leaves the counters right: a sweep finds no silent run of a batch, and a host that
is removed has no run of a batch. -/
def Op.Accounted : Op → World → Prop
  | failStaleRunningJobs, w => ∀ r ∈ w.db.jobRuns.rows, r.status = .running →
      JobsService.heartbeat r + JobsService.staleAfter < w.now → w.db.batchOf r = none
  | removeHost orgId userId hostId, w => w.Removable orgId userId hostId →
      ∀ r ∈ w.db.jobRuns.rows, r.hostId = hostId → w.db.batchOf r = none
  | _, _ => True

namespace Accounts

variable {env : Env} {w : World}

/-- An operation that completes and is accounted for keeps the counters right. -/
theorem op (h : Right w) (o : Op) (ho : o.Accounted w) :
    (o.prog env).wp (alone env never) (fun _ w' => Right w') w := by
  cases o with
  | createJob orgId userId dto =>
    apply wp_handsOutNothing
    refine wp_mono alone_monotone ?_ (JobsController.create_spec orgId userId dto)
    rintro _ w' (rfl | ⟨c, -, ⟨_, _, _, _⟩, hends⟩)
    · exact h
    · exact h.ends rfl hends
  | createBatch orgId userId dto =>
    apply wp_handsOutNothing
    refine wp_orgRoleGuard userId orgId _ (fun _ => h) fun _ => ?_
    rw [wp_ite]
    split_ifs
    · exact (wp_throw _ _ _).mpr h
    · refine wp_bind_of alone_monotone (h.createBatch orgId (some userId) dto) ?_ fun _ _ h' => h'
      exact fun _ _ h' => (wp_pure _ _ _).mpr h'
  | cancelBatch orgId userId batchId =>
    apply wp_handsOutNothing
    refine wp_orgRoleGuard userId orgId _ (fun _ => h) fun _ => ?_
    refine wp_bind_of alone_monotone (h.cancelBatch orgId batchId) ?_ fun _ _ h' => h'
    exact fun _ _ h' => (wp_pure _ _ _).mpr h'
  | createSchedule orgId userId body =>
    apply wp_handsOutNothing
    refine wp_mono alone_monotone ?_ (SchedulerController.create_spec orgId userId body)
    rintro _ w' (rfl | ⟨_, _, _, _, _, rfl⟩)
    · exact h
    · exact h.frame rfl rfl rfl rfl rfl
  | updateSchedule orgId userId scheduleId body =>
    apply wp_handsOutNothing
    refine wp_mono alone_monotone ?_ (SchedulerController.update_spec orgId userId scheduleId body)
    rintro _ w' (rfl | ⟨_, _, _, _, _, _, _, rfl⟩)
    · exact h
    · exact h.frame rfl rfl rfl rfl rfl
  | fire scheduleId =>
    apply wp_handsOutNothing
    refine wp_mono alone_monotone ?_ (SchedulerService.fire_spec scheduleId)
    rintro _ w' ⟨w₁, ⟨_, _, rfl, -⟩, rfl | ⟨c, ⟨_, _, _, _⟩, hends⟩⟩
    · exact h.frame rfl rfl rfl rfl rfl
    · exact (h.ends rfl hends).frame rfl rfl rfl rfl rfl
  | poll hostId mutationBusy => exact h.poll hostId mutationBusy
  | reportResult hostId jobRunId dto tools =>
    apply wp_handsOutNothing
    unfold AgentJobsController.reportResult
    rw [wp_ite]
    split_ifs
    · exact h.reportJobResult hostId jobRunId dto tools
    · exact (wp_throw _ _ _).mpr h
  | reportProgress hostId jobRunId phase message =>
    apply wp_handsOutNothing
    refine JobsService.reportJobProgress_rule hostId jobRunId phase message (fun _ => h) ?_
    exact fun run hrun _ _ message => h.updateJobRun_of_eq hrun (.progress phase message) (.inl rfl)
  | failStaleRunningJobs =>
    apply wp_handsOutNothing
    exact h.failStaleRunningJobs ho
  | enqueueModerationCommand orgId serverInstanceId command =>
    apply wp_handsOutNothing
    refine wp_mono alone_monotone ?_
      (LogsService.enqueueModerationCommand_spec orgId serverInstanceId command)
    rintro _ w' (rfl | ⟨c, ⟨_, _⟩, hends⟩)
    · exact h
    · exact h.ends rfl hends
  | removeHost orgId userId hostId =>
    refine wp_orgRoleGuard userId orgId _ (fun _ => h) fun hrole => ?_
    apply wp_handsOutNothing
    refine HostsService.remove_rule orgId userId hostId (fun _ => h) fun hhost hservers audit => ?_
    exact h.removeHost audit hservers (ho ⟨hrole, hhost, hservers⟩)
  | removeServerInstance orgId userId serverInstanceId =>
    refine wp_orgRoleGuard userId orgId _ (fun _ => h) fun _ => ?_
    apply wp_handsOutNothing
    refine ServerInstancesService.remove_rule orgId userId serverInstanceId (fun _ => h) ?_
    exact fun _ logs => (h.removeServerInstance serverInstanceId).frame rfl rfl rfl rfl rfl

/-- What happens elsewhere keeps the counters right. -/
theorem elsewhere {w' : World} (h : Right w) (he : Elsewhere w w') : Right w' := by
  refine h.congr (h.integrity.elsewhere he) ?_ ?_ ?_ <;> cases he <;> rfl

/-- The counters are right at first. -/
theorem initial : Right World.initial where
  integrity := Integrity.initial
  counter _ hb := nomatch hb
  total _ hb := nomatch hb
  batchType _ hj := nomatch hj

end Accounts

/-- After complete operations that are accounted for, the counters of every batch are the numbers of
its runs in each status and sum to its total. -/
theorem counters_eq_tally {env : Env} {w : World}
    {h : List (Turn Op Err (Option QueueJobData) World)}
    (hr : Runs (controlPlane env) (fun op plan w => plan = [] ∧ op.Accounted w) World.initial h w)
    {b : JobBatch} (hb : b ∈ w.db.jobBatches.rows) :
    (∀ st, 0 ≤ b.counter st ∧ b.counter st = w.db.tally b.id st) ∧
      b.totalCount = b.pendingCount + b.runningCount + b.successCount + b.failedCount +
        b.cancelledCount := by
  have hright : Accounts.Right w := by
    refine Runs.invariant (J := fun _ w => Accounts.Right w) Accounts.initial ?_ ?_ hr
    · rintro _ w op plan hw ⟨rfl, hop⟩
      exact Program.after_of_wp (hw.op op hop)
    · exact fun _ w w' hw he => hw.elsewhere he
  refine ⟨fun st => ?_, hright.total b hb⟩
  have hcounter : b.counter st = w.db.tally b.id st := by
    rw [← Database.ledger_apply, ← hright.counter b hb st]
    exact (add_zero _).symm
  exact ⟨by omega, hcounter⟩

section Wave

/-- The batch of the wave whose run has been claimed. -/
def claimedBatch : JobBatch :=
  ⟨0, 0, .restartWave, .running, 1, 0, 1, 0, 0, 0, some 0, 0, none⟩

theorem counters_eq_tally_waveClaimed :
    (∀ st, 0 ≤ claimedBatch.counter st ∧
      claimedBatch.counter st = World.waveClaimed.db.tally claimedBatch.id st) ∧
        claimedBatch.totalCount = claimedBatch.pendingCount + claimedBatch.runningCount +
          claimedBatch.successCount + claimedBatch.failedCount + claimedBatch.cancelledCount := by
  have hrun : ∃ h, Runs smallPlane (fun op plan w => plan = [] ∧ op.Accounted w) World.initial h
      World.waveClaimed := Runs.waveClaimed ⟨rfl, trivial⟩ ⟨rfl, trivial⟩
  obtain ⟨_, hr⟩ := hrun
  exact counters_eq_tally hr List.mem_cons_self

/-- The operations that the counters are about. -/
def Op.OnBatches : Op → Bool
  | createBatch _ _ _ => true
  | cancelBatch _ _ _ => true
  | poll _ _ => true
  | reportResult _ _ _ _ => true
  | failStaleRunningJobs => true
  | removeHost _ _ _ => true
  | _ => false

set_option maxRecDepth 100000 in
/-- The counters are wrong after a sweep has released the wave's run: one run is booked as running
and none is. -/
theorem counters_ne_tally_of_sweep :
    ¬ ∀ h w, Runs smallPlane (fun op plan _ => plan = [] ∧ op.OnBatches = true) World.initial h w →
      ∀ b ∈ w.db.jobBatches.rows, ∀ st, b.counter st = w.db.tally b.id st := by
  intro hall
  have hrun : ∃ h, Runs smallPlane (fun op plan _ => plan = [] ∧ op.OnBatches = true)
      World.initial h World.waveClaimed := Runs.waveClaimed ⟨rfl, rfl⟩ ⟨rfl, rfl⟩
  obtain ⟨_, hr⟩ := hrun
  -- 200 seconds later
  have hsweep := hall _ _ (.turn .failStaleRunningJobs [] (.environment hr (.tick _ 200000))
    ⟨rfl, rfl⟩)
  exact absurd (fun b hb => hsweep b hb .running) (by decide)

end Wave

end Mastermind
