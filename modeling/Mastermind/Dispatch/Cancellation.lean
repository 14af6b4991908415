import Mastermind.Dispatch.Accounting
import Mastermind.Dispatch.Moves

/-!
# A batch that was cancelled

`cancelBatch` sets the status of a batch to cancelled, and no other operation but one ever writes
the status of a batch that is not running. The exception is a report: `recordJobRunCompleted`
closes a batch when its counters say that no run is left, and does not look whether the batch was
cancelled meanwhile. So a cancelled batch stays cancelled in every run in which no report that is
accepted ends the last run that the counters of a cancelled batch have left (`Op.Reopens`).
-/

namespace Mastermind

open Effect Effect.Program

variable {env : Env} {may : Stmt → World → Prop}

/-- The batches that are cancelled in `w` are cancelled in `w'`. -/
def StaysCancelled (w w' : World) : Prop :=
  ∀ b x, w.db.jobBatches.get b = some x → x.status = .cancelled →
    ∃ x', w'.db.jobBatches.get b = some x' ∧ x'.status = .cancelled

namespace StaysCancelled

variable {w w₁ w₂ : World}

theorem refl (w : World) : StaysCancelled w w := fun _ x hx hc => ⟨x, hx, hc⟩

theorem trans (h : StaysCancelled w w₁) (h' : StaysCancelled w₁ w₂) : StaysCancelled w w₂ := by
  intro b x hx hc
  obtain ⟨x₁, hx₁, hc₁⟩ := h b x hx hc
  exact h' b x₁ hx₁ hc₁

/-- What leaves the batches alone leaves the cancelled ones alone. -/
theorem of_eq (h : StaysCancelled w w₁) (hb : w₂.db.jobBatches = w₁.db.jobBatches) :
    StaysCancelled w w₂ := by
  intro b x hx hc
  rw [hb]
  exact h b x hx hc

/-- A new batch is another batch. -/
theorem insertJobBatch (h : StaysCancelled w w₁) (d : BatchData) :
    StaysCancelled w (w₁.insertJobBatch d) := by
  intro b x hx hc
  obtain ⟨x₁, hx₁, hc₁⟩ := h b x hx hc
  exact ⟨x₁, World.get_insertJobBatch hx₁, hc₁⟩

/-- An update of a batch keeps a cancelled one so if it writes no other status. -/
theorem updateJobBatch (h : StaysCancelled w w₁) {b : Id} {p : BatchPatch}
    (hp : (∀ x, w.db.jobBatches.get b = some x → x.status ≠ .cancelled) ∨
      p.status = none ∨ p.status = some .cancelled) :
    StaysCancelled w (w₁.updateJobBatch b p) := by
  intro b' x hx hc
  obtain ⟨x₁, hx₁, hc₁⟩ := h b' x hx hc
  unfold World.updateJobBatch
  rw [Table.get_update]
  split_ifs with hb
  · subst hb
    refine ⟨p.apply w₁.now x₁, by rw [hx₁]; rfl, ?_⟩
    rcases hp with hp | hp | hp
    · exact absurd hc (hp x hx)
    · simp [BatchPatch.apply, hp, hc₁]
    · simp [BatchPatch.apply, hp]
  · exact ⟨x₁, hx₁, hc₁⟩

end StaysCancelled

/-- The operation is a report that ends a run of a cancelled batch, whose counters say that no other
run is left. -/
def Op.Reopens : Op → World → Prop
  | reportResult hostId jobRunId dto _, w =>
    (dto.status = "success" ∨ dto.status = "failed") ∧
      ∃ run j b x, w.db.jobRuns.get jobRunId = some run ∧ run.hostId = hostId ∧
        run.status = .running ∧ w.db.jobs.get run.jobId = some j ∧ j.batchId = some b ∧
          w.db.jobBatches.get b = some x ∧ x.status = .cancelled ∧
            x.pendingCount ≤ 0 ∧ x.runningCount ≤ 1
  | _, _ => False

section Report

variable {w : World}

/-- What follows the end of a job leaves the batches alone, and the job in its batch. -/
theorem afterResult_batches (w₁ : World) {j : Job} (hbatches : w₁.db.jobBatches = w.db.jobBatches)
    (hj : w₁.db.jobs.get j.id = some j) (runStatus : JobRunStatus) (output : Option String)
    (tools : List ConnectionTool) :
    (JobsService.afterResult env j runStatus output tools).wp (alone env may)
      (fun _ w₂ => w₂.db.jobBatches = w.db.jobBatches ∧
        ∃ j', w₂.db.jobs.get j.id = some j' ∧ j'.batchId = j.batchId ∧ j'.orgId = j.orgId) w₁ := by
  let I (w₂ : World) : Prop := w₂.db.jobBatches = w.db.jobBatches ∧
    ∃ j', w₂.db.jobs.get j.id = some j' ∧ j'.batchId = j.batchId ∧ j'.orgId = j.orgId
  refine JobsService.afterResult_keeps (I := I) runStatus output tools ?_ ?_ ?_
    ⟨hbatches, j, hj, rfl, rfl⟩
  · rintro w₂ w₃ _ tool c ⟨hb, j', hj', hsame⟩ _ hends
    have hafter : (w₂.insertJob c.data).db.jobs.get j.id = some j' := World.get_insertJob hj'
    cases hends with
    | job _ => exact ⟨hb, j', hafter, hsame⟩
    | run _ _ => exact ⟨hb, j', hafter, hsame⟩
    | queued _ => exact ⟨hb, j', hafter, hsame⟩
  · rintro ⟨hb, j', hj', hsame⟩
    exact ⟨hb, _, Table.get_update_self (Job.key_withPayload _) hj', hsame⟩
  · rintro w₂ uploads ⟨hb, hjob⟩
    exact ⟨hb, hjob⟩

/-- A report closes a cancelled batch only if it is one that reopens it. -/
theorem reportResult_staysCancelled (hI : Integrity w.db) {hostId jobRunId : Id}
    {dto : ReportResultDto} {tools : List ConnectionTool}
    (hop : ¬(Op.reportResult hostId jobRunId dto tools).Reopens w) :
    (AgentJobsController.reportResult env hostId jobRunId dto tools).wp (alone env may)
      (fun _ w' => StaysCancelled w w') w := by
  unfold AgentJobsController.reportResult
  rw [wp_ite]
  split_ifs with hstatus
  swap
  · exact (wp_throw _ _ _).mpr (.refl w)
  apply JobsService.reportJobResult_rule
  · exact fun _ => .refl w
  intro run j hrun hj hmine hrunning
  have hmem : j ∈ w.db.jobs.rows := (Table.get_eq_some.mp hj).1
  have hafter : (JobsService.afterResult env j dto.runStatus dto.output tools).wp (alone env may)
      (fun _ w₂ => w₂.db.jobBatches = w.db.jobBatches ∧
        ∃ j', w₂.db.jobs.get j.id = some j' ∧ j'.batchId = j.batchId ∧ j'.orgId = j.orgId)
      (w.updateJobRun jobRunId (.finish dto.runStatus dto.runResult)) :=
    afterResult_batches (w.updateJobRun jobRunId _) rfl (Table.get_key hmem) dto.runStatus dto.output tools
  refine wp_bind_of alone_monotone hafter ?_ ?_
  swap
  · rintro e w₁ ⟨hbatches, -⟩
    exact (StaysCancelled.refl w).of_eq hbatches
  rintro ⟨⟩ w₁ ⟨hbatches, j', hj', hbatch, horg⟩
  have hsame : StaysCancelled w w₁ := (StaysCancelled.refl w).of_eq hbatches
  cases hb : j.batchId with
  | none =>
    rw [if_neg (by simp)]
    exact (wp_pure _ _ _).mpr hsame
  | some b =>
    rw [if_pos Option.isSome_some, ← horg]
    obtain ⟨x, hx⟩ := hI.batchOfJob j hmem b hb
    have hx₁ : w₁.db.jobBatches.get b = some x := by rw [hbatches, hx]
    have hcount := hsame.updateJobBatch (b := b)
      (p := BatchesService.completion dto.runStatus .running) (.inr (.inl rfl))
    apply BatchesService.recordJobRunCompleted_rule _ _ hj' (hbatch.trans hb) hx₁
    · exact fun _ => hsame
    · exact fun _ _ => hcount.of_eq rfl
    · -- the counters say that no run is left, so the batch was not cancelled
      intro hpending hrunningCount _ status _
      have hopen : x.status ≠ .cancelled := by
        intro hc
        refine hop ⟨hstatus, run, j, b, x, hrun, hmine, hrunning, hj, hb, hx, hc, ?_, ?_⟩
        · simpa [BatchPatch.apply, BatchesService.completion] using hpending
        · simp only [BatchPatch.apply, BatchesService.completion, if_true] at hrunningCount
          omega
      have hclosed := hcount.updateJobBatch (b := b) (p := BatchesService.closing status)
        (.inl fun x' hx' => by rw [hx] at hx'; exact Option.some.inj hx' ▸ hopen)
      exact hclosed.of_eq rfl

end Report

/-- Of the other operations, none writes a status over that of a cancelled batch. -/
theorem Move.staysCancelled {o : Op} {w w₁ w₂ : World}
    (ho : ∀ hostId jobRunId dto tools, o ≠ .reportResult hostId jobRunId dto tools)
    (hm : Move env may o w₁ w₂) (h : StaysCancelled w w₁) : StaysCancelled w w₂ := by
  have hends {c : Creation} {w₃ : World} (hc : c.Ends may w₁ w₃) : StaysCancelled w w₃ := by
    cases hc <;> exact h.of_eq rfl
  cases hm with
  | create _ _ ends => exact hends ends
  | enforce _ _ _ => exact absurd rfl (ho _ _ _ _)
  | moderate _ ends => exact hends ends
  | fire _ ends => exact hends ends
  | book rescheduled =>
    obtain ⟨_, _, rfl, -⟩ := rescheduled
    exact h.of_eq rfl
  | batch _ => exact h.insertJobBatch _
  | batchJob _ _ _ ends => exact hends ends
  | cancelRun _ cancelled =>
    rcases cancelled with rfl | rfl
    · exact h.of_eq rfl
    · exact h.of_eq rfl
  | cancel _ => exact h.updateJobBatch (.inr (.inr rfl))
  | schedule _ _ _ _ retimed =>
    obtain ⟨_, rfl⟩ := retimed
    exact h.of_eq rfl
  | edit _ _ _ _ _ _ retimed =>
    obtain ⟨_, rfl⟩ := retimed
    exact h.of_eq rfl
  | promote promoted =>
    obtain ⟨_, rfl, -⟩ := promoted
    exact h.of_eq rfl
  | claim _ _ _ _ _ _ _ _ _ => exact h.of_eq rfl
  | drop _ _ _ _ => exact h.of_eq rfl
  | bookStart _ => exact h.updateJobBatch (.inr (.inl rfl))
  | finish _ _ _ _ => exact absurd rfl (ho _ _ _ _)
  | scrub _ _ => exact absurd rfl (ho _ _ _ _)
  | bookEnd _ _ => exact absurd rfl (ho _ _ _ _)
  | progress _ => exact h.of_eq rfl
  | release _ _ _ => exact h.of_eq rfl
  | removeHost _ _ => exact h.of_eq rfl
  | removeServer => exact h.of_eq rfl
  | tidy _ _ _ => exact h.of_eq rfl

/-- An operation that does not reopen a batch leaves the cancelled ones cancelled, whichever of its
calls fail. -/
theorem Op.staysCancelled {w : World} (hI : Integrity w.db) (o : Op) (ho : ¬o.Reopens w) :
    (o.prog env).wp (alone env may) (fun _ w' => StaysCancelled w w') w := by
  cases o with
  | reportResult hostId jobRunId dto tools =>
    exact wp_handsOutNothing (reportResult_staysCancelled hI ho)
  | _ =>
    refine wp_mono alone_monotone ?_ (Op.moves _ w)
    intro _ w' hm
    exact hm.keep (fun _ _ h hmove => hmove.staysCancelled (by simp) h) (.refl w)

/-- In a run none of whose operations reopens a batch, a batch that is cancelled after some
operation is cancelled in every later state. -/
theorem cancelled_is_final {w : World} {h : List (Turn Op Err (Option QueueJobData) World)}
    (hr : Runs (controlPlane env) (fun op _ w => ¬op.Reopens w) World.initial h w)
    {t : Turn Op Err (Option QueueJobData) World} (ht : t ∈ h) {b : Id} {x : JobBatch}
    (hx : t.after.db.jobBatches.get b = some x) (hc : x.status = .cancelled) :
    ∃ y, w.db.jobBatches.get b = some y ∧ y.status = .cancelled := by
  have hstays : Integrity w.db ∧ ∀ t ∈ h, StaysCancelled t.after w := by
    refine Runs.invariant (J := fun h w => Integrity w.db ∧ ∀ t ∈ h, StaysCancelled t.after w)
      ⟨Integrity.initial, fun t ht => nomatch ht⟩ ?_ ?_ hr
    · rintro h w op plan ⟨hI, hall⟩ hop
      have hwp : (op.prog env).wp (alone env fun _ _ => True)
          (fun _ w' => StaysCancelled w w') w := op.staysCancelled hI hop
      have hstep : StaysCancelled w ((controlPlane env).turn op plan w).after :=
        Program.run_of_wp hwp fun _ _ => trivial
      refine ⟨hI.turn op plan, fun t ht => ?_⟩
      rcases List.mem_cons.mp ht with rfl | ht
      · exact .refl _
      · exact (hall t ht).trans hstep
    · rintro h w w' ⟨hI, hall⟩ he
      refine ⟨hI.elsewhere he, fun t ht => (hall t ht).of_eq ?_⟩
      cases he <;> rfl
  exact hstays.2 t ht b x hx hc

section Wave

/-- The operations that a batch goes through. -/
def Op.IsBatchStep : Op → Bool
  | createBatch _ _ _ => true
  | poll _ _ => true
  | reportResult _ _ _ _ => true
  | cancelBatch _ _ _ => true
  | _ => false

/-- The small installation with a second server on the first host. -/
def World.twin : World :=
  { World.small with
    db.serverInstances := World.small.db.serverInstances.insert (smallServer 0 0 "gamma-pw")
      fun _ => rfl }

/-- The installation while both runs of a restart wave are running. -/
def World.twinClaimed : World :=
  (smallPlane.turn (.poll 0 false) [] (smallPlane.turn (.poll 0 false) []
    (smallPlane.turn (.createBatch 0 0 ⟨.restartWave, [0, 2], none⟩) [] .twin).after).after).after

/-- The turn that cancels the wave. -/
def twinCancelled : Turn Op Err (Option QueueJobData) World :=
  smallPlane.turn (.cancelBatch 0 0 0) [] .twinClaimed

/-- The turn in which one of the runs ends. -/
def twinReported : Turn Op Err (Option QueueJobData) World :=
  smallPlane.turn (.reportResult 0 0 ⟨"success", none, none, none, none⟩ []) [] twinCancelled.after

/-- The end of a run that leaves another one does not reopen the batch. -/
theorem cancelled_is_final_twinReported :
    (twinReported.after.db.jobBatches.get 0).map JobBatch.successCount = some 1 ∧
      ∃ y, twinReported.after.db.jobBatches.get 0 = some y ∧ y.status = .cancelled := by
  refine ⟨by decide +kernel, ?_⟩
  have hrunning : ∀ x ∈ twinCancelled.after.db.jobBatches.rows, x.runningCount = 2 := by
    decide +kernel
  have hreport : ¬(Op.reportResult 0 0 ⟨"success", none, none, none, none⟩ []).Reopens
      twinCancelled.after := by
    rintro ⟨-, run, j, b, x, -, -, -, -, -, hx, -, -, hlast⟩
    have htwo := hrunning x (Table.get_eq_some.mp hx).1
    omega
  have hr : Runs smallPlane (fun op _ w => ¬op.Reopens w) World.initial _ twinReported.after :=
    .turn _ [] (.turn (.cancelBatch 0 0 0) [] (.turn (.poll 0 false) [] (.turn (.poll 0 false) []
      (.turn (.createBatch 0 0 ⟨.restartWave, [0, 2], none⟩) []
        (.environment Runs.small (.createServerInstance _ (smallServer 0 0 "gamma-pw") (fun _ => rfl)
          ⟨_, rfl, rfl⟩)) fun h => h) fun h => h) fun h => h) fun h => h) hreport
  have hcancelled : (twinCancelled.after.db.jobBatches.get 0).map JobBatch.status =
      some .cancelled := by decide +kernel
  obtain ⟨x, hx, hc⟩ := Option.map_eq_some_iff.mp hcancelled
  exact cancelled_is_final hr (List.mem_cons_of_mem _ List.mem_cons_self) hx hc
/-- The small installation after its admin has cancelled the restart wave whose run is claimed. -/
def World.waveCancelled : World :=
  (smallPlane.turn (.cancelBatch 0 0 0) [] .waveClaimed).after

/-- The batch of the wave after it was cancelled. -/
def cancelledBatch : JobBatch :=
  ⟨0, 0, .restartWave, .cancelled, 1, 0, 1, 0, 0, 0, some 0, 0, some 0⟩

set_option maxRecDepth 100000 in
/-- A wave that was cancelled while its only run was running is completed when the run ends. -/
theorem cancelled_not_final :
    ¬ ∀ h w, Runs smallPlane (fun op plan _ => plan = [] ∧ op.IsBatchStep = true)
      World.initial h w → ∀ t ∈ h, ∀ b x, t.op = .cancelBatch 0 0 b →
        t.after.db.jobBatches.get b = some x → x.status = .cancelled →
          ∃ y, w.db.jobBatches.get b = some y ∧ y.status = .cancelled := by
  intro hall
  have hrun : ∃ h, Runs smallPlane (fun op plan _ => plan = [] ∧ op.IsBatchStep = true)
      World.initial h World.waveClaimed := Runs.waveClaimed ⟨rfl, rfl⟩ ⟨rfl, rfl⟩
  obtain ⟨_, hr⟩ := hrun
  have hr' := Runs.turn (.cancelBatch 0 0 0) [] hr ⟨rfl, rfl⟩
  have hreport := Runs.turn (.reportResult 0 0 ⟨"success", none, none, none, none⟩ []) [] hr'
    ⟨rfl, rfl⟩
  obtain ⟨y, hy, hc⟩ := hall _ _ hreport _ (List.mem_cons_of_mem _ List.mem_cons_self) 0
    cancelledBatch rfl rfl rfl
  have hcompleted : ((smallPlane.turn (.reportResult 0 0 ⟨"success", none, none, none, none⟩ []) []
      World.waveCancelled).after.db.jobBatches.get 0).map JobBatch.status = some .completed := by
    decide
  rw [show (smallPlane.turn (.reportResult 0 0 ⟨"success", none, none, none, none⟩ []) []
      World.waveCancelled).after.db.jobBatches.get 0 = some y from hy, Option.map_some, hc]
    at hcompleted
  exact absurd hcompleted (by decide)

end Wave

end Mastermind
