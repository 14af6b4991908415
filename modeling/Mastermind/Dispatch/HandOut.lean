import Mastermind.Dispatch.Rules

/-!
# The order of the hand-out

One queue of an organization holds the jobs of all its hosts, and a poll takes the first entry for
its host that `getJobs` lists. BullMQ lists newest first, and at most 500 entries of each state
(`newestFirst`). So the mutation jobs of a host are handed out in the order of their entry only
where each poll finds no older one of them, and a poll that hands out nothing may overlook an entry
outside the window (`handed_in_order`, with the condition `Orderly` on the state of each poll).
-/

namespace Mastermind

open Effect Effect.Program JobsQueueService

/-- What BullMQ's `getJobs(['waiting', 'delayed'], 0, 499)` lists: of each state the 500 entries
added last, newest first. -/
def newestFirst (queue : List QueueEntry) : List QueueEntry :=
  ((queue.filter fun e => e.delay == 0).reverse.take 500) ++
    ((queue.filter fun e => e.delay != 0).reverse.take 500)

/-- Whether a poll of the host takes the entry. -/
def QueueEntry.eligible (hostId : Id) (mutationBusy : Bool) (e : QueueEntry) : Bool :=
  decide (e.data.hostId = hostId ∧ ¬(mutationBusy = true ∧ isReadOnly e.data.type = false))

/-- Whether the entry is a mutation job of the host. -/
def QueueEntry.mutates (hostId : Id) (e : QueueEntry) : Bool :=
  e.data.hostId == hostId && !isReadOnly e.data.type

section OnePoll

variable {env : Env} {w : World} {orgId hostId : Id} {mutationBusy : Bool}

/-- The calls of a poll succeed. -/
abbrev never (_ : Stmt) (_ : World) : Prop := False

/-- Making an entry due before it is removed changes nothing else. -/
theorem dequeue_promote (w : World) (orgId id : Id) :
    (w.promote orgId id).dequeue orgId id = w.dequeue orgId id := by
  have hfilter (queue : List QueueEntry) :
      ((queue.map fun e => if e.id == id then { e with delay := 0 } else e).filter
        fun e => e.id != id) = queue.filter fun e => e.id != id := by
    induction queue with
    | nil => rfl
    | cons e queue ih =>
      rw [List.map_cons, List.filter_cons, List.filter_cons, ih]
      by_cases he : e.id = id
      · simp [he]
      · simp [he]
  simp only [World.promote, World.dequeue, World.setQueue, Function.update_self,
    Function.update_idem, hfilter]

/-- A claim takes the entry out of the queue. -/
theorem claim_succeeds (orgId : Id) (job : QueueEntry) :
    (claim orgId job).wp (alone env never)
      (fun r w' => r = .ok (some job.data) ∧ w' = w.dequeue orgId job.id) w := by
  unfold claim claim.promote
  rw [wp_tryCatch, wp_bind, wp_ite]
  split_ifs
  · rw [wp_request, alone_apply]
    refine ⟨?_, fun _ h => h.elim⟩
    rw [exec, andThen_ok, wp_bind, wp_request, alone_apply]
    refine ⟨?_, fun _ h => h.elim⟩
    rw [exec, andThen_ok, wp_pure, orElse_ok]
    exact ⟨rfl, dequeue_promote w orgId job.id⟩
  · rw [wp_pure, andThen_ok, wp_bind, wp_request, alone_apply]
    refine ⟨?_, fun _ h => h.elim⟩
    rw [exec, andThen_ok, wp_pure, orElse_ok]
    exact ⟨rfl, rfl⟩

/-- The loop of a poll takes the first entry listed that is for the host, if there is one. -/
theorem claimFirst_succeeds (orgId hostId : Id) (mutationBusy : Bool)
    (waiting : List QueueEntry) :
    (claimFirst orgId hostId mutationBusy waiting).wp (alone env never)
      (fun r w' =>
        (waiting.find? (QueueEntry.eligible hostId mutationBusy) = none ∧ r = .ok none ∧ w' = w) ∨
        ∃ e, waiting.find? (QueueEntry.eligible hostId mutationBusy) = some e ∧
          r = .ok (some e.data) ∧ w' = w.dequeue orgId e.id) w := by
  induction waiting with
  | nil => exact (wp_pure _ _ _).mpr (.inl ⟨rfl, rfl, rfl⟩)
  | cons job waiting ih =>
    unfold claimFirst
    rw [wp_ite]
    by_cases hmine : job.data.hostId = hostId ∧
        ¬(mutationBusy = true ∧ isReadOnly job.data.type = false)
    · rw [if_pos hmine]
      have hfind : (job :: waiting).find? (QueueEntry.eligible hostId mutationBusy) = some job :=
        List.find?_cons_of_pos (decide_eq_true hmine)
      refine wp_bind_of alone_monotone (claim_succeeds orgId job) ?_ ?_
      · rintro a w' ⟨hr, rfl⟩
        cases hr
        exact (wp_pure _ _ _).mpr (.inr ⟨job, hfind, rfl, rfl⟩)
      · rintro e w' ⟨hr, -⟩
        cases hr
    · rw [if_neg hmine]
      have hfind : (job :: waiting).find? (QueueEntry.eligible hostId mutationBusy) =
          waiting.find? (QueueEntry.eligible hostId mutationBusy) :=
        List.find?_cons_of_neg (by simpa [QueueEntry.eligible] using hmine)
      rw [hfind]
      exact ih

/-- What a poll whose calls succeed hands out. -/
theorem getNextJobForHost_succeeds (env : Env) (w : World) (orgId hostId : Id) (mutationBusy : Bool) :
    (getNextJobForHost orgId hostId mutationBusy).wp (alone env never)
      (fun r w' =>
        ((env.getJobs (w.queues orgId)).find? (QueueEntry.eligible hostId mutationBusy) = none ∧
          r = .ok none ∧ w' = w) ∨
        ∃ e, (env.getJobs (w.queues orgId)).find? (QueueEntry.eligible hostId mutationBusy) =
            some e ∧ r = .ok (some e.data) ∧ w' = w.dequeue orgId e.id) w := by
  unfold getNextJobForHost
  rw [wp_bind, wp_request, alone_apply]
  refine ⟨?_, fun _ h => h.elim⟩
  rw [exec, andThen_ok]
  exact claimFirst_succeeds orgId hostId mutationBusy _

end OnePoll

section History

/-- What happens to the queues: entries are added and polls take them. -/
inductive QueueOp where
  | add (orgId : Id) (entry : QueueEntry)
  | next (orgId hostId : Id) (mutationBusy : Bool)

/-- The program of an operation on a queue. -/
def QueueOp.prog : QueueOp → Service (Option QueueJobData)
  | .add orgId entry => do
    query (.queueAdd orgId entry)
    return none
  | .next orgId hostId mutationBusy => getNextJobForHost orgId hostId mutationBusy

/-- The queues, with no other consumer. -/
def queueSystem (env : Env) :
    System QueueOp Stmt.Resp Err (Option QueueJobData) World :=
  ⟨machine env, QueueOp.prog, fun _ _ => False⟩

/-- A turn of the queues. -/
abbrev QueueTurn := Turn QueueOp Err (Option QueueJobData) World

/-- The data of the host's mutation jobs in a queue, oldest first. -/
def mutationsOf (hostId : Id) (queue : List QueueEntry) : List QueueJobData :=
  (queue.filter (QueueEntry.mutates hostId)).map QueueEntry.data

/-- The host's mutation jobs that were added to the queue, in this order. An addition whose id the
queue holds adds nothing. -/
def added (orgId hostId : Id) : List QueueTurn → List QueueJobData
  | [] => []
  | t :: h => added orgId hostId h ++ match t.op with
    | .add org entry =>
      if org = orgId ∧ entry.mutates hostId = true ∧
          ¬((t.before.queues orgId).any fun e => e.id == entry.id) = true then [entry.data]
      else []
    | .next _ _ _ => []

/-- The host's mutation jobs that polls of the host handed out, in this order. -/
def handedOut (orgId hostId : Id) : List QueueTurn → List QueueJobData
  | [] => []
  | t :: h => handedOut orgId hostId h ++ match t.op, t.result with
    | .next org host _, .ok (some data) =>
      if org = orgId ∧ host = hostId ∧ isReadOnly data.type = false then [data] else []
    | _, _ => []

/-- A poll of a queue is orderly if it sees an entry for the host where there is one, and if the
newest entry for the host that it sees is a read job or the host's oldest mutation job. -/
def Orderly (hostId : Id) (mutationBusy : Bool) (queue : List QueueEntry) : Prop :=
  ((∃ e ∈ queue, e.eligible hostId mutationBusy = true) →
    ∃ e ∈ newestFirst queue, e.eligible hostId mutationBusy = true) ∧
  ∀ e, (newestFirst queue).find? (QueueEntry.eligible hostId mutationBusy) = some e →
    isReadOnly e.data.type = true ∨ (queue.filter (QueueEntry.mutates hostId)).head? = some e

/-- An operation whose calls succeed, and which is orderly if it is a poll. -/
def orderly (op : QueueOp) (plan : List Bool) (w : World) : Prop :=
  plan = [] ∧ match op with
    | .add _ _ => True
    | .next orgId hostId mutationBusy => Orderly hostId mutationBusy (w.queues orgId)

/-- A history from `w₀` to `w` is in order: in each organization, the mutation jobs of a host are
handed out in the order in which they were added, and no poll that handed out nothing left an entry
for its host. -/
def HandsOutInOrder (w₀ : World) (h : List QueueTurn) (w : World) : Prop :=
  (∀ orgId hostId, handedOut orgId hostId h ++ mutationsOf hostId (w.queues orgId) =
    mutationsOf hostId (w₀.queues orgId) ++ added orgId hostId h) ∧
  ∀ t ∈ h, ∀ orgId hostId mutationBusy, t.op = .next orgId hostId mutationBusy →
    t.result = .ok none → ∀ e ∈ t.before.queues orgId, e.eligible hostId mutationBusy = false

/-- The ids of the entries of every queue are distinct. -/
def DistinctEntries (w : World) : Prop :=
  ∀ orgId, ((w.queues orgId).map QueueEntry.id).Nodup

/-- What is listed is in the queue. -/
theorem mem_of_mem_newestFirst {queue : List QueueEntry} {e : QueueEntry}
    (h : e ∈ newestFirst queue) : e ∈ queue := by
  rcases List.mem_append.mp h with h | h
  all_goals exact List.mem_of_mem_filter (List.mem_reverse.mp (List.mem_of_mem_take h))

/-- Removing an entry that is none of the host's mutation jobs leaves those as they are. -/
theorem mutationsOf_remove_other {queue : List QueueEntry} {e : QueueEntry} {hostId : Id}
    (hd : (queue.map QueueEntry.id).Nodup) (he : e ∈ queue) (hm : e.mutates hostId = false) :
    mutationsOf hostId (queue.filter fun x => x.id != e.id) = mutationsOf hostId queue := by
  rw [mutationsOf, mutationsOf, List.filter_filter]
  congr 1
  refine List.filter_congr fun x hx => ?_
  by_cases hid : x.id = e.id
  · obtain rfl : x = e := List.inj_on_of_nodup_map hd hx he hid
    simp [hm]
  · simp [hid]

/-- Removing the host's oldest mutation job takes the first of them. -/
theorem mutationsOf_remove_first {queue : List QueueEntry} {e : QueueEntry} {hostId : Id}
    (hd : (queue.map QueueEntry.id).Nodup)
    (hfirst : (queue.filter (QueueEntry.mutates hostId)).head? = some e) :
    mutationsOf hostId queue =
      e.data :: mutationsOf hostId (queue.filter fun x => x.id != e.id) := by
  obtain ⟨rest, hrest⟩ : ∃ rest, queue.filter (QueueEntry.mutates hostId) = e :: rest := by
    cases hq : queue.filter (QueueEntry.mutates hostId) with
    | nil => simp [hq] at hfirst
    | cons x rest => exact ⟨rest, by simpa [hq] using hfirst⟩
  have hsub : ((e :: rest).map QueueEntry.id).Nodup :=
    hrest ▸ hd.sublist (List.filter_sublist.map QueueEntry.id)
  have hkeep : (e :: rest).filter (fun x => x.id != e.id) = rest := by
    rw [List.filter_cons_of_neg (by simp), List.filter_eq_self]
    intro x hx
    rw [List.map_cons, List.nodup_cons] at hsub
    have hne : x.id ≠ e.id := fun hc => hsub.1 (hc ▸ List.mem_map_of_mem hx)
    simpa using hne
  rw [mutationsOf, mutationsOf, List.filter_comm, hrest, hkeep, List.map_cons]

/-- Adding an entry keeps the ids distinct. -/
theorem DistinctEntries.enqueue {w : World} (hd : DistinctEntries w) (orgId : Id)
    (entry : QueueEntry) : DistinctEntries (w.enqueue orgId entry) := by
  intro org
  rw [World.enqueue, World.queues_setQueue]
  by_cases horg : org = orgId
  · subst horg
    rw [Function.update_self]
    split_ifs with hany
    · exact hd org
    · have hfresh : ∀ e ∈ w.queues org, e.id ≠ entry.id := by simpa using hany
      rw [List.map_append, List.map_singleton, List.nodup_append]
      refine ⟨hd org, List.nodup_singleton _, ?_⟩
      intro i hi j hj
      obtain ⟨e, he, rfl⟩ := List.mem_map.mp hi
      rw [List.mem_singleton.mp hj]
      exact hfresh e he
  · rw [Function.update_of_ne horg]
    exact hd org

/-- Removing an entry keeps the ids distinct. -/
theorem DistinctEntries.dequeue {w : World} (hd : DistinctEntries w) (orgId id : Id) :
    DistinctEntries (w.dequeue orgId id) := by
  intro org
  rw [World.dequeue, World.queues_setQueue]
  by_cases horg : org = orgId
  · subst horg
    rw [Function.update_self]
    exact (hd org).sublist (List.filter_sublist.map QueueEntry.id)
  · rw [Function.update_of_ne horg]
    exact hd org

/-- The host's mutation jobs after an addition. -/
theorem mutationsOf_enqueue (w : World) (orgId org hostId : Id) (entry : QueueEntry) :
    mutationsOf hostId ((w.enqueue org entry).queues orgId) =
      mutationsOf hostId (w.queues orgId) ++
        if org = orgId ∧ entry.mutates hostId = true ∧
            ¬((w.queues orgId).any fun e => e.id == entry.id) = true then [entry.data]
        else [] := by
  rw [World.enqueue, World.queues_setQueue]
  by_cases horg : orgId = org
  · subst horg
    rw [Function.update_self]
    by_cases hany : ((w.queues orgId).any fun e => e.id == entry.id) = true
    · simp [hany]
    · rw [if_neg hany]
      by_cases hm : entry.mutates hostId = true
      · simp [mutationsOf, hany, hm]
      · simp [mutationsOf, hm]
  · rw [Function.update_of_ne horg, if_neg fun h => horg h.1.symm, List.append_nil]

variable {env : Env} {w₀ w : World} {h : List QueueTurn}

/-- An addition keeps the order. -/
theorem HandsOutInOrder.add (hh : HandsOutInOrder w₀ h w) (org : Id) (entry : QueueEntry) :
    HandsOutInOrder w₀ (⟨.add org entry, w, .ok none, w.enqueue org entry⟩ :: h)
      (w.enqueue org entry) := by
  refine ⟨fun orgId hostId => ?_, ?_⟩
  · have hold := hh.1 orgId hostId
    rw [handedOut, added, List.append_nil, mutationsOf_enqueue, ← List.append_assoc,
      ← List.append_assoc, hold]
  · intro t ht orgId hostId busy hop
    rcases List.mem_cons.mp ht with rfl | ht
    · cases hop
    · exact hh.2 t ht orgId hostId busy hop

/-- An orderly poll that hands out nothing keeps the order. -/
theorem HandsOutInOrder.nothing (hh : HandsOutInOrder w₀ h w) {org host : Id} {busy : Bool}
    (ho : Orderly host busy (w.queues org))
    (hfind : (newestFirst (w.queues org)).find? (QueueEntry.eligible host busy) = none) :
    HandsOutInOrder w₀ (⟨.next org host busy, w, .ok none, w⟩ :: h) w := by
  refine ⟨fun orgId hostId => ?_, ?_⟩
  · rw [handedOut, added, List.append_nil, List.append_nil]
    exact hh.1 orgId hostId
  · intro t ht orgId hostId busy' hop hres e he
    rcases List.mem_cons.mp ht with rfl | ht
    · cases hop
      by_contra hel
      rw [Bool.not_eq_false] at hel
      obtain ⟨e', he', hel'⟩ := ho.1 ⟨e, he, hel⟩
      exact absurd hel' (List.find?_eq_none.mp hfind e' he')
    · exact hh.2 t ht orgId hostId busy' hop hres e he

/-- An orderly poll that hands out an entry keeps the order. -/
theorem HandsOutInOrder.taken (hh : HandsOutInOrder w₀ h w) (hd : DistinctEntries w)
    {org host : Id} {busy : Bool} {e : QueueEntry} (ho : Orderly host busy (w.queues org))
    (hfind : (newestFirst (w.queues org)).find? (QueueEntry.eligible host busy) = some e) :
    HandsOutInOrder w₀ (⟨.next org host busy, w, .ok (some e.data), w.dequeue org e.id⟩ :: h)
      (w.dequeue org e.id) := by
  have he : e ∈ w.queues org := mem_of_mem_newestFirst (List.mem_of_find?_eq_some hfind)
  have hhost : e.data.hostId = host := by
    have hel := List.find?_some hfind
    rw [QueueEntry.eligible, decide_eq_true_eq] at hel
    exact hel.1
  refine ⟨fun orgId hostId => ?_, ?_⟩
  · have hold := hh.1 orgId hostId
    rw [handedOut, added, List.append_nil, ← hold, World.dequeue, World.queues_setQueue]
    by_cases horg : orgId = org
    · subst horg
      rw [Function.update_self]
      by_cases hm : e.mutates hostId = true
      · -- the host's oldest mutation job
        have hmine : e.data.hostId = hostId ∧ isReadOnly e.data.type = false := by
          simpa [QueueEntry.mutates] using hm
        obtain rfl : host = hostId := hhost.symm.trans hmine.1
        have hfirst := (ho.2 e hfind).resolve_left (by simp [hmine.2])
        rw [mutationsOf_remove_first (hd orgId) hfirst]
        simp [hmine.2]
      · rw [Bool.not_eq_true] at hm
        rw [mutationsOf_remove_other (hd orgId) he hm]
        have hno : ¬(orgId = orgId ∧ host = hostId ∧ isReadOnly e.data.type = false) := by
          rintro ⟨-, rfl, hread⟩
          simp [QueueEntry.mutates, hhost, hread] at hm
        dsimp only
        rw [if_neg hno, List.append_nil]
    · rw [Function.update_of_ne horg]
      have hno : ¬(org = orgId ∧ host = hostId ∧ isReadOnly e.data.type = false) :=
        fun hc => horg hc.1.symm
      dsimp only
      rw [if_neg hno, List.append_nil]
  · intro t ht orgId hostId busy' hop hres
    rcases List.mem_cons.mp ht with rfl | ht
    · cases hres
    · exact hh.2 t ht orgId hostId busy' hop hres

/-- In every history of additions and orderly polls, from any queues, the mutation jobs of a host
are handed out in the order in which they were added, and a poll that hands out nothing leaves no
entry for its host. -/
theorem handed_in_order (hlists : ∀ queue, env.getJobs queue = newestFirst queue)
    (hd : DistinctEntries w₀) (hr : Runs (queueSystem env) orderly w₀ h w) :
    HandsOutInOrder w₀ h w := by
  suffices hboth : DistinctEntries w ∧ HandsOutInOrder w₀ h w from hboth.2
  refine Runs.invariant (J := fun h w => DistinctEntries w ∧ HandsOutInOrder w₀ h w) ?_ ?_ ?_ hr
  · exact ⟨hd, fun _ _ => by simp [handedOut, added], fun t ht => by cases ht⟩
  · rintro h w op plan ⟨hd, hh⟩ ⟨rfl, ho⟩
    cases op with
    | add org entry => exact ⟨hd.enqueue org entry, hh.add org entry⟩
    | next org host busy =>
      have hspec := after_of_wp (getNextJobForHost_succeeds env w org host busy)
      simp only [hlists] at hspec
      show DistinctEntries ((getNextJobForHost org host busy).after (machine env) w) ∧
        HandsOutInOrder w₀ (⟨.next org host busy, w,
          (getNextJobForHost org host busy).result (machine env) w,
          (getNextJobForHost org host busy).after (machine env) w⟩ :: h)
          ((getNextJobForHost org host busy).after (machine env) w)
      rcases hspec with ⟨hfind, hres, hafter⟩ | ⟨e, hfind, hres, hafter⟩
      · rw [hres, hafter]
        exact ⟨hd, hh.nothing ho hfind⟩
      · rw [hres, hafter]
        exact ⟨hd.dequeue org e.id, hh.taken hd ho hfind⟩
  · rintro h w w' _ he
    exact he.elim

/-- An environment in which `getJobs` lists as BullMQ does. -/
def Env.newest : Env :=
  { Env.everyMinute with
    getJobs := newestFirst
    getJobs_subset := fun _ _ => mem_of_mem_newestFirst }

/-- A job of host 0 in the queue of organization 0. -/
def QueueEntry.restart (id : Id) : QueueEntry :=
  ⟨id, "SERVER_RESTART", ⟨id, id, 0, none, "SERVER_RESTART", [], none⟩, 0, 3, .exponential 2000⟩

theorem distinctEntries_initial : DistinctEntries World.initial := fun _ => List.nodup_nil

/-- Two jobs are handed out in the order in which they were added, the first one before the second
is there. -/
theorem handed_in_order_two :
    ∃ h w, Runs (queueSystem .newest) orderly World.initial h w ∧
      (handedOut 0 0 h).map QueueJobData.jobRunId = [7, 8] ∧ HandsOutInOrder World.initial h w := by
  have horderly (id : Id) : Orderly 0 false [QueueEntry.restart id] :=
    ⟨fun _ => ⟨_, List.mem_cons_self, rfl⟩, fun e he => .inr he⟩
  have hadd : Runs (queueSystem .newest) orderly World.initial _ _ :=
    .turn (.add 0 (.restart 7)) [] .init ⟨rfl, trivial⟩
  have hpoll : Runs (queueSystem .newest) orderly World.initial _ _ :=
    .turn (.next 0 0 false) [] hadd ⟨rfl, horderly 7⟩
  have hagain : Runs (queueSystem .newest) orderly World.initial _ _ :=
    .turn (.add 0 (.restart 8)) [] hpoll ⟨rfl, trivial⟩
  have hlast : Runs (queueSystem .newest) orderly World.initial _ _ :=
    .turn (.next 0 0 false) [] hagain ⟨rfl, horderly 8⟩
  exact ⟨_, _, hlast, by decide, handed_in_order (fun _ => rfl) distinctEntries_initial hlast⟩

/-- Of two jobs of one host that wait, the newer is handed out. -/
theorem handed_newest_first :
    ¬ ∀ env w₀ h w, (∀ queue, Env.getJobs env queue = newestFirst queue) → DistinctEntries w₀ →
      Runs (queueSystem env) (fun _ plan _ => plan = []) w₀ h w → HandsOutInOrder w₀ h w := by
  intro hall
  have hone : Runs (queueSystem .newest) (fun _ plan _ => plan = []) World.initial _ _ :=
    .turn (.add 0 (.restart 7)) [] .init rfl
  have htwo : Runs (queueSystem .newest) (fun _ plan _ => plan = []) World.initial _ _ :=
    .turn (.add 0 (.restart 8)) [] hone rfl
  have hpoll : Runs (queueSystem .newest) (fun _ plan _ => plan = []) World.initial _ _ :=
    .turn (.next 0 0 false) [] htwo rfl
  have horder := (hall _ _ _ _ (fun _ => rfl) distinctEntries_initial hpoll).1 0 0
  have hids := congrArg (List.map QueueJobData.jobRunId) horder
  revert hids
  decide

end History

end Mastermind
