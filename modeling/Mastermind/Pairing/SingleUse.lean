import Mastermind.Pairing.Service

/-!
# A pairing token is used once

A request to pair looks the token up, checks that it is not used, creates the host, marks the token
as used and issues the agent key, each in a call of its own. `single_use_of_reaches` is about every
interleaving of such requests in which no request looks up a token that another one has found unused
and has not yet marked (`Apart`): a token then creates at most one host, issues at most one key, and
lets at most one request succeed. A request that creates its host and then fails to mark the token
leaves it unmarked for good, so that no later lookup of that token is apart from it.

The monitor `redeeming` follows a request from the token that it has found to the key. The invariant
`Redeemed` says that one request at most holds on to a token.
-/

namespace Mastermind.Pairing

open Effect Effect.Program

/-- A request to pair, with the address that it comes from. -/
structure PairRequest where
  dto : PairRequestDto
  clientIp : Option String

/-- The hash by which a request looks its token up. -/
def PairRequest.tokenHash (env : Env) (q : PairRequest) : String :=
  env.sha256 (trim q.dto.pairingToken)

/-- No two tokens have the same hash. -/
def Store.Distinct (w : Store) : Prop :=
  ∀ t ∈ w.pairingTokens.rows, ∀ t' ∈ w.pairingTokens.rows, t.tokenHash = t'.tokenHash → t = t'

/-- What everything else does to the tokens: it creates new ones from fresh random bytes, and keeps
the others. -/
structure TokensKept (w w' : Store) : Prop where
  kept : ∀ i t, w.pairingTokens.get i = some t → ∃ t', w'.pairingTokens.get i = some t' ∧
    t'.tokenHash = t.tokenHash ∧ (t.usedAt.isSome = true → t'.usedAt.isSome = true)
  fresh : w.Distinct → w'.Distinct

/-- The requests to pair, and everything else around them. -/
def redeemers (env : Env) : System PairRequest Stmt.Resp Err PairResponse Store :=
  ⟨machine env, fun q => PairingService.pair env q.dto q.clientIp, TokensKept⟩

/-- A call of one of the operations. -/
abbrev PairEvent := Event Stmt.Resp Err Store

/-- The call creates a host. -/
def PairEvent.CreatesHost (e : PairEvent) : Prop :=
  (∃ orgId name, e.stmt = .hostCreate orgId name) ∧ e.answer.isOk = true

/-- The call issues an agent key. -/
def PairEvent.IssuesKey (e : PairEvent) : Prop :=
  (∃ payload, e.stmt = .jwtSign payload) ∧ e.answer.isOk = true

/-! ## What one request does -/

/-- How far a request is: it has found an unused token, has found it not expired, has created the
host, marked the token and issued the key. `ended` is a request that has given up before it has
created a host. -/
inductive Redeeming where
  | start
  | found (t : PairingToken)
  | live (t : PairingToken)
  | created (t : PairingToken)
  | marked (t : PairingToken)
  | issued (t : PairingToken)
  | ended

namespace Redeeming

/-- The token that a request holds on to. -/
def token? : Redeeming → Option PairingToken
  | found t => some t
  | live t => some t
  | created t => some t
  | marked t => some t
  | issued t => some t
  | _ => none

/-- The stages that count: the host is created, the token marked, the key issued. -/
def rank : Redeeming → ℕ
  | created _ => 1
  | marked _ => 2
  | issued _ => 3
  | _ => 0

end Redeeming

/-- A request that finds an unused token that has not expired creates a host, marks the token and
issues the key. -/
def redeeming : Monitor Stmt.Resp Err Redeeming where
  start := .start
  allowed q s := match q, s with
    | .start, .pairingTokenFindFirst _ => True
    | .found _, .dateNow => True
    | .live _, .dateNow => True
    | .live _, .hostCreate _ _ => True
    | .created t, .pairingTokenUpdate id _ => id = t.id
    | .marked _, .jwtSign _ => True
    | .issued _, .auditLogCreate _ => True
    | _, _ => False
  possible _ s r := match s, r with
    | .jwtSign _, .error _ => False
    | _, _ => True
  next q s r := match q, s, r with
    | .start, .pairingTokenFindFirst _, .ok (some t) =>
      if t.usedAt.isSome = true then .ended else .found t
    | .start, .pairingTokenFindFirst _, _ => .ended
    | .found t, .dateNow, .ok now => if t.expiresAt < now then .ended else .live t
    | .live t, .hostCreate _ _, .ok _ => .created t
    | .live _, .hostCreate _ _, .error _ => .ended
    | .created t, .pairingTokenUpdate _ _, .ok _ => .marked t
    | .marked t, .jwtSign _, .ok _ => .issued t
    | q, _, _ => q

section Programs

variable {env : Env}

/-- Naming the host leads nowhere. -/
theorem hostName_redeems (dto : PairRequestDto) (t : PairingToken) :
    (PairingService.hostName env dto).wp redeeming.requires (fun _ q => q = .live t) (.live t) := by
  unfold PairingService.hostName PairingService.hostName.unnamed
  have hunnamed : (do let now ← query .dateNow; return "Host " ++ env.isoSecond now :
      Service String).wp redeeming.requires (fun _ q => q = .live t) (.live t) :=
    redeeming.bind_request trivial (fun _ _ => (wp_pure _ _ _).mpr rfl) fun _ => rfl
  split
  · exact hunnamed
  · exact hunnamed
  · exact (wp_pure _ _ _).mpr rfl

/-- A request that succeeds has issued a key. -/
theorem pair_redeems (q : PairRequest) :
    (PairingService.pair env q.dto q.clientIp).wp redeeming.requires
      (fun r q' => ∀ resp, r = .ok resp → ∃ t, q' = .issued t) .start := by
  have herror : ∀ (e : Err) (q' : Redeeming) (resp : PairResponse),
      (.error e : Except Err PairResponse) = .ok resp → ∃ t, q' = .issued t :=
    fun e q' resp h => by cases h
  unfold PairingService.pair
  refine redeeming.bind_request trivial (fun found _ => ?_) fun e => herror e _
  cases found with
  | none => exact (wp_throw _ _ _).mpr (herror _ _)
  | some t =>
    dsimp only
    rw [wp_ite]
    by_cases hused : t.usedAt.isSome = true
    · rw [if_pos hused]
      exact (wp_throw _ _ _).mpr (herror _ _)
    rw [if_neg hused]
    have hnext : redeeming.next .start
        (.pairingTokenFindFirst (env.sha256 (trim q.dto.pairingToken))) (.ok (some t)) = .found t :=
      if_neg hused
    show Program.wp _ _ _ (redeeming.next .start
      (.pairingTokenFindFirst (env.sha256 (trim q.dto.pairingToken))) (.ok (some t)))
    rw [hnext]
    refine redeeming.bind_request trivial (fun now _ => ?_) fun e => herror e _
    rw [wp_ite]
    by_cases hexpired : t.expiresAt < now
    · rw [if_pos hexpired]
      exact (wp_throw _ _ _).mpr (herror _ _)
    rw [if_neg hexpired]
    have hnext : redeeming.next (.found t) .dateNow (.ok now) = .live t := if_neg hexpired
    show Program.wp _ _ _ (redeeming.next (.found t) .dateNow (.ok now))
    rw [hnext]
    unfold PairingService.redeem
    refine wp_bind_of redeeming.requires_monotone (hostName_redeems q.dto t) ?_ ?_
    · rintro name _ rfl
      refine redeeming.bind_request trivial (fun host _ => ?_) fun e => herror e _
      refine redeeming.bind_request rfl (fun _ _ => ?_) fun e => herror e _
      unfold PairingService.signAgentKey
      refine redeeming.bind_request trivial (fun key _ => ?_) fun e => herror e _
      refine redeeming.bind_request trivial (fun _ _ => ?_) fun e => herror e _
      exact (wp_pure _ _ _).mpr fun resp _ => ⟨t, rfl⟩
    · rintro e _ rfl
      exact herror e _

/-- A request looks up no other token than its own. -/
theorem pair_uses (q : PairRequest) :
    Uses (fun s => ∀ h, s = .pairingTokenFindFirst h → h = q.tokenHash env)
      (PairingService.pair env q.dto q.clientIp) := by
  have hother : ∀ {s : Stmt}, (∀ h, s ≠ .pairingTokenFindFirst h) →
      Uses (fun s => ∀ h, s = .pairingTokenFindFirst h → h = q.tokenHash env) (query s) :=
    fun hs => .request fun h hh => absurd hh (hs h)
  unfold PairingService.pair
  refine .bind (.request fun h hh => (Stmt.pairingTokenFindFirst.inj hh).symm) fun found => ?_
  split
  · exact .throw _
  refine .ite (.throw _) (.bind (hother fun h hh => by cases hh) fun now => .ite (.throw _) ?_)
  unfold PairingService.redeem PairingService.hostName PairingService.hostName.unnamed
  refine .bind ?_ fun name => .bind (hother fun h hh => by cases hh) fun host =>
    .bind (hother fun h hh => by cases hh) fun _ => .bind (hother fun h hh => by cases hh) fun _ =>
      .bind (hother fun h hh => by cases hh) fun _ => .pure _
  split
  · exact .bind (hother fun h hh => by cases hh) fun _ => .pure _
  · exact .bind (hother fun h hh => by cases hh) fun _ => .pure _
  · exact .pure _

end Programs

/-! ## What one call does -/

/-- What a call of a request in the phase `q` does: the next phase, and what becomes of the
tokens. -/
inductive RedeemMove (w w' : Store) (q : Redeeming) (s : Stmt) (ok : Bool) : Redeeming → Prop where
  | found (t : PairingToken) (start : q = .start) (stmt : s = .pairingTokenFindFirst t.tokenHash)
      (mem : w.pairingTokens.get t.id = some t) (unused : t.usedAt = none)
      (same : w'.pairingTokens = w.pairingTokens) : RedeemMove w w' q s ok (.found t)
  | ended (early : q.rank = 0) (silent : ∀ payload, s ≠ .jwtSign payload)
      (failed : (∃ orgId name, s = .hostCreate orgId name) → ok = false)
      (same : w'.pairingTokens = w.pairingTokens) : RedeemMove w w' q s ok .ended
  | quiet (q' : Redeeming) (token : q'.token? = q.token?) (rank : q'.rank = q.rank)
      (silent : ∀ payload, s ≠ .jwtSign payload) (create : ∀ orgId name, s ≠ .hostCreate orgId name)
      (same : w'.pairingTokens = w.pairingTokens) : RedeemMove w w' q s ok q'
  | created (t : PairingToken) (live : q = .live t) (orgId : Id) (name : String)
      (stmt : s = .hostCreate orgId name) (same : w'.pairingTokens = w.pairingTokens) :
      RedeemMove w w' q s ok (.created t)
  | marked (t : PairingToken) (created : q = .created t) (hostId : Id)
      (stmt : s = .pairingTokenUpdate t.id hostId) (after : w' = w.useToken t.id hostId) :
      RedeemMove w w' q s ok (.marked t)
  | issued (t : PairingToken) (marked : q = .marked t) (payload : AgentJwtPayload)
      (stmt : s = .jwtSign payload) (same : w'.pairingTokens = w.pairingTokens) :
      RedeemMove w w' q s ok (.issued t)

/-- A call that the monitor allows is one of these moves. -/
theorem RedeemMove.of_outcome {env : Env} {w w' : Store} {q : Redeeming} {s : Stmt}
    {r : Except Err s.Resp} (hallowed : redeeming.allowed q s)
    (hout : (machine env).Outcome s w r w') :
    redeeming.possible q s r ∧ RedeemMove w w' q s r.isOk (redeeming.next q s r) := by
  have hsame : (∀ id hostId, s ≠ .pairingTokenUpdate id hostId) →
      w'.pairingTokens = w.pairingTokens := by
    intro hs
    rcases tokens_of_outcome hout with hsame | ⟨id, hostId, hstmt, -⟩
    · exact hsame
    · exact absurd hstmt (hs id hostId)
  cases s with
  | pairingTokenFindFirst h =>
    have hsame := hsame fun _ _ => by simp
    refine ⟨trivial, ?_⟩
    cases q with
    | start =>
      have hended : RedeemMove w w' .start (.pairingTokenFindFirst h) r.isOk .ended :=
        .ended rfl (fun _ => by simp) (fun ⟨_, _, hs⟩ => by cases hs) hsame
      rcases hout with ⟨rfl, -⟩ | ⟨-, rfl, -⟩
      swap
      · exact hended
      show RedeemMove w w' .start _ _ (redeeming.next .start (.pairingTokenFindFirst h)
        (.ok (w.pairingTokens.rows.find? fun t => t.tokenHash == h)))
      cases hfind : w.pairingTokens.rows.find? fun t => t.tokenHash == h with
      | none => exact hended
      | some t =>
        have hhash : t.tokenHash = h := by simpa using List.find?_some hfind
        show RedeemMove w w' .start _ _ (if t.usedAt.isSome = true then .ended else .found t)
        split_ifs with hused
        · exact hended
        · refine .found t rfl (by rw [hhash]) (Table.get_key (List.mem_of_find?_eq_some hfind)) ?_
            hsame
          exact Option.not_isSome_iff_eq_none.mp hused
    | _ => exact hallowed.elim
  | dateNow =>
    have hsame := hsame fun _ _ => by simp
    have hquiet (q q' : Redeeming) (htoken : q'.token? = q.token?) (hrank : q'.rank = q.rank) :
        RedeemMove w w' q .dateNow r.isOk q' :=
      .quiet q' htoken hrank (fun _ => by simp) (fun _ _ => by simp) hsame
    refine ⟨trivial, ?_⟩
    cases q with
    | found t =>
      cases r with
      | error e => exact hquiet _ _ rfl rfl
      | ok now =>
        show RedeemMove w w' _ _ _ (if t.expiresAt < now then .ended else .live t)
        split_ifs
        · exact .ended rfl (fun _ => by simp) (fun ⟨_, _, hs⟩ => by cases hs) hsame
        · exact hquiet _ _ rfl rfl
    | live t => exact hquiet _ _ rfl rfl
    | _ => exact hallowed.elim
  | hostCreate orgId name =>
    have hsame := hsame fun _ _ => by simp
    refine ⟨trivial, ?_⟩
    cases q with
    | live t =>
      cases r with
      | error e => exact .ended rfl (fun _ => by simp) (fun _ => rfl) hsame
      | ok host => exact .created t rfl orgId name rfl hsame
    | _ => exact hallowed.elim
  | pairingTokenUpdate id hostId =>
    refine ⟨trivial, ?_⟩
    cases q with
    | created t =>
      obtain rfl : id = t.id := hallowed
      rcases tokens_of_outcome hout with hsame | ⟨id', hostId', hstmt, hok, rfl⟩
      · cases r with
        | error e =>
          exact .quiet _ rfl rfl (fun _ => by simp) (fun _ _ => by simp) hsame
        | ok _ =>
          -- an update that resolves has marked the token
          rcases hout with ⟨hr, hw'⟩ | ⟨-, hr, -⟩
          swap
          · cases hr
          have hexec : (machine env).exec (.pairingTokenUpdate t.id hostId) w =
              exec env (.pairingTokenUpdate t.id hostId) w := rfl
          rw [hexec, exec] at hr hw'
          split_ifs at hr hw'
          exact .marked t rfl hostId rfl hw'
      · obtain ⟨rfl, rfl⟩ := Stmt.pairingTokenUpdate.inj hstmt
        cases r with
        | error e => cases hok
        | ok _ => exact .marked t rfl hostId rfl rfl
    | _ => exact hallowed.elim
  | jwtSign payload =>
    have hsame := hsame fun _ _ => by simp
    cases q with
    | marked t =>
      rcases hout with ⟨rfl, -⟩ | ⟨hf, -, -⟩
      · exact ⟨trivial, .issued t rfl payload rfl hsame⟩
      · cases hf
    | _ => exact hallowed.elim
  | auditLogCreate audit =>
    have hsame := hsame fun _ _ => by simp
    refine ⟨trivial, ?_⟩
    cases q with
    | issued t =>
      exact .quiet _ rfl rfl (fun _ => by simp) (fun _ _ => by simp) hsame
    | _ => exact hallowed.elim
  | _ => cases q <;> exact hallowed.elim

namespace RedeemMove

variable {w w' : Store} {q q' : Redeeming} {s : Stmt} {ok : Bool}

/-- A request does not go back. -/
theorem rank_le (h : RedeemMove w w' q s ok q') : q.rank ≤ q'.rank := by
  cases h with
  | found t start _ _ _ _ => rw [start]; exact le_rfl
  | ended early _ _ _ => rw [early]; exact Nat.zero_le _
  | quiet q' _ rank _ _ _ => rw [rank]
  | created t live _ _ _ _ => rw [live]; exact Nat.zero_le _
  | marked t created _ _ _ => rw [created]; exact Nat.le_succ _
  | issued t marked _ _ _ => rw [marked]; exact Nat.le_succ _

/-- A host is created once. -/
theorem rank_of_create (h : RedeemMove w w' q s ok q')
    (hcreate : ∃ orgId name, s = .hostCreate orgId name) (hok : ok = true) :
    q.rank = 0 ∧ q'.rank = 1 := by
  obtain ⟨orgId, name, rfl⟩ := hcreate
  cases h with
  | found _ _ stmt _ _ _ => cases stmt
  | ended _ _ failed _ => cases (failed ⟨orgId, name, rfl⟩).symm.trans hok
  | quiet _ _ _ _ create _ => exact absurd rfl (create orgId name)
  | created t live _ _ _ _ => exact ⟨by rw [live]; rfl, rfl⟩
  | marked _ _ _ stmt _ => cases stmt
  | issued _ _ _ stmt _ => cases stmt

/-- A key is issued once. -/
theorem rank_of_issue (h : RedeemMove w w' q s ok q') (hissue : ∃ payload, s = .jwtSign payload) :
    q.rank = 2 ∧ q'.rank = 3 := by
  obtain ⟨payload, rfl⟩ := hissue
  cases h with
  | found _ _ stmt _ _ _ => cases stmt
  | ended _ silent _ _ => exact absurd rfl (silent payload)
  | quiet _ _ _ silent _ _ => exact absurd rfl (silent payload)
  | created _ _ _ _ stmt _ => cases stmt
  | marked _ _ _ stmt _ => cases stmt
  | issued t marked _ _ _ => exact ⟨by rw [marked]; rfl, rfl⟩

/-- The token that a request holds on to it has held on to before, or it has just found it. -/
theorem token (h : RedeemMove w w' q s ok q') {t : PairingToken} (ht : q'.token? = some t) :
    q.token? = some t ∨ q' = .found t ∧ s = .pairingTokenFindFirst t.tokenHash ∧
      w.pairingTokens.get t.id = some t ∧ t.usedAt = none := by
  cases h with
  | found t' _ stmt mem unused _ =>
    obtain rfl := Option.some.inj ht
    exact .inr ⟨rfl, stmt, mem, unused⟩
  | ended _ _ _ _ => cases ht
  | quiet q' same _ _ _ _ => exact .inl (same.symm.trans ht)
  | created t' live _ _ _ _ => rw [live]; exact .inl ht
  | marked t' created _ _ _ => rw [created]; exact .inl ht
  | issued t' marked _ _ _ => rw [marked]; exact .inl ht

/-- The other tokens are kept. -/
theorem kept (h : RedeemMove w w' q s ok q') : TokensKept w w' := by
  have hsame (hs : w'.pairingTokens = w.pairingTokens) : TokensKept w w' := by
    refine ⟨fun i t ht => ⟨t, hs ▸ ht, rfl, fun hu => hu⟩, fun hd => ?_⟩
    unfold Store.Distinct
    rw [hs]
    exact hd
  cases h with
  | found _ _ _ _ _ same => exact hsame same
  | ended _ _ _ same => exact hsame same
  | quiet _ _ _ _ _ same => exact hsame same
  | created _ _ _ _ _ same => exact hsame same
  | issued _ _ _ _ same => exact hsame same
  | marked t _ hostId _ after =>
    subst after
    refine ⟨fun i t' ht' => ?_, fun hd a ha b hb hab => ?_⟩
    · have hget : (w.useToken t.id hostId).pairingTokens.get i = _ :=
        Table.get_update (PairingToken.key_use w.now hostId)
      rw [ht'] at hget
      split_ifs at hget
      · exact ⟨_, hget, rfl, fun _ => rfl⟩
      · exact ⟨_, hget, rfl, fun hu => hu⟩
    · -- marking a token keeps the hashes
      obtain ⟨a', ha', rfl⟩ := (Table.mem_update (PairingToken.key_use w.now hostId)).mp ha
      obtain ⟨b', hb', rfl⟩ := (Table.mem_update (PairingToken.key_use w.now hostId)).mp hb
      have hhash : ∀ x : PairingToken, (if Keyed.key x = t.id then x.use w.now hostId else x).tokenHash =
          x.tokenHash := fun x => by split_ifs <;> rfl
      rw [hhash, hhash] at hab
      rw [hd a' ha' b' hb' hab]

end RedeemMove

/-! ## The invariant -/

/-- No request looks up a token that another one has found unused and has not yet marked. -/
def Apart (trace : List PairEvent) (e : PairEvent) : Prop :=
  ∀ h, e.stmt = .pairingTokenFindFirst h → ∀ j t, (redeeming.phase trace j).token? = some t →
    (redeeming.phase trace j).rank < 2 → t.tokenHash ≠ h

/-- What is kept while requests interleave. -/
structure Redeemed (trace : List PairEvent) (w : Store) : Prop where
  distinct : w.Distinct
  known : ∀ i t, (redeeming.phase trace i).token? = some t → ∃ t', w.pairingTokens.get t.id =
    some t' ∧ t'.tokenHash = t.tokenHash ∧
      (2 ≤ (redeeming.phase trace i).rank → t'.usedAt.isSome = true)
  lookedUp : ∀ i t, (redeeming.phase trace i).token? = some t →
    ∃ e ∈ trace, e.thread = i ∧ e.stmt = .pairingTokenFindFirst t.tokenHash
  alone : ∀ i j t t', (redeeming.phase trace i).token? = some t →
    (redeeming.phase trace j).token? = some t' → t.tokenHash = t'.tokenHash → i = j
  creates : ∀ e ∈ trace, PairEvent.CreatesHost e → 1 ≤ (redeeming.phase trace e.thread).rank
  issues : ∀ e ∈ trace, PairEvent.IssuesKey e → 3 ≤ (redeeming.phase trace e.thread).rank
  once : trace.Pairwise fun e e' => e.thread = e'.thread →
    ¬(PairEvent.CreatesHost e ∧ PairEvent.CreatesHost e') ∧
      ¬(PairEvent.IssuesKey e ∧ PairEvent.IssuesKey e')

section Step

variable {trace : List PairEvent} {i : ℕ} {s : Stmt} {r : Except Err s.Resp} {w w' : Store}

/-- A token that is found is no other request's. -/
theorem Redeemed.found_alone (h : Redeemed trace w) (hcond : Apart trace ⟨i, s, r, w, w'⟩)
    {t : PairingToken} (hs : s = .pairingTokenFindFirst t.tokenHash)
    (hmem : w.pairingTokens.get t.id = some t) (hunused : t.usedAt = none) {j : ℕ}
    {t' : PairingToken} (hj : (redeeming.phase trace j).token? = some t') :
    t'.tokenHash ≠ t.tokenHash := by
  intro hhash
  obtain ⟨x, hx, hxhash, hused⟩ := h.known j t' hj
  have hsame : x = t :=
    h.distinct x (Table.get_eq_some.mp hx).1 t (Table.get_eq_some.mp hmem).1 (hxhash.trans hhash)
  have hpending : (redeeming.phase trace j).rank < 2 := by
    by_contra hrank
    have hx := hused (Nat.not_lt.mp hrank)
    rw [hsame, hunused] at hx
    cases hx
  exact hcond t.tokenHash hs j t' hj hpending hhash

/-- A call that comes apart keeps the invariant. -/
theorem Redeemed.call (h : Redeemed trace w)
    (hmove : RedeemMove w w' (redeeming.phase trace i) s r.isOk
      (redeeming.next (redeeming.phase trace i) s r))
    (hcond : Apart trace ⟨i, s, r, w, w'⟩) : Redeemed (⟨i, s, r, w, w'⟩ :: trace) w' := by
  obtain ⟨hkept, hfresh⟩ := hmove.kept
  -- a thread other than the caller is where it was
  have hrank : ∀ j, (redeeming.phase trace j).rank ≤
      (redeeming.phase (⟨i, s, r, w, w'⟩ :: trace) j).rank := by
    intro j
    by_cases hij : i = j
    · subst hij
      rw [redeeming.phase_cons_self]
      exact hmove.rank_le
    · rw [redeeming.phase_cons_of_ne hij]
  have htoken : ∀ j t, (redeeming.phase (⟨i, s, r, w, w'⟩ :: trace) j).token? = some t →
      (redeeming.phase trace j).token? = some t ∨ i = j ∧
        s = .pairingTokenFindFirst t.tokenHash ∧ w.pairingTokens.get t.id = some t ∧
          t.usedAt = none := by
    intro j t ht
    by_cases hij : i = j
    · subst hij
      rw [redeeming.phase_cons_self] at ht
      rcases hmove.token ht with hold | ⟨-, hs, hmem, hunused⟩
      · exact .inl hold
      · exact .inr ⟨rfl, hs, hmem, hunused⟩
    · rw [redeeming.phase_cons_of_ne hij] at ht
      exact .inl ht
  refine ⟨hfresh h.distinct, fun j t ht => ?_, fun j t ht => ?_, fun j k t t' ht ht' hhash => ?_,
    fun e he hcreate => ?_, fun e he hissue => ?_, ?_⟩
  · -- the tokens that are held on to
    by_cases hij : i = j
    swap
    · rw [redeeming.phase_cons_of_ne hij] at ht ⊢
      obtain ⟨x, hx, hxhash, hused⟩ := h.known j t ht
      obtain ⟨x', hx', hxhash', hused'⟩ := hkept t.id x hx
      exact ⟨x', hx', hxhash'.trans hxhash, fun hr => hused' (hused hr)⟩
    subst hij
    rw [redeeming.phase_cons_self] at ht ⊢
    have hbefore (hold : (redeeming.phase trace i).token? = some t)
        (hr : 2 ≤ (redeeming.next (redeeming.phase trace i) s r).rank →
          2 ≤ (redeeming.phase trace i).rank) : ∃ t', w'.pairingTokens.get t.id = some t' ∧
        t'.tokenHash = t.tokenHash ∧
          (2 ≤ (redeeming.next (redeeming.phase trace i) s r).rank →
            t'.usedAt.isSome = true) := by
      obtain ⟨x, hx, hxhash, hused⟩ := h.known i t hold
      obtain ⟨x', hx', hxhash', hused'⟩ := hkept t.id x hx
      exact ⟨x', hx', hxhash'.trans hxhash, fun hr' => hused' (hused (hr hr'))⟩
    generalize hq : redeeming.phase trace i = q at *
    generalize redeeming.next q s r = q' at *
    cases hmove with
    | found t' start stmt mem unused same =>
      obtain rfl := Option.some.inj ht
      exact ⟨t', same ▸ mem, rfl, fun hr => absurd hr (by simp [Redeeming.rank])⟩
    | ended _ _ _ _ => cases ht
    | quiet q' token rank _ _ _ => exact hbefore (token.symm.trans ht) fun hr => rank ▸ hr
    | created t' live _ _ _ _ =>
      exact hbefore (by rw [live]; exact ht) fun hr => absurd hr (by simp [Redeeming.rank])
    | issued t' marked _ _ _ =>
      exact hbefore (by rw [marked]; exact ht) fun _ => by rw [marked]; exact le_rfl
    | marked t' created hostId _ after =>
      obtain rfl := Option.some.inj ht
      obtain ⟨x, hx, hxhash, -⟩ := h.known i t' (by rw [hq, created]; rfl)
      subst after
      exact ⟨_, Table.get_update_self (PairingToken.key_use w.now hostId) hx, hxhash, fun _ => rfl⟩
  · -- their lookups
    rcases htoken j t ht with hold | ⟨rfl, hs, -, -⟩
    · obtain ⟨e, he, hthread, hstmt⟩ := h.lookedUp j t hold
      exact ⟨e, List.mem_cons_of_mem _ he, hthread, hstmt⟩
    · exact ⟨_, List.mem_cons_self, rfl, hs⟩
  · -- a token that is found is no other request's
    rcases htoken j t ht with hold | ⟨rfl, hs, hmem, hunused⟩
    · rcases htoken k t' ht' with hold' | ⟨rfl, hs', hmem', hunused'⟩
      · exact h.alone j k t t' hold hold' hhash
      · exact absurd hhash (h.found_alone hcond hs' hmem' hunused' hold)
    · rcases htoken k t' ht' with hold' | ⟨rfl, -, -, -⟩
      · exact absurd hhash.symm (h.found_alone hcond hs hmem hunused hold')
      · rfl
  · -- the hosts created
    rcases List.mem_cons.mp he with rfl | he
    · rw [redeeming.phase_cons_self, (hmove.rank_of_create hcreate.1 hcreate.2).2]
    · exact (h.creates e he hcreate).trans (hrank _)
  · -- the keys issued
    rcases List.mem_cons.mp he with rfl | he
    · rw [redeeming.phase_cons_self, (hmove.rank_of_issue hissue.1).2]
    · exact (h.issues e he hissue).trans (hrank _)
  · -- a request creates one host and issues one key
    refine List.pairwise_cons.mpr ⟨fun e he hthread => ⟨?_, ?_⟩, h.once⟩
    · rintro ⟨hnew, hold⟩
      have hbefore := h.creates e he hold
      have hthread : i = e.thread := hthread
      rw [← hthread, (hmove.rank_of_create hnew.1 hnew.2).1] at hbefore
      exact absurd hbefore (by simp)
    · rintro ⟨hnew, hold⟩
      have hbefore := h.issues e he hold
      have hthread : i = e.thread := hthread
      rw [← hthread, (hmove.rank_of_issue hnew.1).1] at hbefore
      exact absurd hbefore (by simp)

end Step

/-- The requests and everything around them keep the invariant, and a request that succeeds has
issued a key. -/
theorem redeeming_keeps (env : Env) :
    Keeps (redeemers env) Apart redeeming
      (fun r q => ∀ resp, r = .ok resp → ∃ t, q = .issued t) Redeemed where
  follows q := pair_redeems q
  call trace i s r w w' hJ hallowed hout hcond := by
    obtain ⟨hpossible, hmove⟩ := RedeemMove.of_outcome hallowed hout
    exact ⟨hpossible, hJ.call hmove hcond⟩
  environment trace w w' hJ he := by
    refine ⟨he.fresh hJ.distinct, fun i t ht => ?_, hJ.lookedUp, hJ.alone, hJ.creates, hJ.issues,
      hJ.once⟩
    obtain ⟨x, hx, hxhash, hused⟩ := hJ.known i t ht
    obtain ⟨x', hx', hxhash', hused'⟩ := he.kept t.id x hx
    exact ⟨x', hx', hxhash'.trans hxhash, fun hr => hused' (hused hr)⟩

/-- The configurations of the requests. -/
abbrev PairConfig := Config PairRequest Stmt.Resp Err PairResponse Store

/-- The thread is a request with the token. -/
def PairConfig.Carries (c : PairConfig) (i : ℕ) (token : String) : Prop :=
  ∃ q p, c.threads[i]? = some (q, p) ∧ trim q.dto.pairingToken = trim token

/-- The thread is a request that has succeeded. -/
def PairConfig.Succeeds (c : PairConfig) (i : ℕ) : Prop :=
  ∃ q resp, c.threads[i]? = some (q, .ret (.ok resp))

/-- At most one request with the token has succeeded, at most one host was created from it, and at
most one key was issued for it. -/
structure SingleUse (c : PairConfig) (token : String) : Prop where
  succeeds : ∀ i j, PairConfig.Carries c i token → PairConfig.Carries c j token →
    PairConfig.Succeeds c i → PairConfig.Succeeds c j → i = j
  hosts : c.trace.Pairwise fun e e' =>
    ¬((PairEvent.CreatesHost e ∧ PairConfig.Carries c e.thread token) ∧
      PairEvent.CreatesHost e' ∧ PairConfig.Carries c e'.thread token)
  keys : c.trace.Pairwise fun e e' =>
    ¬((PairEvent.IssuesKey e ∧ PairConfig.Carries c e.thread token) ∧
      PairEvent.IssuesKey e' ∧ PairConfig.Carries c e'.thread token)

/-- A request that has reached a stage that counts holds on to a token. -/
theorem Redeeming.token_of_rank {q : Redeeming} (h : 1 ≤ q.rank) : ∃ t, q.token? = some t := by
  cases q with
  | created t => exact ⟨t, rfl⟩
  | marked t => exact ⟨t, rfl⟩
  | issued t => exact ⟨t, rfl⟩
  | _ => exact absurd h (by simp [rank])

/-- In every interleaving of requests in which no request looks up a token that another one has
found unused and has not yet marked, every pairing token is used once. -/
theorem single_use_of_reaches (env : Env) {c : PairConfig}
    (hr : Reaches (redeemers env) Apart Store.initial c) (token : String) : SingleUse c token := by
  have hinit : Redeemed [] Store.initial := by
    refine ⟨fun t ht => (nomatch ht), fun i t ht => (nomatch ht), fun i t ht => (nomatch ht),
      fun i j t t' ht => (nomatch ht), fun e he => (nomatch he), fun e he => (nomatch he), .nil⟩
  obtain ⟨hJ, hthreads⟩ := Reaches.invariant (redeeming_keeps env) hinit hr
  obtain ⟨-, hcalls⟩ := Reaches.uses (@pair_uses env) hr
  -- the token that a request holds on to has the hash of the one that it carries
  have hhash : ∀ i t, (redeeming.phase c.trace i).token? = some t → PairConfig.Carries c i token →
      t.tokenHash = env.sha256 (trim token) := by
    rintro i t ht ⟨q, p, hi, hq⟩
    obtain ⟨e, he, rfl, hstmt⟩ := hJ.lookedUp i t ht
    have hlookup : t.tokenHash = env.sha256 (trim q.dto.pairingToken) := hcalls e he q p hi _ hstmt
    rw [hlookup, hq]
  have halone : ∀ i j, 1 ≤ (redeeming.phase c.trace i).rank →
      1 ≤ (redeeming.phase c.trace j).rank → PairConfig.Carries c i token →
        PairConfig.Carries c j token → i = j := by
    intro i j hi hj hci hcj
    obtain ⟨t, ht⟩ := Redeeming.token_of_rank hi
    obtain ⟨t', ht'⟩ := Redeeming.token_of_rank hj
    exact hJ.alone i j t t' ht ht' ((hhash i t ht hci).trans (hhash j t' ht' hcj).symm)
  refine ⟨fun i j hci hcj hi hj => ?_, hJ.once.imp_of_mem ?_, hJ.once.imp_of_mem ?_⟩
  · have hissued : ∀ i, PairConfig.Succeeds c i → 1 ≤ (redeeming.phase c.trace i).rank := by
      rintro i ⟨q, resp, hi⟩
      obtain ⟨t, ht⟩ := (wp_ret _ _ _).mp (hthreads i q _ hi) resp rfl
      rw [ht]
      simp [Redeeming.rank]
    exact halone i j (hissued i hi) (hissued j hj) hci hcj
  · rintro e e' he he' honce ⟨⟨hcreate, hce⟩, hcreate', hce'⟩
    have hthread := halone _ _ (hJ.creates e he hcreate) (hJ.creates e' he' hcreate') hce hce'
    exact (honce hthread).1 ⟨hcreate, hcreate'⟩
  · rintro e e' he he' honce ⟨⟨hissue, hce⟩, hissue', hce'⟩
    have hrank : ∀ e ∈ c.trace, PairEvent.IssuesKey e →
        1 ≤ (redeeming.phase c.trace e.thread).rank :=
      fun e he h => (by simp : 1 ≤ 3).trans (hJ.issues e he h)
    have hthread := halone _ _ (hrank e he hissue) (hrank e' he' hissue') hce hce'
    exact (honce hthread).2 ⟨hissue, hissue'⟩

section Examples

/-- A signature scheme for examples, in which a token is its payload's version and host. -/
def Jwt.plain : Jwt where
  sign p _ := Nat.repr p.keyVersion
  verify _ _ := none
  verify_sign _ _ _ _ h := by cases h

/-- A runtime for examples, in which a text is its own hash. -/
def Env.plain : Env := ⟨.plain, id, fun _ => ""⟩

/-- The store with an unused token of the organization 0. -/
def Store.paired : Store :=
  { Store.initial with
    pairingTokens := Table.empty.insert (fun i => ⟨i, 0, "token", 1000, none, none⟩) fun _ => rfl }

theorem tokensKept_paired : TokensKept Store.initial Store.paired := by
  refine ⟨fun i t ht => (nomatch ht), fun _ a ha b hb _ => ?_⟩
  obtain rfl := List.mem_singleton.mp ha
  obtain rfl := List.mem_singleton.mp hb
  rfl

/-- A request with that token. -/
def smallRequest : PairRequest := ⟨⟨"token", some "alpha"⟩, none⟩

/-- A second request looks the token up when the first one has marked it and not yet issued its
key: it is refused. -/
theorem single_use_of_reaches_two : ∃ c : PairConfig, PairConfig.Succeeds c 0 ∧
    (∃ err, c.threads[1]? = some (smallRequest, .ret (.error err))) ∧ SingleUse c "token" := by
  have hstarted : Reaches (redeemers Env.plain) Apart Store.initial
      ⟨.paired, [(smallRequest, (redeemers Env.plain).prog smallRequest),
        (smallRequest, (redeemers Env.plain).prog smallRequest)], []⟩ :=
    .environment (.start smallRequest (.start smallRequest .init)) tokensKept_paired
  have hfound := Reaches.call 0 hstarted rfl (.inl ⟨rfl, rfl⟩) fun _ _ j t ht => nomatch ht
  have hlive := Reaches.call 0 hfound rfl (.inl ⟨rfl, rfl⟩) fun _ h => nomatch h
  have hcreated := Reaches.call 0 hlive rfl (.inl ⟨rfl, rfl⟩) fun _ h => nomatch h
  have hmarked := Reaches.call 0 hcreated rfl (.inl ⟨rfl, rfl⟩) fun _ h => nomatch h
  have hfound' := Reaches.call 1 hmarked rfl (.inl ⟨rfl, rfl⟩) <| by
    -- the first request has marked its token, and no other one holds any
    intro _ _ j t ht hrank
    match j with
    | 0 => exact absurd hrank (by decide)
    | j + 1 => exact nomatch ht
  have hissued := Reaches.call 0 hfound' rfl (.inl ⟨rfl, rfl⟩) fun _ h => nomatch h
  have hlogged := Reaches.call 0 hissued rfl (.inl ⟨rfl, rfl⟩) fun _ h => nomatch h
  exact ⟨_, ⟨_, _, rfl⟩, ⟨_, rfl⟩, single_use_of_reaches Env.plain hlogged "token"⟩

/-- Two requests look the token up before either of them marks it: both create a host, both issue
a key, and both succeed. -/
theorem token_used_twice : ¬∀ c : PairConfig,
    Reaches (redeemers Env.plain) (fun _ _ => True) Store.initial c → SingleUse c "token" := by
  intro hall
  have hstarted : Reaches (redeemers Env.plain) (fun _ _ => True) Store.initial
      ⟨.paired, [(smallRequest, (redeemers Env.plain).prog smallRequest),
        (smallRequest, (redeemers Env.plain).prog smallRequest)], []⟩ :=
    .environment (.start smallRequest (.start smallRequest .init)) tokensKept_paired
  have hfound := Reaches.call 0 hstarted rfl (.inl ⟨rfl, rfl⟩) trivial
  have hfound' := Reaches.call 1 hfound rfl (.inl ⟨rfl, rfl⟩) trivial
  have hlive := Reaches.call 0 hfound' rfl (.inl ⟨rfl, rfl⟩) trivial
  have hlive' := Reaches.call 1 hlive rfl (.inl ⟨rfl, rfl⟩) trivial
  have hcreated := Reaches.call 0 hlive' rfl (.inl ⟨rfl, rfl⟩) trivial
  have hcreated' := Reaches.call 1 hcreated rfl (.inl ⟨rfl, rfl⟩) trivial
  have hmarked := Reaches.call 0 hcreated' rfl (.inl ⟨rfl, rfl⟩) trivial
  have hmarked' := Reaches.call 1 hmarked rfl (.inl ⟨rfl, rfl⟩) trivial
  have hissued := Reaches.call 0 hmarked' rfl (.inl ⟨rfl, rfl⟩) trivial
  have hissued' := Reaches.call 1 hissued rfl (.inl ⟨rfl, rfl⟩) trivial
  have hlogged := Reaches.call 0 hissued' rfl (.inl ⟨rfl, rfl⟩) trivial
  have hlogged' := Reaches.call 1 hlogged rfl (.inl ⟨rfl, rfl⟩) trivial
  have hsame := (hall _ hlogged').succeeds 0 1 ⟨_, _, rfl, rfl⟩ ⟨_, _, rfl, rfl⟩ ⟨_, _, rfl⟩
    ⟨_, _, rfl⟩
  exact absurd hsame (by simp)

end Examples

end Mastermind.Pairing
