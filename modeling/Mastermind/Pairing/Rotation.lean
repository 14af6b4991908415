import Mastermind.Pairing.Service

/-!
# A rotation revokes the keys before it

`rotateAgentKey` reads the version of a host's key, adds one in the application, and writes the sum
back in a second call. `revoked_of_reaches` is about every interleaving of rotations, verifications
and pairings in which a rotation writes only while at most one version has been stored since its
read (`Timely`): the version of a host never decreases, and a key that was issued before a rotation
began is rejected by every verification that begins after the rotation has issued its own key.

The monitor `keying` follows an operation by the version that it may write and the version that it
may issue. The invariant `Versioned` bounds the versions that were issued and written by the stored one.
-/

namespace Mastermind.Pairing

open Effect Effect.Program

/-- The operations on agent keys. -/
inductive KeyOp where
  | pair (dto : PairRequestDto) (clientIp : Option String)
  | rotateAgentKey (orgId hostId : Id)
  | verifyAgentKey (token : String)

/-- What an operation on agent keys returns: a key, or the payload of one. -/
inductive KeyReply where
  | issued (agentKey : String)
  | verified (payload : AgentJwtPayload)

/-- The program of an operation. -/
def KeyOp.prog (env : Env) : KeyOp → Service KeyReply
  | pair dto clientIp => do
    let paired ← PairingService.pair env dto clientIp
    return .issued paired.agentKey
  | rotateAgentKey orgId hostId => do
    let agentKey ← PairingService.rotateAgentKey orgId hostId
    return .issued agentKey
  | verifyAgentKey token => do
    let payload ← PairingService.verifyAgentKey token
    return .verified payload

/-- What everything else does to the hosts: it creates some, deletes some, and leaves the versions
of the others. -/
structure VersionsKept (w w' : Store) : Prop where
  next : w.hosts.next ≤ w'.hosts.next
  kept : ∀ i h', w'.hosts.get i = some h' → (∃ h, w.hosts.get i = some h ∧
    h'.agentKeyVersion = h.agentKeyVersion) ∨ w.hosts.next ≤ i

/-- The operations on agent keys, and everything else around them. -/
def keys (env : Env) : System KeyOp Stmt.Resp Err KeyReply Store :=
  ⟨machine env, KeyOp.prog env, VersionsKept⟩

/-- A call of one of the operations. -/
abbrev KeyEvent := Event Stmt.Resp Err Store

/-! ## What one operation does -/

/-- Where an operation is: whether it has found the version `v` of a host that it rotates, may issue
the version `v` for a host, has decoded the payload of a token, or has found that the version of the
payload is the host's. -/
inductive Keying where
  | start
  | read (hostId : Id) (v : ℕ)
  | holding (hostId : Id) (v : ℕ)
  | decoded (token : String) (payload : AgentJwtPayload)
  | accepted (token : String) (payload : AgentJwtPayload)
  | done

/-- A rotation writes the version after the one that it has read, and issues what it has written. A
pairing issues the version of its new host. A verification accepts the version of the host. -/
def keying (env : Env) : Monitor Stmt.Resp Err Keying where
  start := .start
  allowed q s := match s with
    | .hostFindFirst _ _ => q = .start
    | .hostUpdate i n => ∃ v, q = .read i v ∧ n = v + 1
    | .jwtSign p => q = .holding p.sub p.keyVersion
    | .jwtVerify _ => q = .start
    | .hostFindUnique i => ∃ token payload, q = .decoded token payload ∧ i = payload.sub
    | .hostCreate _ _ => q = .start
    | .pairingTokenFindFirst _ => True
    | .pairingTokenUpdate _ _ => True
    | .dateNow => True
    | .auditLogCreate _ => True
  possible _ s r := match s, r with
    | .hostFindFirst i _, .ok found => ∀ h, found = some h → h.id = i
    | .hostCreate _ _, .ok h => h.agentKeyVersion = 1
    | .jwtVerify token, .ok found => ∀ p, found = some p → ∃ now, env.jwt.verify token now = some p
    | _, _ => True
  next q s r := match s, r with
    | .hostFindFirst i _, .ok (some h) => .read i h.agentKeyVersion
    | .hostFindFirst _ _, _ => .done
    | .hostUpdate i n, .ok _ => .holding i n
    | .hostUpdate _ _, .error _ => .done
    | .hostCreate _ _, .ok h => .holding h.id h.agentKeyVersion
    | .hostCreate _ _, .error _ => .done
    | .jwtSign _, _ => .done
    | .jwtVerify token, .ok (some p) => .decoded token p
    | .jwtVerify _, _ => .done
    | .hostFindUnique _, .ok (some h) => match q with
      | .decoded token p =>
        if h.agentKeyVersion = p.keyVersion then .accepted token p else .done
      | _ => .done
    | .hostFindUnique _, _ => .done
    | _, _ => q

section Programs

variable {env : Env}

/-- The statements of a pairing that the monitor skips. -/
def Stmt.Keyless : Stmt → Prop
  | .pairingTokenFindFirst _ => True
  | .pairingTokenUpdate _ _ => True
  | .dateNow => True
  | .auditLogCreate _ => True
  | _ => False

theorem keying_of_keyless (q : Keying) {s : Stmt} (hs : s.Keyless) :
    (keying env).allowed q s ∧ ∀ r, (keying env).next q s r = q := by
  cases s with
  | pairingTokenFindFirst _ => exact ⟨trivial, fun r => rfl⟩
  | pairingTokenUpdate _ _ => exact ⟨trivial, fun r => rfl⟩
  | dateNow => exact ⟨trivial, fun r => rfl⟩
  | auditLogCreate _ => exact ⟨trivial, fun r => rfl⟩
  | _ => exact hs.elim

theorem keyless_bind {α β : Type} {p : Service α} {f : α → Service β}
    {Q : Except Err β → Keying → Prop} {q : Keying} (hp : Uses Stmt.Keyless p)
    (hf : ∀ a, (f a).wp (keying env).requires Q q) (he : ∀ e, Q (.error e) q) :
    (p >>= f).wp (keying env).requires Q q :=
  (keying env).bind_of_uses hp (fun _ => keying_of_keyless q) hf he

theorem hostName_keyless (dto : PairRequestDto) :
    Uses Stmt.Keyless (PairingService.hostName env dto) := by
  unfold PairingService.hostName PairingService.hostName.unnamed
  split
  · exact .bind (.request trivial) fun _ => .pure _
  · exact .bind (.request trivial) fun _ => .pure _
  · exact .pure _

/-- A pairing issues the version of the host that it has created. -/
theorem pair_keys (dto : PairRequestDto) (clientIp : Option String) :
    (PairingService.pair env dto clientIp).wp (keying env).requires (fun _ _ => True) .start := by
  unfold PairingService.pair
  refine keyless_bind (.request trivial) (fun found => ?_) fun _ => trivial
  cases found with
  | none => exact (wp_throw _ _ _).mpr trivial
  | some t =>
    dsimp only
    rw [wp_ite]
    split_ifs
    · exact (wp_throw _ _ _).mpr trivial
    refine keyless_bind (.request trivial) (fun now => ?_) fun _ => trivial
    rw [wp_ite]
    split_ifs
    · exact (wp_throw _ _ _).mpr trivial
    unfold PairingService.redeem
    refine keyless_bind (hostName_keyless dto) (fun name => ?_) fun _ => trivial
    refine (keying env).bind_request rfl (fun host hversion => ?_) fun _ => trivial
    refine keyless_bind (.request trivial) (fun _ => ?_) fun _ => trivial
    unfold PairingService.signAgentKey
    refine (keying env).bind_request rfl (fun key _ => ?_) fun _ => trivial
    refine keyless_bind (.request trivial) (fun _ => ?_) fun _ => trivial
    exact (wp_pure _ _ _).mpr trivial

/-- A rotation issues the version that it has written. -/
theorem rotateAgentKey_keys (orgId hostId : Id) :
    (PairingService.rotateAgentKey orgId hostId).wp (keying env).requires (fun _ _ => True)
      .start := by
  unfold PairingService.rotateAgentKey
  refine (keying env).bind_request rfl (fun found hfound => ?_) fun _ => trivial
  cases found with
  | none => exact (wp_throw _ _ _).mpr trivial
  | some h =>
    refine (keying env).bind_request ⟨h.agentKeyVersion, rfl, rfl⟩ (fun _ _ => ?_) fun _ => trivial
    unfold PairingService.signAgentKey
    rw [wp_request]
    exact ⟨rfl, fun _ _ => trivial⟩

/-- A verification that returns a payload has accepted its version. -/
theorem verifyAgentKey_keys (token : String) :
    (PairingService.verifyAgentKey token).wp (keying env).requires
      (fun r q => ∀ payload, r = .ok payload → q = .accepted token payload) .start := by
  have failed : ∀ (e : Err) (q : Keying) (payload : AgentJwtPayload),
      Except.error e = .ok payload → q = .accepted token payload := by
    intro e q payload h
    exact absurd h (by simp)
  unfold PairingService.verifyAgentKey
  refine wp_tryCatch_of (keying env).requires_monotone (?_ : Program.wp _ _ (fun r q =>
    ∀ payload, r = .ok payload → q = .accepted token payload) _) (fun _ _ h => h) ?_
  swap
  · -- the handler only throws
    intro e q _
    cases e <;> exact (wp_throw _ _ _).mpr (failed _ _)
  refine (keying env).bind_request rfl (fun found hfound => ?_) fun e => failed e _
  cases found with
  | none => exact (wp_throw _ _ _).mpr (failed _ _)
  | some p =>
    dsimp only
    rw [wp_ite]
    by_cases htype : p.type ≠ "agent"
    · rw [if_pos htype]
      exact (wp_throw _ _ _).mpr (failed _ _)
    rw [if_neg htype]
    refine (keying env).bind_request ⟨token, p, rfl, rfl⟩ (fun host _ => ?_) fun e => failed e _
    unfold PairingService.checkHost
    cases host with
    | none => exact (wp_throw _ _ _).mpr (failed _ _)
    | some h =>
      dsimp only
      rw [wp_ite, wp_ite]
      by_cases horg : h.orgId ≠ p.orgId
      · rw [if_pos horg]
        exact (wp_throw _ _ _).mpr (failed _ _)
      rw [if_neg horg]
      by_cases hversion : h.agentKeyVersion ≠ p.keyVersion
      · rw [if_pos hversion]
        exact (wp_throw _ _ _).mpr (failed _ _)
      rw [if_neg hversion]
      refine (wp_pure _ _ _).mpr fun payload hpayload => ?_
      obtain rfl := Except.ok.inj hpayload
      exact if_pos (not_not.mp hversion)

end Programs

/-! ## The versions of the hosts -/

/-- The host has been created, and if it still exists its version is at least `v`. -/
def Store.AtLeast (w : Store) (i : Id) (v : ℕ) : Prop :=
  i < w.hosts.next ∧ ∀ h, w.hosts.get i = some h → v ≤ h.agentKeyVersion

/-- The hosts keep their versions or raise them, and the others are new. -/
structure VersionsGrow (w w' : Store) : Prop where
  next : w.hosts.next ≤ w'.hosts.next
  grown : ∀ i h', w'.hosts.get i = some h' → (∃ h, w.hosts.get i = some h ∧
    h.agentKeyVersion ≤ h'.agentKeyVersion) ∨ w.hosts.next ≤ i

/-- A version that a host has reached it does not lose. -/
theorem VersionsGrow.atLeast {w w' : Store} (hg : VersionsGrow w w') {i : Id} {v : ℕ}
    (h : w.AtLeast i v) : w'.AtLeast i v := by
  refine ⟨lt_of_lt_of_le h.1 hg.next, fun h' hget => ?_⟩
  rcases hg.grown i h' hget with ⟨x, hx, hle⟩ | hnew
  · exact (h.2 x hx).trans hle
  · exact absurd h.1 (Nat.not_lt.mpr hnew)

/-- Everything else lets the versions be. -/
theorem VersionsKept.grow {w w' : Store} (h : VersionsKept w w') : VersionsGrow w w' := by
  refine ⟨h.next, fun i h' hget => ?_⟩
  rcases h.kept i h' hget with ⟨x, hx, hsame⟩ | hnew
  · exact .inl ⟨x, hx, hsame.ge⟩
  · exact .inr hnew

/-! ## The invariant -/

section Invariant

variable {env : Env}

variable (env) in
/-- A rotation writes only while at most one version has been stored since its read. -/
def Timely (trace : List KeyEvent) (e : KeyEvent) : Prop :=
  ∀ i n v, e.stmt = .hostUpdate i n → (keying env).phase trace e.thread = .read i v →
    ∀ h, e.before.hosts.get i = some h → h.agentKeyVersion ≤ v + 1

/-- A rotation writes in time if the stored version is at most one above the version that it has
read. -/
theorem Timely.of_read {trace : List KeyEvent} {e : KeyEvent} {i : Id} {n v : ℕ} {h : Host}
    (hs : e.stmt = .hostUpdate i n) (hphase : (keying env).phase trace e.thread = .read i v)
    (hget : e.before.hosts.get i = some h) (hle : h.agentKeyVersion ≤ v + 1) :
    Timely env trace e := by
  intro i' n' v' hs' hphase' h' hget'
  obtain ⟨rfl, rfl⟩ := Stmt.hostUpdate.inj (hs.symm.trans hs')
  obtain ⟨-, rfl⟩ := Keying.read.inj (hphase.symm.trans hphase')
  obtain rfl := Option.some.inj (hget.symm.trans hget')
  exact hle

/-- The payload that a verification has decoded, with its token. -/
def Keying.payload? : Keying → Option (String × AgentJwtPayload)
  | .decoded token p => some (token, p)
  | .accepted token p => some (token, p)
  | _ => none

variable (env) in
/-- What is kept while operations on agent keys interleave. -/
structure Versioned (trace : List KeyEvent) (w : Store) : Prop where
  real : ∀ e ∈ trace, (machine env).Outcome e.stmt e.before e.answer e.after
  holding : ∀ j i v, (keying env).phase trace j = .holding i v → w.AtLeast i v
  signed : ∀ e ∈ trace, ∀ p, e.stmt = .jwtSign p → w.AtLeast p.sub p.keyVersion
  written : ∀ e ∈ trace, ∀ i n, e.stmt = .hostUpdate i n → e.answer.isOk = true → w.AtLeast i n
  grows : ∀ e ∈ trace, VersionsGrow e.before e.after
  reads : ∀ later e earlier, trace = later ++ e :: earlier →
    (∀ x ∈ earlier, ∀ p, x.stmt = .jwtSign p → e.before.AtLeast p.sub p.keyVersion) ∧
      ∀ x ∈ earlier, ∀ i n, x.stmt = .hostUpdate i n → x.answer.isOk = true →
        e.before.AtLeast i n
  decoded : ∀ j token p, ((keying env).phase trace j).payload? = some (token, p) →
    (∃ now, env.jwt.verify token now = some p) ∧
      ∃ x ∈ trace, x.thread = j ∧ x.stmt = .jwtVerify token
  accepted : ∀ j token p, (keying env).phase trace j = .accepted token p →
    ∃ x ∈ trace, x.thread = j ∧ ∃ h, x.before.hosts.get p.sub = some h ∧
      h.agentKeyVersion = p.keyVersion

section Step

variable {trace : List KeyEvent} {i : ℕ} {s : Stmt} {r : Except Err s.Resp} {w w' : Store}

/-- A timely call lowers no version. -/
theorem grow_of_outcome (hallowed : (keying env).allowed ((keying env).phase trace i) s)
    (hout : (machine env).Outcome s w r w') (hcond : Timely env trace ⟨i, s, r, w, w'⟩) :
    VersionsGrow w w' := by
  rcases hosts_of_outcome hout with ⟨hsame, -⟩ | ⟨orgId, name, rfl, rfl⟩ |
    ⟨k, n, host, rfl, hhost, rfl⟩
  · exact ⟨by rw [hsame], fun k h' hget => .inl ⟨h', hsame ▸ hget, le_rfl⟩⟩
  · refine ⟨Nat.le_succ _, fun k h' hget => ?_⟩
    by_cases hk : k = w.hosts.next
    · exact .inr hk.ge
    · have hget : (w.hosts.insert (newHost orgId name) (key_newHost orgId name)).get k = some h' :=
        hget
      rw [Table.get_insert_of_ne (key_newHost orgId name) hk] at hget
      exact .inl ⟨h', hget, le_rfl⟩
  · refine ⟨le_rfl, fun j h' hget => ?_⟩
    have hupdate : (w.rekeyHost k n).hosts.get j = _ := Table.get_update (Host.key_rekey n)
    rw [hget] at hupdate
    by_cases hj : j = k
    · subst hj
      rw [if_pos rfl, hhost] at hupdate
      obtain rfl := Option.some.inj hupdate
      obtain ⟨v, hread, rfl⟩ := hallowed
      exact .inl ⟨host, hhost, hcond j _ v rfl hread host hhost⟩
    · rw [if_neg hj] at hupdate
      exact .inl ⟨h', hupdate.symm, le_rfl⟩

/-- A version that is written is reached. -/
theorem atLeast_of_update {k : Id} {n : ℕ} {r : Except Err Unit}
    (hout : (machine env).Outcome (.hostUpdate k n) w r w') (hok : r.isOk = true) :
    w'.AtLeast k n := by
  rcases hosts_of_outcome hout with ⟨-, hfailed⟩ | ⟨orgId, name, hs, -⟩ |
    ⟨k', n', host, hs, hhost, rfl⟩
  · have hfailed := hfailed k n rfl
    rw [hok] at hfailed
    cases hfailed
  · cases hs
  · obtain ⟨rfl, rfl⟩ := Stmt.hostUpdate.inj hs
    have hupdate : (w.rekeyHost k n).hosts.get k = some (host.rekey n) :=
      Table.get_update_self (Host.key_rekey n) hhost
    refine ⟨Table.lt_of_get hupdate, fun h' hget => ?_⟩
    obtain rfl := Option.some.inj (hget.symm.trans hupdate)
    exact le_rfl

/-- The host that a lookup answers with is the stored one. -/
theorem get_of_findUnique {k : Id} {h : Host} {r : Except Err (Option Host)}
    (hout : (machine env).Outcome (.hostFindUnique k) w r w') (hr : r = .ok (some h)) :
    w.hosts.get k = some h := by
  rcases hout with ⟨rfl, -⟩ | ⟨-, rfl, -⟩
  · exact Except.ok.inj hr
  · cases hr

/-- What an operation may issue after its call has been reached. -/
theorem Versioned.holding_call (h : Versioned env trace w)
    (hout : (machine env).Outcome s w r w') (hgrow : VersionsGrow w w') {k : Id} {v : ℕ}
    (hnext : (keying env).next ((keying env).phase trace i) s r = .holding k v) :
    w'.AtLeast k v := by
  have hbefore (hold : (keying env).phase trace i = .holding k v) : w'.AtLeast k v :=
    hgrow.atLeast (h.holding i k v hold)
  cases s with
  | hostFindFirst j orgId => rcases r with _ | _ | _ <;> cases hnext
  | hostUpdate j n =>
    cases r with
    | error _ => cases hnext
    | ok _ =>
      obtain ⟨rfl, rfl⟩ := Keying.holding.inj hnext
      exact atLeast_of_update hout rfl
  | hostCreate orgId name =>
    cases r with
    | error _ => cases hnext
    | ok host =>
      rcases hout with ⟨hr, rfl⟩ | ⟨-, hr, -⟩
      swap
      · cases hr
      obtain rfl : host = newHost orgId name w.hosts.next := Except.ok.inj hr
      obtain ⟨rfl, rfl⟩ := Keying.holding.inj hnext
      have hget : (w.insertHost orgId name).hosts.get w.hosts.next = some (newHost orgId name
          w.hosts.next) := Table.get_insert_next w.hosts (newHost orgId name) (key_newHost orgId name)
      refine ⟨Table.lt_of_get hget, fun h' hget' => ?_⟩
      obtain rfl := Option.some.inj (hget'.symm.trans hget)
      exact le_rfl
  | jwtSign p => cases hnext
  | jwtVerify token => rcases r with _ | _ | _ <;> cases hnext
  | hostFindUnique j =>
    rcases r with _ | _ | host
    · cases hnext
    · cases hnext
    · have hnext : (match (keying env).phase trace i with
        | .decoded token p =>
          if host.agentKeyVersion = p.keyVersion then Keying.accepted token p else .done
        | _ => .done) = .holding k v := hnext
      split at hnext
      · split_ifs at hnext
      · cases hnext
  | _ => exact hbefore hnext

/-- What an operation has decoded after its call it has decoded before, or in this call. -/
theorem decoded_before (hout : (machine env).Outcome s w r w') {token : String}
    {p : AgentJwtPayload}
    (hnext : ((keying env).next ((keying env).phase trace i) s r).payload? = some (token, p)) :
    ((keying env).phase trace i).payload? = some (token, p) ∨
      s = .jwtVerify token ∧ ∃ now, env.jwt.verify token now = some p := by
  cases s with
  | hostFindFirst j orgId => rcases r with _ | _ | _ <;> cases hnext
  | hostUpdate j n => cases r <;> cases hnext
  | hostCreate orgId name => cases r <;> cases hnext
  | jwtSign p => cases hnext
  | jwtVerify token' =>
    rcases r with _ | _ | p'
    · cases hnext
    · cases hnext
    · obtain ⟨rfl, rfl⟩ := Prod.mk.inj (Option.some.inj hnext)
      rcases hout with ⟨hr, -⟩ | ⟨-, hr, -⟩
      · exact .inr ⟨rfl, w.now, (Except.ok.inj hr).symm⟩
      · cases hr
  | hostFindUnique j =>
    rcases r with _ | _ | host
    · cases hnext
    · cases hnext
    · have hnext : (match (keying env).phase trace i with
        | .decoded token p =>
          if host.agentKeyVersion = p.keyVersion then Keying.accepted token p else .done
        | _ => .done).payload? = some (token, p) := hnext
      split at hnext
      · rename_i hq
        split_ifs at hnext
        · rw [hq]
          exact .inl hnext
        · cases hnext
      · cases hnext
  | _ => exact .inl hnext

/-- A payload that an operation has accepted after its call it has accepted before, or this call
has found its version to be the host's. -/
theorem accepted_before (hallowed : (keying env).allowed ((keying env).phase trace i) s)
    (hout : (machine env).Outcome s w r w') {token : String} {p : AgentJwtPayload}
    (hnext : (keying env).next ((keying env).phase trace i) s r = .accepted token p) :
    (keying env).phase trace i = .accepted token p ∨
      ∃ h, w.hosts.get p.sub = some h ∧ h.agentKeyVersion = p.keyVersion := by
  cases s with
  | hostFindFirst j orgId => rcases r with _ | _ | _ <;> cases hnext
  | hostUpdate j n => cases r <;> cases hnext
  | hostCreate orgId name => cases r <;> cases hnext
  | jwtSign p => cases hnext
  | jwtVerify token' => rcases r with _ | _ | _ <;> cases hnext
  | hostFindUnique j =>
    obtain ⟨token', p', hq, rfl⟩ := hallowed
    rcases r with _ | _ | host
    · cases hnext
    · cases hnext
    · have hnext : (match (keying env).phase trace i with
        | .decoded token p =>
          if host.agentKeyVersion = p.keyVersion then Keying.accepted token p else .done
        | _ => .done) = .accepted token p := hnext
      rw [hq] at hnext
      dsimp only at hnext
      split_ifs at hnext with hversion
      obtain ⟨rfl, rfl⟩ := Keying.accepted.inj hnext
      exact .inr ⟨host, get_of_findUnique hout rfl, hversion⟩
  | _ => exact .inl hnext

/-- A timely call keeps the invariant. -/
theorem Versioned.call (h : Versioned env trace w)
    (hallowed : (keying env).allowed ((keying env).phase trace i) s)
    (hout : (machine env).Outcome s w r w') (hcond : Timely env trace ⟨i, s, r, w, w'⟩) :
    Versioned env (⟨i, s, r, w, w'⟩ :: trace) w' := by
  have hgrow := grow_of_outcome hallowed hout hcond
  refine ⟨fun e he => ?_, fun j k v hj => ?_, fun e he p hs => ?_, fun e he k n hs hok => ?_,
    fun e he => ?_, fun later e earlier hsplit => ?_, fun j token p hj => ?_,
    fun j token p hj => ?_⟩
  · rcases List.mem_cons.mp he with rfl | he
    · exact hout
    · exact h.real e he
  · by_cases hij : i = j
    · subst hij
      rw [(keying env).phase_cons_self] at hj
      exact h.holding_call hout hgrow hj
    · rw [(keying env).phase_cons_of_ne hij] at hj
      exact hgrow.atLeast (h.holding j k v hj)
  · -- a version that is issued may be issued
    rcases List.mem_cons.mp he with rfl | he
    · have hs : s = .jwtSign p := hs
      subst hs
      exact hgrow.atLeast (h.holding i _ _ hallowed)
    · exact hgrow.atLeast (h.signed e he p hs)
  · rcases List.mem_cons.mp he with rfl | he
    · have hs : s = .hostUpdate k n := hs
      subst hs
      exact atLeast_of_update hout hok
    · exact hgrow.atLeast (h.written e he k n hs hok)
  · rcases List.mem_cons.mp he with rfl | he
    · exact hgrow
    · exact h.grows e he
  · -- what this call finds
    cases later with
    | nil =>
      obtain ⟨rfl, rfl⟩ := List.cons.inj hsplit
      exact ⟨h.signed, h.written⟩
    | cons x later => exact h.reads later e earlier (List.cons.inj hsplit).2
  · have hbefore (hold : ((keying env).phase trace j).payload? = some (token, p)) :
        (∃ now, env.jwt.verify token now = some p) ∧
          ∃ x ∈ (⟨i, s, r, w, w'⟩ :: trace : List KeyEvent), x.thread = j ∧
            x.stmt = .jwtVerify token := by
      obtain ⟨hverify, x, hx, hthread, hstmt⟩ := h.decoded j token p hold
      exact ⟨hverify, x, List.mem_cons_of_mem _ hx, hthread, hstmt⟩
    by_cases hij : i = j
    · subst hij
      rw [(keying env).phase_cons_self] at hj
      rcases decoded_before hout hj with hold | ⟨hs, hverify⟩
      · exact hbefore hold
      · exact ⟨hverify, _, List.mem_cons_self, rfl, hs⟩
    · rw [(keying env).phase_cons_of_ne hij] at hj
      exact hbefore hj
  · have hbefore (hold : (keying env).phase trace j = .accepted token p) :
        ∃ x ∈ (⟨i, s, r, w, w'⟩ :: trace : List KeyEvent), x.thread = j ∧
          ∃ h, x.before.hosts.get p.sub = some h ∧ h.agentKeyVersion = p.keyVersion := by
      obtain ⟨x, hx, hthread, hfound⟩ := h.accepted j token p hold
      exact ⟨x, List.mem_cons_of_mem _ hx, hthread, hfound⟩
    by_cases hij : i = j
    · subst hij
      rw [(keying env).phase_cons_self] at hj
      rcases accepted_before hallowed hout hj with hold | hfound
      · exact hbefore hold
      · exact ⟨_, List.mem_cons_self, rfl, hfound⟩
    · rw [(keying env).phase_cons_of_ne hij] at hj
      exact hbefore hj

end Step

/-- The operations and everything around them keep the invariant, and a verification that returns a
payload has accepted it. -/
theorem keying_keeps (env : Env) :
    Keeps (keys env) (Timely env) (keying env)
      (fun r q => ∀ payload, r = .ok (.verified payload) → ∃ token, q = .accepted token payload)
      (Versioned env) where
  follows op := by
    cases op with
    | pair dto clientIp =>
      refine wp_bind_of (keying env).requires_monotone (pair_keys dto clientIp) ?_ ?_
      · exact fun resp q _ => (wp_pure _ _ _).mpr fun payload h => by cases h
      · exact fun e q _ payload h => by cases h
    | rotateAgentKey orgId hostId =>
      refine wp_bind_of (keying env).requires_monotone (rotateAgentKey_keys orgId hostId) ?_ ?_
      · exact fun key q _ => (wp_pure _ _ _).mpr fun payload h => by cases h
      · exact fun e q _ payload h => by cases h
    | verifyAgentKey token =>
      refine wp_bind_of (keying env).requires_monotone (verifyAgentKey_keys token) ?_ ?_
      · intro p q hp
        refine (wp_pure _ _ _).mpr fun payload h => ?_
        obtain rfl := KeyReply.verified.inj (Except.ok.inj h)
        exact ⟨token, hp p rfl⟩
      · exact fun e q _ payload h => by cases h
  call trace i s r w w' hJ hallowed hout hcond := by
    refine ⟨?_, hJ.call hallowed hout hcond⟩
    rcases hout with ⟨rfl, rfl⟩ | ⟨-, rfl, rfl⟩
    swap
    · cases s <;> trivial
    cases s with
    | hostFindFirst k orgId =>
      intro h hfound
      have hget : w.hosts.get k = some h := (Option.filter_eq_some_iff.mp hfound).1
      exact (Table.get_eq_some.mp hget).2
    | hostCreate orgId name => exact rfl
    | jwtVerify token => exact fun p hp => ⟨w.now, hp⟩
    | pairingTokenUpdate id hostId =>
      show (keying env).possible _ _ (exec env (.pairingTokenUpdate id hostId) w).1
      rw [exec]
      split_ifs <;> trivial
    | hostUpdate k n =>
      show (keying env).possible _ _ (exec env (.hostUpdate k n) w).1
      rw [exec]
      split_ifs <;> trivial
    | _ => trivial
  environment trace w w' hJ he :=
    ⟨hJ.real, fun j i v hj => he.grow.atLeast (hJ.holding j i v hj),
      fun e hmem p hs => he.grow.atLeast (hJ.signed e hmem p hs),
      fun e hmem i n hs hok => he.grow.atLeast (hJ.written e hmem i n hs hok), hJ.grows, hJ.reads,
      hJ.decoded, hJ.accepted⟩

/-- From its read on, a rotation waits, has written the next version, or is done. -/
theorem after_read {mid base : List KeyEvent} {i k v : ℕ}
    (hobeyed : (keying env).Obeyed (mid ++ base))
    (hbase : (keying env).phase base i = .read k v ∨ (keying env).phase base i = .done) :
    (keying env).phase (mid ++ base) i = .read k v ∨ (keying env).phase (mid ++ base) i = .done ∨
      (keying env).phase (mid ++ base) i = .holding k (v + 1) ∧
        ∃ x ∈ mid, x.stmt = .hostUpdate k (v + 1) ∧ x.answer.isOk = true := by
  induction mid with
  | nil =>
    rcases hbase with h | h
    · exact .inl h
    · exact .inr (.inl h)
  | cons e mid ih =>
    obtain ⟨j, s, r, w, w'⟩ := e
    have hallowed := (hobeyed [] _ _ rfl).1
    have ih := ih fun later x earlier h => hobeyed (_ :: later) x earlier (congrArg _ h)
    have hsame (hphase : (keying env).phase (⟨j, s, r, w, w'⟩ :: (mid ++ base)) i =
        (keying env).phase (mid ++ base) i) :
        (keying env).phase (⟨j, s, r, w, w'⟩ :: (mid ++ base)) i = .read k v ∨
          (keying env).phase (⟨j, s, r, w, w'⟩ :: (mid ++ base)) i = .done ∨
            (keying env).phase (⟨j, s, r, w, w'⟩ :: (mid ++ base)) i = .holding k (v + 1) ∧
              ∃ x ∈ (⟨j, s, r, w, w'⟩ :: mid : List KeyEvent), x.stmt = .hostUpdate k (v + 1) ∧
                x.answer.isOk = true := by
      rw [hphase]
      rcases ih with h | h | ⟨h, x, hx, hwrite⟩
      · exact .inl h
      · exact .inr (.inl h)
      · exact .inr (.inr ⟨h, x, List.mem_cons_of_mem _ hx, hwrite⟩)
    by_cases hij : j = i
    swap
    · exact hsame ((keying env).phase_cons_of_ne hij)
    subst hij
    have hcons : (keying env).phase (⟨j, s, r, w, w'⟩ :: (mid ++ base)) j =
        (keying env).next ((keying env).phase (mid ++ base) j) s r := (keying env).phase_cons_self
    -- neither phase lets the rotation start again
    have hstart : (keying env).phase (mid ++ base) j ≠ .start := by
      rcases ih with h | h | ⟨h, -⟩ <;> rw [h] <;> exact fun h => by cases h
    cases s with
    | hostFindFirst i' orgId => exact absurd hallowed hstart
    | hostCreate orgId name => exact absurd hallowed hstart
    | jwtVerify token => exact absurd hallowed hstart
    | hostFindUnique i' =>
      obtain ⟨token, payload, hq, -⟩ := hallowed
      have hq : (keying env).phase (mid ++ base) j = .decoded token payload := hq
      rcases ih with h | h | ⟨h, -⟩ <;> rw [h] at hq <;> cases hq
    | hostUpdate i' n =>
      obtain ⟨v', hq, rfl⟩ := hallowed
      have hq : (keying env).phase (mid ++ base) j = .read i' v' := hq
      rcases ih with h | h | ⟨h, -⟩ <;> rw [h] at hq <;> cases hq
      cases r with
      | error _ => exact .inr (.inl (hcons.trans rfl))
      | ok _ => exact .inr (.inr ⟨hcons.trans rfl, _, List.mem_cons_self, rfl, rfl⟩)
    | jwtSign p => exact .inr (.inl (hcons.trans rfl))
    | _ => exact hsame (hcons.trans rfl)

/-- What all statements satisfy, every program's do. -/
theorem uses_of_forall {α : Type} {P : Stmt → Prop} (h : ∀ s, P s) (p : Service α) : Uses P p := by
  induction p with
  | ret r => exact (wp_ret _ _ _).mpr trivial
  | call s k ih => exact (wp_call _ _ _ _).mpr ⟨h s, fun e => ih _, fun a => ih _⟩

/-- A verification decodes no other token than its own. -/
theorem keys_uses (op : KeyOp) :
    Uses (fun s => ∀ token token', op = .verifyAgentKey token → s = .jwtVerify token' →
      token' = token) (KeyOp.prog env op) := by
  cases op with
  | pair dto clientIp => exact uses_of_forall (fun s _ _ h => (nomatch h)) _
  | rotateAgentKey orgId hostId => exact uses_of_forall (fun s _ _ h => (nomatch h)) _
  | verifyAgentKey token =>
    refine .bind (.tryCatch (.bind (.request ?_) fun found => ?_) fun e => ?_) fun _ => .pure _
    · intro t t' ht hs
      rw [← KeyOp.verifyAgentKey.inj ht]
      exact (Stmt.jwtVerify.inj hs).symm
    · split
      · exact .throw _
      refine .ite (.throw _) (.bind (.request fun _ _ _ h => by cases h) fun host => ?_)
      unfold PairingService.checkHost
      split
      · exact .throw _
      · exact .ite (.throw _) (.ite (.throw _) (.pure _))
    · split <;> exact .throw _

end Invariant

/-- The configurations of the operations on agent keys. -/
abbrev KeyConfig := Config KeyOp Stmt.Resp Err KeyReply Store

/-- A rotation of a host's key has begun with the call `began` and issued its own key with the call
`issued`; before it began, the key `key` was issued for the host. -/
structure Rotates (c : KeyConfig) (later : List KeyEvent) (issued : KeyEvent)
    (mid : List KeyEvent) (began : KeyEvent) (earlier : List KeyEvent) (hostId : Id)
    (key : String) : Prop where
  trace : c.trace = later ++ issued :: (mid ++ began :: earlier)
  thread : issued.thread = began.thread
  began : ∃ orgId, began.stmt = .hostFindFirst hostId orgId
  issued : ∃ p, issued.stmt = .jwtSign p
  key : ∃ i p w w', p.sub = hostId ∧ (⟨i, .jwtSign p, .ok key, w, w'⟩ : KeyEvent) ∈ earlier

/-- In every interleaving in which a rotation writes only while at most one version has been stored
since its read: no call lowers the version of a host, and a key issued before a rotation began is
rejected by the verifications that begin after the rotation has issued its own. -/
theorem revoked_of_reaches (env : Env) {c : KeyConfig}
    (hr : Reaches (keys env) (Timely env) Store.initial c) :
    (∀ e ∈ c.trace, VersionsGrow e.before e.after) ∧
      ∀ later issued mid began earlier hostId key,
        Rotates c later issued mid began earlier hostId key →
          ∀ j, (∀ x ∈ issued :: (mid ++ began :: earlier), x.thread ≠ j) →
            ∀ payload, c.threads[j]? ≠ some (.verifyAgentKey key, .ret (.ok (.verified payload))) := by
  have hinit : Versioned env [] Store.initial := by
    refine ⟨fun e he => (nomatch he), fun j i v hj => (nomatch hj), fun e he => (nomatch he),
      fun e he => (nomatch he), fun e he => (nomatch he), fun later e earlier hsplit => ?_,
      fun j token p hj => (nomatch hj), fun j token p hj => (nomatch hj)⟩
    cases later <;> cases hsplit
  obtain ⟨hJ, hthreads⟩ := Reaches.invariant (keying_keeps env) hinit hr
  have hobeyed := Reaches.obeyed (keying_keeps env) hinit hr
  obtain ⟨-, hcalls⟩ := Reaches.uses (@keys_uses env) hr
  refine ⟨hJ.grows, ?_⟩
  rintro later issued mid began earlier hostId key
    ⟨htrace, hthread, ⟨orgId, hbegan⟩, ⟨p₂, hissued⟩, ⟨i₀, p, w₀, w₀', hsub, hkey⟩⟩ j hj payload hret
  -- the payload that was verified is the one that was issued
  obtain ⟨token, hphase⟩ := (wp_ret _ _ _).mp (hthreads j _ _ hret) payload rfl
  obtain ⟨⟨now, hverify⟩, x, hx, hxthread, hxstmt⟩ := hJ.decoded j token payload (by rw [hphase]; rfl)
  obtain rfl : token = key := hcalls x hx _ _ (hxthread ▸ hret) key token rfl hxstmt
  have hkeymem : (⟨i₀, .jwtSign p, .ok token, w₀, w₀'⟩ : KeyEvent) ∈ c.trace := by
    rw [htrace]
    exact List.mem_append_right _ (List.mem_cons_of_mem _ (List.mem_append_right _
      (List.mem_cons_of_mem _ hkey)))
  have hsigned : token = env.jwt.sign p w₀.now := by
    rcases hJ.real _ hkeymem with ⟨hr, -⟩ | ⟨hf, -, -⟩
    · exact Except.ok.inj hr
    · cases hf
  obtain rfl : payload = p := by
    rw [hsigned] at hverify
    exact env.jwt.verify_sign p w₀.now now payload hverify
  -- the rotation has read a version that is not below the key's
  obtain ⟨b, s₁, r₁, w₁, w₁'⟩ := began
  obtain rfl : s₁ = .hostFindFirst hostId orgId := hbegan
  have htrace₁ : c.trace = (later ++ issued :: mid) ++
      ⟨b, .hostFindFirst hostId orgId, r₁, w₁, w₁'⟩ :: earlier := by simp [htrace]
  obtain ⟨hreadSigned, -⟩ := hJ.reads _ _ _ htrace₁
  have hatLeast := hreadSigned _ hkey payload rfl
  have hbase : ∃ v, payload.keyVersion ≤ v ∧
      ((keying env).phase (⟨b, .hostFindFirst hostId orgId, r₁, w₁, w₁'⟩ :: earlier) b =
          .read hostId v ∨
        (keying env).phase (⟨b, .hostFindFirst hostId orgId, r₁, w₁, w₁'⟩ :: earlier) b = .done) := by
    have hreal : (machine env).Outcome (.hostFindFirst hostId orgId) w₁ r₁ w₁' :=
      hJ.real _ (by rw [htrace₁]; exact List.mem_append_right _ List.mem_cons_self)
    rw [(keying env).phase_cons_self]
    rcases r₁ with _ | _ | host
    · exact ⟨_, le_rfl, .inr rfl⟩
    · exact ⟨_, le_rfl, .inr rfl⟩
    · rcases hreal with ⟨hr, -⟩ | ⟨-, hr, -⟩
      · have hfound := (Option.filter_eq_some_iff.mp (Except.ok.inj hr).symm).1
        exact ⟨host.agentKeyVersion, hatLeast.2 host (hsub ▸ hfound), .inl rfl⟩
      · cases hr
  obtain ⟨v, hv, hbase⟩ := hbase
  -- it has issued the version after that one, which it has written
  have hmid : (keying env).Obeyed (mid ++ ⟨b, .hostFindFirst hostId orgId, r₁, w₁, w₁'⟩ :: earlier) :=
    fun l x e h => hobeyed (later ++ issued :: l) x e (by rw [htrace, h]; simp)
  have hallowed := (hobeyed later issued _ htrace).1
  rw [hissued, hthread] at hallowed
  have hallowed : (keying env).phase _ b = .holding p₂.sub p₂.keyVersion := hallowed
  obtain ⟨u, hu, hustmt, huok⟩ : ∃ u ∈ mid, u.stmt = .hostUpdate hostId (v + 1) ∧
      u.answer.isOk = true := by
    rcases after_read hmid hbase with h | h | ⟨-, hwritten⟩
    · rw [h] at hallowed
      cases hallowed
    · rw [h] at hallowed
      cases hallowed
    · exact hwritten
  -- the verification has found at least this version
  obtain ⟨y, hy, hythread, host, hhost, hversion⟩ := hJ.accepted j token payload hphase
  have hylater : y ∈ later := by
    rw [htrace] at hy
    rcases List.mem_append.mp hy with hy | hy
    · exact hy
    · exact absurd hythread (hj y hy)
  obtain ⟨later₁, later₂, rfl⟩ := List.append_of_mem hylater
  have htrace₂ : c.trace = later₁ ++ y :: (later₂ ++ issued ::
      (mid ++ ⟨b, .hostFindFirst hostId orgId, r₁, w₁, w₁'⟩ :: earlier)) := by simp [htrace]
  obtain ⟨-, hfoundWritten⟩ := hJ.reads _ _ _ htrace₂
  have hu' : u ∈ later₂ ++ issued ::
      (mid ++ ⟨b, .hostFindFirst hostId orgId, r₁, w₁, w₁'⟩ :: earlier) :=
    List.mem_append_right _ (List.mem_cons_of_mem _ (List.mem_append_left _ hu))
  have hle := (hfoundWritten u hu' hostId (v + 1) hustmt huok).2 host (hsub ▸ hhost)
  omega

section Examples

/-- A signature scheme for examples, for the keys of one host: a key is as long as its version. -/
def Jwt.unary : Jwt where
  sign p _ :=
    if p.sub = 0 ∧ p.orgId = 0 ∧ p.type = "agent" then
      String.ofList (List.replicate p.keyVersion 'k')
    else ""
  verify token _ := if token = "" then none else some ⟨0, 0, token.length, "agent"⟩
  verify_sign p _ _ p' h := by
    obtain ⟨sub, orgId, keyVersion, type⟩ := p
    split_ifs at h with hp _ hempty
    · obtain ⟨rfl, rfl, rfl⟩ := hp
      simpa using h.symm
    · exact absurd rfl hempty

/-- A runtime for examples. -/
def Env.unary : Env := ⟨.unary, id, fun _ => ""⟩

/-- The store with a host of the organization 0. -/
def Store.hosted : Store :=
  { Store.initial with hosts := Table.empty.insert (newHost 0 "alpha") (key_newHost 0 "alpha") }

theorem versionsKept_hosted : VersionsKept Store.initial Store.hosted :=
  ⟨Nat.zero_le _, fun _ _ _ => .inr (Nat.zero_le _)⟩

/-- A rotation of that host's key. -/
def smallRotation : KeyOp := .rotateAgentKey 0 0

/-- Two rotations, of which the second one begins when the first one has issued its key: a
verification of that key after both is refused. -/
theorem revoked_of_reaches_two : ∃ c : KeyConfig,
    c.threads[0]? = some (smallRotation, .ret (.ok (.issued "kk"))) ∧
      c.threads[1]? = some (smallRotation, .ret (.ok (.issued "kkk"))) ∧
        (∃ err, c.threads[2]? = some (.verifyAgentKey "kk", .ret (.error err))) ∧
          (∀ payload,
            c.threads[2]? ≠ some (.verifyAgentKey "kk", .ret (.ok (.verified payload)))) ∧
              ∀ e ∈ c.trace, VersionsGrow e.before e.after := by
  have hstarted : Reaches (keys Env.unary) (Timely Env.unary) Store.initial
      ⟨.hosted, [(smallRotation, (keys Env.unary).prog smallRotation),
        (smallRotation, (keys Env.unary).prog smallRotation),
        (.verifyAgentKey "kk", (keys Env.unary).prog (.verifyAgentKey "kk"))], []⟩ :=
    .environment (.start (.verifyAgentKey "kk") (.start smallRotation (.start smallRotation .init)))
      versionsKept_hosted
  have hread := Reaches.call 0 hstarted rfl (.inl ⟨rfl, rfl⟩) fun _ _ _ h => nomatch h
  have hwritten := Reaches.call 0 hread rfl (.inl ⟨rfl, rfl⟩)
    (.of_read rfl rfl rfl (Nat.le_succ _))
  have hissued := Reaches.call 0 hwritten rfl (.inl ⟨rfl, rfl⟩) fun _ _ _ h => nomatch h
  have hread₁ := Reaches.call 1 hissued rfl (.inl ⟨rfl, rfl⟩) fun _ _ _ h => nomatch h
  have hwritten₁ := Reaches.call 1 hread₁ rfl (.inl ⟨rfl, rfl⟩)
    (.of_read rfl rfl rfl (Nat.le_succ _))
  have hissued₁ := Reaches.call 1 hwritten₁ rfl (.inl ⟨rfl, rfl⟩) fun _ _ _ h => nomatch h
  have hdecoded := Reaches.call 2 hissued₁ rfl (.inl ⟨rfl, rfl⟩) fun _ _ _ h => nomatch h
  have hrefused := Reaches.call 2 hdecoded rfl (.inl ⟨rfl, rfl⟩) fun _ _ _ h => nomatch h
  obtain ⟨hgrow, hrevoked⟩ := revoked_of_reaches Env.unary hrefused
  refine ⟨_, rfl, rfl, ⟨_, rfl⟩, hrevoked [_, _] _ [_] _ [_, _, _] 0 "kk" ⟨rfl, rfl, ⟨0, rfl⟩,
    ⟨_, rfl⟩, ⟨0, _, _, _, rfl, List.mem_cons_self⟩⟩ 2 ?_, hgrow⟩
  intro x hx
  rcases hx with _ | ⟨_, _ | ⟨_, _ | ⟨_, _ | ⟨_, _ | ⟨_, _ | ⟨_, hx⟩⟩⟩⟩⟩⟩
  case tail.tail.tail.tail.tail.tail => cases hx
  all_goals exact fun h => absurd h (by simp)

/-- One rotation reads the version 1, and two others complete. Its write takes the version back
from 3 to 2, and the key of version 2, issued before the last rotation began, is accepted again. -/
theorem rotated_key_accepted : ¬∀ c : KeyConfig,
    Reaches (keys Env.unary) (fun _ _ => True) Store.initial c →
      ∀ later issued mid began earlier hostId key,
        Rotates c later issued mid began earlier hostId key →
          ∀ j, (∀ x ∈ issued :: (mid ++ began :: earlier), x.thread ≠ j) →
            ∀ payload,
              c.threads[j]? ≠ some (.verifyAgentKey key, .ret (.ok (.verified payload))) := by
  intro hall
  have hstarted : Reaches (keys Env.unary) (fun _ _ => True) Store.initial
      ⟨.hosted, [(smallRotation, (keys Env.unary).prog smallRotation),
        (smallRotation, (keys Env.unary).prog smallRotation),
        (smallRotation, (keys Env.unary).prog smallRotation),
        (.verifyAgentKey "kk", (keys Env.unary).prog (.verifyAgentKey "kk"))], []⟩ :=
    .environment (.start (.verifyAgentKey "kk") (.start smallRotation (.start smallRotation
      (.start smallRotation .init)))) versionsKept_hosted
  have hread := Reaches.call 0 hstarted rfl (.inl ⟨rfl, rfl⟩) trivial
  have hread₁ := Reaches.call 1 hread rfl (.inl ⟨rfl, rfl⟩) trivial
  have hwritten₁ := Reaches.call 1 hread₁ rfl (.inl ⟨rfl, rfl⟩) trivial
  have hissued₁ := Reaches.call 1 hwritten₁ rfl (.inl ⟨rfl, rfl⟩) trivial
  have hread₂ := Reaches.call 2 hissued₁ rfl (.inl ⟨rfl, rfl⟩) trivial
  have hwritten₂ := Reaches.call 2 hread₂ rfl (.inl ⟨rfl, rfl⟩) trivial
  have hissued₂ := Reaches.call 2 hwritten₂ rfl (.inl ⟨rfl, rfl⟩) trivial
  have hwritten := Reaches.call 0 hissued₂ rfl (.inl ⟨rfl, rfl⟩) trivial
  have hdecoded := Reaches.call 3 hwritten rfl (.inl ⟨rfl, rfl⟩) trivial
  have haccepted := Reaches.call 3 hdecoded rfl (.inl ⟨rfl, rfl⟩) trivial
  refine hall _ haccepted [_, _, _] _ [_] _ [_, _, _, _] 0 "kk"
    ⟨rfl, rfl, ⟨0, rfl⟩, ⟨_, rfl⟩, ⟨1, _, _, _, rfl, List.mem_cons_self⟩⟩ 3 ?_ _ rfl
  intro x hx
  rcases hx with _ | ⟨_, _ | ⟨_, _ | ⟨_, _ | ⟨_, _ | ⟨_, _ | ⟨_, _ | ⟨_, hx⟩⟩⟩⟩⟩⟩⟩
  case tail.tail.tail.tail.tail.tail.tail => cases hx
  all_goals exact fun h => absurd h (by simp)

end Examples

end Mastermind.Pairing
