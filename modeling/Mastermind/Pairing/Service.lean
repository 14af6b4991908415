import Mastermind.Effect.Table
import Mastermind.Effect.Uses
import Mastermind.Platform.Json
import Mastermind.Platform.Text

/-!
# `PairingService`

An agent redeems a pairing token of an organization: the control plane creates a host, marks the
token as used and issues an agent key, which is a JWT with the version of the host's key. A rotation
raises the version, and a key is accepted while its version is the host's. Each of these is a few
statements in the database, and other requests can come between any two of them.

The signing of a JWT is a statement here, so that the trace of calls shows the keys issued. `Jwt` is
the signature scheme, and `sha256` and `isoSecond` are the functions of the runtime that the service
calls.
-/

namespace Mastermind.Pairing

open Effect

/-- The id of a record. -/
abbrev Id := ℕ

/-- `AgentJwtPayload`. `sub` is the id of a host. An id is not an empty text. -/
structure AgentJwtPayload where
  sub : Id
  orgId : Id
  keyVersion : ℕ
  type : String

/-- A signature scheme: `sign payload now` is the token issued at the time `now`, and `verify` gives
the payload of a token that is accepted. A token that was issued is not accepted with another
payload. -/
structure Jwt where
  sign : AgentJwtPayload → ℕ → String
  verify : String → ℕ → Option AgentJwtPayload
  verify_sign : ∀ p now now' p', verify (sign p now) now' = some p' → p' = p

/-- What the service uses of its runtime. `isoSecond` is the date and time of a moment. -/
structure Env where
  jwt : Jwt
  sha256 : String → String
  isoSecond : ℕ → String

/-- `model Host`, with the fields that pairing reads and writes. -/
structure Host where
  id : Id
  orgId : Id
  name : String
  agentKeyVersion : ℕ

/-- `model PairingToken`. -/
structure PairingToken where
  id : Id
  orgId : Id
  tokenHash : String
  expiresAt : ℕ
  usedAt : Option ℕ
  usedByHostId : Option Id

instance : Keyed Host := ⟨Host.id⟩
instance : Keyed PairingToken := ⟨PairingToken.id⟩

/-- `model AuditLog`. -/
structure AuditLog where
  orgId : Id
  actorId : Option Id
  action : String
  resourceType : String
  resourceId : Id
  details : JsonObject
  ip : Option String

/-- The clock and the tables that pairing uses. -/
structure Store where
  now : ℕ
  hosts : Table Host
  pairingTokens : Table PairingToken
  auditLogs : List AuditLog

/-- The store without hosts and tokens. -/
def Store.initial : Store := ⟨0, .empty, .empty, []⟩

/-- The errors of the service, with their messages, those of Prisma (an update of a missing record,
a second record with a unique value, a number that the column does not hold), and the error of a
failed call. -/
inductive Err where
  | unauthorized (message : String)
  | badRequest (message : String)
  | forbidden (message : String)
  | recordNotFound
  | uniqueConstraint
  | outOfRange
  | fault

/-- The statements, named after the model and the method that they call. -/
inductive Stmt where
  | dateNow
  | pairingTokenFindFirst (tokenHash : String)
  | pairingTokenUpdate (id usedByHostId : Id)
  | hostCreate (orgId : Id) (name : String)
  | hostFindUnique (id : Id)
  | hostFindFirst (id orgId : Id)
  | hostUpdate (id : Id) (agentKeyVersion : ℕ)
  | jwtSign (payload : AgentJwtPayload)
  | jwtVerify (token : String)
  | auditLogCreate (audit : AuditLog)

namespace Stmt

/-- The response of a statement. -/
@[reducible] def Resp : Stmt → Type
  | dateNow => ℕ
  | pairingTokenFindFirst _ => Option PairingToken
  | pairingTokenUpdate _ _ => Unit
  | hostCreate _ _ => Host
  | hostFindUnique _ => Option Host
  | hostFindFirst _ _ => Option Host
  | hostUpdate _ _ => Unit
  | jwtSign _ => String
  | jwtVerify _ => Option AgentJwtPayload
  | auditLogCreate _ => Unit

/-- The statements that make a call, which can fail. -/
def fallible : Stmt → Bool
  | dateNow => false
  | jwtSign _ => false
  | jwtVerify _ => false
  | _ => true

end Stmt

/-- The host that `host.create` makes. -/
def newHost (orgId : Id) (name : String) (i : Id) : Host := ⟨i, orgId, name, 1⟩

/-- A token after it was marked as used. -/
def PairingToken.use (now : ℕ) (hostId : Id) (t : PairingToken) : PairingToken :=
  { t with usedAt := some now, usedByHostId := some hostId }

theorem PairingToken.key_use (now : ℕ) (hostId : Id) (t : PairingToken) :
    Keyed.key (t.use now hostId) = Keyed.key t := rfl

/-- A host with another version of its key. -/
def Host.rekey (agentKeyVersion : ℕ) (h : Host) : Host :=
  { h with agentKeyVersion := agentKeyVersion }

theorem Host.key_rekey (agentKeyVersion : ℕ) (h : Host) :
    Keyed.key (h.rekey agentKeyVersion) = Keyed.key h := rfl

theorem key_newHost (orgId : Id) (name : String) (i : ℕ) : Keyed.key (newHost orgId name i) = i :=
  rfl

namespace Store

variable (w : Store)

/-- `host.create`. -/
def insertHost (orgId : Id) (name : String) : Store :=
  { w with hosts := w.hosts.insert (newHost orgId name) (key_newHost orgId name) }

/-- `pairingToken.update`. -/
def useToken (id hostId : Id) : Store :=
  { w with
    pairingTokens := w.pairingTokens.update id (.use w.now hostId) (PairingToken.key_use w.now hostId) }

/-- `host.update`. -/
def rekeyHost (id : Id) (agentKeyVersion : ℕ) : Store :=
  { w with
    hosts := w.hosts.update id (.rekey agentKeyVersion) (Host.key_rekey agentKeyVersion) }

end Store

/-- The largest version that the column holds. -/
def maxKeyVersion : ℕ := 2147483647

/-- What a statement does. -/
def exec (env : Env) : (s : Stmt) → Store → Except Err s.Resp × Store
  | .dateNow, w => (.ok w.now, w)
  | .pairingTokenFindFirst tokenHash, w =>
    (.ok (w.pairingTokens.rows.find? fun t => t.tokenHash == tokenHash), w)
  | .pairingTokenUpdate id usedByHostId, w =>
    if (w.pairingTokens.get id).isNone then (.error .recordNotFound, w)
    else if w.pairingTokens.rows.any fun t => t.id != id && t.usedByHostId == some usedByHostId then
      (.error .uniqueConstraint, w)
    else (.ok (), w.useToken id usedByHostId)
  | .hostCreate orgId name, w =>
    (.ok (newHost orgId name w.hosts.next), w.insertHost orgId name)
  | .hostFindUnique id, w => (.ok (w.hosts.get id), w)
  | .hostFindFirst id orgId, w => (.ok ((w.hosts.get id).filter fun h => h.orgId == orgId), w)
  | .hostUpdate id agentKeyVersion, w =>
    if agentKeyVersion > maxKeyVersion then (.error .outOfRange, w)
    else if (w.hosts.get id).isNone then (.error .recordNotFound, w)
    else (.ok (), w.rekeyHost id agentKeyVersion)
  | .jwtSign payload, w => (.ok (env.jwt.sign payload w.now), w)
  | .jwtVerify token, w => (.ok (env.jwt.verify token w.now), w)
  | .auditLogCreate audit, w => (.ok (), { w with auditLogs := w.auditLogs ++ [audit] })

/-- The database and the signature scheme as a machine. -/
def machine (env : Env) : Machine Stmt.Resp Err Store := ⟨exec env, Stmt.fallible, .fault⟩

/-- A program of the service. -/
abbrev Service (α : Type) := Program Stmt.Resp Err α

/-- Sends a statement. -/
abbrev query (s : Stmt) : Service s.Resp := Program.request s

/-- `PairRequestDto`, with the name of the host's metadata. -/
structure PairRequestDto where
  pairingToken : String
  hostName : Option String

/-- What `pair` returns. -/
structure PairResponse where
  hostId : Id
  agentKey : String

namespace PairingService

/-- `signAgentKey`. -/
def signAgentKey (hostId orgId : Id) (keyVersion : ℕ) : Service String :=
  query (.jwtSign ⟨hostId, orgId, keyVersion, "agent"⟩)

/-- The name of a new host: the trimmed one of the request, or one with the time. -/
def hostName (env : Env) (dto : PairRequestDto) : Service String :=
  match dto.hostName.map trim with
  | none => unnamed
  | some "" => unnamed
  | some name => pure name
where
  /-- The name of a host whose request has none. -/
  unnamed : Service String := do
    let now ← query .dateNow
    return "Host " ++ env.isoSecond now

/-- The rest of `pair` for a token that has been found. -/
def redeem (env : Env) (dto : PairRequestDto) (clientIp : Option String)
    (tokenRecord : PairingToken) : Service PairResponse := do
  let name ← hostName env dto
  let host ← query (.hostCreate tokenRecord.orgId name)
  query (.pairingTokenUpdate tokenRecord.id host.id)
  let agentKey ← signAgentKey host.id tokenRecord.orgId host.agentKeyVersion
  query <| .auditLogCreate
    { orgId := tokenRecord.orgId
      actorId := none
      action := "agent_pair"
      resourceType := "host"
      resourceId := host.id
      details :=
        [("pairingTokenId", .str (Nat.repr tokenRecord.id)), ("hostName", .str name)] ++
          JsonObject.prop "clientIp" (clientIp.map .str)
      ip := clientIp }
  return ⟨host.id, agentKey⟩

/-- `pair`. -/
def pair (env : Env) (dto : PairRequestDto) (clientIp : Option String) : Service PairResponse := do
  let found ← query (.pairingTokenFindFirst (env.sha256 (trim dto.pairingToken)))
  match found with
  | none => throw (.unauthorized "Invalid pairing token")
  | some tokenRecord =>
    if tokenRecord.usedAt.isSome = true then throw (.badRequest "Pairing token already used")
    else do
      let now ← query .dateNow
      if tokenRecord.expiresAt < now then throw (.badRequest "Pairing token expired")
      else redeem env dto clientIp tokenRecord

/-- The checks of `verifyAgentKey` on the host of a payload. -/
def checkHost (payload : AgentJwtPayload) (found : Option Host) : Service AgentJwtPayload :=
  match found with
  | none => throw (.unauthorized "Host not found or org mismatch")
  | some host =>
    if host.orgId ≠ payload.orgId then throw (.unauthorized "Host not found or org mismatch")
    else if host.agentKeyVersion ≠ payload.keyVersion then
      throw (.unauthorized "Agent key was rotated; re-pair or use new key")
    else pure payload

/-- `verifyAgentKey`. -/
def verifyAgentKey (token : String) : Service AgentJwtPayload :=
  tryCatch
    (do
      let verified ← query (.jwtVerify token)
      match verified with
      | none => throw (.unauthorized "Invalid or expired agent token")
      | some payload =>
        if payload.type ≠ "agent" then throw (.unauthorized "Invalid agent token")
        else do
          let found ← query (.hostFindUnique payload.sub)
          checkHost payload found)
    fun e =>
      match e with
      | .unauthorized message => throw (.unauthorized message)
      | _ => throw (.unauthorized "Invalid or expired agent token")

/-- `rotateAgentKey`. -/
def rotateAgentKey (orgId hostId : Id) : Service String := do
  let found ← query (.hostFindFirst hostId orgId)
  match found with
  | none => throw (.forbidden "Host not found or access denied")
  | some host => do
    query (.hostUpdate hostId (host.agentKeyVersion + 1))
    signAgentKey hostId orgId (host.agentKeyVersion + 1)

end PairingService

section Statements

variable {env : Env} {w w' : Store}

/-- Every outcome of a call leaves the token records as they were, or marks one as used. -/
theorem tokens_of_outcome {s : Stmt} {r : Except Err s.Resp}
    (hout : (machine env).Outcome s w r w') :
    w'.pairingTokens = w.pairingTokens ∨ ∃ id hostId, s = .pairingTokenUpdate id hostId ∧
      r.isOk = true ∧ w' = w.useToken id hostId := by
  rcases hout with ⟨rfl, rfl⟩ | ⟨-, -, rfl⟩
  swap
  · exact .inl rfl
  cases s with
  | pairingTokenUpdate id hostId =>
    show (exec env (.pairingTokenUpdate id hostId) w).2.pairingTokens = _ ∨ ∃ _ _, _ ∧
      (exec env (.pairingTokenUpdate id hostId) w).1.isOk = true ∧
        (exec env (.pairingTokenUpdate id hostId) w).2 = _
    rw [exec]
    split_ifs
    · exact .inl rfl
    · exact .inl rfl
    · exact .inr ⟨id, hostId, rfl, rfl, rfl⟩
  | hostUpdate id v =>
    left
    show (exec env (.hostUpdate id v) w).2.pairingTokens = _
    rw [exec]
    split_ifs <;> rfl
  | _ => exact .inl rfl

/-- Every outcome of a call leaves the hosts as they were, adds one, or changes the version of
one. -/
theorem hosts_of_outcome {s : Stmt} {r : Except Err s.Resp}
    (hout : (machine env).Outcome s w r w') :
    (w'.hosts = w.hosts ∧ (∀ id v, s = .hostUpdate id v → r.isOk = false)) ∨
      (∃ orgId name, s = .hostCreate orgId name ∧ w' = w.insertHost orgId name) ∨
        ∃ id v host, s = .hostUpdate id v ∧ w.hosts.get id = some host ∧ w' = w.rekeyHost id v := by
  rcases hout with ⟨rfl, rfl⟩ | ⟨-, rfl, rfl⟩
  swap
  · exact .inl ⟨rfl, fun _ _ _ => rfl⟩
  cases s with
  | pairingTokenUpdate id hostId =>
    refine .inl ⟨?_, fun _ _ h => (nomatch h)⟩
    show (exec env (.pairingTokenUpdate id hostId) w).2.hosts = _
    rw [exec]
    split_ifs <;> rfl
  | hostCreate orgId name => exact .inr (.inl ⟨orgId, name, rfl, rfl⟩)
  | hostUpdate id v =>
    show ((exec env (.hostUpdate id v) w).2.hosts = _ ∧ (∀ _ _, _ →
      (exec env (.hostUpdate id v) w).1.isOk = false)) ∨ _ ∨ ∃ _ _ _, _ ∧ _ ∧
        (exec env (.hostUpdate id v) w).2 = _
    rw [exec]
    split_ifs with hmax hfound
    · exact .inl ⟨rfl, fun _ _ _ => rfl⟩
    · exact .inl ⟨rfl, fun _ _ _ => rfl⟩
    · cases hget : w.hosts.get id with
      | none => exact absurd (by rw [hget]; rfl) hfound
      | some host => exact .inr (.inr ⟨id, v, host, rfl, hget, rfl⟩)
  | _ => exact .inl ⟨rfl, fun _ _ h => (nomatch h)⟩

end Statements

end Mastermind.Pairing
