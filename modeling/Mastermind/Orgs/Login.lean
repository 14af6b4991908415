import Mastermind.Orgs.Accounts

/-!
# Passwords and sign-in

The stored form of a password with its check, and the operations that set passwords:
`OrgsService.resetAccountPassword` and `AuthService.changePassword`, beside those of `Accounts`.
`AuthService.login` looks the account up by the address as it is given.

The hash functions and the random salts are parameters. A stored hash of the older form is checked
as well, though nothing writes one.
-/

namespace Mastermind.Orgs

open Effect Effect.Program

/-! ## Stored passwords -/

/-- A digit of `toString('hex')`. -/
def hexDigit (n : ℕ) : Char := if n < 10 then Char.ofNat (48 + n) else Char.ofNat (87 + n)

/-- `buffer.toString('hex')`. -/
def toHex (bytes : List UInt8) : List Char :=
  bytes.flatMap fun b => [hexDigit (b.toNat / 16), hexDigit (b.toNat % 16)]

/-- The value of a hexadecimal digit of either case. -/
def hexValue (c : Char) : Option ℕ :=
  if 48 ≤ c.toNat ∧ c.toNat ≤ 57 then some (c.toNat - 48)
  else if 97 ≤ c.toNat ∧ c.toNat ≤ 102 then some (c.toNat - 87)
  else if 65 ≤ c.toNat ∧ c.toNat ≤ 70 then some (c.toNat - 55)
  else none

/-- `Buffer.from(s, 'hex')`, which ends at the first pair that is no byte. -/
def fromHex : List Char → List UInt8
  | c :: d :: rest =>
    match hexValue c, hexValue d with
    | some high, some low => UInt8.ofNat (16 * high + low) :: fromHex rest
    | _, _ => []
  | _ => []

/-- A random salt of 16 bytes. -/
structure Salt where
  bytes : List UInt8
  length_eq : bytes.length = 16

/-- `generateSalt()`. -/
def Salt.text (s : Salt) : List Char := toHex s.bytes

/-- What the services use of their runtime: the case tables, `scryptSync(password, salt, 64)` and
`createHash('sha256')`. -/
structure Runtime where
  cases : CaseTables
  scrypt : String → List Char → List UInt8
  sha256 : List Char → List UInt8

namespace Runtime

variable (rt : Runtime)

/-- `makePasswordHash`. -/
def makePasswordHash (salt : Salt) (password : String) : String :=
  String.ofList ("scrypt".toList ++ '$' :: (salt.text ++ '$' :: toHex (rt.scrypt password salt.text)))

/-- The check of the older form `salt:sha256`. -/
def verifyOlder (password : String) (storedHash : List Char) : Bool :=
  match storedHash.splitOn ':' with
  | salt :: hash :: _ =>
    -- The candidate is hashed to hexadecimal digits and read back.
    salt != [] && hash != [] && rt.sha256 (salt ++ password.toList) == fromHex hash
  | _ => false

/-- `verifyPassword`. -/
def verifyPassword (password storedHash : String) : Bool :=
  if "scrypt$".toList.isPrefixOf storedHash.toList then
    match storedHash.toList.splitOn '$' with
    | _ :: salt :: hash :: _ =>
      salt != [] && hash != [] && rt.scrypt password salt == fromHex hash
    | _ => false
  else rt.verifyOlder password storedHash.toList

/-- The runtime of the account operations, which draw a salt. -/
def env (salt : Salt) : Env := ⟨rt.cases, rt.makePasswordHash salt⟩

/-- The address that `createAccount` stores. -/
def normalize (email : String) : String := rt.cases.toLowerCase (trim email)

end Runtime

/-! ## The operations -/

/-- What an operation returns. -/
inductive Done where
  | created (id : Id)
  | deleted (signInDisabled : Bool)
  | passwordSet

namespace OrgsService

/-- The role in the organization of the one who resets a password. -/
def isAdministrator (actor : Option Membership) : Bool :=
  actor.any fun membership => membership.role.name == "admin"

/-- `resetAccountPassword`. -/
def resetAccountPassword (env : Env) (orgId accountId actingUserId : Id) (newPassword : String) :
    Service Unit := do
  requireAdmin actingUserId orgId
  if accountId = actingUserId then
    throw (.forbidden "Use your personal password settings to change your own password")
  else do
    let actor ← query (.userOrgFindUnique actingUserId orgId)
    let target ← query (.userOrgFindUnique accountId orgId)
    if isAdministrator actor = false then
      throw (.forbidden "Only organization administrators may reset passwords")
    else
      match target with
      | none => throw (.notFound "Organization account not found")
      | some membership =>
        if membership.role.name = "admin" then
          throw (.forbidden "Administrators may reset passwords only for lower-tier accounts")
        else
          query (.resetTransaction orgId accountId actingUserId (env.makePasswordHash newPassword))

end OrgsService

namespace AuthService

/-- `changePassword`. -/
def changePassword (rt : Runtime) (userId : Id) (currentPassword newPassword : String)
    (salt : Salt) : Service Unit := do
  let found ← query (.hashFindUnique userId)
  match found with
  | some (some passwordHash) =>
    if passwordHash = "" ∨ rt.verifyPassword currentPassword passwordHash = false then
      throw (.unauthorized "Current password is incorrect")
    else if currentPassword = newPassword then
      throw (.conflict "New password must differ from current password")
    else query (.hashUpdate userId (rt.makePasswordHash salt newPassword))
  | _ => throw (.unauthorized "Current password is incorrect")

/-- `login`, with the user and the organization of the token that it issues. -/
def login (rt : Runtime) (email password : String) : Service (Id × Id) := do
  let found ← query (.signInFindUnique email)
  match found with
  | none => throw (.unauthorized "Invalid email or password")
  | some user =>
    match user.passwordHash with
    | none => throw (.unauthorized "Invalid email or password")
    | some passwordHash =>
      if passwordHash = "" ∨ rt.verifyPassword password passwordHash = false then
        throw (.unauthorized "Invalid email or password")
      else
        match user.firstOrgId with
        | some orgId => return (user.id, orgId)
        | none => do
          let orgId ← query .defaultOrg
          return (user.id, orgId)

end AuthService

/-- The operations of account administration, with the salts that they draw. -/
inductive PasswordOp where
  | createAccount (orgId actingUserId : Id) (input : CreateOrgAccountDto) (salt : Salt)
  | resetAccountPassword (orgId accountId actingUserId : Id) (newPassword : String) (salt : Salt)
  | changePassword (userId : Id) (currentPassword newPassword : String) (salt : Salt)
  | deleteAccount (orgId accountId actingUserId : Id)

/-- The program of an operation. -/
def PasswordOp.prog (rt : Runtime) : PasswordOp → Service Done
  | createAccount orgId actingUserId input salt => do
    let user ← OrgsService.createAccount (rt.env salt) orgId actingUserId input
    return .created user.id
  | resetAccountPassword orgId accountId actingUserId newPassword salt => do
    OrgsService.resetAccountPassword (rt.env salt) orgId accountId actingUserId newPassword
    return .passwordSet
  | changePassword userId currentPassword newPassword salt => do
    AuthService.changePassword rt userId currentPassword newPassword salt
    return .passwordSet
  | deleteAccount orgId accountId actingUserId => do
    let deleted ← OrgsService.deleteAccount orgId accountId actingUserId
    return .deleted deleted.signInDisabled

/-- The operations, and nothing else. -/
def passwords (rt : Runtime) : System PasswordOp Stmt.Resp Err Done Store :=
  ⟨machine, PasswordOp.prog rt, fun _ _ => False⟩

/-- A login succeeds. -/
def Store.Admits (rt : Runtime) (w : Store) (email password : String) : Prop :=
  ((AuthService.login rt email password).result machine w).isOk = true

/-! ## The check of a password -/

/-- Reading back a digit. -/
theorem hexValue_hexDigit {n : ℕ} (hn : n < 16) : hexValue (hexDigit n) = some n := by
  revert n
  decide

/-- A digit is not the separator. -/
theorem hexDigit_ne {n : ℕ} (hn : n < 16) : hexDigit n ≠ '$' := by
  revert n
  decide

/-- Bytes survive their hexadecimal form. -/
theorem fromHex_toHex (bytes : List UInt8) : fromHex (toHex bytes) = bytes := by
  induction bytes with
  | nil => rfl
  | cons b bytes ih =>
    have hhigh : b.toNat / 16 < 16 := by
      have := b.toNat_lt
      omega
    have hlow : b.toNat % 16 < 16 := Nat.mod_lt _ (by omega)
    show fromHex (hexDigit (b.toNat / 16) :: hexDigit (b.toNat % 16) :: toHex bytes) = _
    rw [fromHex, hexValue_hexDigit hhigh, hexValue_hexDigit hlow]
    simp only [ih, Nat.div_add_mod, UInt8.ofNat_toNat]

/-- The hexadecimal form has no separator. -/
theorem not_mem_toHex (bytes : List UInt8) : '$' ∉ toHex bytes := by
  intro h
  obtain ⟨b, -, hb⟩ := List.mem_flatMap.mp h
  have hbound := b.toNat_lt
  simp only [List.mem_cons, List.not_mem_nil, or_false] at hb
  rcases hb with hb | hb
  · exact hexDigit_ne (show b.toNat / 16 < 16 by omega) hb.symm
  · exact hexDigit_ne (show b.toNat % 16 < 16 by omega) hb.symm

/-- Bytes have digits. -/
theorem toHex_ne_nil {bytes : List UInt8} (h : bytes ≠ []) : toHex bytes ≠ [] := by
  obtain ⟨b, rest, rfl⟩ := List.exists_cons_of_ne_nil h
  exact List.cons_ne_nil _ _

/-- The hash is ideal: two passwords have different ones under every salt, and none is empty. -/
structure Runtime.Ideal (rt : Runtime) : Prop where
  scrypt_inj : ∀ p q salt, rt.scrypt p salt = rt.scrypt q salt → p = q
  scrypt_ne_nil : ∀ p salt, rt.scrypt p salt ≠ []

/-- A password is accepted if and only if it is the one that was hashed. -/
theorem Runtime.Ideal.verify_iff {rt : Runtime} (h : rt.Ideal) {p q : String} {salt : Salt} :
    rt.verifyPassword p (rt.makePasswordHash salt q) = true ↔ p = q := by
  have hsalt : salt.text ≠ [] := toHex_ne_nil fun hnil => by
    have hlen := salt.length_eq
    rw [hnil] at hlen
    exact absurd hlen (by decide)
  have hsplit : (rt.makePasswordHash salt q).toList.splitOn '$' =
      ["scrypt".toList, salt.text, toHex (rt.scrypt q salt.text)] := by
    unfold Runtime.makePasswordHash
    have hsep : '$' ∉ salt.text := not_mem_toHex salt.bytes
    rw [String.toList_ofList, List.splitOn_append_cons_self_of_not_mem (by decide),
      List.splitOn_append_cons_self_of_not_mem hsep, List.splitOn_eq_singleton (not_mem_toHex _)]
  have hform : "scrypt$".toList.isPrefixOf (rt.makePasswordHash salt q).toList = true := by
    unfold Runtime.makePasswordHash
    simp only [String.toList_ofList]
    rfl
  unfold Runtime.verifyPassword
  rw [if_pos hform, hsplit]
  simp only [Bool.and_eq_true, bne_iff_ne, beq_iff_eq, fromHex_toHex]
  constructor
  · rintro ⟨-, hsame⟩
    exact h.scrypt_inj p q _ hsame
  · rintro rfl
    exact ⟨⟨hsalt, toHex_ne_nil (h.scrypt_ne_nil _ _)⟩, rfl⟩

/-- A stored hash is not the empty text. -/
theorem Runtime.makePasswordHash_ne (rt : Runtime) (salt : Salt) (p : String) :
    rt.makePasswordHash salt p ≠ "" := by
  intro h
  have hlist := congrArg String.toList h
  unfold Runtime.makePasswordHash at hlist
  simp only [String.toList_ofList] at hlist
  exact absurd hlist (by simp)

end Mastermind.Orgs
