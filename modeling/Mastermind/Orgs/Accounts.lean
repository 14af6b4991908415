import Mastermind.Effect.Table
import Mastermind.Effect.Uses
import Mastermind.Platform.Text

/-!
# The accounts of an organization

`OrgsService.createAccount` and `deleteAccount`, with the guards of their routes. `deleteAccount`
refuses to delete the last administrator: it counts the administrators in one call and deletes the
account in a later one.

The store carries the constraints of the schema: the names of roles and the pairs of user and
organization are unique, and a membership names a user, an organization and a role that exist. The
transaction of `deleteAccount` is one statement.
-/

namespace Mastermind.Orgs

open Effect Effect.Program

/-- The id of a record. -/
abbrev Id := ℕ

/-- `model User`. -/
structure User where
  id : Id
  email : String
  name : Option String
  passwordHash : Option String

/-- `model Role`. -/
structure Role where
  id : Id
  name : String

/-- `model UserOrg`. -/
structure UserOrg where
  userId : Id
  orgId : Id
  roleId : Id

/-- `model UserServerRole`. -/
structure UserServerRole where
  userId : Id
  serverInstanceId : Id
  roleId : Id

instance : Keyed User := ⟨User.id⟩
instance : Keyed Role := ⟨Role.id⟩

/-- The primary key of a membership. -/
def UserOrg.key (m : UserOrg) : Id × Id := (m.userId, m.orgId)

/-- The tables of the accounts. `nextOrg` is the id of the next organization, and `serverOrg` the
organization of a server instance. -/
structure Store where
  users : Table User
  roles : Table Role
  userOrgs : List UserOrg
  nextOrg : Id
  userServerRoles : List UserServerRole
  serverOrg : Id → Option Id
  one_name : (roles.rows.map Role.name).Nodup
  one_membership : (userOrgs.map UserOrg.key).Nodup
  user_exists : ∀ m ∈ userOrgs, (users.get m.userId).isSome = true
  org_exists : ∀ m ∈ userOrgs, m.orgId < nextOrg
  role_exists : ∀ m ∈ userOrgs, (roles.get m.roleId).isSome = true

/-- The errors of the service, with their messages, those of Prisma (an update of a missing record,
a second record with a unique value, a foreign key that names no record), and the error of a failed
call. -/
inductive Err where
  | forbidden (message : String)
  | conflict (message : String)
  | notFound (message : String)
  | unauthorized (message : String)
  | recordNotFound
  | uniqueConstraint
  | foreignKey
  | fault

/-- What the lookup of a membership includes: the role, and the user's address and number of
memberships. -/
structure Membership where
  role : Role
  email : String
  userOrgs : ℕ

/-- The data of `user.create`, with the membership that it creates. -/
structure UserData where
  email : String
  name : Option String
  passwordHash : String
  orgId : Id
  roleId : Id

/-- The user that `user.create` makes. -/
def UserData.row (d : UserData) (i : Id) : User := ⟨i, d.email, d.name, some d.passwordHash⟩

theorem UserData.key_row (d : UserData) (i : ℕ) : Keyed.key (d.row i) = i := rfl

/-- A user who cannot sign in. -/
def User.disable (u : User) : User := { u with passwordHash := none }

theorem User.key_disable (u : User) : Keyed.key u.disable = Keyed.key u := rfl

/-- What the lookup of a sign-in includes: the stored hash, and the first organization. -/
structure SignIn where
  id : Id
  passwordHash : Option String
  firstOrgId : Option Id

/-- A user with another password. -/
def User.rehash (hash : String) (u : User) : User := { u with passwordHash := some hash }

theorem User.key_rehash (hash : String) (u : User) : Keyed.key (u.rehash hash) = Keyed.key u := rfl

/-- The statements, named after the model and the method that they call. `signInFindUnique` looks a
user up by the address with what a sign-in needs, and `hashFindUnique` a user's hash. A reset of a
password is a transaction with its audit entry; `defaultOrg` finds or creates the first
organization. -/
inductive Stmt where
  | userFindUnique (email : String)
  | userCreate (data : UserData)
  | userOrgFindUnique (userId orgId : Id)
  | userOrgCount (orgId roleId : Id)
  | roleFindUnique (name : String)
  | roleCreate (name : String)
  | deleteTransaction (userId orgId : Id) (disableSignIn : Bool)
  | signInFindUnique (email : String)
  | hashFindUnique (userId : Id)
  | hashUpdate (userId : Id) (hash : String)
  | resetTransaction (orgId userId actorId : Id) (hash : String)
  | defaultOrg

namespace Stmt

/-- The response of a statement. -/
@[reducible] def Resp : Stmt → Type
  | userFindUnique _ => Option Id
  | userCreate _ => User
  | userOrgFindUnique _ _ => Option Membership
  | userOrgCount _ _ => ℕ
  | roleFindUnique _ => Option Role
  | roleCreate _ => Role
  | deleteTransaction _ _ _ => Unit
  | signInFindUnique _ => Option SignIn
  | hashFindUnique _ => Option (Option String)
  | hashUpdate _ _ => Unit
  | resetTransaction _ _ _ _ => Unit
  | defaultOrg => Id

end Stmt

namespace Store

variable (w : Store)

/-- The membership of a user in an organization. -/
def membership (userId orgId : Id) : Option UserOrg :=
  w.userOrgs.find? fun m => m.key == (userId, orgId)

/-- A membership found by its key is the only one with it. -/
theorem eq_of_membership {w : Store} {userId orgId : Id} {m m' : UserOrg}
    (h : w.membership userId orgId = some m) (hm' : m' ∈ w.userOrgs) (hkey : m'.key = (userId, orgId)) :
    m' = m := by
  have hm := List.mem_of_find?_eq_some h
  have hkey' : m.key = (userId, orgId) := by simpa using List.find?_some h
  exact List.inj_on_of_nodup_map w.one_membership hm' hm (hkey.trans hkey'.symm)

/-- The membership is an administrator's. -/
def isAdmin (m : UserOrg) : Bool := (w.roles.get m.roleId).any fun role => role.name == "admin"

/-- The number of administrators of an organization. -/
def adminCount (orgId : Id) : ℕ := w.userOrgs.countP fun m => m.orgId == orgId && w.isAdmin m

/-- `role.create`, for a name that no role has. -/
def insertRole (name : String) (h : name ∉ w.roles.rows.map Role.name) : Store :=
  { w with
    roles := w.roles.insert (fun i => ⟨i, name⟩) fun _ => rfl
    one_name := by
      show ((w.roles.rows ++ [_]).map Role.name).Nodup
      rw [List.map_append]
      refine List.nodup_append.mpr ⟨w.one_name, List.nodup_singleton _, ?_⟩
      intro a ha b hb
      rw [List.mem_singleton.mp hb]
      intro hab
      have hname : a = name := hab
      exact h (hname ▸ ha)
    role_exists := fun m hm => by
      obtain ⟨role, hrole⟩ := Option.isSome_iff_exists.mp (w.role_exists m hm)
      rw [Table.get_insert_of_get (fun _ => rfl) hrole]
      rfl }

/-- `user.create` with its membership, for an organization and a role that exist. -/
def insertUser (d : UserData) (horg : d.orgId < w.nextOrg)
    (hrole : (w.roles.get d.roleId).isSome = true) : Store :=
  { w with
    users := w.users.insert d.row d.key_row
    userOrgs := w.userOrgs ++ [⟨w.users.next, d.orgId, d.roleId⟩]
    one_membership := by
      rw [List.map_append]
      refine List.nodup_append.mpr ⟨w.one_membership, List.nodup_singleton _, ?_⟩
      intro a ha b hb hab
      obtain ⟨m, hm, rfl⟩ := List.mem_map.mp ha
      -- the key of the new user is no member's
      have hnone := Table.get_eq_none_of_le (le_refl w.users.next)
      have hsome := w.user_exists m hm
      have huser : m.userId = w.users.next :=
        congrArg Prod.fst (hab.trans (List.mem_singleton.mp hb))
      rw [huser, hnone] at hsome
      cases hsome
    user_exists := fun m hm => by
      rcases List.mem_append.mp hm with hm | hm
      · obtain ⟨u, hu⟩ := Option.isSome_iff_exists.mp (w.user_exists m hm)
        rw [Table.get_insert_of_get d.key_row hu]
        rfl
      · rw [List.mem_singleton.mp hm, Table.get_insert_next]
        rfl
    org_exists := fun m hm => by
      rcases List.mem_append.mp hm with hm | hm
      · exact w.org_exists m hm
      · rw [List.mem_singleton.mp hm]
        exact horg
    role_exists := fun m hm => by
      rcases List.mem_append.mp hm with hm | hm
      · exact w.role_exists m hm
      · rw [List.mem_singleton.mp hm]
        exact hrole }

/-- The transaction of `deleteAccount`, for a member: the user's roles on the servers of the
organization go with the membership. -/
def removeMember (userId orgId : Id) (disableSignIn : Bool) : Store :=
  { w with
    users :=
      if disableSignIn then w.users.update userId User.disable User.key_disable else w.users
    userOrgs := w.userOrgs.eraseP fun m => m.key == (userId, orgId)
    userServerRoles :=
      w.userServerRoles.filter fun x =>
        !(x.userId == userId && w.serverOrg x.serverInstanceId == some orgId)
    one_membership := w.one_membership.sublist (List.eraseP_sublist.map UserOrg.key)
    user_exists := fun m hm => by
      have hsome := w.user_exists m (List.mem_of_mem_eraseP hm)
      split_ifs
      · rw [Table.get_update User.key_disable]
        split_ifs
        · rw [Option.isSome_map]
          exact hsome
        · exact hsome
      · exact hsome
    org_exists := fun m hm => w.org_exists m (List.mem_of_mem_eraseP hm)
    role_exists := fun m hm => w.role_exists m (List.mem_of_mem_eraseP hm) }

/-- `user.update` of the hash. -/
def setHash (userId : Id) (hash : String) : Store :=
  { w with
    users := w.users.update userId (User.rehash hash) (User.key_rehash hash)
    user_exists := fun m hm => by
      have hsome := w.user_exists m hm
      rw [Table.get_update (User.key_rehash hash)]
      split_ifs
      · rw [Option.isSome_map]
        exact hsome
      · exact hsome }

/-- The first organization, created if there is none. -/
def firstOrg : Store :=
  { w with
    nextOrg := max 1 w.nextOrg
    org_exists := fun m hm => lt_of_lt_of_le (w.org_exists m hm) (le_max_right _ _) }

end Store

/-- What a statement does. -/
def exec : (s : Stmt) → Store → Except Err s.Resp × Store
  | .userFindUnique email, w => (.ok ((w.users.rows.find? fun u => u.email == email).map User.id), w)
  | .userCreate d, w =>
    if w.users.rows.any fun u => u.email == d.email then (.error .uniqueConstraint, w)
    else
      if h : d.orgId < w.nextOrg ∧ (w.roles.get d.roleId).isSome = true then
        (.ok (d.row w.users.next), w.insertUser d h.1 h.2)
      else (.error .foreignKey, w)
  | .userOrgFindUnique userId orgId, w =>
    (.ok do
      let m ← w.membership userId orgId
      let role ← w.roles.get m.roleId
      let user ← w.users.get m.userId
      return ⟨role, user.email, w.userOrgs.countP fun x => x.userId == userId⟩, w)
  | .userOrgCount orgId roleId, w =>
    (.ok (w.userOrgs.countP fun m => m.orgId == orgId && m.roleId == roleId), w)
  | .roleFindUnique name, w => (.ok (w.roles.rows.find? fun role => role.name == name), w)
  | .roleCreate name, w =>
    if h : name ∈ w.roles.rows.map Role.name then (.error .uniqueConstraint, w)
    else (.ok ⟨w.roles.next, name⟩, w.insertRole name h)
  | .deleteTransaction userId orgId disableSignIn, w =>
    if (w.membership userId orgId).isNone then (.error .recordNotFound, w)
    else (.ok (), w.removeMember userId orgId disableSignIn)
  | .signInFindUnique email, w =>
    (.ok ((w.users.rows.find? fun u => u.email == email).map fun u =>
      ⟨u.id, u.passwordHash, (w.userOrgs.find? fun m => m.userId == u.id).map UserOrg.orgId⟩), w)
  | .hashFindUnique userId, w => (.ok ((w.users.get userId).map User.passwordHash), w)
  | .hashUpdate userId hash, w =>
    if (w.users.get userId).isNone then (.error .recordNotFound, w)
    else (.ok (), w.setHash userId hash)
  | .resetTransaction _ userId _ hash, w =>
    if (w.users.get userId).isNone then (.error .recordNotFound, w)
    else (.ok (), w.setHash userId hash)
  | .defaultOrg, w => (.ok 0, w.firstOrg)

/-- The database as a machine, all of whose calls can fail. -/
def machine : Machine Stmt.Resp Err Store := ⟨exec, fun _ => true, .fault⟩

/-- A program of the service. -/
abbrev Service (α : Type) := Program Stmt.Resp Err α

/-- Sends a statement. -/
abbrev query (s : Stmt) : Service s.Resp := Program.request s

/-- What the service uses of its runtime and of `auth.service.ts`. -/
structure Env where
  cases : CaseTables
  makePasswordHash : String → String

/-- The roles of the accounts that `createAccount` creates. -/
inductive AccountRole where
  | operator | viewer

/-- The name of such a role. -/
def AccountRole.text : AccountRole → String
  | operator => "operator"
  | viewer => "viewer"

/-- `CreateOrgAccountDto`. -/
structure CreateOrgAccountDto where
  email : String
  password : String
  name : Option String
  role : AccountRole

/-- What `deleteAccount` returns. -/
structure DeletedAccount where
  email : String
  signInDisabled : Bool

namespace OrgsService

/-- `OrgMemberGuard` and `RequireOrgRoleGuard`, for administrators. -/
def requireAdmin (userId orgId : Id) : Service Unit := do
  let found ← query (.userOrgFindUnique userId orgId)
  match found with
  | none => throw (.forbidden "Not a member of this org")
  | some membership =>
    if membership.role.name ≠ "admin" then
      throw (.forbidden "Insufficient permissions (admin or operator required)")
    else pure ()

/-- `resolveRole`. -/
def resolveRole (name : String) : Service Role := do
  let found ← query (.roleFindUnique name)
  match found with
  | some role => pure role
  | none => query (.roleCreate name)

/-- The name that is stored: the trimmed one, unless it is empty. -/
def storedName (name : Option String) : Option String :=
  (name.map trim).filter fun s => s != ""

/-- `createAccount`. -/
def createAccount (env : Env) (orgId actingUserId : Id) (input : CreateOrgAccountDto) :
    Service User := do
  requireAdmin actingUserId orgId
  let email := env.cases.toLowerCase (trim input.email)
  let existing ← query (.userFindUnique email)
  match existing with
  | some _ => throw (.conflict "An account with this email already exists")
  | none => do
    let role ← resolveRole input.role.text
    query <| .userCreate
      ⟨email, storedName input.name, env.makePasswordHash input.password, orgId, role.id⟩

/-- The check of `deleteAccount` that an administrator is not the last one. -/
def keepsAdministrator (orgId : Id) (role : Role) : Service Unit :=
  if role.name = "admin" then do
    let adminRole ← query (.roleFindUnique "admin")
    let adminCount ← countMembers adminRole
    if adminCount ≤ 1 then
      throw (.conflict "The organization must keep at least one administrator")
    else pure ()
  else pure ()
where
  /-- The number of members with a role, if the role exists. -/
  countMembers (role : Option Role) : Service ℕ :=
    match role with
    | some role => query (.userOrgCount orgId role.id)
    | none => pure 0

/-- `deleteAccount`. -/
def deleteAccount (orgId accountId actingUserId : Id) : Service DeletedAccount := do
  requireAdmin actingUserId orgId
  if accountId = actingUserId then throw (.forbidden "You cannot delete your own account")
  else do
    let found ← query (.userOrgFindUnique accountId orgId)
    match found with
    | none => throw (.notFound "Organization account not found")
    | some membership => do
      keepsAdministrator orgId membership.role
      query (.deleteTransaction accountId orgId (membership.userOrgs == 1))
      return ⟨membership.email, membership.userOrgs == 1⟩

end OrgsService

/-- The operations on accounts. -/
inductive AccountOp where
  | createAccount (orgId actingUserId : Id) (input : CreateOrgAccountDto)
  | deleteAccount (orgId accountId actingUserId : Id)

/-- The program of an operation. -/
def AccountOp.prog (env : Env) : AccountOp → Service Unit
  | createAccount orgId actingUserId input => do
    let _ ← OrgsService.createAccount env orgId actingUserId input
    return ()
  | deleteAccount orgId accountId actingUserId => do
    let _ ← OrgsService.deleteAccount orgId accountId actingUserId
    return ()

/-- What everything else does: it creates users, organizations, roles, and memberships of new users
or in new organizations. -/
structure MembersKept (w w' : Store) : Prop where
  users : ∀ u, (w.users.get u).isSome = true → (w'.users.get u).isSome = true
  orgs : w.nextOrg ≤ w'.nextOrg
  roles : ∀ i role, w.roles.get i = some role → w'.roles.get i = some role
  kept : w.userOrgs.Sublist w'.userOrgs
  fresh : ∀ m ∈ w'.userOrgs, m ∈ w.userOrgs ∨ w.users.get m.userId = none ∨ w.nextOrg ≤ m.orgId

/-- The operations on accounts, and everything else around them. -/
def accounts (env : Env) : System AccountOp Stmt.Resp Err Unit Store :=
  ⟨machine, AccountOp.prog env, MembersKept⟩

/-- A call of one of the operations. -/
abbrev AccountEvent := Event Stmt.Resp Err Store

end Mastermind.Orgs
