import Mastermind.Orgs.Login
import Mastermind.Platform.Utf8

/-!
# Who can sign in

What a history of account operations means is a ledger: for every account its address, the password
set last, and whether it has been disabled. `Agrees` relates it to the store, and every operation
keeps the two together, whichever of its calls fail.

An address is stored in its normal form and looked up as it is given. A sign-in therefore follows the
ledger if and only if the address is in normal form, or nobody could sign in with it anyway.
-/

namespace Mastermind.Orgs

open Effect Effect.Program

/-- An account as its history has left it. -/
structure Account where
  email : String
  password : String
  disabled : Bool
  deriving DecidableEq

/-- The accounts by their ids. -/
abbrev Ledger := Id → Option Account

namespace Ledger

/-- Changes an account. -/
def change (l : Ledger) (id : Id) (f : Account → Account) : Ledger :=
  fun i => if i = id then (l i).map f else l i

/-- What a completed operation means. -/
def record (rt : Runtime) (l : Ledger) (turn : Turn PasswordOp Err Done Store) : Ledger :=
  match turn.op, turn.result with
  | .createAccount _ _ input _, .ok (.created id) => fun i =>
    if i = id then some ⟨rt.normalize input.email, input.password, false⟩ else l i
  | .resetAccountPassword _ accountId _ newPassword _, .ok _ =>
    l.change accountId fun a => { a with password := newPassword }
  | .changePassword userId _ newPassword _, .ok _ =>
    l.change userId fun a => { a with password := newPassword }
  | .deleteAccount _ accountId _, .ok (.deleted true) =>
    l.change accountId fun a => { a with disabled := true }
  | _, _ => l

/-- The ledger after a history, the newest operation first. -/
def after (rt : Runtime) (l : Ledger) (history : List (Turn PasswordOp Err Done Store)) : Ledger :=
  history.foldr (fun turn l => l.record rt turn) l

/-- Some account with the address is not disabled and has the password. -/
def Admits (l : Ledger) (email password : String) : Prop :=
  ∃ i a, l i = some a ∧ a.email = email ∧ a.disabled = false ∧ a.password = password

end Ledger

/-- The stored hash of an account. -/
def Account.StoredAs (rt : Runtime) (a : Account) (u : User) : Prop :=
  u.email = a.email ∧
    if a.disabled then u.passwordHash = none
    else ∃ salt, u.passwordHash = some (rt.makePasswordHash salt a.password)

/-- The store holds the accounts of the ledger: each user is one, a disabled one has no membership,
and the addresses are distinct and in normal form. -/
structure Agrees (rt : Runtime) (l : Ledger) (w : Store) : Prop where
  stored : ∀ i a, l i = some a → ∃ u, w.users.get i = some u ∧ a.StoredAs rt u
  known : ∀ i u, w.users.get i = some u → (l i).isSome = true
  left : ∀ i a, l i = some a → a.disabled = true → ∀ m ∈ w.userOrgs, m.userId ≠ i
  one_email : ∀ i j a b, l i = some a → l j = some b → a.email = b.email → i = j
  normal : ∀ i a, l i = some a → rt.normalize a.email = a.email

/-! ## Normal forms -/

/-- What lower-casing does to letters: what it yields it keeps, and it turns white space into white
space and other letters into other letters. -/
structure Lowers (T : CaseTables) : Prop where
  fixed : ∀ c, ∀ d ∈ T.jsLower c, T.jsLower d = [d]
  space : ∀ c, ∀ d ∈ T.jsLower c, isJsSpace d = isJsSpace c
  ne_nil : ∀ c, T.jsLower c ≠ []

section Normal

variable {T : CaseTables}

/-- Lower-casing twice is lower-casing once. -/
theorem Lowers.toLowerCase_twice (h : Lowers T) (s : String) :
    T.toLowerCase (T.toLowerCase s) = T.toLowerCase s := by
  unfold CaseTables.toLowerCase
  rw [String.toList_ofList, List.flatMap_assoc]
  congr 1
  refine List.flatMap_congr fun c _ => ?_
  calc (T.jsLower c).flatMap T.jsLower = (T.jsLower c).flatMap fun d => [d] :=
        List.flatMap_congr (h.fixed c)
    _ = T.jsLower c := List.flatMap_singleton' _

/-- After a trim neither end is white space. -/
theorem ends_of_trim (s : String) :
    (∀ c, (trim s).toList.head? = some c → isJsSpace c = false) ∧
      ∀ c, (trim s).toList.getLast? = some c → isJsSpace c = false := by
  have hhead : ∀ (l : List Char) c, (l.dropWhile isJsSpace).head? = some c → isJsSpace c = false := by
    intro l c hc
    have hnot := List.head?_dropWhile_not isJsSpace l
    rw [hc] at hnot
    simpa using hnot
  unfold trim stripBy
  rw [String.toList_ofList]
  constructor
  · intro c hc
    -- the head is that of the text without its beginning, unless nothing is left
    have hsub : ∀ l : List Char, (∀ x, l.head? = some x → isJsSpace x = false) →
        ∀ x, (l.reverse.dropWhile isJsSpace).reverse.head? = some x → isJsSpace x = false := by
      intro l hl x hx
      refine hl x ?_
      have hsuffix : l.reverse.dropWhile isJsSpace <:+ l.reverse := List.dropWhile_suffix _
      have hprefix : (l.reverse.dropWhile isJsSpace).reverse <+: l := by
        have := List.reverse_prefix.mpr hsuffix
        rwa [List.reverse_reverse] at this
      obtain ⟨rest, hrest⟩ := hprefix
      rw [← hrest, List.head?_append, hx]
      rfl
    exact hsub _ (hhead _) c hc
  · intro c hc
    rw [List.getLast?_reverse] at hc
    exact hhead _ c hc

/-- Trimming a lower-cased text without white space at its ends keeps it. -/
theorem Lowers.trim_toLowerCase (h : Lowers T) (s : String) :
    trim (T.toLowerCase (trim s)) = T.toLowerCase (trim s) := by
  obtain ⟨hfirst, hlast⟩ := ends_of_trim s
  have hhead : ∀ c, ((trim s).toList.flatMap T.jsLower).head? = some c → isJsSpace c = false := by
    intro c hc
    cases hl : (trim s).toList with
    | nil => rw [hl] at hc; exact absurd hc (by simp)
    | cons x l =>
      rw [hl, List.flatMap_cons, List.head?_append_of_ne_nil _ (h.ne_nil x)] at hc
      rw [h.space x c (List.mem_of_head? hc)]
      exact hfirst x (by rw [hl]; rfl)
  have hend : ∀ c, ((trim s).toList.flatMap T.jsLower).getLast? = some c → isJsSpace c = false := by
    intro c hc
    rcases List.eq_nil_or_concat (trim s).toList with hl | ⟨l, x, hl⟩
    · rw [hl] at hc
      exact absurd hc (by simp)
    · rw [List.concat_eq_append] at hl
      rw [hl, List.flatMap_append, List.flatMap_singleton,
        List.getLast?_append_of_ne_nil _ (h.ne_nil x)] at hc
      rw [h.space x c (List.mem_of_getLast? hc)]
      exact hlast x (by rw [hl]; simp)
  exact stripBy_of_ends hhead hend

/-- A normal form is its own normal form. -/
theorem Lowers.normalize_twice {rt : Runtime} (h : Lowers rt.cases) (email : String) :
    rt.normalize (rt.normalize email) = rt.normalize email := by
  unfold Runtime.normalize
  rw [h.trim_toLowerCase, h.toLowerCase_twice]

end Normal

/-! ## What the operations do -/

/-- Any call can fail. -/
abbrev anyFailure : Transformer Stmt.Resp Err Store := machine.requires fun _ _ => True

/-- The users and the memberships are as they were. -/
def Quiet (w w' : Store) : Prop := w'.users = w.users ∧ w'.userOrgs = w.userOrgs

/-- An operation that fails leaves the users and the memberships; one that returns does as `T`
says. -/
def Post {α : Type} (w : Store) (T : α → Store → Prop) (r : Except Err α) (w' : Store) : Prop :=
  match r with
  | .ok a => T a w'
  | .error _ => Quiet w w'

section Operations

variable {α : Type} {w v : Store}

/-- A lookup, before more. -/
theorem wp_look {s : Stmt} {f : s.Resp → Service α} {T : α → Store → Prop} (hv : Quiet w v)
    (hs : (exec s v).2 = v)
    (hf : ∀ a, (exec s v).1 = .ok a → (f a).wp anyFailure (Post w T) v) :
    (query s >>= f).wp anyFailure (Post w T) v := by
  rw [wp_bind, wp_request]
  refine ⟨?_, fun _ _ => hv⟩
  show andThen anyFailure f (Post w T) (exec s v).1 (exec s v).2
  rw [hs]
  cases hr : (exec s v).1 with
  | ok a => exact hf a hr
  | error e => exact hv

/-- A last call, before the operation returns. -/
theorem wp_finish {s : Stmt} {T : s.Resp → Store → Prop} (hv : Quiet w v)
    (hs : Post w T (exec s v).1 (exec s v).2) : (query s).wp anyFailure (Post w T) v :=
  (wp_request _ _ _).mpr ⟨hs, fun _ _ => hv⟩

/-- Parts of an operation follow each other. -/
theorem wp_parts {β : Type} {p : Service α} {f : α → Service β} {T : α → Store → Prop}
    {T' : β → Store → Prop} (hp : p.wp anyFailure (Post w T) v)
    (hf : ∀ a v', T a v' → (f a).wp anyFailure (Post w T') v') :
    (p >>= f).wp anyFailure (Post w T') v :=
  wp_bind_of (Machine.requires_monotone _ _) hp hf fun _ _ h => h

theorem requireAdmin_spec (userId orgId : Id) (hv : Quiet w v) :
    (OrgsService.requireAdmin userId orgId).wp anyFailure (Post w fun _ => Quiet w) v := by
  unfold OrgsService.requireAdmin
  refine wp_look hv rfl fun found _ => ?_
  split
  · exact (wp_throw _ _ _).mpr hv
  · rw [wp_ite]
    split_ifs
    · exact (wp_throw _ _ _).mpr hv
    · exact (wp_pure _ _ _).mpr hv

theorem resolveRole_spec (name : String) (hv : Quiet w v) :
    (OrgsService.resolveRole name).wp anyFailure (Post w fun _ => Quiet w) v := by
  unfold OrgsService.resolveRole
  refine wp_look hv rfl fun found _ => ?_
  split
  · exact (wp_pure _ _ _).mpr hv
  · refine wp_finish hv ?_
    rw [exec]
    split_ifs
    · exact hv
    · exact ⟨hv.1, hv.2⟩

/-- The user that `createAccount` adds, with an address that no other user has. -/
def Added (w : Store) (d : UserData) (u : User) (w' : Store) : Prop :=
  (∀ x ∈ w.users.rows, x.email ≠ d.email) ∧ u.id = w.users.next ∧
    w'.users = w.users.insert d.row d.key_row ∧
    w'.userOrgs = w.userOrgs ++ [⟨w.users.next, d.orgId, d.roleId⟩]

/-- What creating a user does. -/
theorem userCreate_post {email hash : String} (hv : Quiet w v) (d : UserData) (hemail : d.email = email)
    (hhash : d.passwordHash = hash) :
    Post w (fun u w' => ∃ d, d.email = email ∧ d.passwordHash = hash ∧ Added w d u w')
      (exec (.userCreate d) v).1 (exec (.userCreate d) v).2 := by
  rw [exec]
  split_ifs with hused hrefers
  · exact hv
  · refine ⟨d, hemail, hhash, fun x hx heq => ?_, ?_, ?_, ?_⟩
    · exact hused (List.any_eq_true.mpr ⟨x, by rw [hv.1]; exact hx, by simp [heq]⟩)
    · exact congrArg Table.next hv.1
    · show v.users.insert d.row d.key_row = w.users.insert d.row d.key_row
      rw [hv.1]
    · show v.userOrgs ++ [⟨v.users.next, _, _⟩] = w.userOrgs ++ [⟨w.users.next, _, _⟩]
      rw [hv.1, hv.2]
  · exact hv

theorem createAccount_spec (env : Env) (orgId actingUserId : Id) (input : CreateOrgAccountDto) :
    (OrgsService.createAccount env orgId actingUserId input).wp anyFailure (Post w fun u w' =>
      ∃ d, d.email = env.cases.toLowerCase (trim input.email) ∧
        d.passwordHash = env.makePasswordHash input.password ∧ Added w d u w') w := by
  unfold OrgsService.createAccount
  refine wp_parts (requireAdmin_spec actingUserId orgId ⟨rfl, rfl⟩) fun _ v hv => ?_
  refine wp_look hv rfl fun existing _ => ?_
  split
  · exact (wp_throw _ _ _).mpr hv
  refine wp_parts (resolveRole_spec _ hv) fun role v' hv' => ?_
  exact wp_finish hv' (userCreate_post hv' _ rfl rfl)

theorem resetAccountPassword_spec (env : Env) (orgId accountId actingUserId : Id)
    (newPassword : String) :
    (OrgsService.resetAccountPassword env orgId accountId actingUserId newPassword).wp anyFailure
      (Post w fun _ w' => ∃ v, Quiet w v ∧ (∃ m ∈ w.userOrgs, m.userId = accountId) ∧
        w' = v.setHash accountId (env.makePasswordHash newPassword)) w := by
  unfold OrgsService.resetAccountPassword
  refine wp_parts (requireAdmin_spec actingUserId orgId ⟨rfl, rfl⟩) fun _ v hv => ?_
  rw [wp_ite]
  split_ifs
  · exact (wp_throw _ _ _).mpr hv
  refine wp_look hv rfl fun actor _ => ?_
  refine wp_look hv rfl fun target htarget => ?_
  rw [wp_ite]
  split_ifs
  · exact (wp_throw _ _ _).mpr hv
  split
  · exact (wp_throw _ _ _).mpr hv
  rw [wp_ite]
  split_ifs
  · exact (wp_throw _ _ _).mpr hv
  refine wp_finish hv ?_
  rw [exec]
  split_ifs
  · exact hv
  · refine ⟨v, hv, ?_, rfl⟩
    -- the target was found by its membership
    obtain ⟨m, hm, -⟩ := Option.bind_eq_some_iff.mp (Except.ok.inj htarget)
    have hmem := List.mem_of_find?_eq_some hm
    have hkey : m.key = (accountId, orgId) := by simpa using List.find?_some hm
    rw [← hv.2]
    exact ⟨m, hmem, congrArg Prod.fst hkey⟩

theorem changePassword_spec (rt : Runtime) (userId : Id) (currentPassword newPassword : String)
    (salt : Salt) :
    (AuthService.changePassword rt userId currentPassword newPassword salt).wp anyFailure
      (Post w fun _ w' => ∃ v, Quiet w v ∧
        (∃ u, w.users.get userId = some u ∧ u.passwordHash.isSome = true) ∧
        w' = v.setHash userId (rt.makePasswordHash salt newPassword)) w := by
  unfold AuthService.changePassword
  have hw : Quiet w w := ⟨rfl, rfl⟩
  refine wp_look hw rfl fun found hfound => ?_
  split
  · rw [wp_ite]
    split_ifs
    · exact (wp_throw _ _ _).mpr hw
    · exact (wp_throw _ _ _).mpr hw
    · refine wp_finish hw ?_
      rw [exec]
      split_ifs
      · exact hw
      · refine ⟨w, hw, ?_, rfl⟩
        obtain ⟨u, hu, hhash⟩ := Option.map_eq_some_iff.mp (Except.ok.inj hfound)
        exact ⟨u, hu, by rw [hhash]; rfl⟩
  · exact (wp_throw _ _ _).mpr hw

theorem keepsAdministrator_spec (orgId : Id) (role : Role) (hv : Quiet w v) :
    (OrgsService.keepsAdministrator orgId role).wp anyFailure (Post w fun _ => Quiet w) v := by
  unfold OrgsService.keepsAdministrator
  rw [wp_ite]
  split_ifs
  swap
  · exact (wp_pure _ _ _).mpr hv
  refine wp_look hv rfl fun adminRole _ => ?_
  have hcount : (OrgsService.keepsAdministrator.countMembers orgId adminRole).wp anyFailure
      (Post w fun _ => Quiet w) v := by
    unfold OrgsService.keepsAdministrator.countMembers
    split
    · exact wp_finish hv hv
    · exact (wp_pure _ _ _).mpr hv
  refine wp_parts hcount fun adminCount v' hv' => ?_
  rw [wp_ite]
  split_ifs
  · exact (wp_throw _ _ _).mpr hv'
  · exact (wp_pure _ _ _).mpr hv'

theorem deleteAccount_spec (orgId accountId actingUserId : Id) :
    (OrgsService.deleteAccount orgId accountId actingUserId).wp anyFailure
      (Post w fun deleted w' => ∃ v, Quiet w v ∧ (∃ m ∈ w.userOrgs, m.key = (accountId, orgId)) ∧
        deleted.signInDisabled = (w.userOrgs.countP (fun m => m.userId == accountId) == 1) ∧
        w' = v.removeMember accountId orgId deleted.signInDisabled) w := by
  unfold OrgsService.deleteAccount
  refine wp_parts (requireAdmin_spec actingUserId orgId ⟨rfl, rfl⟩) fun _ v hv => ?_
  rw [wp_ite]
  split_ifs
  · exact (wp_throw _ _ _).mpr hv
  refine wp_look hv rfl fun found hfound => ?_
  split
  · exact (wp_throw _ _ _).mpr hv
  rename_i membership
  obtain ⟨m, hm, hfound⟩ := Option.bind_eq_some_iff.mp (Except.ok.inj hfound)
  obtain ⟨role, -, hfound⟩ := Option.bind_eq_some_iff.mp hfound
  obtain ⟨user, -, hfound⟩ := Option.bind_eq_some_iff.mp hfound
  obtain rfl := Option.some.inj hfound
  have hmem : m ∈ w.userOrgs := by
    rw [← hv.2]
    exact List.mem_of_find?_eq_some hm
  have hkey : m.key = (accountId, orgId) := by simpa using List.find?_some hm
  refine wp_parts (keepsAdministrator_spec orgId _ hv) fun _ v' hv' => ?_
  refine wp_parts (T := fun _ w' => w' = v'.removeMember accountId orgId
    (v.userOrgs.countP (fun x => x.userId == accountId) == 1)) (wp_finish hv' ?_) fun _ w' hw' => ?_
  · rw [exec]
    split_ifs
    · exact hv'
    · rfl
  · refine (wp_pure _ _ _).mpr ⟨v', hv', ⟨m, hmem, hkey⟩, ?_, hw'⟩
    rw [← hv.2]

end Operations

/-! ## The ledger and the store -/

section Agreement

variable {rt : Runtime} {l : Ledger} {w w' : Store}

/-- A store with the same users and memberships holds the same accounts. -/
theorem Agrees.quiet (h : Agrees rt l w) (hq : Quiet w w') : Agrees rt l w' where
  stored i a hi := by rw [hq.1]; exact h.stored i a hi
  known i u hu := h.known i u (by rw [← hq.1]; exact hu)
  left i a hi hd m hm := h.left i a hi hd m (by rw [← hq.2]; exact hm)
  one_email := h.one_email
  normal := h.normal

/-- A change of an account that keeps its address. -/
theorem Agrees.changed (h : Agrees rt l w) {id : Id} {f : Account → Account}
    (hemail : ∀ a, (f a).email = a.email) {g : User → User} (hg : ∀ u, Keyed.key (g u) = Keyed.key u)
    (hstored : ∀ a u, l id = some a → w.users.get id = some u → a.StoredAs rt u →
      (f a).StoredAs rt (g u))
    (husers : w'.users = w.users.update id g hg) (hsub : ∀ m ∈ w'.userOrgs, m ∈ w.userOrgs)
    (hleft : ∀ a, l id = some a → (f a).disabled = true → ∀ m ∈ w'.userOrgs, m.userId ≠ id) :
    Agrees rt (l.change id f) w' := by
  have hback : ∀ i b, l.change id f i = some b → ∃ a, l i = some a ∧
      ((i = id ∧ b = f a) ∨ (i ≠ id ∧ b = a)) := by
    intro i b hb
    unfold Ledger.change at hb
    split_ifs at hb with hi
    · obtain ⟨a, ha, rfl⟩ := Option.map_eq_some_iff.mp hb
      exact ⟨a, ha, .inl ⟨hi, rfl⟩⟩
    · exact ⟨b, hb, .inr ⟨hi, rfl⟩⟩
  have hsame : ∀ i b a, ((i = id ∧ b = f a) ∨ (i ≠ id ∧ b = a)) → b.email = a.email := by
    rintro i b a (⟨-, rfl⟩ | ⟨-, rfl⟩)
    · exact hemail a
    · rfl
  refine ⟨fun i b hb => ?_, fun i u hu => ?_, fun i b hb hd m hm => ?_,
    fun i j b c hb hc he => ?_, fun i b hb => ?_⟩
  · obtain ⟨a, ha, hcase⟩ := hback i b hb
    obtain ⟨u, hu, hstoredAs⟩ := h.stored i a ha
    rw [husers, Table.get_update hg, hu]
    rcases hcase with ⟨rfl, rfl⟩ | ⟨hne, rfl⟩
    · rw [if_pos rfl]
      exact ⟨g u, rfl, hstored a u ha hu hstoredAs⟩
    · rw [if_neg hne]
      exact ⟨u, rfl, hstoredAs⟩
  · rw [husers, Table.get_update hg] at hu
    unfold Ledger.change
    split_ifs at hu ⊢ with hi
    · obtain ⟨x, hx, -⟩ := Option.map_eq_some_iff.mp hu
      rw [Option.isSome_map]
      exact h.known i x hx
    · exact h.known i u hu
  · obtain ⟨a, ha, ⟨rfl, rfl⟩ | ⟨-, rfl⟩⟩ := hback i b hb
    · exact hleft a ha hd m hm
    · exact h.left i b ha hd m (hsub m hm)
  · obtain ⟨a, ha, hcase⟩ := hback i b hb
    obtain ⟨a', ha', hcase'⟩ := hback j c hc
    exact h.one_email i j a a' ha ha'
      ((hsame i b a hcase).symm.trans (he.trans (hsame j c a' hcase')))
  · obtain ⟨a, ha, hcase⟩ := hback i b hb
    rw [hsame i b a hcase]
    exact h.normal i a ha

/-- A new account with a fresh address. -/
theorem Agrees.created (h : Agrees rt l w) {d : UserData} {u : User} {password : String}
    {salt : Salt} (hadded : Added w d u w') (hnormal : rt.normalize d.email = d.email)
    (hhash : d.passwordHash = rt.makePasswordHash salt password) :
    Agrees rt (fun i => if i = u.id then some ⟨d.email, password, false⟩ else l i) w' := by
  obtain ⟨hfresh, hid, husers, horgs⟩ := hadded
  have hget : ∀ i, w'.users.get i = if i = w.users.next then some (d.row i) else w.users.get i := by
    intro i
    rw [husers]
    split_ifs with hi
    · rw [hi, Table.get_insert_next]
    · exact Table.get_insert_of_ne d.key_row hi
  have hnone : w.users.get w.users.next = none := Table.get_eq_none_of_le le_rfl
  -- the address of the new account is no other one's
  have hother : ∀ i a, l i = some a → a.email ≠ d.email := by
    intro i a ha he
    obtain ⟨x, hx, hemail, -⟩ := h.stored i a ha
    exact hfresh x (Table.get_eq_some.mp hx).1 (hemail.trans he)
  rw [hid]
  refine ⟨fun i a hi => ?_, fun i x hx => ?_, fun i a hi hd m hm => ?_, fun i j a b hi hj he => ?_,
    fun i a hi => ?_⟩
  · rw [hget]
    split_ifs at hi ⊢ with hnew
    · obtain rfl := Option.some.inj hi
      exact ⟨_, rfl, rfl, salt, congrArg some hhash⟩
    · exact h.stored i a hi
  · rw [hget] at hx
    split_ifs at hx ⊢ with hnew
    · rfl
    · exact h.known i x hx
  · split_ifs at hi with hnew
    · obtain rfl := Option.some.inj hi
      exact absurd hd Bool.false_ne_true
    · rw [horgs] at hm
      rcases List.mem_append.mp hm with hm | hm
      · exact h.left i a hi hd m hm
      · rw [List.mem_singleton.mp hm]
        exact fun heq => hnew heq.symm
  · split_ifs at hi hj with hi' hj' hj'
    · rw [hi', hj']
    · obtain rfl := Option.some.inj hi
      exact absurd he.symm (hother j b hj)
    · obtain rfl := Option.some.inj hj
      exact absurd he (hother i a hi)
    · exact h.one_email i j a b hi hj he
  · split_ifs at hi with hnew
    · obtain rfl := Option.some.inj hi
      exact hnormal
    · exact h.normal i a hi

/-- A new password for an account that is not disabled. -/
theorem Agrees.rehashed (h : Agrees rt l w) {v : Store} (hq : Quiet w v) {id : Id} {salt : Salt}
    {password : String} (henabled : ∀ a, l id = some a → a.disabled = false) :
    Agrees rt (l.change id fun a => { a with password := password })
      (v.setHash id (rt.makePasswordHash salt password)) := by
  refine (h.quiet hq).changed (fun _ => rfl) (User.key_rehash _) (fun a u ha _ hstored => ?_) rfl
    (fun m hm => hm) fun a ha hd => ?_
  · refine ⟨hstored.1, ?_⟩
    have hd := henabled a ha
    rw [if_neg (by rw [hd]; exact Bool.false_ne_true)]
    exact ⟨salt, rfl⟩
  · exact absurd ((henabled a ha).symm.trans hd) Bool.false_ne_true

/-- Removing one element that is counted lowers a count by one. -/
theorem countP_eraseP_add_one {α : Type} {p q : α → Bool} {l : List α} (hq : ∃ a ∈ l, q a = true)
    (hpq : ∀ a, q a = true → p a = true) : (l.eraseP q).countP p + 1 = l.countP p := by
  induction l with
  | nil =>
    obtain ⟨a, ha, -⟩ := hq
    exact absurd ha List.not_mem_nil
  | cons a l ih =>
    rw [List.eraseP_cons]
    cases hqa : q a with
    | true => rw [cond_true, List.countP_cons_of_pos (hpq a hqa)]
    | false =>
      obtain ⟨b, hb, hqb⟩ := hq
      have hbl : b ∈ l := by
        rcases List.mem_cons.mp hb with rfl | hb
        · exact absurd (hqa.symm.trans hqb) Bool.false_ne_true
        · exact hb
      have ih := ih ⟨b, hbl, hqb⟩
      rw [cond_false, List.countP_cons, List.countP_cons]
      omega

/-- A deletion disables the account if it removes the only membership. -/
theorem Agrees.deleted (h : Agrees rt l w) {v : Store} (hq : Quiet w v) {id orgId : Id}
    (hmember : ∃ m ∈ w.userOrgs, m.key = (id, orgId)) {d : Bool}
    (hd : d = (w.userOrgs.countP (fun m => m.userId == id) == 1)) :
    Agrees rt (if d = true then l.change id fun a => { a with disabled := true } else l)
      (v.removeMember id orgId d) := by
  have hsub : ∀ m ∈ (v.removeMember id orgId d).userOrgs, m ∈ v.userOrgs :=
    fun m hm => List.mem_of_mem_eraseP hm
  have hv := h.quiet hq
  split_ifs with hdisable
  · refine hv.changed (fun _ => rfl) User.key_disable (fun a u _ _ hstored => ?_) ?_ hsub
      fun a _ _ => ?_
    · refine ⟨hstored.1, ?_⟩
      rw [if_pos rfl]
      rfl
    · show (if d = true then _ else _) = _
      rw [if_pos hdisable]
    · -- one membership was counted, and it is the one that goes
      have hone : w.userOrgs.countP (fun m => m.userId == id) = 1 := by
        rw [hdisable] at hd
        simpa using hd.symm
      have hgone := countP_eraseP_add_one (p := fun m : UserOrg => m.userId == id)
        (q := fun m => m.key == (id, orgId)) (l := w.userOrgs)
        (by obtain ⟨m, hm, hkey⟩ := hmember; exact ⟨m, hm, by simpa using hkey⟩)
        (fun m hm => by
          have hkey : m.key = (id, orgId) := by simpa using hm
          have huser : m.userId = id := congrArg Prod.fst hkey
          simpa using huser)
      have hzero : (w.userOrgs.eraseP fun m => m.key == (id, orgId)).countP
          (fun m => m.userId == id) = 0 := by omega
      intro m hm
      have hm : m ∈ w.userOrgs.eraseP fun m => m.key == (id, orgId) := by
        rw [← hq.2]
        exact hm
      simpa using List.countP_eq_zero.mp hzero m hm
  · have hkept : (v.removeMember id orgId d).users = v.users := by
      show (if d = true then _ else _) = _
      rw [if_neg hdisable]
    exact ⟨fun i a hi => by rw [hkept]; exact hv.stored i a hi,
      fun i u hu => hv.known i u (by rw [← hkept]; exact hu),
      fun i a hi hdis m hm => hv.left i a hi hdis m (hsub m hm), hv.one_email, hv.normal⟩

/-- A membership or a hash shows that an account is not disabled. -/
theorem Agrees.enabled_of_member (h : Agrees rt l w) {id : Id}
    (hmember : ∃ m ∈ w.userOrgs, m.userId = id) : ∀ a, l id = some a → a.disabled = false := by
  obtain ⟨m, hm, hid⟩ := hmember
  intro a ha
  by_contra hd
  exact h.left id a ha (by simpa using hd) m hm hid

theorem Agrees.enabled_of_hash (h : Agrees rt l w) {id : Id}
    (hhash : ∃ u, w.users.get id = some u ∧ u.passwordHash.isSome = true) :
    ∀ a, l id = some a → a.disabled = false := by
  obtain ⟨u, hu, hsome⟩ := hhash
  intro a ha
  by_contra hd
  obtain ⟨u', hu', hstored⟩ := h.stored id a ha
  obtain rfl := Option.some.inj (hu.symm.trans hu')
  have hnone := hstored.2
  rw [if_pos (by simpa using hd)] at hnone
  rw [hnone] at hsome
  exact absurd hsome (by simp)

/-- An operation keeps the ledger and the store together. -/
theorem Agrees.turn (hlower : Lowers rt.cases) (h : Agrees rt l w) (op : PasswordOp)
    (plan : List Bool) :
    Agrees rt (l.record rt ((passwords rt).turn op plan w)) ((passwords rt).turn op plan w).after := by
  suffices hspec : (op.prog rt).wp anyFailure
      (fun r w' => Agrees rt (l.record rt ⟨op, w, r, w'⟩) w') w from
    run_of_wp hspec fun _ _ => trivial
  have hfailed : ∀ (e : Err) (w' : Store), Quiet w w' →
      Agrees rt (l.record rt ⟨op, w, .error e, w'⟩) w' := by
    intro e w' hq
    have hsame : l.record rt ⟨op, w, .error e, w'⟩ = l := by
      cases op <;> rfl
    rw [hsame]
    exact h.quiet hq
  cases op with
  | createAccount orgId actingUserId input salt =>
    refine wp_bind_of (Machine.requires_monotone _ _) (createAccount_spec _ _ _ _)
      (fun u w' hpost => (wp_pure _ _ _).mpr ?_) hfailed
    obtain ⟨d, hemail, hhash, hadded⟩ := hpost
    have hnormal : rt.normalize d.email = d.email := by
      rw [hemail]
      exact hlower.normalize_twice input.email
    have hcreated := h.created hadded hnormal hhash
    rw [hemail] at hcreated
    exact hcreated
  | resetAccountPassword orgId accountId actingUserId newPassword salt =>
    refine wp_bind_of (Machine.requires_monotone _ _) (resetAccountPassword_spec _ _ _ _ _)
      (fun _ w' hpost => (wp_pure _ _ _).mpr ?_) hfailed
    obtain ⟨v, hq, hmember, rfl⟩ := hpost
    exact h.rehashed hq (h.enabled_of_member hmember)
  | changePassword userId currentPassword newPassword salt =>
    refine wp_bind_of (Machine.requires_monotone _ _) (changePassword_spec _ _ _ _ _)
      (fun _ w' hpost => (wp_pure _ _ _).mpr ?_) hfailed
    obtain ⟨v, hq, hhash, rfl⟩ := hpost
    exact h.rehashed hq (h.enabled_of_hash hhash)
  | deleteAccount orgId accountId actingUserId =>
    refine wp_bind_of (Machine.requires_monotone _ _) (deleteAccount_spec _ _ _)
      (fun deleted w' hpost => (wp_pure _ _ _).mpr ?_) hfailed
    obtain ⟨v, hq, hmember, hd, rfl⟩ := hpost
    have hdone := h.deleted hq hmember hd
    cases hdisabled : deleted.signInDisabled with
    | true =>
      rw [hdisabled] at hdone
      exact hdone
    | false =>
      rw [hdisabled] at hdone
      exact hdone

/-- A sign-in finds the user with the address as it is given, and checks the password. -/
theorem admits_iff_found (rt : Runtime) (w : Store) (email password : String) :
    w.Admits rt email password ↔ ∃ u, w.users.rows.find? (fun u => u.email == email) = some u ∧
      ∃ hash, u.passwordHash = some hash ∧ hash ≠ "" ∧ rt.verifyPassword password hash = true := by
  suffices hspec : (AuthService.login rt email password).wp (machine.requires fun _ _ => False)
      (fun r _ => r.isOk = true ↔ ∃ u, w.users.rows.find? (fun u => u.email == email) = some u ∧
        ∃ hash, u.passwordHash = some hash ∧ hash ≠ "" ∧ rt.verifyPassword password hash = true)
      w from after_of_wp hspec
  unfold AuthService.login
  rw [wp_bind, wp_request]
  refine ⟨?_, fun _ hno => hno.elim⟩
  show andThen _ _ _ (.ok ((w.users.rows.find? fun u => u.email == email).map _)) w
  rw [andThen_ok]
  have hrefused : ∀ (e : Err), ¬(Except.error e : Except Err (Id × Id)).isOk = true :=
    fun _ h => absurd h (by simp [Except.isOk, Except.toBool])
  cases hfound : w.users.rows.find? fun u => u.email == email with
  | none =>
    refine (wp_throw _ _ _).mpr (iff_of_false (hrefused _) ?_)
    rintro ⟨u, hu, -⟩
    exact absurd hu (by simp)
  | some u =>
    rw [Option.map_some]
    cases hhash : u.passwordHash with
    | none =>
      refine (wp_throw _ _ _).mpr (iff_of_false (hrefused _) ?_)
      rintro ⟨u', hu, hash, hsome, -⟩
      obtain rfl := Option.some.inj hu
      exact absurd (hhash.symm.trans hsome) (by simp)
    | some hash =>
      dsimp only
      rw [wp_ite]
      split_ifs with hbad
      · refine (wp_throw _ _ _).mpr (iff_of_false (hrefused _) ?_)
        rintro ⟨u', hu, hash', hsome, hne, hverify⟩
        obtain rfl := Option.some.inj hu
        obtain rfl := Option.some.inj (hhash.symm.trans hsome)
        rcases hbad with hbad | hbad
        · exact hne hbad
        · exact absurd (hbad.symm.trans hverify) Bool.false_ne_true
      · obtain ⟨hne, hverify⟩ := not_or.mp hbad
        have hfits : ∃ u', some u = some u' ∧ ∃ hash, u'.passwordHash = some hash ∧ hash ≠ "" ∧
            rt.verifyPassword password hash = true :=
          ⟨u, rfl, hash, hhash, hne, by simpa using hverify⟩
        cases (w.userOrgs.find? fun m => m.userId == u.id).map UserOrg.orgId with
        | some orgId => exact (wp_pure _ _ _).mpr (iff_of_true rfl hfits)
        | none =>
          dsimp only
          rw [wp_bind, wp_request]
          refine ⟨?_, fun _ hno => hno.elim⟩
          exact (wp_pure _ _ _).mpr (iff_of_true rfl hfits)

/-- A sign-in succeeds if and only if the ledger has an enabled account with this very address and
password. -/
theorem Agrees.admits_iff (hideal : rt.Ideal) (h : Agrees rt l w) (email password : String) :
    w.Admits rt email password ↔ l.Admits email password := by
  rw [admits_iff_found]
  constructor
  · rintro ⟨u, hfound, hash, hhash, -, hverify⟩
    have hemail : u.email = email := by simpa using List.find?_some hfound
    have hget : w.users.get u.id = some u := w.users.get_key (List.mem_of_find?_eq_some hfound)
    obtain ⟨a, ha⟩ := Option.isSome_iff_exists.mp (h.known u.id u hget)
    obtain ⟨u', hu', hsame, hstored⟩ := h.stored u.id a ha
    obtain rfl := Option.some.inj (hget.symm.trans hu')
    split_ifs at hstored with hdisabled
    · exact absurd (hhash.symm.trans hstored) (by simp)
    · obtain ⟨salt, hmade⟩ := hstored
      obtain rfl := Option.some.inj (hhash.symm.trans hmade)
      exact ⟨u.id, a, ha, hsame.symm.trans hemail, by simpa using hdisabled,
        (hideal.verify_iff.mp hverify).symm⟩
  · rintro ⟨i, a, ha, hemail, henabled, hpassword⟩
    obtain ⟨u, hu, hsame, hstored⟩ := h.stored i a ha
    rw [if_neg (by rw [henabled]; exact Bool.false_ne_true)] at hstored
    obtain ⟨salt, hmade⟩ := hstored
    have hmem := (Table.get_eq_some.mp hu).1
    -- the first user with the address is this one, for no two accounts share it
    have hsome : (w.users.rows.find? fun x => x.email == email).isSome = true :=
      List.find?_isSome.mpr ⟨u, hmem, by simp [hsame, hemail]⟩
    obtain ⟨x, hx⟩ := Option.isSome_iff_exists.mp hsome
    have hxemail : x.email = email := by simpa using List.find?_some hx
    have hxget : w.users.get x.id = some x := w.users.get_key (List.mem_of_find?_eq_some hx)
    obtain ⟨b, hb⟩ := Option.isSome_iff_exists.mp (h.known x.id x hxget)
    obtain ⟨x', hx', hxsame, -⟩ := h.stored x.id b hb
    obtain rfl := Option.some.inj (hxget.symm.trans hx')
    have hid : x.id = i :=
      h.one_email x.id i b a hb ha (hxsame.symm.trans (hxemail.trans hemail.symm))
    rw [hid] at hxget
    obtain rfl := Option.some.inj (hu.symm.trans hxget)
    exact ⟨u, hx, _, hmade, rt.makePasswordHash_ne salt a.password,
      hideal.verify_iff.mpr hpassword.symm⟩

/-- Histories keep the ledger and the store together. -/
theorem agrees_of_runs (hlower : Lowers rt.cases) {w₀ : Store} (h₀ : Agrees rt l w₀)
    {history : List (Turn PasswordOp Err Done Store)}
    (hr : Runs (passwords rt) (fun _ _ _ => True) w₀ history w) :
    Agrees rt (l.after rt history) w :=
  Runs.invariant (J := fun history w => Agrees rt (l.after rt history) w) h₀
    (fun _ _ op plan h _ => h.turn hlower op plan) (fun _ _ _ _ he => he.elim) hr

end Agreement

/-- After every history of account operations, a sign-in follows the ledger for the normal form of
the address if and only if the address is in normal form, or the ledger has no enabled account with
the normal form and the password. -/
theorem login_follows_ledger_iff (rt : Runtime) (hideal : rt.Ideal) (hlower : Lowers rt.cases)
    {l₀ : Ledger} {w₀ : Store} (h₀ : Agrees rt l₀ w₀)
    {history : List (Turn PasswordOp Err Done Store)} {w : Store}
    (hr : Runs (passwords rt) (fun _ _ _ => True) w₀ history w) (email password : String) :
    (w.Admits rt email password ↔
        (l₀.after rt history).Admits (rt.normalize email) password) ↔
      rt.normalize email = email ∨
        ¬(l₀.after rt history).Admits (rt.normalize email) password := by
  have hagrees := agrees_of_runs hlower h₀ hr
  rw [hagrees.admits_iff hideal]
  by_cases hnormal : rt.normalize email = email
  · rw [hnormal]
    exact iff_of_true Iff.rfl (.inl rfl)
  · -- no address of the ledger is out of its normal form
    have hnobody : ¬(l₀.after rt history).Admits email password := by
      rintro ⟨i, a, ha, hemail, -⟩
      exact hnormal (hemail ▸ hagrees.normal i a ha)
    rw [iff_false_left hnobody]
    exact ⟨.inr, fun h => h.resolve_left hnormal⟩

section Examples

/-- A runtime for examples, with the password itself as its hash. -/
def Runtime.plain : Runtime := ⟨.western, fun p _ => 0 :: Utf8.encode p.toList, Utf8.encode⟩

theorem ideal_plain : Runtime.plain.Ideal where
  scrypt_inj _ _ _ h := String.toList_injective (Utf8.encode_inj (List.cons.inj h).2)
  scrypt_ne_nil _ _ := List.cons_ne_nil _ _

/-- The case of an ASCII letter does not make white space. -/
theorem isJsSpace_toLower {c : Char} (hc : c.val < 128) : isJsSpace c.toLower = isJsSpace c := by
  have hall : ∀ n : Fin 128, isJsSpace (Char.ofNat n).toLower = isJsSpace (Char.ofNat n) := by
    decide +kernel
  have hn : c.toNat < 128 := by
    have := UInt32.lt_iff_toNat_lt.mp hc
    simpa using this
  have h := hall ⟨c.toNat, hn⟩
  rwa [Char.ofNat_toNat] at h

theorem toLower_val_lt {c : Char} (hc : c.val < 128) : c.toLower.val < 128 := by
  have hall : ∀ n : Fin 128, (Char.ofNat n).toLower.val < 128 := by decide +kernel
  have hn : c.toNat < 128 := by
    have := UInt32.lt_iff_toNat_lt.mp hc
    simpa using this
  have h := hall ⟨c.toNat, hn⟩
  rwa [Char.ofNat_toNat] at h

theorem lowers_western : Lowers .western where
  fixed c d hd := by
    show (if d.val < 128 then [d.toLower] else if d = 'K' then ['k'] else [d]) = [d]
    have hd : d ∈ (if c.val < 128 then [c.toLower] else if c = 'K' then ['k'] else [c]) := hd
    split_ifs at hd with hascii hkelvin
    · rw [List.mem_singleton.mp hd, if_pos (toLower_val_lt hascii), Char.toLower_toLower_eq_toLower]
    · rw [List.mem_singleton.mp hd]
      rfl
    · rw [List.mem_singleton.mp hd, if_neg hascii, if_neg hkelvin]
  space c d hd := by
    have hd : d ∈ (if c.val < 128 then [c.toLower] else if c = 'K' then ['k'] else [c]) := hd
    split_ifs at hd with hascii hkelvin
    · rw [List.mem_singleton.mp hd]
      exact isJsSpace_toLower hascii
    · rw [List.mem_singleton.mp hd, hkelvin]
      decide
    · rw [List.mem_singleton.mp hd]
  ne_nil c := by
    show (if c.val < 128 then [c.toLower] else if c = 'K' then ['k'] else [c]) ≠ []
    split_ifs <;> exact List.cons_ne_nil _ _

/-- A salt. -/
def Salt.zero : Salt := ⟨List.replicate 16 0, rfl⟩

theorem key_admin (i : ℕ) : Keyed.key (⟨i, "admin"⟩ : Role) = i := rfl

/-- An organization with its first administrator. -/
def Store.rooted : Store where
  users := Table.empty.insert
    (fun i => ⟨i, "root@x.org", none, some (Runtime.plain.makePasswordHash .zero "secret")⟩)
    fun _ => rfl
  roles := Table.empty.insert (fun i => ⟨i, "admin"⟩) key_admin
  userOrgs := [⟨0, 0, 0⟩]
  nextOrg := 1
  userServerRoles := []
  serverOrg _ := none
  one_name := List.nodup_singleton _
  one_membership := List.nodup_singleton _
  user_exists m hm := by
    rw [List.mem_singleton.mp hm]
    rfl
  org_exists m hm := by
    rw [List.mem_singleton.mp hm]
    exact Nat.zero_lt_one
  role_exists m hm := by
    rw [List.mem_singleton.mp hm]
    rfl

/-- The account of the administrator. -/
def Ledger.rooted : Ledger := fun i => if i = 0 then some ⟨"root@x.org", "secret", false⟩ else none

theorem agrees_rooted : Agrees .plain .rooted .rooted := by
  have hone : ∀ i a, Ledger.rooted i = some a → i = 0 ∧ a = ⟨"root@x.org", "secret", false⟩ := by
    intro i a hi
    unfold Ledger.rooted at hi
    split_ifs at hi with hzero
    exact ⟨hzero, (Option.some.inj hi).symm⟩
  refine ⟨fun i a hi => ?_, fun i u hu => ?_, fun i a hi hd => ?_, fun i j a b hi hj _ => ?_,
    fun i a hi => ?_⟩
  · obtain ⟨rfl, rfl⟩ := hone i a hi
    exact ⟨_, rfl, rfl, .zero, rfl⟩
  · obtain ⟨hmem, hkey⟩ := Table.get_eq_some.mp hu
    have hrow : u = _ := List.mem_singleton.mp hmem
    rw [hrow] at hkey
    rw [← hkey]
    rfl
  · rw [(hone i a hi).2] at hd
    exact absurd hd Bool.false_ne_true
  · rw [(hone i a hi).1, (hone j b hj).1]
  · rw [(hone i a hi).2]
    decide +kernel

/-- The administrator creates an account with a capital letter in its address. -/
def creation : PasswordOp := .createAccount 0 0 ⟨"Eve@x.org", "pw", none, .viewer⟩ .zero

/-- The history of the one operation. -/
def created : Turn PasswordOp Err Done Store := (passwords .plain).turn creation [] .rooted

theorem login_follows_ledger_iff_created :
    (created.after.Admits .plain "Eve@x.org" "pw" ↔
        (Ledger.rooted.after .plain [created]).Admits (Runtime.plain.normalize "Eve@x.org") "pw") ↔
      Runtime.plain.normalize "Eve@x.org" = "Eve@x.org" ∨
        ¬(Ledger.rooted.after .plain [created]).Admits (Runtime.plain.normalize "Eve@x.org") "pw" :=
  login_follows_ledger_iff .plain ideal_plain lowers_western agrees_rooted
    (.turn creation [] .init trivial) "Eve@x.org" "pw"

/-- A user cannot sign in with the address with which the account was created. -/
theorem address_refused : ¬∀ (rt : Runtime), rt.Ideal → Lowers rt.cases →
    ∀ (l₀ : Ledger) (w₀ : Store), Agrees rt l₀ w₀ →
      ∀ (history : List (Turn PasswordOp Err Done Store)) (w : Store),
        Runs (passwords rt) (fun _ _ _ => True) w₀ history w → ∀ email password,
          (w.Admits rt email password ↔
            (l₀.after rt history).Admits (rt.normalize email) password) := by
  intro hall
  have hsame := hall .plain ideal_plain lowers_western _ _ agrees_rooted _ _
    (.turn creation [] .init trivial) "Eve@x.org" "pw"
  have hledger : Ledger.rooted.after .plain [created] 1 = some ⟨"eve@x.org", "pw", false⟩ := by
    decide +kernel
  have hnormal : Runtime.plain.normalize "Eve@x.org" = "eve@x.org" := by decide +kernel
  have hrefused : ¬created.after.Admits .plain "Eve@x.org" "pw" := by
    unfold Store.Admits
    decide +kernel
  exact hrefused (hsame.mpr ⟨1, _, hledger, hnormal.symm, rfl, rfl⟩)

end Examples

end Mastermind.Orgs
