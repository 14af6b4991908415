import Mastermind.Orgs.Accounts

/-!
# An organization keeps an administrator

`deleteAccount` counts the administrators and deletes the account in two calls, and two
administrators can delete each other in between. `administrated_of_reaches` is about every
interleaving of deletions and creations of accounts in which an administrator's account is deleted
only while the organization has at least as many administrators as the deletion has counted
(`Current`): an organization with an administrator then has one in every state reached.

The monitor `deleting` follows an operation by the account that it has looked up and the number that
it has counted.
-/

namespace Mastermind.Orgs

open Effect Effect.Program

/-- Where an operation is: it has found an account, which is an administrator's or not, or it has
counted the administrators besides. -/
inductive Deleting where
  | start
  | seen (userId orgId : Id) (admin : Bool)
  | counted (userId orgId : Id) (n : ℕ)

/-- The account that an operation has found. -/
def Deleting.account? : Deleting → Option (Id × Id)
  | .start => none
  | .seen userId orgId _ => some (userId, orgId)
  | .counted userId orgId _ => some (userId, orgId)

/-- An account is deleted that was found not to be an administrator's, or when more administrators
than one were counted. -/
def deleting : Monitor Stmt.Resp Err Deleting where
  start := .start
  allowed q s := match s with
    | .userOrgCount orgId _ => ∃ userId admin, q = .seen userId orgId admin
    | .deleteTransaction userId orgId _ =>
      q = .seen userId orgId false ∨ ∃ n, 2 ≤ n ∧ q = .counted userId orgId n
    | _ => True
  possible _ _ _ := True
  next q s r := match s, r with
    | .userOrgFindUnique userId orgId, .ok (some membership) =>
      .seen userId orgId (membership.role.name == "admin")
    | .userOrgFindUnique _ _, _ => .start
    | .userOrgCount _ _, .ok n => match q with
      | .seen userId orgId _ => .counted userId orgId n
      | q => q
    | .deleteTransaction _ _ _, _ => .start
    | _, _ => q

section Programs

variable {env : Env}

/-- Statements that may come in any phase and lead to `start` or nowhere. -/
def Stmt.Harmless : Stmt → Prop
  | .userOrgCount _ _ => False
  | .deleteTransaction _ _ _ => False
  | _ => True

/-- A program of harmless statements obeys the monitor. -/
theorem deleting_of_uses {α : Type} {p : Service α} (hp : Uses Stmt.Harmless p) (q : Deleting) :
    p.wp deleting.requires (fun _ _ => True) q := by
  induction p generalizing q with
  | ret r => exact (wp_ret _ _ _).mpr trivial
  | call s k ih =>
    obtain ⟨hs, herror, hok⟩ := (wp_call _ _ _ _).mp hp
    refine (wp_call _ _ _ _).mpr ⟨?_, fun r _ => ?_⟩
    · cases s with
      | userOrgCount _ _ => exact hs.elim
      | deleteTransaction _ _ _ => exact hs.elim
      | _ => trivial
    · cases r with
      | ok a => exact ih _ (hok a) _
      | error e => exact ih _ (herror e) _

theorem requireAdmin_harmless (userId orgId : Id) :
    Uses Stmt.Harmless (OrgsService.requireAdmin userId orgId) := by
  unfold OrgsService.requireAdmin
  refine .bind (.request trivial) fun found => ?_
  split
  · exact .throw _
  · exact .ite (.throw _) (.pure _)

theorem createAccount_harmless (orgId actingUserId : Id) (input : CreateOrgAccountDto) :
    Uses Stmt.Harmless (OrgsService.createAccount env orgId actingUserId input) := by
  unfold OrgsService.createAccount OrgsService.resolveRole
  refine .bind (requireAdmin_harmless _ _) fun _ => .bind (.request trivial) fun existing => ?_
  split
  · exact .throw _
  refine .bind (.bind (.request trivial) fun found => ?_) fun role => .request trivial
  split
  · exact .pure _
  · exact .request trivial

/-- The check lets only accounts pass that are not an administrator's, or of which there are
more. -/
theorem keepsAdministrator_counts (userId orgId : Id) (role : Role) :
    (OrgsService.keepsAdministrator orgId role).wp deleting.requires (fun r q => r.isOk = true →
      q = .seen userId orgId false ∨ ∃ n, 2 ≤ n ∧ q = .counted userId orgId n)
      (.seen userId orgId (role.name == "admin")) := by
  have herror : ∀ (e : Err) (q : Deleting), (.error e : Except Err Unit).isOk = true →
      q = .seen userId orgId false ∨ ∃ n, 2 ≤ n ∧ q = .counted userId orgId n :=
    fun e q h => by cases h
  unfold OrgsService.keepsAdministrator
  rw [wp_ite]
  by_cases hadmin : role.name = "admin"
  swap
  · rw [if_neg hadmin]
    refine (wp_pure _ _ _).mpr fun _ => .inl ?_
    rw [beq_eq_false_iff_ne.mpr hadmin]
  rw [if_pos hadmin]
  refine deleting.bind_request trivial (fun adminRole _ => ?_) fun e => herror e _
  unfold OrgsService.keepsAdministrator.countMembers
  cases adminRole with
  | none =>
    refine (wp_bind _ _ _ _).mpr ((wp_pure _ _ _).mpr ?_)
    rw [andThen_ok, wp_ite, if_pos (Nat.zero_le 1)]
    exact (wp_throw _ _ _).mpr (herror _ _)
  | some adminRole =>
    refine deleting.bind_request ⟨userId, _, rfl⟩ (fun n _ => ?_) fun e => herror e _
    rw [wp_ite]
    by_cases hn : n ≤ 1
    · rw [if_pos hn]
      exact (wp_throw _ _ _).mpr (herror _ _)
    · rw [if_neg hn]
      exact (wp_pure _ _ _).mpr fun _ => .inr ⟨n, Nat.not_le.mp hn, rfl⟩

theorem deleteAccount_counts (orgId accountId actingUserId : Id) :
    (OrgsService.deleteAccount orgId accountId actingUserId).wp deleting.requires
      (fun _ _ => True) .start := by
  unfold OrgsService.deleteAccount
  refine wp_bind_of deleting.requires_monotone
    (deleting_of_uses (requireAdmin_harmless actingUserId orgId) _) (fun _ q _ => ?_)
    fun _ _ _ => trivial
  rw [wp_ite]
  split_ifs
  · exact (wp_throw _ _ _).mpr trivial
  refine deleting.bind_request trivial (fun found _ => ?_) fun _ => trivial
  cases found with
  | none => exact (wp_throw _ _ _).mpr trivial
  | some membership =>
    refine wp_bind_of deleting.requires_monotone
      (keepsAdministrator_counts accountId orgId membership.role) (fun _ q hq => ?_)
      fun _ _ _ => trivial
    refine deleting.bind_request (hq rfl) (fun _ _ => ?_) fun _ => trivial
    exact (wp_pure _ _ _).mpr trivial

end Programs

/-! ## What one call does -/

section Calls

variable {w w' : Store}

theorem MembersKept.refl (w : Store) : MembersKept w w :=
  ⟨fun _ h => h, le_rfl, fun _ _ h => h, List.Sublist.refl _, fun _ hm => .inl hm⟩

/-- A new hash of a user keeps the members. -/
theorem kept_of_hash {userId : Id} {hash : String} {done : Except Err Unit × Store}
    (s : Except Err Unit) (hdone : done =
      if (w.users.get userId).isNone then (s, w) else (.ok (), w.setHash userId hash)) :
    MembersKept w done.2 := by
  rw [hdone]
  split_ifs
  · exact .refl w
  · refine ⟨fun u hu => ?_, le_rfl, fun _ _ h => h, List.Sublist.refl _, fun _ hm => .inl hm⟩
    show ((w.users.update userId (User.rehash hash) (User.key_rehash hash)).get u).isSome = true
    rw [Table.get_update (User.key_rehash hash)]
    split_ifs
    · rw [Option.isSome_map]
      exact hu
    · exact hu

/-- Every call but a deletion keeps the members. -/
theorem kept_of_outcome {s : Stmt} {r : Except Err s.Resp}
    (hs : ∀ userId orgId d, s ≠ .deleteTransaction userId orgId d)
    (hout : machine.Outcome s w r w') : MembersKept w w' := by
  rcases hout with ⟨-, rfl⟩ | ⟨-, -, rfl⟩
  swap
  · exact .refl w'
  cases s with
  | userCreate d =>
    show MembersKept w (exec (.userCreate d) w).2
    rw [exec]
    split_ifs with hemail hrefers
    · exact .refl w
    · refine ⟨fun u hu => ?_, le_rfl, fun _ _ h => h, List.sublist_append_left _ _, fun m hm => ?_⟩
      · obtain ⟨x, hx⟩ := Option.isSome_iff_exists.mp hu
        exact Option.isSome_iff_exists.mpr ⟨x, Table.get_insert_of_get d.key_row hx⟩
      · rcases List.mem_append.mp hm with hm | hm
        · exact .inl hm
        · rw [List.mem_singleton.mp hm]
          exact .inr (.inl (Table.get_eq_none_of_le le_rfl))
    · exact .refl w
  | roleCreate name =>
    show MembersKept w (exec (.roleCreate name) w).2
    rw [exec]
    split_ifs with hname
    · exact .refl w
    · exact ⟨fun _ h => h, le_rfl, fun _ _ h => Table.get_insert_of_get (fun _ => rfl) h,
        List.Sublist.refl _, fun _ hm => .inl hm⟩
  | deleteTransaction userId orgId d => exact absurd rfl (hs userId orgId d)
  | hashUpdate userId hash => exact kept_of_hash _ rfl
  | resetTransaction orgId userId actorId hash => exact kept_of_hash _ rfl
  | defaultOrg =>
    exact ⟨fun _ h => h, le_max_right _ _, fun _ _ h => h, List.Sublist.refl _, fun _ hm => .inl hm⟩
  | _ => exact .refl w

/-- Keeping the members does not lower the number of administrators. -/
theorem MembersKept.adminCount_le (h : MembersKept w w') (orgId : Id) :
    w.adminCount orgId ≤ w'.adminCount orgId := by
  have hsame : w.adminCount orgId =
      w.userOrgs.countP fun m => m.orgId == orgId && w'.isAdmin m := by
    refine List.countP_congr fun m hm => ?_
    obtain ⟨role, hrole⟩ := Option.isSome_iff_exists.mp (w.role_exists m hm)
    unfold Store.isAdmin
    rw [hrole, h.roles m.roleId role hrole]
  rw [hsame]
  exact h.kept.countP_le

/-- Removing one element lowers a count by one at most. -/
theorem countP_le_eraseP {α : Type} (p q : α → Bool) (l : List α) :
    l.countP p ≤ (l.eraseP q).countP p + 1 := by
  induction l with
  | nil => exact Nat.zero_le _
  | cons a l ih =>
    rw [List.eraseP_cons]
    cases hq : q a with
    | true =>
      rw [cond_true, List.countP_cons]
      split_ifs <;> omega
    | false =>
      rw [cond_false, List.countP_cons, List.countP_cons]
      omega

/-- Removing one that does not count keeps the count. -/
theorem countP_eraseP_of_not {α : Type} {p q : α → Bool} {l : List α}
    (h : ∀ a ∈ l, q a = true → p a = false) : (l.eraseP q).countP p = l.countP p := by
  induction l with
  | nil => rfl
  | cons a l ih =>
    have ih := ih fun b hb => h b (List.mem_cons_of_mem _ hb)
    rw [List.eraseP_cons]
    cases hq : q a with
    | true => rw [cond_true, List.countP_cons, h a List.mem_cons_self hq]; simp
    | false => rw [cond_false, List.countP_cons, List.countP_cons, ih]

/-- A deletion removes one member at most. -/
theorem adminCount_removeMember (w : Store) (userId orgId : Id) (d : Bool) (org : Id) :
    w.adminCount org ≤ (w.removeMember userId orgId d).adminCount org + 1 :=
  countP_le_eraseP _ _ _

/-- A deletion of a member who is not an administrator of the organization keeps the number of its
administrators. -/
theorem adminCount_removeMember_of_not {userId orgId org : Id} (d : Bool)
    (h : org = orgId → ∀ m ∈ w.userOrgs, m.key = (userId, orgId) → w.isAdmin m = false) :
    (w.removeMember userId orgId d).adminCount org = w.adminCount org := by
  refine countP_eraseP_of_not fun m hm hkey => ?_
  have hkey : m.key = (userId, orgId) := beq_iff_eq.mp hkey
  have horg : m.orgId = orgId := congrArg Prod.snd hkey
  by_cases hsame : org = orgId
  · have hadmin : (w.removeMember userId orgId d).isAdmin m = false := h hsame m hm hkey
    rw [hadmin, Bool.and_false]
  · have hne : (m.orgId == org) = false :=
      beq_eq_false_iff_ne.mpr fun heq => hsame (heq.symm.trans horg)
    rw [hne, Bool.false_and]

end Calls

/-! ## The invariant -/

/-- An account whose deletion has counted the administrators is deleted only while the organization
has at least as many. -/
def Current (trace : List AccountEvent) (e : AccountEvent) : Prop :=
  ∀ userId orgId d n, e.stmt = .deleteTransaction userId orgId d →
    deleting.phase trace e.thread = .counted userId orgId n → n ≤ e.before.adminCount orgId

/-- What is kept while the operations interleave: the accounts that were found are of users and
organizations that exist, those found not to be administrators' are not, and the organization has
an administrator. -/
structure Administrated (org : Id) (trace : List AccountEvent) (w : Store) : Prop where
  known : ∀ i userId orgId, (deleting.phase trace i).account? = some (userId, orgId) →
    (w.users.get userId).isSome = true ∧ orgId < w.nextOrg
  others : ∀ i userId orgId, deleting.phase trace i = .seen userId orgId false →
    ∀ m ∈ w.userOrgs, m.key = (userId, orgId) → w.isAdmin m = false
  admin : 1 ≤ w.adminCount org

section Step

variable {org : Id} {trace : List AccountEvent} {i : ℕ} {s : Stmt} {r : Except Err s.Resp}
  {w w' : Store}

/-- Keeping the members keeps what is known of the accounts found. -/
theorem Administrated.kept (h : Administrated org trace w) (hk : MembersKept w w') :
    Administrated org trace w' := by
  refine ⟨fun j userId orgId hj => ?_, fun j userId orgId hj m hm hkey => ?_,
    h.admin.trans (hk.adminCount_le org)⟩
  · obtain ⟨huser, horg⟩ := h.known j userId orgId hj
    exact ⟨hk.users userId huser, lt_of_lt_of_le horg hk.orgs⟩
  · obtain ⟨huser, horg⟩ := h.known j userId orgId (by rw [hj]; rfl)
    obtain ⟨hmuser, hmorg⟩ := Prod.mk.inj hkey
    rcases hk.fresh m hm with hm | hnew | hnew
    · obtain ⟨role, hrole⟩ := Option.isSome_iff_exists.mp (w.role_exists m hm)
      have hold := h.others j userId orgId hj m hm hkey
      unfold Store.isAdmin at hold ⊢
      rw [hk.roles m.roleId role hrole]
      rw [hrole] at hold
      exact hold
    · rw [hmuser] at hnew
      rw [hnew] at huser
      cases huser
    · exact absurd horg (Nat.not_lt.mpr (hmorg ▸ hnew))

/-- What a lookup has found is stored so. -/
theorem Administrated.found (hout : machine.Outcome s w r w') {userId orgId : Id} {admin : Bool}
    (hs : ∃ u o, s = .userOrgFindUnique u o)
    (hnext : deleting.next (deleting.phase trace i) s r = .seen userId orgId admin) :
    ((w.users.get userId).isSome = true ∧ orgId < w.nextOrg) ∧
      (admin = false → ∀ m ∈ w.userOrgs, m.key = (userId, orgId) → w.isAdmin m = false) := by
  obtain ⟨u, o, rfl⟩ := hs
  rcases r with _ | _ | membership
  · cases hnext
  · cases hnext
  obtain ⟨rfl, rfl, rfl⟩ := Deleting.seen.inj hnext
  rcases hout with ⟨hr, -⟩ | ⟨-, hr, -⟩
  swap
  · cases hr
  have hfound := (Except.ok.inj hr).symm
  obtain ⟨m, hm, hfound⟩ := Option.bind_eq_some_iff.mp hfound
  obtain ⟨role, hrole, hfound⟩ := Option.bind_eq_some_iff.mp hfound
  obtain ⟨user, huser, hfound⟩ := Option.bind_eq_some_iff.mp hfound
  obtain rfl := Option.some.inj hfound
  have hmem := List.mem_of_find?_eq_some hm
  have hkey : m.key = (u, o) := by simpa using List.find?_some hm
  obtain ⟨hmuser, hmorg⟩ := Prod.mk.inj hkey
  refine ⟨⟨hmuser ▸ w.user_exists m hmem, hmorg ▸ w.org_exists m hmem⟩, fun hadmin x hx hxkey => ?_⟩
  obtain rfl := Store.eq_of_membership hm hx hxkey
  unfold Store.isAdmin
  rw [hrole]
  exact hadmin

/-- The account that an operation has found after its call it has found before, or in this call. -/
theorem account_before {q : Deleting} {userId orgId : Id}
    (hnext : (deleting.next q s r).account? = some (userId, orgId)) :
    q.account? = some (userId, orgId) ∨ (∃ u o, s = .userOrgFindUnique u o) ∧
      ∃ admin, deleting.next q s r = .seen userId orgId admin := by
  cases s with
  | userOrgFindUnique u o =>
    rcases r with _ | _ | membership
    · cases hnext
    · cases hnext
    · obtain ⟨rfl, rfl⟩ := Prod.mk.inj (Option.some.inj hnext)
      exact .inr ⟨⟨_, _, rfl⟩, _, rfl⟩
  | userOrgCount o roleId =>
    cases r with
    | error _ => exact .inl hnext
    | ok n => cases q <;> exact .inl hnext
  | deleteTransaction u o d => cases hnext
  | _ => exact .inl hnext

/-- An account found not to be an administrator's was found so before, or in this call. -/
theorem seen_before {q : Deleting} {userId orgId : Id}
    (hnext : deleting.next q s r = .seen userId orgId false) :
    q = .seen userId orgId false ∨ ∃ u o, s = .userOrgFindUnique u o := by
  cases s with
  | userOrgFindUnique u o => exact .inr ⟨u, o, rfl⟩
  | userOrgCount o roleId =>
    cases r with
    | error _ => exact .inl hnext
    | ok n =>
      cases q with
      | seen _ _ _ => cases hnext
      | _ => exact .inl hnext
  | deleteTransaction u o d => cases hnext
  | _ => exact .inl hnext

/-- A lookup leaves the store as it is. -/
theorem store_of_lookup (hs : ∃ u o, s = .userOrgFindUnique u o)
    (hout : machine.Outcome s w r w') : w' = w := by
  obtain ⟨u, o, rfl⟩ := hs
  rcases hout with ⟨-, rfl⟩ | ⟨-, -, rfl⟩ <;> rfl

/-- A call other than a deletion keeps the invariant. -/
theorem Administrated.call_kept (h : Administrated org trace w)
    (hs : ∀ userId orgId d, s ≠ .deleteTransaction userId orgId d)
    (hout : machine.Outcome s w r w') : Administrated org (⟨i, s, r, w, w'⟩ :: trace) w' := by
  have h' := h.kept (kept_of_outcome hs hout)
  refine ⟨fun j userId orgId hj => ?_, fun j userId orgId hj => ?_, h'.admin⟩
  · by_cases hij : i = j
    swap
    · rw [deleting.phase_cons_of_ne hij] at hj
      exact h'.known j userId orgId hj
    subst hij
    rw [deleting.phase_cons_self] at hj
    rcases account_before hj with hold | ⟨hlookup, admin, hnext⟩
    · exact h'.known i userId orgId hold
    · rw [store_of_lookup hlookup hout]
      exact (Administrated.found hout hlookup hnext).1
  · by_cases hij : i = j
    swap
    · rw [deleting.phase_cons_of_ne hij] at hj
      exact h'.others j userId orgId hj
    subst hij
    rw [deleting.phase_cons_self] at hj
    rcases seen_before hj with hold | hlookup
    · exact h'.others i userId orgId hold
    · rw [store_of_lookup hlookup hout]
      exact (Administrated.found hout hlookup hj).2 rfl

/-- A current deletion keeps the invariant. -/
theorem Administrated.call_delete (h : Administrated org trace w) {userId orgId : Id} {d : Bool}
    {r : Except Err Unit} (hallowed : deleting.phase trace i = .seen userId orgId false ∨
      ∃ n, 2 ≤ n ∧ deleting.phase trace i = .counted userId orgId n)
    (hout : machine.Outcome (.deleteTransaction userId orgId d) w r w')
    (hcond : Current trace ⟨i, .deleteTransaction userId orgId d, r, w, w'⟩) :
    Administrated org (⟨i, .deleteTransaction userId orgId d, r, w, w'⟩ :: trace) w' := by
  -- the caller is done, and the others are where they were
  have hphase : ∀ j u o, (deleting.phase
      (⟨i, .deleteTransaction userId orgId d, r, w, w'⟩ :: trace) j).account? = some (u, o) →
        deleting.phase (⟨i, .deleteTransaction userId orgId d, r, w, w'⟩ :: trace) j =
          deleting.phase trace j := by
    intro j u o hj
    by_cases hij : i = j
    · subst hij
      rw [deleting.phase_cons_self] at hj
      cases hj
    · exact deleting.phase_cons_of_ne hij
  have hstore : w' = w ∨ w' = w.removeMember userId orgId d := by
    rcases hout with ⟨-, rfl⟩ | ⟨-, -, rfl⟩
    · show (exec (.deleteTransaction userId orgId d) w).2 = w ∨
        (exec (.deleteTransaction userId orgId d) w).2 = w.removeMember userId orgId d
      rw [exec]
      split_ifs
      · exact .inl rfl
      · exact .inr rfl
    · exact .inl rfl
  rcases hstore with rfl | rfl
  · refine ⟨fun j u o hj => ?_, fun j u o hj => ?_, h.admin⟩
    · rw [hphase j u o hj] at hj
      exact h.known j u o hj
    · rw [hphase j u o (by rw [hj]; rfl)] at hj
      exact h.others j u o hj
  refine ⟨fun j u o hj => ?_, fun j u o hj m hm hkey => ?_, ?_⟩
  · rw [hphase j u o hj] at hj
    obtain ⟨huser, horg⟩ := h.known j u o hj
    refine ⟨?_, horg⟩
    show ((if d then w.users.update userId User.disable User.key_disable else w.users).get
      u).isSome = true
    split_ifs
    · rw [Table.get_update User.key_disable]
      split_ifs
      · rw [Option.isSome_map]
        exact huser
      · exact huser
    · exact huser
  · rw [hphase j u o (by rw [hj]; rfl)] at hj
    exact h.others j u o hj m (List.mem_of_mem_eraseP hm) hkey
  · -- one administrator goes at most, and only if there were two
    rcases hallowed with hother | ⟨n, hn, hcounted⟩
    · rw [adminCount_removeMember_of_not d fun _ => h.others i userId orgId hother]
      exact h.admin
    · by_cases horg : org = orgId
      · have hcurrent : n ≤ w.adminCount orgId := hcond userId orgId d n rfl hcounted
        have hremoved := adminCount_removeMember w userId orgId d org
        rw [horg] at hremoved ⊢
        omega
      · rw [adminCount_removeMember_of_not d fun hsame => absurd hsame horg]
        exact h.admin

end Step

/-- The operations and everything around them keep the invariant. -/
theorem deleting_keeps (env : Env) (org : Id) :
    Keeps (accounts env) Current deleting (fun _ _ => True) (Administrated org) where
  follows op := by
    have hthen : ∀ {α : Type} {p : Service α}, p.wp deleting.requires (fun _ _ => True) .start →
        (p >>= fun _ => pure ()).wp deleting.requires (fun _ _ => True) .start :=
      fun hp => wp_bind_of deleting.requires_monotone hp
        (fun _ _ _ => (wp_pure _ _ _).mpr trivial) fun _ _ _ => trivial
    cases op with
    | createAccount orgId actingUserId input =>
      exact hthen (deleting_of_uses (createAccount_harmless orgId actingUserId input) _)
    | deleteAccount orgId accountId actingUserId =>
      exact hthen (deleteAccount_counts orgId accountId actingUserId)
  call trace i s r w w' hJ hallowed hout hcond := by
    refine ⟨trivial, ?_⟩
    cases s with
    | deleteTransaction userId orgId d => exact hJ.call_delete hallowed hout hcond
    | _ => exact hJ.call_kept (fun _ _ _ h => by cases h) hout
  environment trace w w' hJ he := hJ.kept he

/-- In every interleaving in which an account whose deletion has counted the administrators is
deleted only while the organization has at least as many, an organization with an administrator has
one in every state reached. -/
theorem administrated_of_reaches (env : Env) {w₀ : Store} {org : Id} (h₀ : 1 ≤ w₀.adminCount org)
    {c : Config AccountOp Stmt.Resp Err Unit Store} (hr : Reaches (accounts env) Current w₀ c) :
    1 ≤ c.store.adminCount org := by
  have hinit : Administrated org [] w₀ :=
    ⟨fun i userId orgId hi => (nomatch hi), fun i userId orgId hi => (nomatch hi), h₀⟩
  exact (Reaches.invariant (deleting_keeps env org) hinit hr).1.admin

section Examples

/-- Two administrators of the organization 0. -/
def Store.pair : Store where
  users := (Table.empty.insert (fun i => ⟨i, "a", none, none⟩) fun _ => rfl).insert
    (fun i => ⟨i, "b", none, none⟩) fun _ => rfl
  roles := Table.empty.insert (fun i => ⟨i, "admin"⟩) fun _ => rfl
  userOrgs := [⟨0, 0, 0⟩, ⟨1, 0, 0⟩]
  nextOrg := 1
  userServerRoles := []
  serverOrg _ := none
  one_name := by decide
  one_membership := by decide
  user_exists := by decide
  org_exists := by decide
  role_exists := by decide

/-- A runtime for examples. -/
def Env.plain : Env := ⟨.western, id⟩

/-- The one of them deletes the other. -/
def deletion (actingUserId accountId : Id) : AccountOp := .deleteAccount 0 accountId actingUserId

/-- Two administrators delete each other, but the second one counts the administrators when the
first one has been deleted: it is refused. -/
theorem administrated_of_reaches_both :
    ∃ c : Config AccountOp Stmt.Resp Err Unit Store, c.store.userOrgs.length = 1 ∧
      (∃ err, c.threads[1]? = some (deletion 1 0, .ret (.error err))) ∧
        1 ≤ c.store.adminCount 0 := by
  have hstarted : Reaches (accounts Env.plain) Current Store.pair
      ⟨.pair, [(deletion 0 1, (accounts Env.plain).prog (deletion 0 1)),
        (deletion 1 0, (accounts Env.plain).prog (deletion 1 0))], []⟩ :=
    .start (deletion 1 0) (.start (deletion 0 1) .init)
  have hguarded := Reaches.call 0 hstarted rfl (.inl ⟨rfl, rfl⟩) fun _ _ _ _ h => nomatch h
  have hguarded' := Reaches.call 1 hguarded rfl (.inl ⟨rfl, rfl⟩) fun _ _ _ _ h => nomatch h
  have hfound := Reaches.call 0 hguarded' rfl (.inl ⟨rfl, rfl⟩) fun _ _ _ _ h => nomatch h
  have hfound' := Reaches.call 1 hfound rfl (.inl ⟨rfl, rfl⟩) fun _ _ _ _ h => nomatch h
  have hrole := Reaches.call 0 hfound' rfl (.inl ⟨rfl, rfl⟩) fun _ _ _ _ h => nomatch h
  have hrole' := Reaches.call 1 hrole rfl (.inl ⟨rfl, rfl⟩) fun _ _ _ _ h => nomatch h
  have hcounted := Reaches.call 0 hrole' rfl (.inl ⟨rfl, rfl⟩) fun _ _ _ _ h => nomatch h
  have hdeleted := Reaches.call 0 hcounted rfl (.inl ⟨rfl, rfl⟩) <| by
    intro userId orgId d n hs hphase
    obtain ⟨rfl, rfl, -⟩ := Stmt.deleteTransaction.inj hs
    obtain ⟨-, -, rfl⟩ := Deleting.counted.inj hphase
    decide
  -- one administrator is left
  have hcounted' := Reaches.call 1 hdeleted rfl (.inl ⟨rfl, rfl⟩) fun _ _ _ _ h => nomatch h
  exact ⟨_, rfl, ⟨_, rfl⟩, administrated_of_reaches Env.plain (by decide) hcounted'⟩

/-- Two administrators delete each other: both count two administrators before either of them is
deleted. -/
theorem administrators_delete_each_other :
    ¬∀ (w₀ : Store) (org : Id), 1 ≤ w₀.adminCount org →
      ∀ c : Config AccountOp Stmt.Resp Err Unit Store,
        Reaches (accounts Env.plain) (fun _ _ => True) w₀ c → 1 ≤ c.store.adminCount org := by
  intro hall
  have hstarted : Reaches (accounts Env.plain) (fun _ _ => True) Store.pair
      ⟨.pair, [(deletion 0 1, (accounts Env.plain).prog (deletion 0 1)),
        (deletion 1 0, (accounts Env.plain).prog (deletion 1 0))], []⟩ :=
    .start (deletion 1 0) (.start (deletion 0 1) .init)
  have hguarded := Reaches.call 0 hstarted rfl (.inl ⟨rfl, rfl⟩) trivial
  have hguarded' := Reaches.call 1 hguarded rfl (.inl ⟨rfl, rfl⟩) trivial
  have hfound := Reaches.call 0 hguarded' rfl (.inl ⟨rfl, rfl⟩) trivial
  have hfound' := Reaches.call 1 hfound rfl (.inl ⟨rfl, rfl⟩) trivial
  have hrole := Reaches.call 0 hfound' rfl (.inl ⟨rfl, rfl⟩) trivial
  have hrole' := Reaches.call 1 hrole rfl (.inl ⟨rfl, rfl⟩) trivial
  have hcounted := Reaches.call 0 hrole' rfl (.inl ⟨rfl, rfl⟩) trivial
  have hcounted' := Reaches.call 1 hcounted rfl (.inl ⟨rfl, rfl⟩) trivial
  have hdeleted := Reaches.call 0 hcounted' rfl (.inl ⟨rfl, rfl⟩) trivial
  have hdeleted' := Reaches.call 1 hdeleted rfl (.inl ⟨rfl, rfl⟩) trivial
  have hone := hall Store.pair 0 (by decide) _ hdeleted'
  exact absurd hone (by decide)

end Examples

end Mastermind.Orgs
