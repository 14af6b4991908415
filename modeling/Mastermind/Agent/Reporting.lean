import Mastermind.Agent.Pruning
import Mastermind.Agent.Restarting

/-!
# Whether a reported backup exists

`BackupSave` writes a backup under the name of the present time, prunes the directory and reports the
backup. The pruning goes by the names alone: a backup that is dated later than now comes before the new
one. `Evolves` says what the calls of a run do to the directory of the backups.
-/

namespace Mastermind.Agent.Pruning

open Effect Effect.Program Mastermind.Path

variable {C : Type}

/-- What the file system has to do with a run: whether the directory of the backups can be read, which
removals fail, the copy of the live save, and the same with its metadata. -/
structure FileSystem (C : Type) where
  readable : Bool
  removal : Removal C
  copied : C
  described : C → C

/-- `pruneFullSaveBackups`, of any directory. -/
def FileSystem.pruned (w : FileSystem C) (dir : Directory C) (retention : ℤ) : Directory C :=
  if w.readable then (pruneFullSaveBackups w.removal dir retention.toNat).2 else dir

/-- What a command with its answer does to the directory of the backups. The year that the clock reads
has four digits. The commands that are not named do nothing to it. -/
def FileSystem.Acts (w : FileSystem C) (dir dir' : Directory C) :
    Answered Command.Answer → Prop
  | ⟨.now, created⟩ => dir' = dir ∧ validSaveID ("mastermind_" ++ created.stamp) = true
  | ⟨.lstat path, answer⟩ =>
    dir' = dir ∧ (answer = .missing → ∀ e ∈ dir.entries, saveBackupPath e.name ≠ path)
  | ⟨.copySaveTree _ destination _, answer⟩ =>
    ((∃ err, answer = .error err) ∧ dir' = dir) ∨ ∃ name, saveBackupPath name = destination ∧
      dir'.entries = dir.entries ++ [⟨name, true, w.copied⟩]
  | ⟨.writeMetadata path _, answer⟩ =>
    ((∃ err, answer = .error err) ∧ dir' = dir) ∨ dir' = dir.keep (fun e =>
      if Path.join [saveBackupPath e.name, ".mastermind-save.json"] = path then w.described e.content
      else e.content) fun _ => true
  | ⟨.removeAll path, _⟩ => dir' = (removeAll w.removal dir path).2
  | ⟨.pruneFullSaveBackups retention, _⟩ => dir' = w.pruned dir retention
  | _ => dir' = dir

/-- What the calls of a run do to it. -/
def FileSystem.Evolves (w : FileSystem C) : Directory C → Trace → Directory C → Prop
  | dir, [], dir' => dir' = dir
  | dir, x :: t, dir' => ∃ next, w.Acts dir next x ∧ w.Evolves next t dir'

/-! ## The calls of `BackupSave` -/

/-- The command leaves the directory of the backups alone. -/
def harmless : Command → Bool
  | .readConfiguration _ | .isDir _ | .serviceActive _ | .sendCommand _ | .sleep _ | .mkdirAll _ => true
  | _ => false

theorem evolves_append {w : FileSystem C} {dir dir' : Directory C} {t u : Trace} :
    w.Evolves dir (t ++ u) dir' ↔ ∃ next, w.Evolves dir t next ∧ w.Evolves next u dir' := by
  induction t generalizing dir with
  | nil => simp [FileSystem.Evolves]
  | cons x t ih =>
    simp only [List.cons_append, FileSystem.Evolves, ih]
    constructor
    · rintro ⟨d, hx, e, ht, hu⟩
      exact ⟨e, ⟨d, hx, ht⟩, hu⟩
    · rintro ⟨e, ⟨d, hx, ht⟩, hu⟩
      exact ⟨d, hx, e, ht, hu⟩

theorem acts_harmless {w : FileSystem C} {dir dir' : Directory C} {x : Answered Command.Answer}
    (hx : harmless x.stmt = true) (h : w.Acts dir dir' x) : dir' = dir := by
  obtain ⟨c, a⟩ := x
  cases c <;> first | exact h | cases hx

theorem evolves_harmless {w : FileSystem C} {dir dir' : Directory C} {t : Trace}
    (ht : ∀ x ∈ t, harmless x.stmt = true) (h : w.Evolves dir t dir') : dir' = dir := by
  induction t generalizing dir with
  | nil => exact h
  | cons x t ih =>
    obtain ⟨next, hx, hrest⟩ := h
    obtain ⟨hharmless, ht⟩ := List.forall_mem_cons.mp ht
    obtain rfl := acts_harmless hharmless hx
    exact ih ht hrest

/-- An attempt whose failure never succeeds. -/
theorem executes_attempt_ok {α β : Type} {p : Procedure (Fallible α)}
    {fail : String → Procedure (Fallible β)} {k : α → Procedure (Fallible β)} {t : Trace} {b : β}
    (hfail : ∀ err u, ¬ Executes (fail err) u (.ok (.ok b)))
    (h : Executes (attempt p fail k) t (.ok (.ok b))) :
    ∃ a t₁ t₂, t = t₁ ++ t₂ ∧ Executes p t₁ (.ok (.ok a)) ∧ Executes (k a) t₂ (.ok (.ok b)) := by
  rcases executes_bind.mp h with ⟨e, -, he⟩ | ⟨r, t₁, t₂, rfl, hp, hk⟩
  · cases he
  · cases r with
    | ok a => exact ⟨a, t₁, t₂, rfl, hp, hk⟩
    | error err => exact absurd hk (hfail err t₂)

theorem executes_orReturn_ok {α β : Type} {p : Procedure (Fallible α)} {words : String → String}
    {k : α → Procedure (Fallible β)} {t : Trace} {b : β}
    (h : Executes (orReturn p words k) t (.ok (.ok b))) :
    ∃ a t₁ t₂, t = t₁ ++ t₂ ∧ Executes p t₁ (.ok (.ok a)) ∧ Executes (k a) t₂ (.ok (.ok b)) := by
  refine executes_attempt_ok (fun err u hfail => ?_) h
  obtain ⟨-, hr⟩ := executes_pure.mp hfail
  cases hr

theorem uses_resolveLiveSave (cfg : InstanceConfig) (configOverride : String) :
    Uses (fun c => harmless c = true) (resolveLiveSave cfg configOverride) := by
  refine .bind (.request rfl) fun r => ?_
  cases r <;> exact .pure _

theorem uses_flushWorld : Uses (fun c => harmless c = true) flushWorld := by
  refine .bind (.request rfl) fun active => .ite ?_ (.pure _)
  refine .bind (.request rfl) fun r => ?_
  cases r with
  | error err => exact .pure _
  | ok output =>
    refine .bind (.request rfl) fun _ => .bind (.request rfl) fun reply => ?_
    cases reply <;> exact .pure _

/-- The last calls of a run that reports a backup. -/
def lastCalls (live : String) (gameDay : ℤ) (created : Moment) (size : ℕ) (retention : ℤ)
    (answer : Fallible Unit) : Trace :=
  let destination := saveBackupPath ("mastermind_" ++ created.stamp)
  [⟨.lstat destination, .missing⟩, ⟨.copySaveTree live destination false, .ok ()⟩,
    ⟨.writeMetadata (Path.join [destination, ".mastermind-save.json"])
      ⟨created.ms, gameDay, "full-world"⟩, .ok ()⟩,
    ⟨.directorySize destination, size⟩, ⟨.pruneFullSaveBackups (clampRetention retention), answer⟩]

/-- The calls of the part that writes, where it reports a backup. -/
theorem executes_writeBackup_ok {live : String} {gameDay retention : ℤ} {created : Moment}
    {t : Trace} {record : SaveRecord}
    (h : Executes (writeBackup live gameDay retention created) t (.ok (.ok record))) :
    record.id = "mastermind_" ++ created.stamp ∧ ∃ size answer,
      ⟨.lstat (saveBackupPath ("mastermind_" ++ created.stamp)), .missing⟩ :: t =
        lastCalls live gameDay created size retention answer := by
  have hdiscard : ∀ destination err u,
      ¬ Executes (discardBackup destination err) u (.ok (.ok record)) := by
    intro destination err u hu
    obtain ⟨a, u', -, hu'⟩ := executes_request_bind.mp hu
    obtain ⟨-, hr⟩ := executes_pure.mp hu'
    cases hr
  obtain ⟨a, t₁, t₂, rfl, hcopy, hcopied⟩ := executes_attempt_ok (fun err u => hdiscard _ _ u) h
  obtain ⟨b, rfl, hb⟩ := executes_request.mp hcopy
  obtain rfl := Except.ok.inj hb
  obtain ⟨a', t₃, t₄, rfl, hwrite, hwritten⟩ :=
    executes_attempt_ok (fun err u => hdiscard _ _ u) hcopied
  obtain ⟨b, rfl, hb⟩ := executes_request.mp hwrite
  obtain rfl := Except.ok.inj hb
  obtain ⟨size, t₅, rfl, hsized⟩ := executes_request_bind.mp hwritten
  obtain ⟨answer, t₆, rfl, hpruned⟩ := executes_request_bind.mp hsized
  obtain ⟨rfl, hr⟩ := executes_pure.mp hpruned
  obtain rfl := Except.ok.inj (Except.ok.inj hr)
  exact ⟨rfl, size, answer, rfl⟩

/-- The calls of a run that reports a backup. -/
theorem executes_backupSave_ok {cfg : InstanceConfig} {configOverride : String} {retention : ℤ}
    {t : Trace} {record : SaveRecord}
    (h : Executes (backupSave cfg configOverride retention) t (.ok (.ok record))) :
    ∃ before created answer live gameDay size prepared,
      (∀ x ∈ before, harmless x.stmt = true) ∧ record.id = "mastermind_" ++ created.stamp ∧
        t = before ++ ⟨.now, created⟩ :: ⟨.mkdirAll saveBackupRoot, prepared⟩ ::
          lastCalls live gameDay created size retention answer := by
  obtain ⟨live, t₁, t₂, rfl, hresolve, hlive⟩ := executes_orReturn_ok h
  obtain ⟨available, t₃, rfl, hdir⟩ := executes_request_bind.mp hlive
  split_ifs at hdir with havailable
  · obtain ⟨gameDay, t₄, t₅, rfl, hflush, hflushed⟩ := executes_orReturn_ok hdir
    obtain ⟨created, t₆, rfl, hnow⟩ := executes_request_bind.mp hflushed
    obtain ⟨u, t₇, t₈, rfl, hmkdir, hmade⟩ := executes_orReturn_ok hnow
    obtain ⟨prepared, rfl, -⟩ := executes_request.mp hmkdir
    obtain ⟨taken, t₉, rfl, hlookup⟩ := executes_request_bind.mp hmade
    split_ifs at hlookup with htaken
    · obtain ⟨hid, size, answer, hlast⟩ := executes_writeBackup_ok hlookup
      refine ⟨t₁ ++ ⟨.isDir live, available⟩ :: t₄, created, answer, live, gameDay, size, prepared,
        ?_, hid, ?_⟩
      · intro x hx
        rcases List.mem_append.mp hx with hx | hx
        · exact hresolve.uses (uses_resolveLiveSave cfg configOverride) x hx
        rcases List.mem_cons.mp hx with rfl | hx
        · rfl
        · exact hflush.uses uses_flushWorld x hx
      · rw [← hlast, htaken]
        simp
    · obtain ⟨-, hr⟩ := executes_pure.mp hlookup
      cases hr
  · obtain ⟨-, hr⟩ := executes_pure.mp hdir
    cases hr

/-! ## What the pruning does to one backup -/

/-- The full saves with a later name, the latest first. -/
def newer (dir : Directory C) (id : String) : List String :=
  (sortedSaves dir).filter fun other => id < other

/-- The loop over the surplus, of a name that is valid. -/
theorem removeEach_cons {removal : Removal C} {id : String} (hvalid : validSaveID id = true)
    (ids : List String) (dir : Directory C) : removeEach removal (id :: ids) dir =
      match removeAll removal dir (saveBackupPath id) with
      | (some err, dir) => (some err, dir)
      | (none, dir) => removeEach removal ids dir := by
  have hpath : checkedBackupPath id = .ok (saveBackupPath id) := if_pos hvalid
  obtain ⟨failed, dir', hremoved⟩ : ∃ failed dir', removeAll removal dir (saveBackupPath id) =
      (failed, dir') := ⟨_, _, rfl⟩
  cases failed <;> simp [removeEach, hpath, hremoved]

/-- A removal that fails leaves the other entries as they are, and of its own what is left. -/
theorem removeAll_failed {removal : Removal C} {dir : Directory C} {path err : String} {left : C}
    (h : removal path = some (err, left)) : removeAll removal dir path =
      (some err, dir.keep (fun e => if saveBackupPath e.name = path then left else e.content)
        fun _ => true) := by
  rw [removeAll, h]

theorem removeAll_done {removal : Removal C} {dir : Directory C} {path : String}
    (h : removal path = none) : removeAll removal dir path =
      (none, dir.keep Entry.content fun e => saveBackupPath e.name ≠ path) := by
  rw [removeAll, h]

/-- An entry stays through what leaves its name and its content. -/
theorem mem_keep {dir : Directory C} {content : Entry C → C} {p : Entry C → Bool} {e : Entry C}
    (he : e ∈ dir.entries) : e ∈ (dir.keep content p).entries ↔ p e ∧ content e = e.content := by
  constructor
  · intro h
    obtain ⟨d, hd, hde⟩ := List.mem_map.mp h
    obtain ⟨hd, hp⟩ := List.mem_filter.mp hd
    have hname : d.name = e.name := by rw [← hde]
    obtain rfl := List.inj_on_of_nodup_map dir.distinct hd he hname
    exact ⟨hp, congrArg Entry.content hde⟩
  · rintro ⟨hp, hcontent⟩
    refine List.mem_map.mpr ⟨e, List.mem_filter.mpr ⟨he, hp⟩, ?_⟩
    rw [hcontent]

theorem name_of_mem_keep {dir : Directory C} {content : Entry C → C} {p : Entry C → Bool}
    {e : Entry C} (h : e ∈ (dir.keep content p).entries) :
    ∃ d ∈ dir.entries, d.name = e.name ∧ p d := by
  obtain ⟨d, hd, rfl⟩ := List.mem_map.mp h
  obtain ⟨hd, hp⟩ := List.mem_filter.mp hd
  exact ⟨d, hd, rfl, hp⟩

/-- Nothing comes back. -/
theorem name_of_mem_removeEach {removal : Removal C} {ids : List String} {dir : Directory C}
    (hids : ∀ id ∈ ids, validSaveID id = true) {e : Entry C}
    (h : e ∈ (removeEach removal ids dir).2.entries) : ∃ d ∈ dir.entries, d.name = e.name := by
  induction ids generalizing dir with
  | nil => exact ⟨e, h, rfl⟩
  | cons id ids ih =>
    obtain ⟨hvalid, hrest⟩ := List.forall_mem_cons.mp hids
    rw [removeEach_cons hvalid] at h
    cases hr : removal (saveBackupPath id) with
    | none =>
      rw [removeAll_done hr] at h
      obtain ⟨d, hd, hname⟩ := ih hrest h
      obtain ⟨d', hd', hname', -⟩ := name_of_mem_keep hd
      exact ⟨d', hd', hname'.trans hname⟩
    | some failure =>
      rw [removeAll_failed hr] at h
      obtain ⟨d, hd, hname, -⟩ := name_of_mem_keep h
      exact ⟨d, hd, hname⟩

/-- An entry that is not in the surplus stays. -/
theorem mem_removeEach_of_not_mem {removal : Removal C} {ids : List String} {dir : Directory C}
    {e : Entry C} (hids : ∀ id ∈ ids, validSaveID id = true ∧ Normal id) (he : e ∈ dir.entries)
    (h : e.name ∉ ids) : e ∈ (removeEach removal ids dir).2.entries := by
  induction ids generalizing dir with
  | nil => exact he
  | cons id ids ih =>
    obtain ⟨⟨hvalid, hnormal⟩, hrest⟩ := List.forall_mem_cons.mp hids
    rw [List.mem_cons, not_or] at h
    have hpath : saveBackupPath e.name ≠ saveBackupPath id :=
      fun hpath => h.1 (saveBackupPath_inj (dir.normal e he) hnormal hpath)
    rw [removeEach_cons hvalid]
    cases hr : removal (saveBackupPath id) with
    | none =>
      rw [removeAll_done hr]
      exact ih hrest ((mem_keep he).mpr ⟨decide_eq_true hpath, rfl⟩) h.2
    | some failure =>
      rw [removeAll_failed hr]
      exact (mem_keep he).mpr ⟨rfl, if_neg hpath⟩

/-- An entry of the surplus stays if the loop ends before it, or if its own removal fails before
anything of it is gone. -/
theorem mem_removeEach_iff {removal : Removal C} {before after : List String} {dir : Directory C}
    {e : Entry C} (hids : ∀ id ∈ before ++ e.name :: after, validSaveID id = true ∧ Normal id)
    (he : e ∈ dir.entries) (h : e.name ∉ before) :
    e ∈ (removeEach removal (before ++ e.name :: after) dir).2.entries ↔
      (∃ id ∈ before, removal (saveBackupPath id) ≠ none) ∨
        ∃ err, removal (saveBackupPath e.name) = some (err, e.content) := by
  induction before generalizing dir with
  | nil =>
    obtain ⟨⟨hvalid, -⟩, hrest⟩ := List.forall_mem_cons.mp hids
    rw [List.nil_append, removeEach_cons hvalid]
    cases hr : removal (saveBackupPath e.name) with
    | none =>
      rw [removeAll_done hr]
      refine iff_of_false (fun hmem => ?_) (by simp)
      obtain ⟨d, hd, hname⟩ := name_of_mem_removeEach (fun id hid => (hrest id hid).1) hmem
      obtain ⟨d', -, hname', hkept⟩ := name_of_mem_keep hd
      rw [hname'.trans hname] at hkept
      simp at hkept
    | some failure =>
      obtain ⟨err, left⟩ := failure
      rw [removeAll_failed hr]
      simp [mem_keep he]
  | cons id before ih =>
    obtain ⟨⟨hvalid, hnormal⟩, hrest⟩ := List.forall_mem_cons.mp hids
    rw [List.mem_cons, not_or] at h
    have hpath : saveBackupPath e.name ≠ saveBackupPath id :=
      fun hpath => h.1 (saveBackupPath_inj (dir.normal e he) hnormal hpath)
    rw [List.cons_append, removeEach_cons hvalid]
    cases hr : removal (saveBackupPath id) with
    | none =>
      rw [removeAll_done hr]
      have hin : e ∈ (dir.keep Entry.content fun d =>
          decide (saveBackupPath d.name ≠ saveBackupPath id)).entries :=
        (mem_keep he).mpr ⟨decide_eq_true hpath, rfl⟩
      have hih := ih hrest hin h.2
      simp only [hih, List.mem_cons, exists_eq_or_imp, hr, ne_eq, not_true, false_or]
    | some failure =>
      rw [removeAll_failed hr]
      refine iff_of_true ((mem_keep he).mpr ⟨rfl, if_neg hpath⟩) (.inl ⟨id, List.mem_cons_self, ?_⟩)
      rw [hr]
      exact Option.some_ne_none _

/-- The full saves in order: the newer ones, the one, and the older ones. -/
theorem sortedSaves_split {dir : Directory C} {e : Entry C} (he : e ∈ dir.entries)
    (hsave : isFullSave e = true) :
    ∃ older, sortedSaves dir = newer dir e.name ++ e.name :: older ∧ e.name ∉ newer dir e.name := by
  obtain ⟨before, older, hsplit⟩ := List.append_of_mem (mem_sortedSaves.mpr ⟨e, he, hsave, rfl⟩)
  have hpairwise := sortedSaves_pairwise dir
  rw [hsplit, List.pairwise_append, List.pairwise_cons] at hpairwise
  obtain ⟨-, ⟨holder, -⟩, hbefore⟩ := hpairwise
  have hnewer : newer dir e.name = before := by
    rw [newer, hsplit, List.filter_append, List.filter_cons_of_neg (by simp),
      List.filter_eq_self.mpr fun id hid => decide_eq_true (hbefore id hid _ List.mem_cons_self),
      List.filter_eq_nil_iff.mpr fun id hid hlt => (holder id hid).not_gt (of_decide_eq_true hlt),
      List.append_nil]
  rw [hnewer]
  exact ⟨older, hsplit, fun hmem => lt_irrefl _ (hbefore _ hmem _ List.mem_cons_self)⟩

/-- What hinders the pruning of a directory from removing a full save. -/
def Hindered (w : FileSystem C) (dir : Directory C) (retention : ℕ) (e : Entry C) : Prop :=
  w.readable = false ∨
    (∃ id ∈ (newer dir e.name).drop retention, w.removal (saveBackupPath id) ≠ none) ∨
    ∃ err, w.removal (saveBackupPath e.name) = some (err, e.content)

/-- A full save is still there after the pruning exactly if there are fewer newer ones than are to be
kept, or something hinders the pruning. -/
theorem mem_pruned_iff (w : FileSystem C) {dir : Directory C} {retention : ℤ} {e : Entry C}
    (he : e ∈ dir.entries) (hsave : isFullSave e = true) :
    e ∈ (w.pruned dir retention).entries ↔
      (newer dir e.name).length < retention.toNat ∨ Hindered w dir retention.toNat e := by
  unfold FileSystem.pruned Hindered
  cases hreadable : w.readable with
  | false => simp [he]
  | true =>
    rw [if_pos rfl]
    simp only [Bool.true_eq_false, false_or]
    have hcode : pruneFullSaveBackups w.removal dir retention.toNat =
        if (sortedSaves dir).length ≤ retention.toNat then (none, dir)
        else removeEach w.removal ((sortedSaves dir).drop retention.toNat) dir := rfl
    have hids : ∀ id ∈ (sortedSaves dir).drop retention.toNat,
        validSaveID id = true ∧ Normal id := by
      intro id hid
      obtain ⟨d, hd, hdsave, rfl⟩ := mem_sortedSaves.mp (List.mem_of_mem_drop hid)
      simp only [isFullSave, Bool.and_eq_true] at hdsave
      exact ⟨hdsave.2, dir.normal d hd⟩
    have hdrop : removeEach w.removal ((sortedSaves dir).drop retention.toNat) dir =
        pruneFullSaveBackups w.removal dir retention.toNat := by
      rw [hcode]
      split_ifs with hfew
      · rw [List.drop_eq_nil_of_le hfew]
        rfl
      · rfl
    rw [← hdrop]
    obtain ⟨older, hsplit, hnot⟩ := sortedSaves_split he hsave
    rcases Nat.lt_or_ge (newer dir e.name).length retention.toNat with hlt | hge
    · -- the save is among those that are kept
      refine iff_of_true (mem_removeEach_of_not_mem hids he fun hmem => ?_) (.inl hlt)
      have hnodup : (sortedSaves dir).Nodup := (sortedSaves_pairwise dir).imp fun h => h.ne'
      refine List.disjoint_take_drop hnodup (le_refl retention.toNat) ?_ hmem
      obtain ⟨k, hk⟩ := Nat.exists_eq_add_of_lt hlt
      rw [hsplit, List.take_append, show retention.toNat - (newer dir e.name).length = k + 1 by omega,
        List.take_succ_cons]
      exact List.mem_append_right _ List.mem_cons_self
    · rw [hsplit, List.drop_append_of_le_length hge] at hids ⊢
      rw [mem_removeEach_iff hids he fun hmem => hnot (List.mem_of_mem_drop hmem)]
      exact (or_iff_right (not_lt.mpr hge)).symm

/-! ## A whole run -/

/-- The new backup, once it is written. -/
def FileSystem.written (w : FileSystem C) (id : String) : Entry C := ⟨id, true, w.described w.copied⟩

/-- The name of a full save is the name of a file. -/
theorem normal_of_isFullSave {e : Entry C} (h : isFullSave e = true) : Normal e.name := by
  have hslash : '/' ∉ e.name.toList := by
    refine Regex.not_mem_of_spells (spells_of_isFullSave h) fun p hp => ?_
    have hall : (saveIDShape "mastermind".toList).all (fun p => !p '/') = true := by decide
    simpa using List.all_eq_true.mp hall p hp
  simp only [isFullSave, Bool.and_eq_true] at h
  obtain ⟨t, ht⟩ := List.isPrefixOf_iff_prefix.mp h.1.2
  have hother : ∀ s : String, s.toList.head? ≠ some 'm' → e.name ≠ s := by
    rintro s hs rfl
    rw [← ht] at hs
    exact hs rfl
  exact ⟨⟨hother "" (by decide), hslash⟩, hother "." (by decide), hother ".." (by decide)⟩

/-- The new backup is a full save. -/
theorem isFullSave_new {stamp : String} (h : validSaveID ("mastermind_" ++ stamp) = true)
    (content : C) : isFullSave (⟨"mastermind_" ++ stamp, true, content⟩ : Entry C) = true := by
  have hprefix : ModArchive.hasPrefix ("mastermind_" ++ stamp) "mastermind_" = true := by
    rw [ModArchive.hasPrefix, String.toList_append]
    exact List.isPrefixOf_iff_prefix.mpr (List.prefix_append _ _)
  simp only [isFullSave, h, hprefix, Bool.and_self]

/-- The directory before the pruning: the old backups, under their names, and the new one. -/
theorem evolves_lastCalls {w : FileSystem C} {live : String} {gameDay : ℤ} {created : Moment}
    {size : ℕ} {retention : ℤ} {answer : Fallible Unit} {dir dir' : Directory C}
    (hvalid : validSaveID ("mastermind_" ++ created.stamp) = true)
    (h : w.Evolves dir (lastCalls live gameDay created size retention answer) dir') :
    ∃ full : Directory C, ∃ others : List (Entry C),
      full.entries = others ++ [w.written ("mastermind_" ++ created.stamp)] ∧
      others.map (fun e => (e.name, e.isDir)) = dir.entries.map (fun e => (e.name, e.isDir)) ∧
      dir' = w.pruned full (clampRetention retention) := by
  obtain ⟨d₁, ⟨rfl, -⟩, d₂, hcopy, d₃, hwrite, d₄, hsize, d₅, hprune, rfl⟩ := h
  obtain rfl : d₄ = d₃ := hsize
  rcases hcopy with ⟨⟨err, herr⟩, -⟩ | ⟨name, hname, hentries⟩
  · cases herr
  rcases hwrite with ⟨⟨err, herr⟩, -⟩ | hwrite
  · cases herr
  obtain rfl : name = "mastermind_" ++ created.stamp := by
    refine saveBackupPath_inj (d₂.normal ⟨name, true, w.copied⟩ ?_)
      (normal_of_isFullSave (isFullSave_new hvalid w.copied)) hname
    rw [hentries]
    exact List.mem_append_right _ List.mem_cons_self
  refine ⟨d₄, d₁.entries.map fun e => { e with
    content := if Path.join [saveBackupPath e.name, ".mastermind-save.json"] =
        Path.join [saveBackupPath ("mastermind_" ++ created.stamp), ".mastermind-save.json"]
      then w.described e.content else e.content }, ?_, ?_, hprune⟩
  · rw [hwrite]
    simp only [Directory.keep, hentries, List.filter_true, List.map_append, List.map_cons,
      List.map_nil, if_true]
    rfl
  · rw [List.map_map]
    rfl

/-- The newer full saves are those of the old directory. -/
theorem newer_eq {dir full : Directory C} {others : List (Entry C)} {e : Entry C}
    (hfull : full.entries = others ++ [e])
    (hothers : others.map (fun e => (e.name, e.isDir)) = dir.entries.map (fun e => (e.name, e.isDir))) :
    newer full e.name = newer dir e.name := by
  have hnames : (others.filter isFullSave).map Entry.name =
      (dir.entries.filter isFullSave).map Entry.name := by
    have hmap : ∀ l : List (Entry C), (l.filter isFullSave).map Entry.name =
        ((l.map fun e => (e.name, e.isDir)).filter fun x =>
          x.2 && ModArchive.hasPrefix x.1 "mastermind_" && validSaveID x.1).map Prod.fst := by
      intro l
      rw [List.filter_map, List.map_map]
      rfl
    rw [hmap, hmap, hothers]
  have hperm : (newer full e.name).Perm (newer dir e.name) := by
    have hsorted : ∀ d : Directory C,
        (sortedSaves d).Perm ((d.entries.filter isFullSave).map Entry.name) :=
      fun d => List.mergeSort_perm _ _
    refine ((hsorted full).filter _).trans (.trans ?_ ((hsorted dir).filter _).symm)
    rw [hfull, List.filter_append, List.map_append, hnames, List.filter_append]
    by_cases hsave : isFullSave e = true
    · -- it is not newer than itself
      have hself : ([e.name].filter fun other => decide (e.name < other)) = [] := by
        refine List.filter_eq_nil_iff.mpr fun other hother hlt => ?_
        rw [List.mem_singleton.mp hother] at hlt
        exact lt_irrefl _ (of_decide_eq_true hlt)
      rw [List.filter_cons_of_pos hsave, List.filter_nil, List.map_singleton, hself,
        List.append_nil]
    · rw [List.filter_cons_of_neg hsave, List.filter_nil, List.map_nil, List.filter_nil,
        List.append_nil]
  have hpairwise : ∀ d : Directory C, (newer d e.name).Pairwise fun a b => b < a :=
    fun d => (sortedSaves_pairwise d).filter _
  exact hperm.eq_of_pairwise (fun a b _ _ hab hba => absurd hab hba.not_gt) (hpairwise full)
    (hpairwise dir)

/-- What a run that reports a backup does to the directory. -/
theorem evolves_backupSave {w : FileSystem C} {cfg : InstanceConfig} {configOverride : String}
    {retention : ℤ} {t : Trace} {record : SaveRecord} {dir dir' : Directory C}
    (hrun : Executes (backupSave cfg configOverride retention) t (.ok (.ok record)))
    (hdisk : w.Evolves dir t dir') :
    ∃ full : Directory C, w.written record.id ∈ full.entries ∧
      isFullSave (w.written record.id) = true ∧ newer full record.id = newer dir record.id ∧
      dir' = w.pruned full (clampRetention retention) := by
  obtain ⟨before, created, answer, live, gameDay, size, prepared, hbefore, hid, rfl⟩ :=
    executes_backupSave_ok hrun
  obtain ⟨d, hd, d₁, ⟨hd₁, hvalid⟩, d₂, hd₂, hlast⟩ := evolves_append.mp hdisk
  obtain rfl := evolves_harmless hbefore hd
  obtain rfl : d₂ = d := hd₂.trans hd₁
  obtain ⟨full, others, hentries, hothers, rfl⟩ := evolves_lastCalls hvalid hlast
  rw [hid]
  refine ⟨full, ?_, isFullSave_new hvalid _, newer_eq hentries hothers, rfl⟩
  rw [hentries]
  exact List.mem_append_right _ List.mem_cons_self

/-- A run that reports a backup leaves it on disk exactly if fewer backups with a later name were there
than are to be kept, or something hindered the pruning. -/
theorem reported_backup_exists_iff {w : FileSystem C} {cfg : InstanceConfig} {configOverride : String}
    {retention : ℤ} {t : Trace} {record : SaveRecord} {dir dir' : Directory C}
    (hrun : Executes (backupSave cfg configOverride retention) t (.ok (.ok record)))
    (hdisk : w.Evolves dir t dir') :
    w.written record.id ∈ dir'.entries ↔
      (newer dir record.id).length < (clampRetention retention).toNat ∨
        Hindered w dir (clampRetention retention).toNat (w.written record.id) := by
  obtain ⟨full, hmem, hsave, hnewer, rfl⟩ := evolves_backupSave hrun hdisk
  have hname : (w.written record.id).name = record.id := rfl
  rw [mem_pruned_iff w hmem hsave, Hindered, Hindered, hname, hnewer]

/-- The directory with one more backup. -/
def Directory.with (dir : Directory C) (e : Entry C) (hnormal : Normal e.name)
    (hnew : ∀ d ∈ dir.entries, d.name ≠ e.name) : Directory C where
  entries := dir.entries ++ [e]
  normal := by
    intro d hd
    rcases List.mem_append.mp hd with hd | hd
    · exact dir.normal d hd
    · rw [List.mem_singleton.mp hd]
      exact hnormal
  distinct := by
    rw [List.map_append, List.map_singleton]
    refine List.nodup_append.mpr ⟨dir.distinct, List.nodup_singleton _, ?_⟩
    intro a ha b hb
    obtain ⟨d, hd, rfl⟩ := List.mem_map.mp ha
    rw [List.mem_singleton.mp hb]
    exact hnew d hd

theorem evolves_of_harmless {w : FileSystem C} {dir : Directory C} {t : Trace}
    (ht : ∀ x ∈ t, harmless x.stmt = true) : w.Evolves dir t dir := by
  induction t with
  | nil => rfl
  | cons x t ih =>
    obtain ⟨hx, ht⟩ := List.forall_mem_cons.mp ht
    refine ⟨dir, ?_, ih ht⟩
    obtain ⟨c, a⟩ := x
    cases c <;> first | rfl | cases hx

/-- A run that reports a backup is possible wherever there is none of that name. -/
theorem exists_evolves {w : FileSystem C} {cfg : InstanceConfig} {configOverride : String}
    {retention : ℤ} {t : Trace} {record : SaveRecord} {dir : Directory C}
    (hrun : Executes (backupSave cfg configOverride retention) t (.ok (.ok record)))
    (hvalid : validSaveID record.id = true) (hnew : ∀ e ∈ dir.entries, e.name ≠ record.id) :
    ∃ dir', w.Evolves dir t dir' := by
  obtain ⟨before, created, answer, live, gameDay, size, prepared, hbefore, hid, rfl⟩ :=
    executes_backupSave_ok hrun
  rw [hid] at hvalid hnew
  have hnormal : Normal ("mastermind_" ++ created.stamp) :=
    normal_of_isFullSave (isFullSave_new hvalid w.copied)
  refine ⟨_, evolves_append.mpr ⟨dir, evolves_of_harmless hbefore, dir, ⟨rfl, hvalid⟩, dir, rfl, dir,
    ⟨rfl, fun _ e he hpath => hnew e he (saveBackupPath_inj (dir.normal e he) hnormal hpath)⟩,
    dir.with ⟨"mastermind_" ++ created.stamp, true, w.copied⟩ hnormal hnew, .inr ⟨_, rfl, rfl⟩,
    _, .inr rfl, _, rfl, _, rfl, rfl⟩⟩

/-- A backup of a year that is still to come. -/
def laterSaves : Directory Unit where
  entries := [⟨"mastermind_2027-01-01_00-00-00", true, ()⟩]
  normal := by
    simp only [List.mem_cons, List.not_mem_nil, or_false, forall_eq, Path.Normal, Plain]
    decide
  distinct := by decide

/-- A file system without failures. -/
def soundFiles : FileSystem Unit := ⟨true, fun _ => none, (), id⟩

/-- A run that keeps one backup. -/
def backupRun : Trace := ((backupSave hosted "" 1).follow (smooth "8" 0 1000) 0).1

/-- The backup that it reports. -/
def reportedBackup : SaveRecord := ⟨"mastermind_2026-01-01_00-00-00", 0, 0, "full-world", 0⟩

theorem executes_backupRun :
    Executes (backupSave hosted "" 1) backupRun (.ok (.ok reportedBackup)) := by
  have hresult : ((backupSave hosted "" 1).follow (smooth "8" 0 1000) 0).2 =
      .ok (.ok reportedBackup) := by
    decide +kernel
  rw [← hresult]
  exact executes_follow _ _ _

/-- A backup of the year before. -/
def earlierSaves : Directory Unit where
  entries := [⟨"mastermind_2025-01-01_00-00-00", true, ()⟩]
  normal := by
    simp only [List.mem_cons, List.not_mem_nil, or_false, forall_eq, Path.Normal, Plain]
    decide
  distinct := by decide

theorem evolves_backupRun : ∃ dir', soundFiles.Evolves laterSaves backupRun dir' := by
  refine exists_evolves executes_backupRun (by decide +kernel) ?_
  intro e he
  rw [List.mem_singleton.mp he]
  decide

/-- With a backup that is dated later the reported one is gone, with one that is dated earlier it is
there. -/
theorem reported_backup_exists_iff_dates :
    (∃ dir', soundFiles.Evolves laterSaves backupRun dir' ∧
      soundFiles.written reportedBackup.id ∉ dir'.entries) ∧
    ∃ dir', soundFiles.Evolves earlierSaves backupRun dir' ∧
      soundFiles.written reportedBackup.id ∈ dir'.entries := by
  obtain ⟨late, hlate⟩ := evolves_backupRun
  obtain ⟨early, hearly⟩ : ∃ dir', soundFiles.Evolves earlierSaves backupRun dir' := by
    refine exists_evolves executes_backupRun (by decide +kernel) ?_
    intro e he
    rw [List.mem_singleton.mp he]
    decide
  refine ⟨⟨late, hlate, fun hmem => ?_⟩, early, hearly, ?_⟩
  · have hlater : newer laterSaves reportedBackup.id = ["mastermind_2027-01-01_00-00-00"] := by
      decide +kernel
    rcases (reported_backup_exists_iff executes_backupRun hlate).mp hmem with hfew | hhindered
    · rw [hlater] at hfew
      exact absurd hfew (by decide)
    · rcases hhindered with hread | ⟨id, -, hid⟩ | ⟨err, herr⟩
      · cases hread
      · exact hid rfl
      · cases herr
  · have hnone : newer earlierSaves reportedBackup.id = [] := by
      decide +kernel
    refine (reported_backup_exists_iff executes_backupRun hearly).mpr (.inl ?_)
    rw [hnone]
    decide

/-- With a backup that is dated later, the reported one is gone. -/
theorem reported_backup_gone :
    ¬ ∀ (w : FileSystem Unit) (cfg : InstanceConfig) (configOverride : String) (retention : ℤ)
        (t : Trace) (record : SaveRecord) (dir dir' : Directory Unit),
      Executes (backupSave cfg configOverride retention) t (.ok (.ok record)) →
        w.Evolves dir t dir' → w.written record.id ∈ dir'.entries := by
  intro hall
  obtain ⟨dir', hdisk⟩ := evolves_backupRun
  have hkept := hall _ _ _ _ _ _ _ _ executes_backupRun hdisk
  obtain ⟨full, hmem, hsave, hnewer, rfl⟩ := evolves_backupSave executes_backupRun hdisk
  have hlater : newer laterSaves reportedBackup.id = ["mastermind_2027-01-01_00-00-00"] := by
    decide +kernel
  rcases (mem_pruned_iff soundFiles hmem hsave).mp hkept with hfew | hhindered
  · rw [show (soundFiles.written reportedBackup.id).name = reportedBackup.id from rfl, hnewer,
      hlater] at hfew
    exact absurd hfew (by decide)
  · rcases hhindered with hread | ⟨id, -, hid⟩ | ⟨err, herr⟩
    · cases hread
    · exact hid rfl
    · cases herr

end Mastermind.Agent.Pruning
