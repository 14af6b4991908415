import Mastermind.Agent.Pruning
import Mastermind.Platform.FileTree

/-!
# Restoring a save

`RestoreSave` puts the live directory aside, copies the backup in its place, and puts the directory
back if that fails. A helper program that runs with more rights deletes what was put aside, and it
deletes only the save of the configuration and the save's own rollback.

Each step of a call has a lemma on what it leaves under the name that is restored and under that of
its rollback, and `restoreInto_cases` puts them together: as long as the live directory is seen
where there is one, what it had is live, or put aside, or replaced by a whole copy.
-/

namespace Mastermind.Agent.Restoring

open FileTree Pruning

variable {C : Type}

/-! ## Directories -/

/-- A directory, if there is one. -/
abbrev Folder (C : Type) := Option (Entries C)

/-- What is under a name. -/
def look (name : String) (folder : Folder C) : Option (Node C) := folder.bind (Entries.lookup name)

/-- The directory with something under a name, or with nothing. -/
def write (name : String) (node : Option (Node C)) (folder : Folder C) : Folder C :=
  match node with
  | some node => some ((folder.getD .nil).put name node)
  | none => folder.map (Entries.erase name)

/-- `os.Rename`, in one directory. -/
def rename (hazard : Fallible Unit) (src dst : String) (folder : Folder C) :
    Folder C × Fallible Unit :=
  match hazard with
  | .error err => (folder, .error err)
  | .ok _ =>
    match look src folder, look dst folder with
    | none, _ => (folder, .error "no such file or directory")
    | some _, some (.dir _) => (folder, .error "file exists")
    | some (.dir _), some _ => (folder, .error "not a directory")
    | some node, _ => (write dst (some node) (write src none folder), .ok ())

/-- `os.RemoveAll`, which may leave something behind. -/
def removeAll (left : Option (Node C)) (name : String) (folder : Folder C) : Folder C :=
  match look name folder, left with
  | some _, some node => write name (some node) folder
  | _, _ => write name none folder

/-! ## The call -/

/-- How the deletion by the helper goes, once it has accepted the path. -/
inductive Deletion (C : Type) where
  | done
  /-- It is gone, but the agent cannot tell. -/
  | unseen
  | failed (err : String) (left : Option (Node C))

/-- A call of `RestoreSave`, with all that may go wrong in it. -/
structure RestoreCall (C : Type) where
  id : String
  /-- The save of the configuration, as the agent reads it, a second time for the list of the saves,
  and as the helper does. -/
  live : Fallible String
  liveAgain : Fallible String
  resolved : Fallible String
  serverActive : Bool
  healerActive : Bool
  stopHealer : Fallible Unit
  /-- `os.Lstat` of the backup fails. -/
  lostSource : Bool
  readRoot : Fallible Unit
  /-- `entry.Info` answers for a name. -/
  described : String → Bool
  lostRegion : Bool
  /-- The error for a snapshot where the live save is a link: the call works where it leads, and at
  the latest the helper refuses to delete the rollback. -/
  linked : String
  lookOld : Fallible Unit
  clean : Deletion C
  /-- `os.Stat` of the live directory fails, though it is there. -/
  statFails : Bool
  stage : Fallible Unit
  mishap : List String → Option (Mishap C)
  chmod : Fallible Unit
  assign : Fallible Unit
  discarded : Option (Node C)
  undo : Fallible Unit
  drop : Deletion C

/-- The end of the name of a rollback. -/
def rollbackSuffix : String := ".mastermind-restore-old"

/-- `.mastermind-save.json`. -/
def metadataName : String := ".mastermind-save.json"

/-- The message of an error, in the words of the caller. -/
def wrap (words : String) : Fallible Unit → Fallible Unit
  | .error err => .error (words ++ err)
  | .ok _ => .ok ()

/-- What follows a step that may fail. -/
def andThen (step : Folder C × Fallible Unit) (next : Folder C → Folder C × Fallible Unit) :
    Folder C × Fallible Unit :=
  match step with
  | (folder, .error err) => (folder, .error err)
  | (folder, .ok _) => next folder

/-- `removeRestoreRollback` of the rollback of `name` in the directory, which is at `path`. The
helper deletes the save it has resolved, or that save's rollback. -/
def removeRestoreRollback (resolved : Fallible String) (deletion : Deletion C) (path name : String)
    (folder : Folder C) : Folder C × Fallible Unit :=
  match resolved with
  | .error err => (folder, .error ("delete validated rollback directory: " ++ err))
  | .ok save =>
    if path ≠ save ∧ path ≠ save ++ rollbackSuffix then
      (folder, .error ("delete validated rollback directory: requested path does not match the " ++
        "configured save or its restore rollback directory"))
    else
      match look name folder, look (name ++ rollbackSuffix) folder, deletion with
      | some .special, _, _ =>
        (folder, .error "delete validated rollback directory: save path must not be a symlink")
      | _, some (.dir _), .done => (write (name ++ rollbackSuffix) none folder, .ok ())
      | _, some (.dir _), .unseen =>
        (write (name ++ rollbackSuffix) none folder,
          .error "rollback directory still exists after deletion")
      | _, some (.dir _), .failed err left =>
        (write (name ++ rollbackSuffix) left folder,
          .error ("delete validated rollback directory: " ++ err))
      | _, _, _ =>
        (folder, .error ("delete validated rollback directory: requested save directory does " ++
          "not exist"))

/-- The tree as a copy without the metadata sees it. In a full save they are a file. -/
def hideMetadata : Entries C → Entries C
  | .nil => .nil
  | .file name content rest =>
    if name = metadataName then .special name (hideMetadata rest)
    else .file name content (hideMetadata rest)
  | .special name rest => .special name (hideMetadata rest)
  | .dir name below rest => .dir name below (hideMetadata rest)

/-- What `copySaveTree` copies. -/
def copied (skipMetadata : Bool) (source : Entries C) : Entries C :=
  if skipMetadata then hideMetadata source else source

/-- `copySaveTree` of a directory to `name`. -/
def copySaveTree (mishap : List String → Option (Mishap C)) (skipMetadata : Bool)
    (source : Entries C) (name : String) (folder : Folder C) : Folder C × Fallible Unit :=
  match mishap [], Entries.entered (look name folder) with
  | some (.early err), _ => (folder, .error err)
  | _, .error err => (folder, .error err)
  | some (.late err _), .ok entries => (write name (some (.dir entries)) folder, .error err)
  | none, .ok entries =>
    let (entries, result) := (copied skipMetadata source).copy mishap [] entries
    (write name (some (.dir entries)) folder, result)

/-- What the call does about an error once the live directory is put aside. -/
def undone (c : RestoreCall C) (name : String) (folder : Folder C) : Folder C :=
  (rename c.undo (name ++ rollbackSuffix) name (removeAll c.discarded name folder)).1

/-- A step that is undone when it fails. -/
def orUndo (c : RestoreCall C) (name words : String) (step : Folder C × Fallible Unit) :
    Folder C × Fallible Unit :=
  match step with
  | (folder, .error err) => (undone c name folder, .error (words ++ err))
  | (folder, .ok _) => (folder, .ok ())

/-- The rollback of an earlier call is deleted. -/
def cleanStale (c : RestoreCall C) (path name : String) (folder : Folder C) :
    Folder C × Fallible Unit :=
  match c.lookOld with
  | .error err => (folder, .error ("inspect stale restore rollback: " ++ err))
  | .ok _ =>
    match look (name ++ rollbackSuffix) folder with
    | some _ =>
      let (folder, result) := removeRestoreRollback c.resolved c.clean path name folder
      (folder, wrap "clean stale restore rollback: " result)
    | none => (folder, .ok ())

/-- The live directory is put aside, where `os.Stat` finds one. -/
def stageLive (c : RestoreCall C) (name : String) (folder : Folder C) : Folder C × Fallible Unit :=
  if (look name folder).isSome ∧ c.statFails = false then
    let (folder, result) := rename c.stage name (name ++ rollbackSuffix) folder
    (folder, wrap "stage current save: " result)
  else (folder, .ok ())

/-- The backup comes in its place, with the rights of the game server. -/
def replaceLive (c : RestoreCall C) (fullWorld : Bool) (source : Entries C) (name : String)
    (folder : Folder C) : Folder C × Fallible Unit :=
  andThen (orUndo c name "restore save: " (copySaveTree c.mishap fullWorld source name folder))
    fun folder =>
  andThen (orUndo c name "set restored save permissions: " (folder, c.chmod)) fun folder =>
  if fullWorld then orUndo c name "assign restored save to game account: " (folder, c.assign)
  else (folder, .ok ())

/-- `RestoreSave` from the look for a stale rollback on: `name` is what is restored, its rollback is
at `path`. -/
def restoreInto (c : RestoreCall C) (fullWorld : Bool) (source : Entries C) (path name : String)
    (folder : Folder C) : Folder C × Fallible Unit :=
  andThen (cleanStale c path name folder) fun folder =>
  andThen (stageLive c name folder) fun folder =>
  andThen (replaceLive c fullWorld source name folder) fun folder =>
    let (folder, result) := removeRestoreRollback c.resolved c.drop path name folder
    (folder, wrap "remove restore rollback after successful copy: " result)

/-! ## The list of the saves -/

/-- What the list of the saves reads of files: the metadata, the size, and the time of a
directory. -/
structure Reader (C : Type) where
  metadata : C → Option SaveMetadata
  size : C → ℕ
  modTime : String → ℤ

/-- `directorySize`. -/
def directorySize (size : C → ℕ) (t : Entries C) : ℕ :=
  ((t.files []).map fun file => size file.2).sum

/-- The record of a backup. -/
def saveRecord (reader : Reader C) (name : String) (t : Entries C) : SaveRecord :=
  let metadata := match t.lookup metadataName with
    | some (.file content) => reader.metadata content
    | _ => none
  match metadata with
  | some metadata =>
    ⟨name, metadata.createdAt, metadata.gameDay, metadata.kind, directorySize reader.size t⟩
  | none => ⟨name, reader.modTime name, 0, "region-healer", directorySize reader.size t⟩

/-- The directories among the entries. -/
def subfolders : Entries C → List (String × Entries C)
  | .nil => []
  | .file _ _ rest => subfolders rest
  | .special _ rest => subfolders rest
  | .dir name below rest => (name, below) :: subfolders rest

/-- `ListSaves`, newest first. -/
def listSaves (reader : Reader C) (c : RestoreCall C) (root : Entries C) :
    Fallible (List SaveRecord) :=
  match c.liveAgain, c.readRoot with
  | .error err, _ => .error err
  | _, .error err => .error ("read save backups: " ++ err)
  | .ok _, .ok _ =>
    .ok ((((subfolders root).filter fun entry =>
      validSaveID entry.1 && c.described entry.1).map
        fun entry => saveRecord reader entry.1 entry.2).mergeSort
          fun a b => decide (b.createdAt ≤ a.createdAt))

/-! ## `RestoreSave` -/

/-- `RestoreSave` of a backup whose record is `selected`. `world` is the directory of the world of
the save, and `game` is the save's name in it. -/
def restoreSelected (c : RestoreCall C) (selected : SaveRecord) (source : Entries C)
    (live game : String) (world : Folder C) : Folder C × Fallible Unit :=
  if selected.kind = "full-world" then
    restoreInto c true source (live ++ rollbackSuffix) game world
  else
    match c.lostRegion, source.lookup "Region" with
    | false, some (.dir region) =>
      match look game world with
      | none =>
        let (folder, result) :=
          restoreInto c false region (Path.join [live, "Region"] ++ rollbackSuffix) "Region" none
        (write game (folder.map Node.dir) world, result)
      | some (.dir entries) =>
        let (folder, result) := restoreInto c false region
          (Path.join [live, "Region"] ++ rollbackSuffix) "Region" (some entries)
        (write game (folder.map Node.dir) world, result)
      | some (.file _) => (world, .error "inspect stale restore rollback: not a directory")
      | some .special => (world, .error c.linked)
    | _, _ => (world, .error "Region Healer snapshot has no Region directory")

/-- `RestoreSave`. -/
def restoreSave (reader : Reader C) (root : Entries C) (game : String) (c : RestoreCall C)
    (world : Folder C) : Folder C × Fallible SaveRecord :=
  let fail (err : String) : Folder C × Fallible SaveRecord := (world, .error err)
  if c.serverActive then fail "server must be stopped before restoring a save"
  else
    match c.live, checkedBackupPath c.id with
    | .error err, _ => fail err
    | _, .error err => fail err
    | .ok live, .ok _ =>
      match c.lostSource, root.lookup c.id with
      | false, some (.dir source) =>
        match (if c.healerActive then c.stopHealer else .ok ()) with
        | .error err => fail ("stop Region Healer before restore: " ++ err)
        | .ok _ =>
          match listSaves reader c root with
          | .error err => fail err
          | .ok saves =>
            match saves.find? fun save => save.id == c.id with
            | none => fail "save backup not found"
            | some selected =>
              match restoreSelected c selected source live game world with
              | (world, .error err) => (world, .error err)
              | (world, .ok _) => (world, .ok selected)
      | _, _ => fail "save backup not found"

/-! ## What a step leaves -/

section Steps

variable {name m path : String} {folder : Folder C} {c : RestoreCall C}

@[simp]
theorem look_write_self (name : String) (node : Option (Node C)) (folder : Folder C) :
    look name (write name node folder) = node := by
  cases node with
  | some node => simp [write, look]
  | none => cases folder <;> simp [write, look]

theorem look_write_of_ne (h : m ≠ name) (node : Option (Node C)) (folder : Folder C) :
    look m (write name node folder) = look m folder := by
  cases node with
  | some node => cases folder <;> simp [write, look, Entries.lookup_put_of_ne h, Entries.lookup]
  | none => cases folder <;> simp [write, look, Entries.lookup_erase_of_ne h]

theorem rollback_ne (name : String) : name ++ rollbackSuffix ≠ name := by
  intro h
  have hlen := congrArg String.length h
  rw [String.length_append] at hlen
  exact absurd hlen (by simp [rollbackSuffix])

/-- A renaming that fails changes nothing, and one that does not moves what was there. -/
theorem rename_cases (hazard : Fallible Unit) {src dst : String} (hne : src ≠ dst)
    (folder : Folder C) :
    (∃ err, rename hazard src dst folder = (folder, .error err)) ∨
      ∃ moved, rename hazard src dst folder = (moved, .ok ()) ∧ (look src folder).isSome ∧
        look dst moved = look src folder ∧ look src moved = none ∧
        ∀ m, m ≠ src → m ≠ dst → look m moved = look m folder := by
  cases hazard with
  | error err => exact .inl ⟨err, rfl⟩
  | ok _ =>
    have hmoves (node : Node C) (hsrc : look src folder = some node)
        (h : rename (.ok ()) src dst folder =
          (write dst (some node) (write src none folder), .ok ())) :
        ∃ moved, rename (.ok ()) src dst folder = (moved, .ok ()) ∧ (look src folder).isSome ∧
          look dst moved = look src folder ∧ look src moved = none ∧
          ∀ m, m ≠ src → m ≠ dst → look m moved = look m folder := by
      refine ⟨_, h, by rw [hsrc]; rfl, by rw [look_write_self, hsrc], ?_, fun m hs hd => ?_⟩
      · rw [look_write_of_ne hne, look_write_self]
      · rw [look_write_of_ne hd, look_write_of_ne hs]
    rcases Option.eq_none_or_eq_some (look src folder) with hsrc | ⟨node, hsrc⟩
    · exact .inl ⟨"no such file or directory", by unfold rename; rw [hsrc]⟩
    · rcases Option.eq_none_or_eq_some (look dst folder) with hdst | ⟨other, hdst⟩
      · exact .inr (hmoves node hsrc (by unfold rename; rw [hsrc, hdst]))
      · cases other with
        | dir entries => exact .inl ⟨"file exists", by unfold rename; rw [hsrc, hdst]⟩
        | _ =>
          cases node with
          | dir entries => exact .inl ⟨"not a directory", by unfold rename; rw [hsrc, hdst]⟩
          | _ => exact .inr (hmoves _ hsrc (by unfold rename; rw [hsrc, hdst]))

/-- A renaming to a name that is free moves what is there. -/
theorem rename_free {src dst : String} {node : Node C} (hsrc : look src folder = some node)
    (hdst : look dst folder = none) :
    rename (.ok ()) src dst folder = (write dst (some node) (write src none folder), .ok ()) := by
  unfold rename
  rw [hsrc, hdst]

/-- The deletion of a rollback fails, with something left of it, or it succeeds: then the rollback
was there, and the helper has accepted its path. -/
theorem removeRestoreRollback_cases (resolved : Fallible String) (deletion : Deletion C)
    (path name : String) (folder : Folder C) :
    (∃ err, removeRestoreRollback resolved deletion path name folder = (folder, .error err)) ∨
    (∃ left err, removeRestoreRollback resolved deletion path name folder =
      (write (name ++ rollbackSuffix) left folder, .error err)) ∨
    removeRestoreRollback resolved deletion path name folder =
      (write (name ++ rollbackSuffix) none folder, .ok ()) ∧
      (∃ entries, look (name ++ rollbackSuffix) folder = some (.dir entries)) ∧
      ∃ save, resolved = .ok save ∧ (path = save ∨ path = save ++ rollbackSuffix) := by
  cases resolved with
  | error err => exact .inl ⟨_, rfl⟩
  | ok save =>
    unfold removeRestoreRollback
    by_cases haccepted : path ≠ save ∧ path ≠ save ++ rollbackSuffix
    · exact .inl ⟨_, if_pos haccepted⟩
    · simp only [if_neg haccepted]
      split
      · exact .inl ⟨_, rfl⟩
      · rename_i entries hold _
        refine .inr (.inr ⟨rfl, ⟨entries, hold⟩, save, rfl, ?_⟩)
        by_contra hnot
        exact haccepted (not_or.mp hnot)
      · exact .inr (.inl ⟨_, _, rfl⟩)
      · exact .inr (.inl ⟨_, _, rfl⟩)
      · exact .inl ⟨_, rfl⟩

/-- The deletion of a rollback touches nothing else. -/
theorem look_removeRestoreRollback (h : m ≠ name ++ rollbackSuffix) (resolved : Fallible String)
    (deletion : Deletion C) (path : String) (folder : Folder C) :
    look m (removeRestoreRollback resolved deletion path name folder).1 = look m folder := by
  rcases removeRestoreRollback_cases resolved deletion path name folder with
    ⟨err, hr⟩ | ⟨left, err, hr⟩ | ⟨hr, -⟩
  · rw [hr]
  · rw [hr, look_write_of_ne h]
  · rw [hr, look_write_of_ne h]

/-- The rollback of an earlier call is gone, or the call ends. -/
theorem cleanStale_spec (c : RestoreCall C) (path name : String) (folder : Folder C) :
    look name (cleanStale c path name folder).1 = look name folder ∧
      ((cleanStale c path name folder).2 = .ok () →
        look (name ++ rollbackSuffix) (cleanStale c path name folder).1 = none ∧
        ∀ node, look (name ++ rollbackSuffix) folder = some node →
          ∃ entries, node = .dir entries) := by
  unfold cleanStale
  cases c.lookOld with
  | error err => exact ⟨rfl, nofun⟩
  | ok _ =>
    cases hold : look (name ++ rollbackSuffix) folder with
    | none => exact ⟨rfl, fun _ => ⟨hold, nofun⟩⟩
    | some node =>
      refine ⟨look_removeRestoreRollback (rollback_ne name).symm _ _ _ _, fun h => ?_⟩
      rcases removeRestoreRollback_cases c.resolved c.clean path name folder with
        ⟨err, hr⟩ | ⟨left, err, hr⟩ | ⟨hr, ⟨entries, hentries⟩, -⟩
      · simp [hr, wrap] at h
      · simp [hr, wrap] at h
      · refine ⟨by simp [hr], fun node' hnode => ⟨entries, ?_⟩⟩
        rw [hold] at hentries
        exact (Option.some.inj hnode).symm.trans (Option.some.inj hentries)

/-- The live directory is put aside, or the call ends with it in its place. -/
theorem stageLive_cases (name : String) (hstat : c.statFails = false)
    (hold : look (name ++ rollbackSuffix) folder = none) :
    (∃ err, stageLive c name folder = (folder, .error err)) ∨
      ∃ staged, stageLive c name folder = (staged, .ok ()) ∧ look name staged = none ∧
        look (name ++ rollbackSuffix) staged = look name folder := by
  unfold stageLive
  by_cases hlive : (look name folder).isSome
  · simp only [hlive, hstat, and_self, if_true]
    rcases rename_cases c.stage (rollback_ne name).symm folder with
      ⟨err, h⟩ | ⟨staged, h, -, hdst, hsrc, -⟩
    · exact .inl ⟨_, by rw [h]; rfl⟩
    · exact .inr ⟨staged, by rw [h]; rfl, hsrc, hdst⟩
  · rw [if_neg fun h => hlive h.1]
    have hnone : look name folder = none := by simpa using hlive
    exact .inr ⟨folder, rfl, hnone, by rw [hold, hnone]⟩

theorem look_removeAll_of_ne (h : m ≠ name) (left : Option (Node C)) (folder : Folder C) :
    look m (removeAll left name folder) = look m folder := by
  unfold removeAll
  split <;> exact look_write_of_ne h _ _

/-- What was put aside is put back, or it stays where it is. -/
theorem undone_keeps (c : RestoreCall C) (name : String) (folder : Folder C) :
    look name (undone c name folder) = look (name ++ rollbackSuffix) folder ∨
      look (name ++ rollbackSuffix) (undone c name folder) =
        look (name ++ rollbackSuffix) folder := by
  have hframe := look_removeAll_of_ne (rollback_ne name) c.discarded folder
  unfold undone
  rcases rename_cases c.undo (rollback_ne name) (removeAll c.discarded name folder) with
    ⟨err, h⟩ | ⟨moved, h, -, hdst, -⟩
  · exact .inr (by rw [h, hframe])
  · exact .inl (by rw [h, hdst, hframe])

/-- It is put back when nothing hinders that. -/
theorem undone_restores (hdiscarded : c.discarded = none) (hundo : c.undo = .ok ())
    (folder : Folder C) :
    look name (undone c name folder) = look (name ++ rollbackSuffix) folder := by
  have hframe := look_removeAll_of_ne (rollback_ne name) c.discarded folder
  have hgone : look name (removeAll c.discarded name folder) = none := by
    rw [hdiscarded]
    unfold removeAll
    split
    · rename_i h
      exact absurd h (by simp)
    · exact look_write_self _ _ _
  cases hold : look (name ++ rollbackSuffix) folder with
  | some node =>
    rw [undone, hundo, rename_free (hframe.trans hold) hgone, look_write_self]
  | none =>
    unfold undone
    rcases rename_cases c.undo (rollback_ne name) (removeAll c.discarded name folder) with
      ⟨err, h⟩ | ⟨moved, h, hsome, -⟩
    · rw [h, hgone]
    · rw [hframe, hold] at hsome
      exact absurd hsome (by simp)

theorem names_hideMetadata (t : Entries C) : (hideMetadata t).names = t.names := by
  induction t with
  | nil => rfl
  | file name content rest ih =>
    rw [hideMetadata]
    split_ifs <;> rw [Entries.names, Entries.names, ih]
  | special name rest ih => rw [hideMetadata, Entries.names, Entries.names, ih]
  | dir name below rest _ ih => rw [hideMetadata, Entries.names, Entries.names, ih]

theorem distinct_copied {source : Entries C} (h : source.Distinct) (skipMetadata : Bool) :
    (copied skipMetadata source).Distinct := by
  unfold copied
  split_ifs
  · induction source with
    | nil => trivial
    | file name content rest ih =>
      rw [hideMetadata]
      split_ifs <;> exact ⟨(names_hideMetadata rest).symm ▸ h.1, ih h.2⟩
    | special name rest ih => exact ⟨(names_hideMetadata rest).symm ▸ h.1, ih h.2⟩
    | dir name below rest _ ih => exact ⟨(names_hideMetadata rest).symm ▸ h.1, h.2.1, ih h.2.2⟩
  · exact h

/-- Where the metadata are not a directory, their name is the only one that a copy of a full backup
lacks. -/
theorem regular_hideMetadata {t : Entries C} (hdistinct : t.Distinct)
    (hmetadata : ∀ below, t.lookup metadataName ≠ some (.dir below)) :
    (hideMetadata t).regular = (t.erase metadataName).regular := by
  induction t with
  | nil => rfl
  | file name content rest ih =>
    have hrest (hne : name ≠ metadataName) := ih hdistinct.2 fun below => by
      simpa [Entries.lookup, hne] using hmetadata below
    rw [hideMetadata, Entries.erase]
    split_ifs with hname
    · have hfree : rest.lookup metadataName = none :=
        Entries.lookup_eq_none.mpr (hname ▸ hdistinct.1)
      exact ih hdistinct.2 fun below => by simp [hfree]
    · exact congrArg (Entries.file name content) (hrest hname)
  | special name rest ih =>
    rw [hideMetadata, Entries.erase]
    split_ifs with hname
    · have hfree : rest.lookup metadataName = none :=
        Entries.lookup_eq_none.mpr (hname ▸ hdistinct.1)
      exact ih hdistinct.2 fun below => by simp [hfree]
    · exact ih hdistinct.2 fun below => by simpa [Entries.lookup, hname] using hmetadata below
  | dir name below rest _ ih =>
    have hname : name ≠ metadataName := fun hname => hmetadata below (by
      rw [Entries.lookup, if_pos hname])
    rw [hideMetadata, Entries.erase, if_neg hname]
    refine congrArg (Entries.dir name below.regular) (ih hdistinct.2.2 fun inner => ?_)
    simpa [Entries.lookup, hname] using hmetadata inner

/-- A whole copy of what a call restores. -/
def wholeCopy (fullWorld : Bool) (source : Entries C) : Node C :=
  .dir (copied fullWorld source).regular

theorem look_copySaveTree_of_ne (h : m ≠ name) (mishap : List String → Option (Mishap C))
    (skipMetadata : Bool) (source : Entries C) (folder : Folder C) :
    look m (copySaveTree mishap skipMetadata source name folder).1 = look m folder := by
  unfold copySaveTree
  split
  · rfl
  · rfl
  · simp only [look_write_of_ne h]
  · simp only [look_write_of_ne h]

theorem copySaveTree_ok {mishap : List String → Option (Mishap C)} {skipMetadata : Bool}
    {source : Entries C} {folder new : Folder C} (hsource : source.Distinct)
    (hlive : look name folder = none)
    (h : copySaveTree mishap skipMetadata source name folder = (new, .ok ())) :
    look name new = some (wholeCopy skipMetadata source) := by
  unfold copySaveTree at h
  rw [hlive] at h
  cases hroot : mishap [] with
  | some hindrance => cases hindrance <;> simp [hroot, Entries.entered] at h
  | none =>
    simp only [hroot, Entries.entered] at h
    cases hcopy : (copied skipMetadata source).copy mishap [] .nil with
    | mk entries r =>
      rw [hcopy] at h
      obtain ⟨hnew, rfl⟩ := Prod.mk.inj h
      have hentries := Entries.copy_ok (distinct_copied hsource _) (by simp [Entries.names]) hcopy
      rw [← hnew, look_write_self, hentries]
      rfl

/-- The backup has come in the place of the live directory, or the call is undone. -/
theorem replaceLive_cases (c : RestoreCall C) (fullWorld : Bool) {source : Entries C}
    (hsource : source.Distinct) (name : String) (folder : Folder C) :
    (∃ new, replaceLive c fullWorld source name folder = (new, .ok ()) ∧
      look (name ++ rollbackSuffix) new = look (name ++ rollbackSuffix) folder ∧
      (look name folder = none → look name new = some (wholeCopy fullWorld source))) ∨
    ∃ tried err, replaceLive c fullWorld source name folder = (undone c name tried, .error err) ∧
      look (name ++ rollbackSuffix) tried = look (name ++ rollbackSuffix) folder := by
  have hframe := look_copySaveTree_of_ne (rollback_ne name) c.mishap fullWorld source folder
  unfold replaceLive
  cases hcopy : copySaveTree c.mishap fullWorld source name folder with
  | mk new r =>
    rw [hcopy] at hframe
    cases r with
    | error err => exact .inr ⟨new, _, rfl, hframe⟩
    | ok _ =>
      have hwhole := fun hlive => copySaveTree_ok hsource hlive hcopy
      cases hchmod : c.chmod with
      | error err => exact .inr ⟨new, _, rfl, hframe⟩
      | ok _ =>
        cases fullWorld with
        | false => exact .inl ⟨new, rfl, hframe, hwhole⟩
        | true =>
          cases hassign : c.assign with
          | error err => exact .inr ⟨new, "assign restored save to game account: " ++ err,
              by simp [orUndo, andThen], hframe⟩
          | ok _ => exact .inl ⟨new, by simp [orUndo, andThen], hframe, hwhole⟩

end Steps

/-! ## What a call leaves -/

section Call

variable {c : RestoreCall C} {fullWorld : Bool} {source : Entries C} {path name : String}
  {folder : Folder C}

/-- A call that sees the live directory, where there is one, leaves it as it was, or undoes what it
did, or leaves a whole copy of the backup. -/
theorem restoreInto_cases (fullWorld : Bool) (path name : String) (folder : Folder C)
    (hstat : c.statFails = false) (hsource : source.Distinct) :
    (∃ left err, restoreInto c fullWorld source path name folder = (left, .error err) ∧
      look name left = look name folder) ∨
    (∃ tried err, restoreInto c fullWorld source path name folder =
        (undone c name tried, .error err) ∧
      look (name ++ rollbackSuffix) tried = look name folder) ∨
    look name (restoreInto c fullWorld source path name folder).1 =
      some (wholeCopy fullWorld source) := by
  obtain ⟨hlive, hold⟩ := cleanStale_spec c path name folder
  unfold restoreInto
  cases hclean : cleanStale c path name folder with
  | mk cleaned r =>
    rw [hclean] at hlive hold
    cases r with
    | error err => exact .inl ⟨cleaned, err, rfl, hlive⟩
    | ok _ =>
      have hnone := (hold rfl).1
      simp only [andThen]
      rcases stageLive_cases name hstat hnone with ⟨err, h⟩ | ⟨staged, h, hgone, haside⟩
      · rw [h]
        exact .inl ⟨cleaned, err, rfl, hlive⟩
      · rw [h]
        rcases replaceLive_cases c fullWorld hsource name staged with
          ⟨new, hr, -, hwhole⟩ | ⟨tried, err, hr, hkept⟩
        · refine .inr (.inr ?_)
          simp only [hr]
          rw [look_removeRestoreRollback (rollback_ne name).symm, hwhole hgone]
        · simp only [hr]
          exact .inr (.inl ⟨tried, err, rfl, hkept.trans (haside.trans hlive)⟩)

/-- What was live is live, or put aside, or replaced by a whole copy. -/
theorem restoreInto_keeps (fullWorld : Bool) (path name : String) (folder : Folder C)
    (hstat : c.statFails = false) (hsource : source.Distinct) :
    look name (restoreInto c fullWorld source path name folder).1 = look name folder ∨
      look (name ++ rollbackSuffix) (restoreInto c fullWorld source path name folder).1 =
        look name folder ∨
      look name (restoreInto c fullWorld source path name folder).1 =
        some (wholeCopy fullWorld source) := by
  rcases restoreInto_cases fullWorld path name folder hstat hsource with
    ⟨left, err, h, hlive⟩ | ⟨tried, err, h, haside⟩ | hwhole
  · exact .inl (by rw [h, hlive])
  · rw [h, ← haside]
    rcases undone_keeps c name tried with hback | hkept
    · exact .inl hback
    · exact .inr (.inl hkept)
  · exact .inr (.inr hwhole)

/-- If moreover nothing hinders the call in undoing what it did, then what is live is what was live,
or a whole copy. -/
theorem restoreInto_whole (fullWorld : Bool) (path name : String) (folder : Folder C)
    (hstat : c.statFails = false) (hdiscarded : c.discarded = none) (hundo : c.undo = .ok ())
    (hsource : source.Distinct) :
    look name (restoreInto c fullWorld source path name folder).1 = look name folder ∨
      look name (restoreInto c fullWorld source path name folder).1 =
        some (wholeCopy fullWorld source) := by
  rcases restoreInto_cases fullWorld path name folder hstat hsource with
    ⟨left, err, h, hlive⟩ | ⟨tried, err, h, haside⟩ | hwhole
  · exact .inl (by rw [h, hlive])
  · exact .inl (by rw [h, undone_restores hdiscarded hundo, haside])
  · exact .inr hwhole

/-- A call that succeeds has put a directory aside, and the helper has deleted it. -/
theorem restoreInto_ok (hsource : source.Distinct)
    (h : (restoreInto c fullWorld source path name folder).2 = .ok ()) :
    look name (restoreInto c fullWorld source path name folder).1 =
        some (wholeCopy fullWorld source) ∧
      look (name ++ rollbackSuffix) (restoreInto c fullWorld source path name folder).1 = none ∧
      (∃ entries, look name folder = some (.dir entries)) ∧
      (∀ node, look (name ++ rollbackSuffix) folder = some node → ∃ entries, node = .dir entries) ∧
      ∃ save, c.resolved = .ok save ∧ (path = save ∨ path = save ++ rollbackSuffix) := by
  obtain ⟨hlive, hold⟩ := cleanStale_spec c path name folder
  unfold restoreInto at h ⊢
  cases hclean : cleanStale c path name folder with
  | mk cleaned r =>
    rw [hclean] at hlive hold h
    cases r with
    | error err => exact absurd h (by simp [andThen])
    | ok _ =>
      obtain ⟨hnone, hstale⟩ := hold rfl
      -- what is put aside is the live directory, if it is seen, and otherwise nothing
      have hstaged : (∃ err, stageLive c name cleaned = (cleaned, .error err)) ∨
          ∃ staged, stageLive c name cleaned = (staged, .ok ()) ∧
            ((look name staged = none ∧ look (name ++ rollbackSuffix) staged = look name folder) ∨
              look (name ++ rollbackSuffix) staged = none) := by
        by_cases hstat : c.statFails = false
        · rcases stageLive_cases name hstat hnone with
            herr | ⟨staged, hstage, hgone, haside⟩
          · exact .inl herr
          · exact .inr ⟨staged, hstage, .inl ⟨hgone, haside.trans hlive⟩⟩
        · exact .inr ⟨cleaned, by simp [stageLive, hstat], .inr hnone⟩
      simp only [andThen] at h ⊢
      rcases hstaged with ⟨err, hstage⟩ | ⟨staged, hstage, haside⟩
      · rw [hstage] at h
        exact absurd h (by simp)
      · rw [hstage] at h ⊢
        rcases replaceLive_cases c fullWorld hsource name staged with
          ⟨new, hr, hkept, hwhole⟩ | ⟨tried, err, hr, -⟩
        · simp only [hr] at h ⊢
          rcases removeRestoreRollback_cases c.resolved c.drop path name new with
            ⟨err, hdrop⟩ | ⟨left, err, hdrop⟩ | ⟨hdrop, ⟨entries, hentries⟩, haccepted⟩
          · simp [hdrop, wrap] at h
          · simp [hdrop, wrap] at h
          · rw [hkept] at hentries
            rcases haside with ⟨hgone, haside⟩ | hnothing
            · refine ⟨?_, by rw [hdrop, look_write_self], ⟨entries, haside ▸ hentries⟩, hstale,
                haccepted⟩
              rw [hdrop, look_write_of_ne (rollback_ne name).symm, hwhole hgone]
            · rw [hnothing] at hentries
              exact absurd hentries (by simp)
        · simp only [hr] at h
          exact absurd h (by simp)

/-- A step touches only what is restored, and its rollback. -/
structure Touches (name : String) (folder left : Folder C) : Prop where
  isSome : folder.isSome → left.isSome
  frame : ∀ m, m ≠ name → m ≠ name ++ rollbackSuffix → look m left = look m folder

theorem Touches.refl (name : String) (folder : Folder C) : Touches name folder folder :=
  ⟨id, fun _ _ _ => rfl⟩

theorem Touches.trans {middle left : Folder C} (h₁ : Touches name folder middle)
    (h₂ : Touches name middle left) : Touches name folder left where
  isSome h := h₂.isSome (h₁.isSome h)
  frame m hm hold := (h₂.frame m hm hold).trans (h₁.frame m hm hold)

theorem touches_write {m : String} (h : m = name ∨ m = name ++ rollbackSuffix)
    (node : Option (Node C)) (folder : Folder C) : Touches name folder (write m node folder) where
  isSome hsome := by
    cases node with
    | some node => rfl
    | none => simpa [write] using hsome
  frame k hk hold := look_write_of_ne (by rcases h with rfl | rfl <;> assumption) _ _

theorem touches_rename (hazard : Fallible Unit) {src dst : String}
    (hsrc : src = name ∨ src = name ++ rollbackSuffix)
    (hdst : dst = name ∨ dst = name ++ rollbackSuffix) (folder : Folder C) :
    Touches name folder (rename hazard src dst folder).1 := by
  unfold rename
  split
  · exact .refl _ _
  · split
    · exact .refl _ _
    · exact .refl _ _
    · exact .refl _ _
    · dsimp only
      exact (touches_write hsrc _ _).trans (touches_write hdst _ _)

theorem touches_undone (c : RestoreCall C) (name : String) (folder : Folder C) :
    Touches name folder (undone c name folder) := by
  have hremove : Touches name folder (removeAll c.discarded name folder) := by
    unfold removeAll
    split <;> exact touches_write (.inl rfl) _ _
  exact hremove.trans (touches_rename _ (.inr rfl) (.inl rfl) _)

theorem touches_removeRestoreRollback (resolved : Fallible String) (deletion : Deletion C)
    (path name : String) (folder : Folder C) :
    Touches name folder (removeRestoreRollback resolved deletion path name folder).1 := by
  rcases removeRestoreRollback_cases resolved deletion path name folder with
    ⟨err, hr⟩ | ⟨left, err, hr⟩ | ⟨hr, -⟩
  · rw [hr]
    exact .refl _ _
  · rw [hr]
    dsimp only
    exact touches_write (.inr rfl) _ _
  · rw [hr]
    dsimp only
    exact touches_write (.inr rfl) _ _

theorem touches_cleanStale (c : RestoreCall C) (path name : String) (folder : Folder C) :
    Touches name folder (cleanStale c path name folder).1 := by
  unfold cleanStale
  split
  · exact .refl _ _
  · split
    · exact touches_removeRestoreRollback _ _ _ _ _
    · exact .refl _ _

theorem touches_stageLive (c : RestoreCall C) (name : String) (folder : Folder C) :
    Touches name folder (stageLive c name folder).1 := by
  unfold stageLive
  split_ifs
  · exact touches_rename _ (.inl rfl) (.inr rfl) _
  · exact .refl _ _

theorem touches_orUndo {step : Folder C × Fallible Unit} (words : String)
    (h : Touches name folder step.1) : Touches name folder (orUndo c name words step).1 := by
  unfold orUndo
  split
  · exact h.trans (touches_undone _ _ _)
  · exact h

theorem touches_andThen {step : Folder C × Fallible Unit}
    {next : Folder C → Folder C × Fallible Unit} (h : Touches name folder step.1)
    (hnext : ∀ middle, Touches name middle (next middle).1) :
    Touches name folder (andThen step next).1 := by
  unfold andThen
  split
  · exact h
  · exact h.trans (hnext _)

theorem touches_copySaveTree (mishap : List String → Option (Mishap C)) (skipMetadata : Bool)
    (source : Entries C) (name : String) (folder : Folder C) :
    Touches name folder (copySaveTree mishap skipMetadata source name folder).1 := by
  unfold copySaveTree
  split
  · exact .refl _ _
  · exact .refl _ _
  · dsimp only
    exact touches_write (.inl rfl) _ _
  · dsimp only
    exact touches_write (.inl rfl) _ _

/-- A call touches only what is restored, and its rollback. -/
theorem touches_restoreInto (c : RestoreCall C) (fullWorld : Bool) (source : Entries C)
    (path name : String) (folder : Folder C) :
    Touches name folder (restoreInto c fullWorld source path name folder).1 := by
  refine touches_andThen (touches_cleanStale _ _ _ _) fun folder =>
    touches_andThen (touches_stageLive _ _ _) fun folder =>
    touches_andThen ?_ fun folder => touches_removeRestoreRollback _ _ _ _ _
  refine touches_andThen (touches_orUndo _ (touches_copySaveTree _ _ _ _ _)) fun folder =>
    touches_andThen (touches_orUndo _ (.refl _ _)) fun folder => ?_
  split_ifs
  · exact touches_orUndo _ (.refl _ _)
  · exact .refl _ _

end Call

end Mastermind.Agent.Restoring
