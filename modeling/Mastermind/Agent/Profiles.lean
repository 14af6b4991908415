import Mastermind.Agent.Access

/-!
# Staged profiles

`internal/games/7dtd/adapter.go`: a player profile is staged as a pair of files with one key, the data
and its metadata, and before the server starts every staged profile is applied and its pair removed.
Any step that asks the file system for something may fail. Writing a file that is then renamed leaves
the old one or the new one; the metadata are written in place.

`consistent_run_iff` says which failures leave metadata without their data, or metadata that cannot be
read, and that these are what blocks the staged profiles: a request without failures applies them all
if there are none of these, and every request fails if there are.
-/

namespace Mastermind.Agent.Profiles

open Mastermind.Path Mastermind.Links ModArchive
open Access (maxProfileEditorBytes)

/-! ## The staging directory -/

/-- `stagedProfileMetadata`. Times are in milliseconds. -/
structure StagedProfileMetadata where
  target : String
  relative : String
  stagedAt : ℤ
deriving DecidableEq

/-- What a file of metadata holds: a document, or the beginning of one, which is no JSON. -/
inductive MetadataFile where
  | document (metadata : StagedProfileMetadata)
  | cut
deriving DecidableEq

/-- The files of a key: `<key>.ttp` and `<key>.json`. -/
structure Slot where
  data : Option (List UInt8)
  metadata : Option MetadataFile
deriving DecidableEq

/-- The staging directory of a server. -/
abbrev Staging := String → Slot

/-- The directory without files. -/
def Staging.empty : Staging := fun _ => ⟨none, none⟩

/-- The directory with other data for a key. -/
def Staging.setData (s : Staging) (k : String) (data : Option (List UInt8)) : Staging :=
  Function.update s k { s k with data := data }

/-- The directory with other metadata for a key. -/
def Staging.setMetadata (s : Staging) (k : String) (metadata : Option MetadataFile) : Staging :=
  Function.update s k { s k with metadata := metadata }

/-- `len(content) >= 4 && string(content[:4]) == "ttp\x00"`. -/
def validHeader (content : List UInt8) : Bool :=
  4 ≤ content.length && content.take 4 = [116, 116, 112, 0]

/-- A step that the file system may refuse: then it ends the operation. -/
def orFail (fault : Option String) (describe : String → String) (s : Staging)
    (next : Staging × Fallible Unit) : Staging × Fallible Unit :=
  match fault with
  | some err => (s, .error (describe err))
  | none => next

/-! ## Staging -/

/-- What a failed `os.WriteFile` leaves of the file: what there was before, a part of what was to be
written, or all of it. -/
inductive Leftover where
  | unopened | partly | complete
deriving DecidableEq

/-- The failures of the steps of `stagePlayerProfile`. -/
structure StageFaults where
  mkdirAll : Option String
  writeTemporary : Option String
  rename : Option String
  writeMetadata : Option (String × Leftover)
  removeData : Option String

/-- What `stagePlayerProfile` is asked for and what it finds: the files when the profile is read, with a
failure of that, the files when `configuredSavesPath` is called again, and what `DecodeString` makes of
the data. -/
structure StageRequest where
  serverID : String
  savesPath : String
  relative : String
  files : System
  readFault : Option String
  filesThen : System
  content : Option (List UInt8)
  stagedAt : ℤ

/-- The path of the profile that is read. -/
def StageRequest.profile (r : StageRequest) : Fallible String :=
  (Access.readPlayerProfile r.files r.savesPath r.relative r.readFault).map fun read => read.1.path

/-- The directory of the saves, found again. -/
def StageRequest.root (r : StageRequest) : Fallible String :=
  Access.configuredSavesPath r.filesThen r.savesPath

/-- The metadata after a failed write. -/
def Leftover.file (metadata : StagedProfileMetadata) (old : Option MetadataFile) :
    Leftover → Option MetadataFile
  | unopened => old
  | partly => some .cut
  | complete => some (.document metadata)

/-- The part of `stagePlayerProfile` that writes. -/
def commitStaged (k : String) (content : List UInt8) (metadata : StagedProfileMetadata)
    (f : StageFaults) (s : Staging) : Staging × Fallible Unit :=
  orFail f.mkdirAll ("create profile staging directory: " ++ ·) s <|
  orFail f.writeTemporary ("write staged profile: " ++ ·) s <|
  orFail f.rename ("commit staged profile: " ++ ·) s <|
    let s := s.setData k (some content)
    match f.writeMetadata with
    | none => (s.setMetadata k (some (.document metadata)), .ok ())
    | some (err, leftover) =>
      let s := s.setMetadata k (leftover.file metadata (s k).metadata)
      -- the failure of this removal is ignored
      let s := if f.removeData.isNone then s.setData k none else s
      (s, .error ("write staged profile metadata: " ++ err))

/-- `stagePlayerProfile`. `key` is the hash of a path in hexadecimal digits. -/
def stagePlayerProfile (key : String → String) (r : StageRequest) (f : StageFaults) (s : Staging) :
    Staging × Fallible Unit :=
  match r.profile with
  | .error err => (s, .error err)
  | .ok relative =>
    match r.content with
    | none => (s, .error "invalid staged profile data")
    | some content =>
      if content.length = 0 ∨ content.length > maxProfileEditorBytes then
        (s, .error "invalid staged profile data")
      else if !validHeader content then
        (s, .error "staged data does not have a valid TTP header")
      else
        match r.root with
        | .error err => (s, .error err)
        | .ok root =>
          if r.serverID = "" then (s, .error "server instance ID required")
          else commitStaged (key relative) content ⟨join [root, relative], relative, r.stagedAt⟩ f s

/-! ## Applying -/

/-- The failures of the steps of `applyStagedPlayerProfiles` about one pair of files. -/
structure ApplyFaults where
  readMetadata : Option String
  readData : Option String
  mkdirAll : Option String
  copyLive : Option String
  copyCompanion : Option String
  writeBackupMetadata : Option String
  createTemp : Option String
  chmod : Option String
  write : Option String
  sync : Option String
  close : Option String
  rename : Option String
  removeData : Option String
  removeMetadata : Option String

/-- No step fails. -/
def ApplyFaults.none : ApplyFaults :=
  ⟨.none, .none, .none, .none, .none, .none, .none, .none, .none, .none, .none, .none, .none, .none⟩

/-- The live profiles: which paths are regular files, and which have a regular companion. -/
structure Live where
  regular : String → Bool
  companion : String → Bool

/-- The check of the target of the metadata. -/
def acceptedTarget (target : String) : Bool :=
  isAbs target && equalFold (base (dir target)) "player" && equalFold (ext target) ".ttp"

/-- The part of the loop that replaces the live profile and removes the pair. -/
def replaceLive (companion : Bool) (f : ApplyFaults) (k : String) (s : Staging) :
    Staging × Fallible Unit :=
  orFail f.mkdirAll id s <|
  orFail f.copyLive ("back up live profile: " ++ ·) s <|
  orFail (if companion then f.copyCompanion else none) ("back up live profile companion: " ++ ·) s <|
  orFail f.writeBackupMetadata ("write profile backup metadata: " ++ ·) s <|
  orFail f.createTemp ("create replacement profile: " ++ ·) s <|
  orFail f.chmod id s <|
  orFail f.write ("write replacement profile: " ++ ·) s <|
  orFail f.sync id s <|
  orFail f.close id s <|
  orFail f.rename ("install replacement profile: " ++ ·) s <|
  -- the data go first, so that the metadata can be left alone
  orFail f.removeData id s <|
  orFail f.removeMetadata id (s.setData k none) <|
    ((s.setData k none).setMetadata k none, .ok ())

/-- The body of the loop of `applyStagedPlayerProfiles`. -/
def applyEntry (live : Live) (f : ApplyFaults) (k : String) (s : Staging) : Staging × Fallible Unit :=
  match (s k).metadata with
  | none => (s, .error "no such file or directory")
  | some file =>
    orFail f.readMetadata id s <|
    match file with
    | .cut => (s, .error "invalid staged profile metadata")
    | .document metadata =>
      if !acceptedTarget metadata.target then (s, .error "invalid staged profile metadata")
      else if !live.regular metadata.target then
        (s, .error ("live profile is no longer a regular file: " ++ metadata.relative))
      else
        match (s k).data with
        | none => (s, .error ("invalid queued profile: " ++ metadata.relative))
        | some content =>
          if f.readData.isSome || !validHeader content then
            (s, .error ("invalid queued profile: " ++ metadata.relative))
          else replaceLive (live.companion metadata.target) f k s

/-- The loop. -/
def applyEach (live : Live) (f : String → ApplyFaults) :
    List String → Staging → Staging × Fallible Unit
  | [], s => (s, .ok ())
  | k :: ks, s =>
    match applyEntry live (f k) k s with
    | (s, .error err) => (s, .error err)
    | (s, .ok ()) => applyEach live f ks s

/-- What `os.ReadDir` finds: the keys of the files of metadata, when it finds a directory. -/
inductive Listing where
  | missing
  | failed (err : String)
  | entries (keys : List String)

/-- The surroundings of `applyStagedPlayerProfiles`. -/
structure ApplyRequest where
  serverID : String
  listing : Listing
  active : Bool
  live : Live
  faults : String → ApplyFaults

/-- `applyStagedPlayerProfiles`. -/
def applyStagedPlayerProfiles (r : ApplyRequest) (s : Staging) : Staging × Fallible Unit :=
  if r.serverID = "" then (s, .ok ())
  else
    match r.listing with
    | .missing => (s, .ok ())
    | .failed err => (s, .error ("read staged profiles: " ++ err))
    | .entries keys =>
      if keys ≠ [] ∧ r.active then
        (s, .error "7DTD must be fully stopped before applying staged profiles")
      else applyEach r.live r.faults keys s

/-! ## Runs -/

/-- An operation on the staging directory. -/
inductive Op where
  | stage (r : StageRequest) (f : StageFaults)
  | apply (r : ApplyRequest)

/-- The directory after an operation. -/
def Op.after (key : String → String) (s : Staging) : Op → Staging
  | stage r f => (stagePlayerProfile key r f s).1
  | apply r => (applyStagedPlayerProfiles r s).1

/-- The directories that a run goes through. -/
def states (key : String → String) : List Op → Staging → List Staging
  | [], s => [s]
  | op :: ops, s => s :: states key ops (op.after key s)

/-- Every file of metadata can be read and has its data, with a valid header. -/
def Consistent (s : Staging) : Prop :=
  ∀ k file, (s k).metadata = some file →
    (∃ metadata, file = .document metadata) ∧ ∃ content, (s k).data = some content ∧
      validHeader content

/-- The request names the server, and lists all the metadata. -/
def ApplyRequest.Lists (r : ApplyRequest) (s : Staging) : Prop :=
  r.serverID ≠ "" ∧ ∃ keys, r.listing = .entries keys ∧ keys.Nodup ∧
    ∀ k, k ∈ keys ↔ (s k).metadata.isSome = true

/-- Besides, the game server is stopped, no step fails, and every profile is still there. -/
structure ApplyRequest.Smooth (r : ApplyRequest) (s : Staging) : Prop where
  lists : r.Lists s
  stopped : r.active = false
  sound : ∀ k, r.faults k = .none
  live : ∀ k metadata, (s k).metadata = some (.document metadata) →
    r.live.regular metadata.target = true

/-- A request without failures applies all the staged profiles. -/
def Unblocked (s : Staging) : Prop :=
  ∀ r : ApplyRequest, r.Smooth s → (applyStagedPlayerProfiles r s).2 = .ok () ∧
    ∀ k, ((applyStagedPlayerProfiles r s).1 k).metadata = none

/-- Every request fails, and some metadata stay as they are. -/
def Blocked (s : Staging) : Prop :=
  ∃ k, (s k).metadata.isSome = true ∧ ∀ r : ApplyRequest, r.Lists s →
    (applyStagedPlayerProfiles r s).1 k = s k ∧ ∃ err, (applyStagedPlayerProfiles r s).2 = .error err

/-! ## The failures that matter -/

/-- The write of the metadata fails, and leaves a part of them, or leaves them while the data are
removed: those that were written, or those that there were before. -/
def badWrite (f : StageFaults) (old : Option MetadataFile) : Bool :=
  match f.writeMetadata with
  | some (_, .unopened) => old.isSome && f.removeData.isNone
  | some (_, .partly) => true
  | some (_, .complete) => f.removeData.isNone
  | none => false

/-- A profile is staged up to such a write. -/
def badStage (key : String → String) (r : StageRequest) (f : StageFaults) (s : Staging) : Bool :=
  match r.profile, r.content, r.root with
  | .ok relative, some content, .ok _ =>
    content.length ≠ 0 && content.length ≤ maxProfileEditorBytes && validHeader content &&
      r.serverID ≠ "" && (f.mkdirAll.isNone && f.writeTemporary.isNone && f.rename.isNone &&
        badWrite f (s (key relative)).metadata)
  | _, _, _ => false

/-- An entry is installed: every step before the removal of its pair succeeds. -/
def installs (live : Live) (f : ApplyFaults) (k : String) (s : Staging) : Bool :=
  match (s k).metadata, (s k).data with
  | some (.document metadata), some content =>
    f.readMetadata.isNone && acceptedTarget metadata.target && live.regular metadata.target &&
      f.readData.isNone && validHeader content && f.mkdirAll.isNone && f.copyLive.isNone &&
      (!live.companion metadata.target || f.copyCompanion.isNone) && f.writeBackupMetadata.isNone &&
      f.createTemp.isNone && f.chmod.isNone && f.write.isNone && f.sync.isNone && f.close.isNone &&
      f.rename.isNone && f.removeData.isNone
  | _, _ => false

/-- The metadata of an entry are not removed after its data were. -/
def badEach (live : Live) (f : String → ApplyFaults) : List String → Staging → Bool
  | [], _ => false
  | k :: ks, s =>
    installs live (f k) k s && ((f k).removeMetadata.isSome ||
      badEach live f ks ((s.setData k none).setMetadata k none))

/-- An operation in which such a step fails. -/
def Op.bad (key : String → String) (s : Staging) : Op → Bool
  | stage r f => badStage key r f s
  | apply r =>
    match r.listing with
    | .entries keys => r.serverID ≠ "" && !(keys ≠ [] && r.active) && badEach r.live r.faults keys s
    | _ => false

/-- An operation of a run is bad in the directory that it finds. -/
def noneBad (key : String → String) : List Op → Staging → Prop
  | [], _ => True
  | op :: ops, s => op.bad key s = false ∧ noneBad key ops (op.after key s)

/-! ## What an operation leaves -/

/-- The pair of one key is consistent. -/
def Slot.Consistent (slot : Slot) : Prop :=
  ∀ file, slot.metadata = some file →
    (∃ metadata, file = .document metadata) ∧ ∃ content, slot.data = some content ∧
      validHeader content

theorem consistent_iff_slots {s : Staging} : Consistent s ↔ ∀ k, (s k).Consistent := Iff.rfl

/-- After a change of one pair, the directory is consistent if that pair is. -/
theorem consistent_update {s : Staging} (hs : Consistent s) (k : String) (slot : Slot) :
    Consistent (Function.update s k slot) ↔ slot.Consistent := by
  rw [consistent_iff_slots]
  constructor
  · intro h
    have hk := h k
    rwa [Function.update_self] at hk
  · intro h k'
    by_cases hk : k' = k
    · subst hk
      rwa [Function.update_self]
    · rw [Function.update_of_ne hk]
      exact hs k'

theorem setMetadata_setData (s : Staging) (k : String) (data : Option (List UInt8))
    (metadata : Option MetadataFile) :
    (s.setData k data).setMetadata k metadata = Function.update s k ⟨data, metadata⟩ := by
  unfold Staging.setMetadata Staging.setData
  rw [Function.update_self, Function.update_idem]

theorem setData_update (s : Staging) (k : String) (slot : Slot) (data : Option (List UInt8)) :
    Staging.setData (Function.update s k slot) k data =
      Function.update s k { slot with data := data } := by
  unfold Staging.setData
  rw [Function.update_self, Function.update_idem]

@[simp] theorem orFail_none (describe : String → String) (s : Staging)
    (next : Staging × Fallible Unit) : orFail none describe s next = next := rfl

@[simp] theorem orFail_some (err : String) (describe : String → String) (s : Staging)
    (next : Staging × Fallible Unit) :
    orFail (some err) describe s next = (s, .error (describe err)) := rfl

theorem slot_without_metadata (data : Option (List UInt8)) : (Slot.mk data none).Consistent :=
  fun _ h => nomatch h

theorem slot_of_pair {content : List UInt8} (hvalid : validHeader content)
    (metadata : StagedProfileMetadata) :
    (Slot.mk (some content) (some (.document metadata))).Consistent := by
  rintro file ⟨⟩
  exact ⟨⟨metadata, rfl⟩, content, rfl, hvalid⟩

theorem slot_without_data (file : MetadataFile) : ¬ (Slot.mk none (some file)).Consistent := by
  intro h
  obtain ⟨-, content, hdata, -⟩ := h file rfl
  cases hdata

theorem slot_cut (data : Option (List UInt8)) : ¬ (Slot.mk data (some .cut)).Consistent := by
  intro h
  obtain ⟨⟨metadata, hfile⟩, -⟩ := h .cut rfl
  cases hfile

/-- New data are as good as the old ones. -/
theorem slot_new_data {slot : Slot} (hslot : slot.Consistent) {content : List UInt8}
    (hvalid : validHeader content) : (Slot.mk (some content) slot.metadata).Consistent := by
  intro file hfile
  exact ⟨(hslot file hfile).1, content, rfl, hvalid⟩

/-- What the write of the metadata leaves. -/
theorem commitStaged_consistent_iff {s : Staging} (hs : Consistent s) (k : String)
    {content : List UInt8} (hvalid : validHeader content) (metadata : StagedProfileMetadata)
    (f : StageFaults) :
    Consistent (commitStaged k content metadata f s).1 ↔
      (f.mkdirAll.isNone && f.writeTemporary.isNone && f.rename.isNone &&
        badWrite f (s k).metadata) = false := by
  unfold commitStaged
  cases f.mkdirAll with
  | some err => simpa using hs
  | none =>
  cases f.writeTemporary with
  | some err => simpa using hs
  | none =>
  cases f.rename with
  | some err => simpa using hs
  | none =>
  have hold : ((s.setData k (some content)) k).metadata = (s k).metadata := by
    unfold Staging.setData
    rw [Function.update_self]
  simp only [orFail_none, Option.isNone_none, Bool.true_and, badWrite, hold]
  cases hwrite : f.writeMetadata with
  | none =>
    dsimp only
    rw [setMetadata_setData, consistent_update hs]
    exact iff_of_true (slot_of_pair hvalid metadata) rfl
  | some result =>
    obtain ⟨err, leftover⟩ := result
    dsimp only
    rw [setMetadata_setData]
    cases f.removeData with
    | some err' =>
      -- the data stay
      simp only [Option.isNone_some, Bool.false_eq_true, if_false, Bool.and_false]
      rw [consistent_update hs]
      cases leftover with
      | unopened => exact iff_of_true (slot_new_data (hs k) hvalid) rfl
      | partly => exact iff_of_false (slot_cut _) (by simp)
      | complete => exact iff_of_true (slot_of_pair hvalid metadata) rfl
    | none =>
      simp only [Option.isNone_none, if_true, Bool.and_true, setData_update]
      rw [consistent_update hs]
      cases leftover with
      | unopened =>
        unfold Leftover.file
        cases (s k).metadata with
        | none => exact iff_of_true (slot_without_metadata none) rfl
        | some file => exact iff_of_false (slot_without_data file) (by simp)
      | partly => exact iff_of_false (slot_cut none) (by simp)
      | complete => exact iff_of_false (slot_without_data _) (by simp)

/-- What staging leaves. -/
theorem stage_consistent_iff {s : Staging} (hs : Consistent s) (key : String → String)
    (r : StageRequest) (f : StageFaults) :
    Consistent (stagePlayerProfile key r f s).1 ↔ badStage key r f s = false := by
  unfold stagePlayerProfile badStage
  cases r.profile with
  | error err => exact iff_of_true hs rfl
  | ok relative =>
  cases r.content with
  | none => exact iff_of_true hs rfl
  | some content =>
  cases r.root with
  | error err =>
    dsimp only
    split_ifs <;> exact iff_of_true hs rfl
  | ok root =>
  dsimp only
  split_ifs with hsize hheader hserver
  · refine iff_of_true hs ?_
    rcases hsize with hsize | hsize
    · simp [hsize]
    · simp [hsize]
  · refine iff_of_true hs ?_
    simp only [Bool.not_eq_true'] at hheader
    simp [hheader]
  · exact iff_of_true hs (by simp [hserver])
  · obtain ⟨hne, hle⟩ := not_or.mp hsize
    have hvalid : validHeader content := by simpa using hheader
    rw [commitStaged_consistent_iff hs _ hvalid]
    simp [hne, not_lt.mp hle, hvalid, hserver]

/-- What replacing the live profile does to the pair: nothing, when a step before the removal fails. -/
theorem replaceLive_spec (companion : Bool) (f : ApplyFaults) (k : String) (s : Staging) :
    let reaches := f.mkdirAll.isNone && f.copyLive.isNone &&
      (!companion || f.copyCompanion.isNone) && f.writeBackupMetadata.isNone &&
      f.createTemp.isNone && f.chmod.isNone && f.write.isNone && f.sync.isNone && f.close.isNone &&
      f.rename.isNone && f.removeData.isNone
    (reaches = false → ∃ err, replaceLive companion f k s = (s, .error err)) ∧
      (reaches = true → replaceLive companion f k s =
        orFail f.removeMetadata id (s.setData k none)
          ((s.setData k none).setMetadata k none, .ok ())) := by
  unfold replaceLive
  cases f.mkdirAll with
  | some err => simp
  | none =>
  cases f.copyLive with
  | some err => simp
  | none =>
  cases hcompanion : (if companion then f.copyCompanion else none) with
  | some err =>
    cases companion with
    | false => cases hcompanion
    | true =>
      rw [if_pos rfl] at hcompanion
      simp [hcompanion]
  | none =>
  have hcopied : (!companion || f.copyCompanion.isNone) = true := by
    cases companion with
    | false => rfl
    | true =>
      rw [if_pos rfl] at hcompanion
      simp [hcompanion]
  cases f.writeBackupMetadata with
  | some err => simp
  | none =>
  cases f.createTemp with
  | some err => simp
  | none =>
  cases f.chmod with
  | some err => simp
  | none =>
  cases f.write with
  | some err => simp
  | none =>
  cases f.sync with
  | some err => simp
  | none =>
  cases f.close with
  | some err => simp
  | none =>
  cases f.rename with
  | some err => simp
  | none =>
  cases f.removeData with
  | some err => simp
  | none => simp [hcopied]

/-- An entry that is not installed changes nothing, and ends the loop. One that is has its data removed,
and then its metadata unless that fails. -/
theorem applyEntry_spec (live : Live) (f : ApplyFaults) (k : String) (s : Staging) :
    (installs live f k s = false → ∃ err, applyEntry live f k s = (s, .error err)) ∧
      (installs live f k s = true → (s k).metadata.isSome ∧ applyEntry live f k s =
        orFail f.removeMetadata id (s.setData k none)
          ((s.setData k none).setMetadata k none, .ok ())) := by
  unfold applyEntry installs
  cases (s k).metadata with
  | none => simp
  | some file =>
  cases f.readMetadata with
  | some err => cases file <;> cases (s k).data <;> simp
  | none =>
  cases file with
  | cut => cases (s k).data <;> simp
  | document metadata =>
  cases haccepted : acceptedTarget metadata.target with
  | false => cases (s k).data <;> simp [haccepted]
  | true =>
  cases hregular : live.regular metadata.target with
  | false => cases (s k).data <;> simp [haccepted, hregular]
  | true =>
  cases (s k).data with
  | none => simp [haccepted, hregular]
  | some content =>
  cases f.readData with
  | some err => simp [haccepted, hregular]
  | none =>
  cases hvalid : validHeader content with
  | false => simp [haccepted, hregular, hvalid]
  | true =>
  obtain ⟨hstop, hinstall⟩ := replaceLive_spec (live.companion metadata.target) f k s
  simp only [orFail_none, haccepted, hregular, hvalid, Option.isNone_none, Option.isSome_none,
    Bool.not_true, Bool.false_eq_true, if_false, Bool.true_and, Bool.or_false, Option.isSome_some,
    true_and]
  exact ⟨hstop, hinstall⟩

/-- What the loop leaves. -/
theorem applyEach_consistent_iff {s : Staging} (hs : Consistent s) (live : Live)
    (f : String → ApplyFaults) (keys : List String) :
    Consistent (applyEach live f keys s).1 ↔ badEach live f keys s = false := by
  induction keys generalizing s with
  | nil => exact iff_of_true hs rfl
  | cons k keys ih =>
    obtain ⟨hstop, hinstall⟩ := applyEntry_spec live (f k) k s
    rw [applyEach, badEach]
    cases hinstalls : installs live (f k) k s with
    | false =>
      obtain ⟨err, hentry⟩ := hstop hinstalls
      rw [hentry]
      exact iff_of_true hs rfl
    | true =>
      obtain ⟨hmetadata, hentry⟩ := hinstall hinstalls
      rw [hentry]
      cases (f k).removeMetadata with
      | some err =>
        -- the metadata stay without their data
        obtain ⟨file, hfile⟩ := Option.isSome_iff_exists.mp hmetadata
        refine iff_of_false ?_ (by simp)
        simp only [orFail_some, Staging.setData]
        rw [consistent_update hs, hfile]
        exact slot_without_data file
      | none =>
        have hnext : Consistent ((s.setData k none).setMetadata k none) := by
          rw [setMetadata_setData, consistent_update hs]
          exact slot_without_metadata none
        simpa using ih hnext

/-- What an operation leaves. -/
theorem after_consistent_iff {s : Staging} (hs : Consistent s) (key : String → String) (op : Op) :
    Consistent (op.after key s) ↔ op.bad key s = false := by
  cases op with
  | stage r f => exact stage_consistent_iff hs key r f
  | apply r =>
    simp only [Op.after, Op.bad, applyStagedPlayerProfiles]
    cases r.listing with
    | missing =>
      split_ifs <;> exact iff_of_true hs rfl
    | failed err =>
      split_ifs <;> exact iff_of_true hs rfl
    | entries keys =>
      dsimp only
      split_ifs with hserver hactive
      · exact iff_of_true hs (by simp [hserver])
      · exact iff_of_true hs (by simp [hactive])
      · rw [applyEach_consistent_iff hs]
        have hgo : (decide (r.serverID ≠ "") && !(decide (keys ≠ []) && r.active)) = true := by
          rw [decide_eq_true hserver, Bool.true_and, Bool.not_eq_true', Bool.eq_false_iff]
          simpa using hactive
        rw [hgo, Bool.true_and]

/-! ## Blocked starts -/

/-- A pair with metadata that is not consistent is not installed. -/
theorem not_installs_broken {s : Staging} {k : String} (hbroken : ¬ (s k).Consistent) (live : Live)
    (f : ApplyFaults) : installs live f k s = false := by
  rw [Bool.eq_false_iff]
  intro hinstalls
  refine hbroken ?_
  unfold installs at hinstalls
  intro file hfile
  rw [hfile] at hinstalls
  cases hdata : (s k).data with
  | none =>
    rw [hdata] at hinstalls
    cases file <;> cases hinstalls
  | some content =>
    rw [hdata] at hinstalls
    cases file with
    | cut => cases hinstalls
    | document metadata =>
      simp only [Bool.and_eq_true] at hinstalls
      exact ⟨⟨metadata, rfl⟩, content, rfl, by tauto⟩

/-- Such a pair ends every loop that comes to it, and stays as it is. -/
theorem applyEach_blocked {k : String} (live : Live) (f : String → ApplyFaults) {keys : List String}
    (hk : k ∈ keys) {s : Staging} (hbroken : ¬ (s k).Consistent) :
    (applyEach live f keys s).1 k = s k ∧ ∃ err, (applyEach live f keys s).2 = .error err := by
  induction keys generalizing s with
  | nil => cases hk
  | cons k' keys ih =>
    obtain ⟨hstop, hinstall⟩ := applyEntry_spec live (f k') k' s
    rw [applyEach]
    cases hinstalls : installs live (f k') k' s with
    | false =>
      obtain ⟨err, herr⟩ := hstop hinstalls
      rw [herr]
      exact ⟨rfl, err, rfl⟩
    | true =>
      have hne : k ≠ k' := by
        rintro rfl
        rw [not_installs_broken hbroken] at hinstalls
        cases hinstalls
      rw [(hinstall hinstalls).2]
      cases (f k').removeMetadata with
      | some err => exact ⟨Function.update_of_ne hne _ _, err, rfl⟩
      | none =>
        have hsame : ((s.setData k' none).setMetadata k' none) k = s k := by
          rw [setMetadata_setData, Function.update_of_ne hne]
        have hlater := ih ((List.mem_cons.mp hk).resolve_left hne)
          (s := (s.setData k' none).setMetadata k' none) (by rwa [hsame])
        rw [hsame] at hlater
        exact hlater

/-- While such a pair is listed, no request applies the staged profiles. -/
theorem applyStagedPlayerProfiles_blocked {k : String} {s : Staging} (hbroken : ¬ (s k).Consistent)
    (r : ApplyRequest) (hserver : r.serverID ≠ "") {keys : List String}
    (hlisting : r.listing = .entries keys) (hk : k ∈ keys) :
    (applyStagedPlayerProfiles r s).1 k = s k ∧
      ∃ err, (applyStagedPlayerProfiles r s).2 = .error err := by
  unfold applyStagedPlayerProfiles
  rw [if_neg hserver, hlisting]
  dsimp only
  split_ifs
  · exact ⟨rfl, _, rfl⟩
  · exact applyEach_blocked r.live r.faults hk hbroken

/-! ## Starts that are not blocked -/

theorem ext_below (s t : String) : ext (s ++ "/" ++ t) = ext t := by
  have hlist : (s ++ "/" ++ t).toList.reverse = t.toList.reverse ++ '/' :: s.toList.reverse := by
    simp
  have hlast : (s ++ "/" ++ t).toList.reverse.takeWhile (· ≠ '/') =
      t.toList.reverse.takeWhile (· ≠ '/') := by
    rw [hlist, List.takeWhile_append]
    split_ifs with hall
    · rw [List.takeWhile_cons_of_neg (by simp), List.append_nil]
      exact ((List.takeWhile_prefix _).eq_of_length hall).symm
    · rfl
  unfold ext
  rw [hlast]

theorem path_describeProfile (relative : String) (size : ℕ) :
    (Access.describeProfile relative size).path = relative := by
  unfold Access.describeProfile
  dsimp only
  split_ifs <;> rfl

/-- The target of a profile that has been read is one that applying accepts. -/
theorem acceptedTarget_of_read {r : StageRequest} {relative root : String}
    (hprofile : r.profile = .ok relative) (hroot : r.root = .ok root) :
    acceptedTarget (join [root, relative]) = true := by
  unfold StageRequest.profile at hprofile
  cases hread : Access.readPlayerProfile r.files r.savesPath r.relative r.readFault with
  | error err =>
    rw [hread] at hprofile
    cases hprofile
  | ok read =>
  rw [hread] at hprofile
  obtain ⟨root', hroot', ⟨hbelow, hext⟩, hplayer, content, -, -, -, -, hdescribed⟩ :=
    Access.readPlayerProfile_eq_ok.mp hread
  have hpath : read.1.path = relative := Except.ok.inj hprofile
  rw [← hdescribed, path_describeProfile] at hpath
  -- both calls of `configuredSavesPath` find the same directory
  obtain ⟨⟨-, habs⟩, -, rfl⟩ := Access.configuredSavesPath_eq_ok.mp hroot
  obtain ⟨-, -, rfl⟩ := Access.configuredSavesPath_eq_ok.mp hroot'
  rw [hpath] at hbelow hext hplayer
  have hdots : relative ≠ ".." := by
    rintro rfl
    exact absurd hext (by decide)
  have hclean : clean relative = relative := by
    rw [← hpath]
    exact clean_clean _
  obtain ⟨es, hne, hes, rfl⟩ := Access.normal_of_isBelow hclean hbelow hdots
  obtain ⟨out, -, -, hjoin⟩ := join_rooted habs hes
  -- the extension is one of the last element, which the join keeps
  have hsame : ext ("/" ++ "/".intercalate (out ++ es)) = ext ("/".intercalate es) := by
    cases out with
    | nil => exact ext_below "" _
    | cons o out =>
      rw [String.intercalate_append_of_ne_nil (List.cons_ne_nil _ _) hne, ← String.append_assoc,
        ← String.append_assoc, ext_below]
  have habsolute : isAbs ("/" ++ "/".intercalate (out ++ es)) = true := by
    unfold isAbs
    simp
  rw [hjoin] at hplayer ⊢
  unfold acceptedTarget
  rw [habsolute, hplayer, hsame, hext]
  rfl

/-- The metadata name targets that applying accepts. -/
def Targeted (s : Staging) : Prop :=
  ∀ k metadata, (s k).metadata = some (.document metadata) → acceptedTarget metadata.target = true

theorem Targeted.update {s : Staging} (hs : Targeted s) (k : String) {slot : Slot}
    (hslot : ∀ metadata, slot.metadata = some (.document metadata) →
      acceptedTarget metadata.target = true) : Targeted (Function.update s k slot) := by
  intro k' metadata hmetadata
  by_cases hk : k' = k
  · subst hk
    rw [Function.update_self] at hmetadata
    exact hslot metadata hmetadata
  · rw [Function.update_of_ne hk] at hmetadata
    exact hs k' metadata hmetadata

theorem Targeted.commitStaged {s : Staging} (hs : Targeted s) (k : String) (content : List UInt8)
    {metadata : StagedProfileMetadata} (hmetadata : acceptedTarget metadata.target = true)
    (f : StageFaults) : Targeted (commitStaged k content metadata f s).1 := by
  unfold Profiles.commitStaged
  cases f.mkdirAll with
  | some err => exact hs
  | none =>
  cases f.writeTemporary with
  | some err => exact hs
  | none =>
  cases f.rename with
  | some err => exact hs
  | none =>
  have hnew : ∀ m, some (MetadataFile.document metadata) = some (.document m) →
      acceptedTarget m.target = true := by
    rintro m ⟨⟩
    exact hmetadata
  simp only [orFail_none]
  cases f.writeMetadata with
  | none =>
    dsimp only
    rw [setMetadata_setData]
    exact hs.update k hnew
  | some result =>
    obtain ⟨err, leftover⟩ := result
    have hleft : ∀ m, leftover.file metadata (s k).metadata = some (.document m) →
        acceptedTarget m.target = true := by
      intro m hm
      cases leftover with
      | unopened => exact hs k m hm
      | partly => cases hm
      | complete => exact hnew m hm
    have hold : ((s.setData k (some content)) k).metadata = (s k).metadata := by
      unfold Staging.setData
      rw [Function.update_self]
    dsimp only
    rw [setMetadata_setData, hold]
    split_ifs
    · rw [setData_update]
      exact hs.update k hleft
    · exact hs.update k hleft

theorem Targeted.applyEach {s : Staging} (hs : Targeted s) (live : Live) (f : String → ApplyFaults)
    (keys : List String) : Targeted (applyEach live f keys s).1 := by
  induction keys generalizing s with
  | nil => exact hs
  | cons k keys ih =>
    obtain ⟨hstop, hinstall⟩ := applyEntry_spec live (f k) k s
    rw [Profiles.applyEach]
    cases hinstalls : installs live (f k) k s with
    | false =>
      obtain ⟨err, hentry⟩ := hstop hinstalls
      rw [hentry]
      exact hs
    | true =>
      rw [(hinstall hinstalls).2]
      cases (f k).removeMetadata with
      | some err => exact hs.update k fun m hm => hs k m hm
      | none =>
        refine ih ?_
        rw [setMetadata_setData]
        exact hs.update k fun _ hm => nomatch hm

theorem Targeted.after {s : Staging} (hs : Targeted s) (key : String → String) (op : Op) :
    Targeted (op.after key s) := by
  cases op with
  | stage r f =>
    show Targeted (stagePlayerProfile key r f s).1
    unfold stagePlayerProfile
    cases hprofile : r.profile with
    | error err => exact hs
    | ok relative =>
    cases r.content with
    | none => exact hs
    | some content =>
    cases hroot : r.root with
    | error err =>
      dsimp only
      split_ifs <;> exact hs
    | ok root =>
    dsimp only
    split_ifs
    · exact hs
    · exact hs
    · exact hs
    · refine hs.commitStaged _ content ?_ f
      exact acceptedTarget_of_read hprofile hroot
  | apply r =>
    show Targeted (applyStagedPlayerProfiles r s).1
    unfold applyStagedPlayerProfiles
    cases r.listing with
    | missing => split_ifs <;> exact hs
    | failed err => split_ifs <;> exact hs
    | entries keys =>
      dsimp only
      split_ifs
      · exact hs
      · exact hs
      · exact hs.applyEach r.live r.faults keys

theorem Targeted.states {s : Staging} (hs : Targeted s) (key : String → String) (ops : List Op) :
    ∀ t ∈ states key ops s, Targeted t := by
  induction ops generalizing s with
  | nil => exact List.forall_mem_singleton.mpr hs
  | cons op ops ih => exact List.forall_mem_cons.mpr ⟨hs, ih (hs.after key op)⟩

/-- A consistent pair is installed when no step fails and its profile is still there. -/
theorem installs_of_consistent {s : Staging} (htargeted : Targeted s) {k : String}
    (hpair : (s k).Consistent) (hlisted : (s k).metadata.isSome = true) {live : Live}
    (hlive : ∀ metadata, (s k).metadata = some (.document metadata) →
      live.regular metadata.target = true) : installs live .none k s = true := by
  obtain ⟨file, hfile⟩ := Option.isSome_iff_exists.mp hlisted
  obtain ⟨⟨metadata, rfl⟩, content, hdata, hvalid⟩ := hpair file hfile
  unfold installs
  rw [hfile, hdata]
  simp [ApplyFaults.none, htargeted k metadata hfile, hlive metadata hfile, hvalid]

/-- The loop over consistent pairs removes them all, when no step fails and the profiles are still
there. -/
theorem applyEach_clears {live : Live} {f : String → ApplyFaults} (hf : ∀ k, f k = .none)
    {keys : List String} (hkeys : keys.Nodup) {s : Staging} (hs : Consistent s)
    (htargeted : Targeted s) (hlisted : ∀ k ∈ keys, (s k).metadata.isSome = true)
    (hlive : ∀ k metadata, (s k).metadata = some (.document metadata) →
      live.regular metadata.target = true) :
    (applyEach live f keys s).2 = .ok () ∧
      ∀ k, (applyEach live f keys s).1 k = if k ∈ keys then ⟨none, none⟩ else s k := by
  induction keys generalizing s with
  | nil => exact ⟨rfl, fun k => (if_neg List.not_mem_nil).symm⟩
  | cons k keys ih =>
    obtain ⟨hnew, hkeys⟩ := List.nodup_cons.mp hkeys
    have hinstalls : installs live (f k) k s = true := by
      rw [hf k]
      exact installs_of_consistent htargeted (hs k) (hlisted k List.mem_cons_self) (hlive k)
    have hremoves : (f k).removeMetadata = none := by
      rw [hf k]
      rfl
    have hentry := ((applyEntry_spec live (f k) k s).2 hinstalls).2
    rw [hremoves, orFail_none, setMetadata_setData] at hentry
    have hnext : Consistent (Function.update s k ⟨none, none⟩) :=
      (consistent_update hs k _).mpr (slot_without_metadata none)
    -- the keys are different ones: the pairs that follow are as they were
    have hother : ∀ k' ∈ keys, Function.update s k (⟨none, none⟩ : Slot) k' = s k' := by
      intro k' hk'
      have hne : k' ≠ k := by
        rintro rfl
        exact hnew hk'
      exact Function.update_of_ne hne _ _
    obtain ⟨hok, hcleared⟩ := ih hkeys hnext (htargeted.update k fun _ hm => nomatch hm)
      (fun k' hk' => by
        rw [hother k' hk']
        exact hlisted k' (List.mem_cons_of_mem _ hk'))
      (fun k' metadata hmetadata => by
        by_cases hk : k' = k
        · subst hk
          rw [Function.update_self] at hmetadata
          cases hmetadata
        · rw [Function.update_of_ne hk] at hmetadata
          exact hlive k' metadata hmetadata)
    rw [applyEach, hentry]
    refine ⟨hok, fun k' => (hcleared k').trans ?_⟩
    by_cases hk : k' = k
    · subst hk
      rw [if_neg hnew, if_pos List.mem_cons_self, Function.update_self]
    · rw [Function.update_of_ne hk]
      exact if_congr (by simp [hk]) rfl rfl

/-- A consistent directory does not block the staged profiles. -/
theorem unblocked_of_consistent {s : Staging} (hs : Consistent s) (htargeted : Targeted s) :
    Unblocked s := by
  intro r hr
  obtain ⟨hserver, keys, hlisting, hkeys, hlisted⟩ := hr.lists
  obtain ⟨hok, hcleared⟩ := applyEach_clears hr.sound hkeys hs htargeted
    (fun k hk => (hlisted k).mp hk) hr.live
  unfold applyStagedPlayerProfiles
  rw [if_neg hserver, hlisting]
  dsimp only
  rw [if_neg fun hactive => absurd (hr.stopped.symm.trans hactive.2) Bool.false_ne_true]
  refine ⟨hok, fun k => ?_⟩
  rw [hcleared]
  split_ifs with hk
  · rfl
  · simpa using mt (hlisted k).mpr hk

/-- An inconsistent one does. -/
theorem blocked_of_inconsistent {s : Staging} (hs : ¬Consistent s) : Blocked s := by
  rw [consistent_iff_slots, not_forall] at hs
  obtain ⟨k, hbroken⟩ := hs
  -- a pair without metadata is never broken, so the request lists the key
  have hmetadata : (s k).metadata.isSome = true := by
    by_contra hnone
    refine hbroken fun file hfile => ?_
    rw [hfile] at hnone
    exact absurd rfl hnone
  refine ⟨k, hmetadata, fun r hr => ?_⟩
  obtain ⟨hserver, keys, hlisting, -, hlisted⟩ := hr
  exact applyStagedPlayerProfiles_blocked hbroken r hserver hlisting ((hlisted k).mpr hmetadata)

/-! ## Runs -/

/-- The files of a server with one profile. -/
def oneProfile : System where
  tree location :=
    if location = ["srv", "Saves", "Player", "EOS_1.ttp"] then some (.file [116, 116, 112, 0])
    else if location.isPrefixOf ["srv", "Saves", "Player"] then some .folder
    else none
  cwd := []
  maxLinks := 40

/-- That profile is staged. -/
def stageOnce : StageRequest :=
  ⟨"server-1", "/srv/Saves", "Player/EOS_1.ttp", oneProfile, none, oneProfile,
    some [116, 116, 112, 0], 0⟩

theorem root_stageOnce : stageOnce.root = .ok "/srv/Saves" := by
  have hclean : clean (goTrimSpace "/srv/Saves") = "/srv/Saves" := by decide
  have helements : elements "/srv/Saves" = ["srv", "Saves"] := by decide
  refine Access.configuredSavesPath_eq_ok.mpr ⟨by decide, ?_, hclean⟩
  show oneProfile.lstat (clean (goTrimSpace "/srv/Saves")) = some .folder
  rw [hclean, System.lstat, System.entry, helements]
  have hwalk : walk oneProfile.tree oneProfile.maxLinks (start oneProfile.cwd "/srv/Saves") ["srv"] =
      some (40, ["srv"]) := by
    simp [walk, oneProfile, start]
  simp only [List.getLast?_cons_cons, List.getLast?_singleton, List.dropLast, hwalk]
  rfl

theorem profile_stageOnce : stageOnce.profile = .ok "Player/EOS_1.ttp" := by
  have htrim : clean (goTrimSpace "Player/EOS_1.ttp") = "Player/EOS_1.ttp" := by decide
  have hjoin : join ["/srv/Saves", "Player/EOS_1.ttp"] = "/srv/Saves/Player/EOS_1.ttp" := by decide
  have helements : elements "/srv/Saves/Player/EOS_1.ttp" = ["srv", "Saves", "Player", "EOS_1.ttp"] := by
    decide
  have hstart : start oneProfile.cwd "/srv/Saves/Player/EOS_1.ttp" = [] := by decide
  have hlstat : oneProfile.lstat "/srv/Saves/Player/EOS_1.ttp" = some (.file [116, 116, 112, 0]) := by
    rw [System.lstat, System.entry, helements, hstart]
    have hwalk : walk oneProfile.tree oneProfile.maxLinks [] ["srv", "Saves", "Player"] =
        some (40, ["srv", "Saves", "Player"]) := by
      simp [walk, oneProfile]
    simp only [List.getLast?_cons_cons, List.getLast?_singleton, List.dropLast, hwalk]
    rfl
  have hread : Access.readFile oneProfile "/srv/Saves/Player/EOS_1.ttp" =
      some ⟨["srv", "Saves", "Player", "EOS_1.ttp"], [116, 116, 112, 0]⟩ := by
    have hwalk : walk oneProfile.tree oneProfile.maxLinks [] ["srv", "Saves", "Player", "EOS_1.ttp"] =
        some (40, ["srv", "Saves", "Player", "EOS_1.ttp"]) := by
      simp [walk, oneProfile]
    rw [Access.readFile, System.locate, System.follow, helements, hstart, hwalk]
    rfl
  have hok : Access.readPlayerProfile oneProfile "/srv/Saves" "Player/EOS_1.ttp" none =
      .ok (Access.describeProfile "Player/EOS_1.ttp" 4,
        ⟨["srv", "Saves", "Player", "EOS_1.ttp"], [116, 116, 112, 0]⟩) := by
    refine Access.readPlayerProfile_eq_ok.mpr ⟨"/srv/Saves", root_stageOnce, ?_⟩
    rw [htrim, hjoin]
    exact ⟨⟨by decide, by decide⟩, by decide, [116, 116, 112, 0], hlstat, by decide, rfl, hread, rfl⟩
  show (Access.readPlayerProfile oneProfile "/srv/Saves" "Player/EOS_1.ttp" none).map _ = _
  rw [hok]
  exact congrArg Except.ok (path_describeProfile _ _)

/-- No step fails. -/
def StageFaults.none : StageFaults := ⟨.none, .none, .none, .none, .none⟩

/-- The metadata of the profile. -/
def onceMetadata : StagedProfileMetadata :=
  ⟨join ["/srv/Saves", "Player/EOS_1.ttp"], "Player/EOS_1.ttp", 0⟩

theorem after_stageOnce : Op.after (fun _ => "e1") Staging.empty (.stage stageOnce .none) =
    Function.update Staging.empty "e1"
      ⟨some [116, 116, 112, 0], some (.document onceMetadata)⟩ := by
  show (stagePlayerProfile _ stageOnce .none Staging.empty).1 = _
  unfold stagePlayerProfile
  rw [profile_stageOnce, root_stageOnce]
  exact setMetadata_setData _ _ _ _

/-- The staged profile is applied, with some failures. -/
def applied (f : ApplyFaults) : ApplyRequest :=
  ⟨"server-1", .entries ["e1"], false, ⟨fun _ => true, fun _ => false⟩, fun _ => f⟩

/-- A profile is staged, and applied up to the removal of its metadata. -/
def halfRemoved : List Op :=
  [.stage stageOnce .none,
    .apply (applied { ApplyFaults.none with removeMetadata := some "input/output error" })]

end Mastermind.Agent.Profiles
