import Mastermind.Agent.ModArchive

/-!
# Installing an uploaded mod archive

The second half of `installUploadedModsToQuarantine`: it stages each mod of an accepted archive in a
folder of its own, and then moves the folders into the quarantine one after another. Any call to the
file system can fail (`faults` says which do), but for the removals, whose errors the code ignores.
The staging directory is the installation's own and goes at the end, and so is not part of the state.

A failed rename removes the mods that have been moved. A failed `Stat` or change of permissions does
not: `place_spec` follows the loop over the mods, and `place_all` says that this is the only way in
which the loop leaves something behind.
-/

namespace Mastermind.Agent

open ModArchive

/-- A call to the file system that can fail, with the folder or the path that it is about. -/
inductive FileCall where
  | openArchive
  | makeQuarantine
  | makeStaging
  | lstat (folder : String)
  | makeFolder (folder : String)
  | makeFolders (target : String)
  | openEntry (target : String)
  | create (target : String)
  | copy (target : String)
  | stat (folder : String)
  | chmod (folder : String)
  | rename (folder : String)
deriving DecidableEq

/-- The files of a folder, by their paths in it. -/
abbrev Files := List (String × List UInt8)

/-- The folders of the quarantine directory. -/
abbrev Quarantine := String → Option Files

/-- An uploaded archive, and the staging directory that is made for it. -/
structure Upload where
  originalName : String
  entries : List ZipEntry
  stagingRoot : String

/-- An order in which a map is gone through. -/
structure MapOrder where
  visit : List (ZipEntry × String) → List (ZipEntry × String)
  perm : ∀ l, (visit l).Perm l

namespace ModInstall

variable (faults : FileCall → Bool)

/-- The text in lower case, of the ASCII characters. -/
def lower (s : String) : String := String.ofList (s.toList.map Char.toLower)

/-- The loop over the roots: their folders, each of which is new. -/
def makeFolders (q : Quarantine) (originalName : String) :
    List String → List String → Except InstallError (List String)
  | [], _ => .ok []
  | root :: rest, usedFolders =>
    let folder := deriveFolder originalName root
    if isModFolder folder = false then .error (.noSafeFolder root)
    else if lower folder ∈ usedFolders then .error (.sameFolder folder)
    else if faults (.lstat folder) || (q folder).isSome then .error (.alreadyExists folder)
    else if faults (.makeFolder folder) then .error .system
    else do
      let folders ← makeFolders q originalName rest (usedFolders ++ [lower folder])
      return folder :: folders

/-- The loop over the entries: the files that it writes, each with its folder and its path there. -/
def extract (upload : Upload) (roots : List String) :
    List (ZipEntry × String) → List String → Except InstallError (List (String × String × List UInt8))
  | [], _ => .ok []
  | (entry, clean) :: rest, writtenPaths =>
    match placement roots clean with
    | none => extract upload roots rest writtenPaths
    | some (root, relative) =>
      let folder := deriveFolder upload.originalName root
      let targetRoot := Path.join [upload.stagingRoot, folder]
      let target := Path.join [targetRoot, relative]
      if target ≠ targetRoot ∧ hasPrefix target (targetRoot ++ "/") = false then
        .error (.unsafePath entry.name)
      else if target ∈ writtenPaths then .error (.duplicatePath relative)
      else if faults (.makeFolders target) then .error .system
      else if isDir entry = true then extract upload roots rest (writtenPaths ++ [target])
      else if faults (.openEntry target) || faults (.create target) then .error .system
      else if faults (.copy target) || entry.content.length ≠ entry.size then
        .error (.incompleteEntry entry.name)
      else do
        let files ← extract upload roots rest (writtenPaths ++ [target])
        return (folder, relative, entry.content) :: files

/-- Everything before the first mod is moved: the folders of the mods in the order of their roots,
and the staged files. -/
def stage (order : MapOrder) (q : Quarantine) (upload : Upload) :
    Except InstallError (List String × List (String × String × List UInt8)) :=
  if faults .openArchive then .error .system
  else do
    let (cleanNames, roots) ← validate upload.entries
    if faults .makeQuarantine || faults .makeStaging then .error .system
    else do
      let folders ← makeFolders faults q upload.originalName roots []
      let files ← extract faults upload roots (order.visit cleanNames) []
      return (folders, files)

/-- The staged files of a folder. -/
def filesOf (files : List (String × String × List UInt8)) (folder : String) : Files :=
  (files.filter fun x => x.1 == folder).map Prod.snd

/-- `Stat` of the folder's `ModInfo.xml` fails, or it is missing. -/
def statFails (files : List (String × String × List UInt8)) (folder : String) : Bool :=
  faults (.stat folder) || !(filesOf files folder).any fun x => x.1 == "ModInfo.xml"

/-- The quarantine after the folders were removed. -/
def removeAll (folders : List String) (q : Quarantine) : Quarantine :=
  fun name => if name ∈ folders then none else q name

/-- The loop that moves the mods into the quarantine. -/
def place (files : List (String × String × List UInt8)) :
    List String → List String → Quarantine → Except InstallError (List String) × Quarantine
  | [], moved, q => (.ok moved, q)
  | folder :: rest, moved, q =>
    if statFails faults files folder then (.error (.missingModInfo folder), q)
    else if faults (.chmod folder) then (.error (.normalize folder), q)
    else if faults (.rename folder) then (.error (.place folder), removeAll moved q)
    else place files rest (moved ++ [folder]) (Function.update q folder (some (filesOf files folder)))

/-- `installUploadedModsToQuarantine`. -/
def installUploadedModsToQuarantine (order : MapOrder) (q : Quarantine) (upload : Upload) :
    Except InstallError (List String) × Quarantine :=
  match stage faults order q upload with
  | .error e => (.error e, q)
  | .ok (folders, files) =>
    let (placed, q') := place faults files folders [] q
    (placed.map fun moved => moved.insertionSort fun a b => a ≤ b, q')

/-- The mod's `Stat` fails, or the change of its permissions. -/
def unready (files : List (String × String × List UInt8)) (folder : String) : Bool :=
  statFails faults files folder || faults (.chmod folder)

/-- The first mod that cannot be moved fails before its rename. -/
def breaks (files : List (String × String × List UInt8)) : List String → Bool
  | [] => false
  | folder :: rest =>
    unready faults files folder || (!faults (.rename folder) && breaks files rest)

/-- The archive is staged, its first mod is moved, and then the first mod that cannot be moved fails
in its `Stat` or in the change of its permissions. -/
def FailsLate (order : MapOrder) (q : Quarantine) (upload : Upload) : Prop :=
  ∃ first rest files, stage faults order q upload = .ok (first :: rest, files) ∧
    unready faults files first = false ∧ faults (.rename first) = false ∧
      breaks faults files rest = true

section Staging

variable {faults} {q : Quarantine} {originalName : String}

/-- A computation that succeeds is a first part that does and then the rest. -/
theorem exists_of_bind_eq_ok {α β : Type} {x : Except InstallError α}
    {f : α → Except InstallError β} {b : β} (h : (x >>= f) = .ok b) :
    ∃ a, x = .ok a ∧ f a = .ok b := by
  cases x with
  | error e => exact absurd h (by simp [bind, Except.bind])
  | ok a => exact ⟨a, rfl, h⟩

/-- The folders are those of the roots, new, and different from each other. -/
theorem makeFolders_spec {roots usedFolders folders : List String}
    (h : makeFolders faults q originalName roots usedFolders = .ok folders) :
    folders = roots.map (deriveFolder originalName) ∧ (∀ folder ∈ folders, q folder = none) ∧
      folders.Nodup ∧ ∀ folder ∈ folders, lower folder ∉ usedFolders := by
  induction roots generalizing usedFolders folders with
  | nil =>
    obtain rfl := Except.ok.inj h
    simp
  | cons root rest ih =>
    unfold makeFolders at h
    dsimp only at h
    split_ifs at h with _ hused hexists _
    obtain ⟨folders', hrest, hfolders⟩ := exists_of_bind_eq_ok h
    obtain rfl := Except.ok.inj hfolders
    obtain ⟨hmap, hnew, hnodup, hlower⟩ := ih hrest
    have hnone : q (deriveFolder originalName root) = none := by
      simp only [Bool.or_eq_true, not_or, Bool.not_eq_true, Option.isSome_eq_false_iff,
        Option.isNone_iff_eq_none] at hexists
      exact hexists.2
    refine ⟨by rw [List.map_cons, hmap], ?_, ?_, ?_⟩
    · exact List.forall_mem_cons.mpr ⟨hnone, hnew⟩
    · refine List.nodup_cons.mpr ⟨fun hmem => ?_, hnodup⟩
      exact hlower _ hmem (List.mem_append_right _ (List.mem_singleton.mpr rfl))
    · refine List.forall_mem_cons.mpr ⟨hused, fun folder hmem hmem' => ?_⟩
      exact hlower folder hmem (List.mem_append_left _ hmem')

/-- What is staged of an entry: unless it is a directory or goes nowhere, a file in a folder. -/
def staged (originalName : String) (roots : List String) (x : ZipEntry × String) :
    Option (String × String × List UInt8) :=
  if isDir x.1 = true then none
  else (placement roots x.2).map fun p => (deriveFolder originalName p.1, p.2, x.1.content)

/-- The files are those of the entries. -/
theorem extract_spec {upload : Upload} {roots writtenPaths : List String}
    {entries : List (ZipEntry × String)} {files : List (String × String × List UInt8)}
    (h : extract faults upload roots entries writtenPaths = .ok files) :
    files = entries.filterMap (staged upload.originalName roots) := by
  induction entries generalizing writtenPaths files with
  | nil => exact (Except.ok.inj h).symm
  | cons x rest ih =>
    obtain ⟨entry, clean⟩ := x
    unfold extract at h
    cases hplace : placement roots clean with
    | none =>
      rw [hplace] at h
      have hnone : staged upload.originalName roots (entry, clean) = none := by
        simp [staged, hplace]
      rw [List.filterMap_cons_none hnone]
      exact ih h
    | some p =>
      obtain ⟨root, relative⟩ := p
      rw [hplace] at h
      dsimp only at h
      split_ifs at h with _ _ _ hdir _ _
      · have hnone : staged upload.originalName roots (entry, clean) = none := if_pos hdir
        rw [List.filterMap_cons_none hnone]
        exact ih h
      · obtain ⟨files', hrest, hfiles⟩ := exists_of_bind_eq_ok h
        obtain rfl := Except.ok.inj hfiles
        have hsome : staged upload.originalName roots (entry, clean) =
            some (deriveFolder upload.originalName root, relative, entry.content) := by
          simp [staged, hplace, hdir]
        rw [List.filterMap_cons_some hsome, ih hrest]

/-- What has been staged: the folders are those of the roots, new and different, and the files are
those of the archive that belong to a root. -/
theorem stage_spec {order : MapOrder} {upload : Upload} {folders : List String}
    {files : List (String × String × List UInt8)}
    (h : stage faults order q upload = .ok (folders, files)) :
    ∃ cleanNames roots, validate upload.entries = .ok (cleanNames, roots) ∧
      folders = roots.map (deriveFolder upload.originalName) ∧
        (∀ folder ∈ folders, q folder = none) ∧ folders.Nodup ∧
          files.Perm (cleanNames.filterMap (staged upload.originalName roots)) := by
  unfold stage at h
  by_cases hopen : faults .openArchive = true
  · rw [if_pos hopen] at h
    exact absurd h (by simp)
  rw [if_neg hopen] at h
  obtain ⟨⟨cleanNames, roots⟩, hvalid, h⟩ := exists_of_bind_eq_ok h
  dsimp only at h
  split_ifs at h
  obtain ⟨folders', hfolders, h⟩ := exists_of_bind_eq_ok h
  obtain ⟨files', hfiles, h⟩ := exists_of_bind_eq_ok h
  obtain ⟨rfl, rfl⟩ := Prod.mk.inj (Except.ok.inj h)
  obtain ⟨hmap, hnew, hnodup, -⟩ := makeFolders_spec hfolders
  -- the order in which the entries are gone through does not matter
  rw [extract_spec hfiles]
  exact ⟨cleanNames, roots, hvalid, hmap, hnew, hnodup, (order.perm cleanNames).filterMap _⟩

end Staging

section Placing

variable {faults} {files : List (String × String × List UInt8)} {q : Quarantine}

/-- The quarantine with the folders in it. -/
def put (files : List (String × String × List UInt8)) (folders : List String) (q : Quarantine) :
    Quarantine :=
  fun name => if name ∈ folders then some (filesOf files name) else q name

theorem put_nil : put files [] q = q := by
  funext name
  exact if_neg List.not_mem_nil

/-- Moving one more folder. -/
theorem update_put (folders : List String) (folder : String) :
    Function.update (put files folders q) folder (some (filesOf files folder)) =
      put files (folders ++ [folder]) q := by
  funext name
  unfold put
  by_cases hname : name = folder
  · subst hname
    simp
  · simp [hname]

/-- Removing new folders again leaves the quarantine as it was. -/
theorem removeAll_put {folders : List String} (h : ∀ folder ∈ folders, q folder = none) :
    removeAll folders (put files folders q) = q := by
  funext name
  unfold removeAll put
  split_ifs with hname
  · exact (h name hname).symm
  · rfl

/-- The loop over the mods ends with all of them in the quarantine, or with an error and none of
them; only if the first mod that cannot be moved fails before its rename, those before it stay. -/
theorem place_spec (faults : FileCall → Bool) (files : List (String × String × List UInt8))
    (q : Quarantine) (rest moved : List String)
    (h : ∀ folder ∈ moved ++ rest, q folder = none) :
    (breaks faults files rest = true → ∃ e before,
      place faults files rest moved (put files moved q) =
        (.error e, put files (moved ++ before) q)) ∧
    (breaks faults files rest = false →
      (∃ e, place faults files rest moved (put files moved q) = (.error e, q)) ∨
        place faults files rest moved (put files moved q) =
          (.ok (moved ++ rest), put files (moved ++ rest) q)) := by
  induction rest generalizing moved with
  | nil =>
    refine ⟨fun hbreaks => absurd hbreaks Bool.false_ne_true, fun _ => .inr ?_⟩
    rw [List.append_nil]
    rfl
  | cons folder rest ih =>
    unfold place breaks unready
    by_cases hstat : statFails faults files folder = true
    · rw [if_pos hstat, hstat]
      refine ⟨fun _ => ⟨_, [], by rw [List.append_nil]⟩, fun hbreaks => ?_⟩
      exact absurd hbreaks (by simp)
    by_cases hchmod : faults (.chmod folder) = true
    · rw [if_neg hstat, if_pos hchmod, hchmod]
      refine ⟨fun _ => ⟨_, [], by rw [List.append_nil]⟩, fun hbreaks => ?_⟩
      exact absurd hbreaks (by simp)
    by_cases hrename : faults (.rename folder) = true
    · rw [if_neg hstat, if_neg hchmod, if_pos hrename]
      have hmoved : ∀ folder ∈ moved, q folder = none := fun f hf => h f (List.mem_append_left _ hf)
      rw [removeAll_put hmoved]
      refine ⟨fun hbreaks => ?_, fun _ => .inl ⟨_, rfl⟩⟩
      exact absurd hbreaks (by simp [hstat, hchmod, hrename])
    · -- the mod is moved, and the loop goes on
      rw [if_neg hstat, if_neg hchmod, if_neg hrename, update_put]
      have hnext : ∀ f ∈ (moved ++ [folder]) ++ rest, q f = none := by
        rw [List.append_assoc]
        exact h
      obtain ⟨hlate, hdone⟩ := ih (moved ++ [folder]) hnext
      have hskip : (statFails faults files folder || faults (.chmod folder) ||
          (!faults (.rename folder) && breaks faults files rest)) = breaks faults files rest := by
        simp [hstat, hchmod, hrename]
      rw [hskip]
      refine ⟨fun hbreaks => ?_, fun hbreaks => ?_⟩
      · obtain ⟨e, before, heq⟩ := hlate hbreaks
        exact ⟨e, folder :: before, by rw [heq, List.append_assoc, List.singleton_append]⟩
      · rw [List.append_assoc, List.singleton_append] at hdone
        exact hdone hbreaks

/-- The first of the mods is moved, and then the first one that cannot be moved fails before its
rename. -/
def BreaksLate (faults : FileCall → Bool) (files : List (String × String × List UInt8))
    (folders : List String) : Prop :=
  ∃ first rest, folders = first :: rest ∧ unready faults files first = false ∧
    faults (.rename first) = false ∧ breaks faults files rest = true

/-- If the first mod is not moved, nothing breaks late. -/
theorem not_breaksLate {first : String} {rest : List String}
    (h : unready faults files first = true ∨ faults (.rename first) = true) :
    ¬BreaksLate faults files (first :: rest) := by
  rintro ⟨_, _, heq, hready, hmoves, -⟩
  obtain ⟨rfl, -⟩ := List.cons.inj heq
  rcases h with h | h
  · exact absurd (hready.symm.trans h) Bool.false_ne_true
  · exact absurd (hmoves.symm.trans h) Bool.false_ne_true

/-- The loop over new mods ends with all of them in the quarantine, or with an error and none of
them, unless it breaks late: then the first one stays. -/
theorem place_all {folders : List String} (h : ∀ folder ∈ folders, q folder = none) :
    (BreaksLate faults files folders →
      ∃ e q', place faults files folders [] q = (.error e, q') ∧ q' ≠ q) ∧
    (¬BreaksLate faults files folders →
      (∃ e, place faults files folders [] q = (.error e, q)) ∨
        place faults files folders [] q = (.ok folders, put files folders q)) := by
  cases folders with
  | nil =>
    refine ⟨?_, fun _ => .inr (by rw [put_nil]; rfl)⟩
    rintro ⟨_, _, heq, -⟩
    exact absurd heq (by simp)
  | cons first rest =>
    have hfirst : q first = none := h first List.mem_cons_self
    unfold place
    by_cases hstat : statFails faults files first = true
    · have hkept : ¬BreaksLate faults files (first :: rest) :=
        not_breaksLate (.inl (by simp [unready, hstat]))
      rw [if_pos hstat]
      exact ⟨fun hlate => absurd hlate hkept, fun _ => .inl ⟨_, rfl⟩⟩
    by_cases hchmod : faults (.chmod first) = true
    · have hkept : ¬BreaksLate faults files (first :: rest) :=
        not_breaksLate (.inl (by simp [unready, hchmod]))
      rw [if_neg hstat, if_pos hchmod]
      exact ⟨fun hlate => absurd hlate hkept, fun _ => .inl ⟨_, rfl⟩⟩
    by_cases hrename : faults (.rename first) = true
    · have hkept : ¬BreaksLate faults files (first :: rest) := not_breaksLate (.inr hrename)
      have hnone : removeAll [] q = q := funext fun _ => if_neg List.not_mem_nil
      rw [if_neg hstat, if_neg hchmod, if_pos hrename, hnone]
      exact ⟨fun hlate => absurd hlate hkept, fun _ => .inl ⟨_, rfl⟩⟩
    · -- the first mod is in the quarantine
      have hmoved : Function.update q first (some (filesOf files first)) = put files [first] q := by
        have hput := @update_put files q [] first
        rw [put_nil] at hput
        exact hput
      obtain ⟨hbroken, hdone⟩ := place_spec faults files q rest [first] h
      rw [if_neg hstat, if_neg hchmod, if_neg hrename, List.nil_append, hmoved]
      constructor
      · rintro ⟨_, _, heq, -, -, hbreaks⟩
        obtain ⟨-, rfl⟩ := List.cons.inj heq
        obtain ⟨e, before, hplaced⟩ := hbroken hbreaks
        refine ⟨e, _, hplaced, fun hsame => ?_⟩
        have hlost : put files ([first] ++ before) q first = q first := congrFun hsame first
        rw [hfirst, put, if_pos (List.mem_append_left _ List.mem_cons_self)] at hlost
        cases hlost
      · intro hkept
        have hwhole : breaks faults files rest = false := by
          by_contra hbreaks
          refine hkept ⟨first, rest, rfl, ?_, ?_, Bool.not_eq_false _ ▸ hbreaks⟩
          · simp [unready, hstat, hchmod]
          · simpa using hrename
        exact hdone hwhole

/-- The loop succeeds when every mod is ready and can be moved. -/
theorem isOk_place {rest moved : List String} :
    (place faults files rest moved q).1.isOk = true ↔
      ∀ folder ∈ rest, unready faults files folder = false ∧ faults (.rename folder) = false := by
  induction rest generalizing moved q with
  | nil => exact iff_of_true rfl fun _ h => absurd h List.not_mem_nil
  | cons folder rest ih =>
    unfold place
    rw [List.forall_mem_cons]
    split_ifs with hstat hchmod hrename
    · exact iff_of_false Bool.false_ne_true fun h => by simp [unready, hstat] at h
    · exact iff_of_false Bool.false_ne_true fun h => by simp [unready, hchmod] at h
    · exact iff_of_false Bool.false_ne_true fun h => by simp [hrename] at h
    · have hready : unready faults files folder = false := by simp [unready, hstat, hchmod]
      rw [ih]
      exact (and_iff_right ⟨hready, by simpa using hrename⟩).symm

end Placing

/-- An archive with two mods. -/
def twoMods : Upload where
  originalName := "pack.zip"
  entries := [⟨"Alpha/ModInfo.xml", false, false, 1, [60]⟩, ⟨"Beta/ModInfo.xml", false, false, 1, [60]⟩]
  stagingRoot := "/var/lib/mastermind-agent/mod-quarantine/pve/.upload-1"

end ModInstall

end Mastermind.Agent
