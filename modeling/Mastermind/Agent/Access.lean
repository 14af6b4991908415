import Mastermind.Agent.Adapter
import Mastermind.Agent.ModConfined
import Mastermind.Platform.Links

/-!
# Access to the files of mods and players

`internal/games/7dtd/adapter.go`: a configuration file of a mod is read or written, and a player
profile read, at a relative path that a job asks for. Each checks the directory and the file with
`os.Lstat`, which follows the links between the two.

A system is its files here, and an operation says where the file is that it has read or written. The
texts of the errors of the system itself are left out, and so is the name of the player of a profile.

`access_confined_iff` says when that file is in the directory: unless the last link that the path goes
through leads out of it.
-/

namespace Mastermind.Agent.Access

open Mastermind.Path Mastermind.Links ModArchive

/-! ## Failures -/

/-- A check that ends the operation. -/
def check (passes : Bool) (err : String) : Fallible Unit := if passes then .ok () else .error err

/-- What a call of the system finds, or the end of the operation. -/
def found {α : Type} (x : Option α) (err : String) : Fallible α :=
  match x with
  | none => .error err
  | some a => .ok a

/-- A call of the system that may fail for another reason than what there is. -/
def attempt (fault : Option String) (describe : String → String) : Fallible Unit :=
  match fault with
  | none => .ok ()
  | some err => .error (describe err)

/-! ## Reading -/

/-- What `os.ReadFile` reads, and where. -/
structure Opened where
  location : Location
  content : List UInt8
deriving DecidableEq

/-- `os.ReadFile`. -/
def readFile (y : System) (path : String) : Option Opened :=
  match y.locate path with
  | none => none
  | some location =>
    match y.tree location with
    | some (.file content) => some ⟨location, content⟩
    | _ => none

/-- The size of a regular file. -/
def regularSize : Node → Option ℕ
  | .file content => some content.length
  | _ => none

/-! ## Configuration files of mods -/

/-- `modsPath`. -/
def modsPath (cfg : InstanceConfig) (override : String) : Fallible String :=
  if override ≠ "" then .ok (clean override)
  else if cfg.installPath = "" then .error "install_path required"
  else .ok (clean (join [cfg.installPath, "Mods"]))

/-- `realModDirectory`. -/
def realModDirectory (y : System) (root folder : String) : Fallible String := do
  check (isModFolder folder) "invalid mod folder"
  let info ← found (y.lstat (join [root, folder])) "mod folder not found"
  check (info = .folder) "mod target must be a real directory"
  return join [root, folder]

/-- `maxModConfigBytes`. -/
def maxModConfigBytes : ℕ := 64 * 1024

/-- `editableModConfigExtensions`. -/
def editableModConfigExtensions : List String :=
  [".cfg", ".conf", ".ini", ".json", ".toml", ".txt", ".xml", ".yaml", ".yml"]

/-- `unicode.ToLower`, as far as it gives ASCII letters. Beside the ASCII letters, the dotted capital I
and the Kelvin sign have one. -/
def toLower (c : Char) : Char :=
  if c.toNat = 0x130 then 'i' else if c.toNat = 0x212A then 'k' else c.toLower

/-- `strings.ToLower`. -/
def lowered (s : String) : String := String.ofList (s.toList.map toLower)

/-- `strings.Contains`. -/
def contains (s part : String) : Bool := s.toList.tails.any fun rest => part.toList.isPrefixOf rest

/-- A clean path that leads nowhere up from the directory that it is joined to. -/
def isBelow (clean : String) : Bool := !(clean = "." || isAbs clean || hasPrefix clean "../")

/-- `isEditableModConfig`. -/
def isEditableModConfig (relativePath : String) : Bool :=
  let clean := clean relativePath
  if !isBelow clean then false
  else if lowered (ext clean) ∉ editableModConfigExtensions then false
  else
    let parts := elements clean
    if 1 < parts.length && equalFold (parts.headD "") "config" then true
    else
      let base := lowered (base clean)
      contains base "config" || contains base "settings"

/-- `resolveModConfig`. -/
def resolveModConfig (y : System) (root folder relativePath : String) : Fallible String := do
  let modRoot ← realModDirectory y root folder
  let clean := clean (goTrimSpace relativePath)
  check (isEditableModConfig clean) "invalid or unsupported mod config path"
  let target := join [modRoot, clean]
  let info ← found (y.lstat target) "mod config not found"
  let size ← found (regularSize info) "mod config must be a regular file"
  check (size ≤ maxModConfigBytes) "mod config exceeds 64 KiB editor limit"
  return target

/-- `readModConfig`. -/
def readModConfig (y : System) (cfg : InstanceConfig) (override folder relativePath : String)
    (fault : Option String) : Fallible Opened := do
  let root ← modsPath cfg override
  let target ← resolveModConfig y root folder relativePath
  attempt fault ("read mod config: " ++ ·)
  found (readFile y target) "read mod config"

/-- The failures of the steps of `writeModConfig`. Its three steps on the temporary file are one. -/
structure WriteFaults where
  stat : Option String
  createTemp : Option String
  write : Option String
  chmod : Option String
  rename : Option String

/-- What `writeModConfig` has written: the temporary file, the file that it became, and the files
afterwards. -/
structure Written where
  temporary : Location
  location : Location
  after : Tree

/-- `writeModConfig`. `random` is what `os.CreateTemp` puts into the name. -/
def writeModConfig (y : System) (cfg : InstanceConfig) (override folder relativePath : String)
    (content : List UInt8) (random : String) (f : WriteFaults) : Fallible Written := do
  check (content.length ≤ maxModConfigBytes) "mod config exceeds 64 KiB editor limit"
  let root ← modsPath cfg override
  let target ← resolveModConfig y root folder relativePath
  attempt f.stat ("stat mod config: " ++ ·)
  let _ ← found (y.stat target) "stat mod config"
  attempt f.createTemp ("create temporary mod config: " ++ ·)
  -- `os.CreateTemp` follows every link of the directory's path
  let directory ← found (y.locate (dir target)) "create temporary mod config"
  attempt f.write ("write temporary mod config: " ++ ·)
  attempt f.chmod ("preserve mod config permissions: " ++ ·)
  attempt f.rename ("replace mod config: " ++ ·)
  -- `os.Rename` does not follow a link in the last place
  let location ← found (y.entry target) "replace mod config"
  return ⟨directory ++ [".mastermind-config-" ++ random], location,
    Function.update y.tree location (some (.file content))⟩

/-! ## Player profiles -/

/-- `configuredSavesPath`. -/
def configuredSavesPath (y : System) (savesPath : String) : Fallible String := do
  let root := clean (goTrimSpace savesPath)
  check (root ≠ "." && isAbs root) "configured absolute saves path required"
  let info ← found (y.lstat root) "read saves directory"
  check (info = .folder) "saves path must be a real directory"
  return root

/-- `maxProfileEditorBytes`. -/
def maxProfileEditorBytes : ℕ := 2 * 1024 * 1024

/-- `playerProfile`. -/
structure PlayerProfile where
  path : String
  name : String
  world : String
  save : String
  sizeBytes : ℕ
deriving DecidableEq

/-- The profile of a file. -/
def describeProfile (relative : String) (size : ℕ) : PlayerProfile :=
  let parts := elements relative
  let n := parts.length
  if 4 ≤ n then ⟨relative, base relative, parts.getD (n - 4) "", parts.getD (n - 3) "", size⟩
  else ⟨relative, base relative, "", "", size⟩

/-- `readPlayerProfile`. -/
def readPlayerProfile (y : System) (savesPath relative : String) (fault : Option String) :
    Fallible (PlayerProfile × Opened) := do
  let root ← configuredSavesPath y savesPath
  let relative := clean (goTrimSpace relative)
  check (isBelow relative && equalFold (ext relative) ".ttp") "invalid profile path"
  let target := join [root, relative]
  let info ← found (y.lstat target) "read player profile"
  let size ← found (if equalFold (base (dir target)) "player" then regularSize info else none)
    "profile must be a regular .ttp file in a Player directory"
  check (size ≤ maxProfileEditorBytes) "profile exceeds 2 MiB editor transfer limit"
  attempt fault ("copy player profile: " ++ ·)
  let opened ← found (readFile y target) "copy player profile"
  return (describeProfile relative size, opened)

/-! ## What the operations accept -/

theorem bind_eq_ok {α β : Type} {x : Fallible α} {f : α → Fallible β} {b : β} :
    (x >>= f) = .ok b ↔ ∃ a, x = .ok a ∧ f a = .ok b := by
  cases x with
  | error err => exact iff_of_false nofun (by rintro ⟨_, h, -⟩; cases h)
  | ok a =>
    constructor
    · exact fun h => ⟨a, rfl, h⟩
    · rintro ⟨_, ⟨⟩, h⟩
      exact h

@[simp] theorem pure_eq_ok {α : Type} {a b : α} : (pure a : Fallible α) = .ok b ↔ a = b := by
  constructor
  · rintro ⟨⟩
    rfl
  · rintro rfl
    rfl

@[simp] theorem check_eq_ok {passes : Bool} {err : String} {u : Unit} :
    check passes err = .ok u ↔ passes = true := by
  cases passes <;> simp [check]

@[simp] theorem found_eq_ok {α : Type} {x : Option α} {err : String} {a : α} :
    found x err = .ok a ↔ x = some a := by
  cases x <;> simp [found]

@[simp] theorem attempt_eq_ok {fault : Option String} {describe : String → String} {u : Unit} :
    attempt fault describe = .ok u ↔ fault = none := by
  cases fault <;> simp [attempt]

theorem regularSize_eq_some {info : Node} {size : ℕ} :
    regularSize info = some size ↔ ∃ content, info = .file content ∧ content.length = size := by
  cases info <;> simp [regularSize]

/-- At a relative path from a real directory there is a regular file within a limit. -/
def HasFile (y : System) (directory relative : String) (limit : ℕ) : Prop :=
  y.lstat directory = some .folder ∧
    ∃ content, y.lstat (join [directory, relative]) = some (.file content) ∧ content.length ≤ limit

theorem realModDirectory_eq_ok {y : System} {root folder target : String} :
    realModDirectory y root folder = .ok target ↔ isModFolder folder = true ∧
      y.lstat (join [root, folder]) = some .folder ∧ join [root, folder] = target := by
  simp only [realModDirectory, bind_eq_ok, check_eq_ok, found_eq_ok, pure_eq_ok, decide_eq_true_eq]
  constructor
  · rintro ⟨-, hfolder, info, hinfo, -, rfl, htarget⟩
    exact ⟨hfolder, hinfo, htarget⟩
  · rintro ⟨hfolder, hinfo, htarget⟩
    exact ⟨(), hfolder, _, hinfo, (), rfl, htarget⟩

theorem resolveModConfig_eq_ok {y : System} {root folder relativePath target : String} :
    resolveModConfig y root folder relativePath = .ok target ↔ isModFolder folder = true ∧
      isEditableModConfig (clean (goTrimSpace relativePath)) = true ∧
        HasFile y (join [root, folder]) (clean (goTrimSpace relativePath)) maxModConfigBytes ∧
          join [join [root, folder], clean (goTrimSpace relativePath)] = target := by
  simp only [resolveModConfig, bind_eq_ok, check_eq_ok, found_eq_ok, pure_eq_ok, decide_eq_true_eq,
    realModDirectory_eq_ok, regularSize_eq_some]
  constructor
  · rintro ⟨_, ⟨hfolder, hreal, rfl⟩, -, heditable, _, hfile, _, ⟨content, rfl, rfl⟩, -, hsize,
      htarget⟩
    exact ⟨hfolder, heditable, ⟨hreal, content, hfile, hsize⟩, htarget⟩
  · rintro ⟨hfolder, heditable, ⟨hreal, content, hfile, hsize⟩, htarget⟩
    exact ⟨_, ⟨hfolder, hreal, rfl⟩, (), heditable, _, hfile, _, ⟨content, rfl, rfl⟩, (), hsize,
      htarget⟩

/-! ## Where an accepted file is -/

/-- A path that leads nowhere up is names with separators between them. -/
theorem normal_of_isBelow {relative : String} (hclean : clean relative = relative)
    (hbelow : isBelow relative = true) (hup : relative ≠ "..") :
    ∃ es, es ≠ [] ∧ (∀ e ∈ es, Normal e) ∧ relative = "/".intercalate es := by
  unfold isBelow at hbelow
  simp only [Bool.not_eq_true', Bool.or_eq_false_iff, decide_eq_false_iff_not] at hbelow
  obtain ⟨⟨hdot, habs⟩, hprefix⟩ := hbelow
  refine exists_normal_of_clean hclean habs hdot hup fun hbegins => ?_
  rw [hasPrefix, List.isPrefixOf_iff_prefix.mpr hbegins] at hprefix
  cases hprefix

/-- The directory of a mod has settled elements. -/
theorem settled_modRoot {root folder : String} (hfolder : isModFolder folder = true) :
    ∃ rooted es, Settled rooted es ∧ join [root, folder] = assemble rooted es := by
  have hnormal := ModInstall.normal_of_isModFolder hfolder
  obtain ⟨path, es, hjoin, helements⟩ : ∃ path es, join [root, folder] = clean path ∧
      elements path = es ++ [folder] := by
    by_cases hroot : root = ""
    · refine ⟨folder, [], ?_, elements_plain hnormal.1⟩
      subst hroot
      simp [join, hnormal.1.1]
    · refine ⟨root ++ "/" ++ folder, elements root, ?_, ?_⟩
      · rw [join, List.dropWhile_cons_of_neg (by simpa using hroot)]
        rfl
      · rw [elements_append, elements_plain hnormal.1]
  refine ⟨_, _, settled_clean fun _ hnil => ?_, hjoin⟩
  rw [helements, List.foldl_append, foldl_descend (by simpa using hnormal)] at hnil
  simp at hnil

/-- The directory of the profiles has settled elements. -/
theorem settled_savesPath {savesPath : String} (hdot : clean (goTrimSpace savesPath) ≠ ".") :
    ∃ rooted es, Settled rooted es ∧ clean (goTrimSpace savesPath) = assemble rooted es := by
  rcases clean_cases (goTrimSpace savesPath) with h | ⟨es, hes, h⟩
  · exact absurd h hdot
  · exact ⟨_, es, hes, h⟩

/-- A location is in the directory of a path. -/
def Inside (y : System) (directory : String) (location : Location) : Prop :=
  ∃ place, y.locate directory = some place ∧ place <+: location

/-- An accepted file is in the directory unless the last link on the way leads out, and so is every
file beside it. -/
theorem inside_of_hasFile {y : System} {directory relative : String} {limit : ℕ}
    (hsettled : ∃ rooted es, Settled rooted es ∧ directory = assemble rooted es)
    (hclean : clean relative = relative) (hbelow : isBelow relative = true) (hup : relative ≠ "..")
    (h : HasFile y directory relative limit) :
    ∃ folder e content, y.locate (join [directory, relative]) = some (folder ++ [e]) ∧
      y.tree (folder ++ [e]) = some (.file content) ∧
        y.entry (join [directory, relative]) = some (folder ++ [e]) ∧
          y.locate (dir (join [directory, relative])) = some folder ∧
            (Inside y directory (folder ++ [e]) ↔ ¬ y.LeadsOut directory relative) ∧
              (Inside y directory (folder ++ [e]) → ∀ name, Inside y directory (folder ++ [name])) := by
  -- the elements of the target are those of the directory, and then the names of the path
  obtain ⟨rooted, ds, hds, rfl⟩ := hsettled
  obtain ⟨es, hne, hnormal, rfl⟩ := normal_of_isBelow hclean hbelow hup
  obtain ⟨hreal, content, hfile, -⟩ := h
  obtain ⟨r, hr, hplace⟩ := lstat_folder hreal
  have helements : elements ("/".intercalate es) = es :=
    elements_intercalate fun e he => (hnormal e he).1
  have hall : Settled rooted (ds ++ es) := hds.append hnormal
  have htarget := join_settled hds hnormal
  rw [htarget] at hfile ⊢
  obtain ⟨q, e, hq, -, hnode, hentry, hlocate, hinside⟩ :=
    @inside_iff y (assemble rooted ds) ("/".intercalate es) _ r hr
      (by rw [elements_assemble hall, elements_assemble hds, helements])
      (by rw [isAbs_assemble hall, isAbs_assemble hds]) (by rwa [helements]) (by rwa [helements]) _
      hfile
  have hdirectory : y.locate (assemble rooted ds) = some r.2 := by
    rw [System.locate, hr]
    rfl
  have hiff : ∀ location, Inside y (assemble rooted ds) location ↔ r.2 <+: location := by
    intro location
    unfold Inside
    rw [hdirectory]
    simp
  refine ⟨q.2, e, content, hlocate, hnode, hentry, ?_, (hiff _).trans hinside, ?_⟩
  · obtain ⟨ms, m, rfl⟩ : ∃ ms m, es = ms ++ [m] := ⟨_, _, (List.dropLast_append_getLast hne).symm⟩
    have hms : Settled rooted (ds ++ ms) := hds.append fun x hx => hnormal x (List.mem_append_left _ hx)
    rw [elements_assemble hall, start, isAbs_assemble hall, ← List.append_assoc,
      List.dropLast_concat] at hq
    rw [← List.append_assoc, dir_settled hms (hnormal m (by simp)).1, System.locate, System.follow,
      start, isAbs_assemble hms, elements_assemble hms, hq]
    rfl
  · intro hin name
    rw [hiff] at hin ⊢
    rcases List.prefix_concat_iff.mp hin with heq | hin
    · -- the directory is no file
      rw [heq, hnode] at hplace
      cases hplace
    · exact hin.trans (List.prefix_append _ _)

/-! ## Confinement -/

section Mods

variable {y : System} {cfg : InstanceConfig} {override folder relativePath : String}

/-- A location is in the directory of the selected mod. -/
def InMod (y : System) (cfg : InstanceConfig) (override folder : String) (location : Location) :
    Prop :=
  ∃ root, modsPath cfg override = .ok root ∧ Inside y (join [root, folder]) location

/-- A configuration file of a mod is accepted, and the last link on the way to it leads out of the
mod's directory. -/
def ModEscape (y : System) (cfg : InstanceConfig) (override folder relativePath : String) : Prop :=
  ∃ root, modsPath cfg override = .ok root ∧ isModFolder folder = true ∧
    isEditableModConfig (clean (goTrimSpace relativePath)) = true ∧
      HasFile y (join [root, folder]) (clean (goTrimSpace relativePath)) maxModConfigBytes ∧
        y.LeadsOut (join [root, folder]) (clean (goTrimSpace relativePath))

theorem below_of_isEditable {path : String} (h : isEditableModConfig (clean path) = true) :
    isBelow (clean path) = true ∧ clean path ≠ ".." := by
  unfold isEditableModConfig at h
  rw [clean_clean] at h
  dsimp only at h
  split_ifs at h with hbelow hext
  all_goals
    refine ⟨by simpa using hbelow, fun hup => ?_⟩
    rw [hup] at hext
    exact absurd hext (by decide)

theorem readFile_of_locate {path : String} {location : Location} {content : List UInt8}
    (hlocate : y.locate path = some location) (hnode : y.tree location = some (.file content)) :
    readFile y path = some ⟨location, content⟩ := by
  rw [readFile, hlocate]
  dsimp only
  rw [hnode]

theorem stat_of_readFile {path : String} {opened : Opened} (h : readFile y path = some opened) :
    y.stat path = some (.file opened.content) := by
  unfold readFile at h
  cases hlocate : y.locate path with
  | none =>
    rw [hlocate] at h
    cases h
  | some location =>
    rw [hlocate] at h
    dsimp only at h
    split at h
    · rename_i content hnode
      obtain rfl := Option.some.inj h
      rw [System.stat, hlocate]
      exact hnode
    · cases h

/-- Where the file of an accepted request is. -/
theorem location_of_request {root : String} (hfolder : isModFolder folder = true)
    (heditable : isEditableModConfig (clean (goTrimSpace relativePath)) = true)
    (hfile : HasFile y (join [root, folder]) (clean (goTrimSpace relativePath)) maxModConfigBytes) :
    ∃ directory e content,
      readFile y (join [join [root, folder], clean (goTrimSpace relativePath)]) =
        some ⟨directory ++ [e], content⟩ ∧
      y.locate (dir (join [join [root, folder], clean (goTrimSpace relativePath)])) =
        some directory ∧
      y.entry (join [join [root, folder], clean (goTrimSpace relativePath)]) =
        some (directory ++ [e]) ∧
      (Inside y (join [root, folder]) (directory ++ [e]) ↔
        ¬ y.LeadsOut (join [root, folder]) (clean (goTrimSpace relativePath))) ∧
      (Inside y (join [root, folder]) (directory ++ [e]) →
        ∀ name, Inside y (join [root, folder]) (directory ++ [name])) := by
  obtain ⟨hbelow, hup⟩ := below_of_isEditable heditable
  obtain ⟨directory, e, content, hlocate, hnode, hentry, hdir, hinside, hbeside⟩ :=
    inside_of_hasFile (settled_modRoot hfolder) (clean_clean _) hbelow hup hfile
  exact ⟨directory, e, content, readFile_of_locate hlocate hnode, hdir, hentry, hinside, hbeside⟩

theorem readModConfig_eq_ok {fault : Option String} {opened : Opened} :
    readModConfig y cfg override folder relativePath fault = .ok opened ↔
      ∃ root, modsPath cfg override = .ok root ∧ ∃ target,
        resolveModConfig y root folder relativePath = .ok target ∧ fault = none ∧
          readFile y target = some opened := by
  simp only [readModConfig, bind_eq_ok, attempt_eq_ok, found_eq_ok]
  simp

/-- What is read is in the mod's directory, unless the request leads out. -/
theorem readModConfig_inMod_iff :
    (∀ fault opened, readModConfig y cfg override folder relativePath fault = .ok opened →
      InMod y cfg override folder opened.location) ↔
      ¬ ModEscape y cfg override folder relativePath := by
  constructor
  · -- without failures the file is read, and it is outside
    rintro h ⟨root, hroot, hfolder, heditable, hfile, hout⟩
    obtain ⟨directory, e, content, hread, -, -, hinside, -⟩ :=
      location_of_request hfolder heditable hfile
    have hok : readModConfig y cfg override folder relativePath none =
        .ok ⟨directory ++ [e], content⟩ :=
      readModConfig_eq_ok.mpr ⟨root, hroot, _,
        resolveModConfig_eq_ok.mpr ⟨hfolder, heditable, hfile, rfl⟩, rfl, hread⟩
    obtain ⟨root', hroot', hin⟩ := h none _ hok
    obtain rfl : root = root' := Except.ok.inj (hroot.symm.trans hroot')
    exact hinside.mp hin hout
  · intro h fault opened hok
    obtain ⟨root, hroot, target, htarget, -, hread⟩ := readModConfig_eq_ok.mp hok
    obtain ⟨hfolder, heditable, hfile, rfl⟩ := resolveModConfig_eq_ok.mp htarget
    obtain ⟨directory, e, content, hread', -, -, hinside, -⟩ :=
      location_of_request hfolder heditable hfile
    obtain rfl := Option.some.inj (hread.symm.trans hread')
    exact ⟨root, hroot, hinside.mpr fun hout => h ⟨root, hroot, hfolder, heditable, hfile, hout⟩⟩

theorem writeModConfig_eq_ok {content : List UInt8} {random : String} {f : WriteFaults}
    {written : Written} :
    writeModConfig y cfg override folder relativePath content random f = .ok written ↔
      content.length ≤ maxModConfigBytes ∧ ∃ root, modsPath cfg override = .ok root ∧ ∃ target,
        resolveModConfig y root folder relativePath = .ok target ∧ f.stat = none ∧
          (∃ info, y.stat target = some info) ∧ f.createTemp = none ∧ ∃ directory,
            y.locate (dir target) = some directory ∧ f.write = none ∧ f.chmod = none ∧
              f.rename = none ∧ ∃ location, y.entry target = some location ∧
                Written.mk (directory ++ [".mastermind-config-" ++ random]) location
                  (Function.update y.tree location (some (.file content))) = written := by
  simp only [writeModConfig, bind_eq_ok, check_eq_ok, attempt_eq_ok, found_eq_ok, pure_eq_ok,
    decide_eq_true_eq]
  simp

/-- No step of `writeModConfig` fails. -/
def WriteFaults.none : WriteFaults := ⟨.none, .none, .none, .none, .none⟩

/-- What is written is in the mod's directory, unless the request leads out. -/
theorem writeModConfig_inMod_iff (content : List UInt8) (random : String) :
    (∀ f written, writeModConfig y cfg override folder relativePath content random f = .ok written →
      InMod y cfg override folder written.temporary ∧
        InMod y cfg override folder written.location) ↔
      ¬ (content.length ≤ maxModConfigBytes ∧ ModEscape y cfg override folder relativePath) := by
  constructor
  · -- without failures the file is replaced, and it is outside
    rintro h ⟨hsize, root, hroot, hfolder, heditable, hfile, hout⟩
    obtain ⟨directory, e, old, hread, hdir, hentry, hinside, -⟩ :=
      location_of_request hfolder heditable hfile
    have hok : writeModConfig y cfg override folder relativePath content random WriteFaults.none =
        .ok ⟨directory ++ [".mastermind-config-" ++ random], directory ++ [e],
          Function.update y.tree (directory ++ [e]) (some (.file content))⟩ :=
      writeModConfig_eq_ok.mpr ⟨hsize, root, hroot, _,
        resolveModConfig_eq_ok.mpr ⟨hfolder, heditable, hfile, rfl⟩, rfl,
        ⟨_, stat_of_readFile hread⟩, rfl, directory, hdir, rfl, rfl, rfl, _, hentry, rfl⟩
    obtain ⟨-, root', hroot', hin⟩ := h _ _ hok
    obtain rfl : root = root' := Except.ok.inj (hroot.symm.trans hroot')
    exact hinside.mp hin hout
  · intro h f written hok
    obtain ⟨hsize, root, hroot, target, htarget, -, -, -, directory, hdir, -, -, -, location,
      hlocation, rfl⟩ := writeModConfig_eq_ok.mp hok
    obtain ⟨hfolder, heditable, hfile, rfl⟩ := resolveModConfig_eq_ok.mp htarget
    obtain ⟨directory', e, old, -, hdir', hentry, hinside, hbeside⟩ :=
      location_of_request hfolder heditable hfile
    obtain rfl := Option.some.inj (hdir.symm.trans hdir')
    obtain rfl := Option.some.inj (hlocation.symm.trans hentry)
    have hin : Inside y (join [root, folder]) (directory ++ [e]) :=
      hinside.mpr fun hout => h ⟨hsize, root, hroot, hfolder, heditable, hfile, hout⟩
    exact ⟨⟨root, hroot, hbeside hin _⟩, root, hroot, hin⟩

end Mods

section Profiles

variable {y : System} {savesPath relative : String}

/-- A profile is accepted, and the last link on the way to it leads out of the directory of the
saves. -/
def ProfileEscape (y : System) (savesPath relative : String) : Prop :=
  (clean (goTrimSpace savesPath) ≠ "." ∧ isAbs (clean (goTrimSpace savesPath)) = true) ∧
    (isBelow (clean (goTrimSpace relative)) = true ∧
      equalFold (ext (clean (goTrimSpace relative))) ".ttp" = true) ∧
    equalFold (base (dir (join [clean (goTrimSpace savesPath), clean (goTrimSpace relative)])))
      "player" = true ∧
    HasFile y (clean (goTrimSpace savesPath)) (clean (goTrimSpace relative)) maxProfileEditorBytes ∧
    y.LeadsOut (clean (goTrimSpace savesPath)) (clean (goTrimSpace relative))

theorem configuredSavesPath_eq_ok {root : String} :
    configuredSavesPath y savesPath = .ok root ↔
      (clean (goTrimSpace savesPath) ≠ "." ∧ isAbs (clean (goTrimSpace savesPath)) = true) ∧
        y.lstat (clean (goTrimSpace savesPath)) = some .folder ∧
          clean (goTrimSpace savesPath) = root := by
  simp only [configuredSavesPath, bind_eq_ok, check_eq_ok, found_eq_ok, pure_eq_ok,
    decide_eq_true_eq, Bool.and_eq_true]
  constructor
  · rintro ⟨-, hpath, _, hreal, -, rfl, hroot⟩
    exact ⟨hpath, hreal, hroot⟩
  · rintro ⟨hpath, hreal, hroot⟩
    exact ⟨(), hpath, _, hreal, (), rfl, hroot⟩

theorem readPlayerProfile_eq_ok {fault : Option String} {profile : PlayerProfile} {opened : Opened} :
    readPlayerProfile y savesPath relative fault = .ok (profile, opened) ↔
      ∃ root, configuredSavesPath y savesPath = .ok root ∧
        (isBelow (clean (goTrimSpace relative)) = true ∧
          equalFold (ext (clean (goTrimSpace relative))) ".ttp" = true) ∧
        equalFold (base (dir (join [root, clean (goTrimSpace relative)]))) "player" = true ∧
        ∃ content, y.lstat (join [root, clean (goTrimSpace relative)]) = some (.file content) ∧
          content.length ≤ maxProfileEditorBytes ∧ fault = none ∧
            readFile y (join [root, clean (goTrimSpace relative)]) = some opened ∧
              describeProfile (clean (goTrimSpace relative)) content.length = profile := by
  simp only [readPlayerProfile, bind_eq_ok, check_eq_ok, attempt_eq_ok, found_eq_ok, pure_eq_ok,
    decide_eq_true_eq, Bool.and_eq_true, Prod.mk.injEq]
  constructor
  · rintro ⟨root, hroot, -, hpath, info, hinfo, size, hsize, -, hlimit, -, hfault, _, hread, hprofile,
      rfl⟩
    split_ifs at hsize with hplayer
    obtain ⟨content, rfl, rfl⟩ := regularSize_eq_some.mp hsize
    exact ⟨root, hroot, hpath, hplayer, content, hinfo, hlimit, hfault, hread, hprofile⟩
  · rintro ⟨root, hroot, hpath, hplayer, content, hinfo, hlimit, hfault, hread, hprofile⟩
    refine ⟨root, hroot, (), hpath, _, hinfo, content.length, ?_, (), hlimit, (), hfault, _, hread,
      hprofile, rfl⟩
    rw [if_pos hplayer]
    rfl

/-- What is read is in the directory of the saves, unless the request leads out. -/
theorem readPlayerProfile_inside_iff :
    (∀ fault profile opened, readPlayerProfile y savesPath relative fault = .ok (profile, opened) →
      Inside y (clean (goTrimSpace savesPath)) opened.location) ↔
      ¬ ProfileEscape y savesPath relative := by
  have hlocation : clean (goTrimSpace savesPath) ≠ "." →
      isBelow (clean (goTrimSpace relative)) = true →
      equalFold (ext (clean (goTrimSpace relative))) ".ttp" = true →
      HasFile y (clean (goTrimSpace savesPath)) (clean (goTrimSpace relative))
        maxProfileEditorBytes →
      ∃ opened,
        readFile y (join [clean (goTrimSpace savesPath), clean (goTrimSpace relative)]) =
          some opened ∧
        (Inside y (clean (goTrimSpace savesPath)) opened.location ↔
          ¬ y.LeadsOut (clean (goTrimSpace savesPath)) (clean (goTrimSpace relative))) := by
    intro hdot hbelow hext hfile
    have hup : clean (goTrimSpace relative) ≠ ".." := by
      intro hup
      rw [hup] at hext
      exact absurd hext (by decide)
    obtain ⟨directory, e, content, hlocate, hnode, -, -, hinside, -⟩ :=
      inside_of_hasFile (settled_savesPath hdot) (clean_clean _) hbelow hup hfile
    exact ⟨⟨directory ++ [e], content⟩, readFile_of_locate hlocate hnode, hinside⟩
  constructor
  · rintro h ⟨hpath, ⟨hbelow, hext⟩, hplayer, hfile, hout⟩
    obtain ⟨opened, hread, hinside⟩ := hlocation hpath.1 hbelow hext hfile
    obtain ⟨hreal, content, hlstat, hsize⟩ := hfile
    have hok := readPlayerProfile_eq_ok.mpr ⟨_, configuredSavesPath_eq_ok.mpr ⟨hpath, hreal, rfl⟩,
      ⟨hbelow, hext⟩, hplayer, content, hlstat, hsize, rfl, hread, rfl⟩
    exact hinside.mp (h none _ _ hok) hout
  · intro h fault profile opened hok
    obtain ⟨_, hroot, ⟨hbelow, hext⟩, hplayer, content, hlstat, hsize, -, hread, -⟩ :=
      readPlayerProfile_eq_ok.mp hok
    obtain ⟨hpath, hreal, rfl⟩ := configuredSavesPath_eq_ok.mp hroot
    have hfile : HasFile y (clean (goTrimSpace savesPath)) (clean (goTrimSpace relative))
        maxProfileEditorBytes := ⟨hreal, content, hlstat, hsize⟩
    obtain ⟨opened', hread', hinside⟩ := hlocation hpath.1 hbelow hext hfile
    obtain rfl := Option.some.inj (hread.symm.trans hread')
    exact hinside.mpr fun hout => h ⟨hpath, ⟨hbelow, hext⟩, hplayer, hfile, hout⟩

end Profiles

/-- A mod whose directory `Config` is a link to the directory of another program. -/
def linkedConfig : System where
  tree location :=
    if location = ["srv", "Mods", "Better", "Config"] then some (.link "/etc/other")
    else if location = ["etc", "other", "settings.xml"] then some (.file [60, 97, 47, 62])
    else if location ∈ [[], ["srv"], ["srv", "Mods"], ["srv", "Mods", "Better"], ["etc"],
        ["etc", "other"]] then some .folder
    else none
  cwd := []
  maxLinks := 40

end Mastermind.Agent.Access
