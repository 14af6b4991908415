import Mastermind.Agent.Adapter
import Mastermind.Platform.Relative

/-!
# The folder of a save

`resolveLiveSave` finds the directory of the save that a configuration names, and checks that it is
below `Saves`. A world or a game may be `..`, and the check lets the parent of `Saves` through: what
is accepted is strictly below `Saves`, or it is the whole directory of the user's data
(`savePath_cases`).

A save is deleted by `wipe-7dtd-save.py`, which resolves `Saves` once more and compares the elements
of the paths. The path that it deletes is strictly below `Saves` (`wipeScript_below`); whether a
directory on the way is a link, it does not ask.
-/

namespace Mastermind.Agent.SaveFolder

open Mastermind.Path

variable {cfg : InstanceConfig} {properties : List (String × String)} {target : String}

/-! ## The agent -/

/-- The directory of the user's data. -/
def userData (cfg : InstanceConfig) (properties : List (String × String)) : String :=
  if property properties "UserDataFolder" = "" then join [dir cfg.installPath, "userdata"]
  else property properties "UserDataFolder"

/-- The directory of the saves. -/
def savesRoot (cfg : InstanceConfig) (properties : List (String × String)) : String :=
  clean (join [userData cfg properties, "Saves"])

/-- The name of a world or a game that is accepted. -/
def IsName (name : String) : Prop := name ≠ "" ∧ base name = name

/-- When a directory is accepted. -/
theorem savePath_eq_ok : savePath cfg properties = .ok target ↔
    IsName (property properties "GameWorld") ∧ IsName (property properties "GameName") ∧
      target = clean (join [savesRoot cfg properties, property properties "GameWorld",
        property properties "GameName"]) ∧
        ∃ r, rel (savesRoot cfg properties) target = some r ∧ looksBelow r = true := by
  unfold savePath savesRoot userData IsName
  dsimp only
  generalize clean (join [if property properties "UserDataFolder" = "" then
      join [dir cfg.installPath, "userdata"]
    else property properties "UserDataFolder", "Saves"]) = root
  generalize property properties "GameWorld" = world
  generalize property properties "GameName" = game
  by_cases hnames : world = "" ∨ game = "" ∨ base world ≠ world ∨ base game ≠ game
  · rw [if_pos hnames]
    refine iff_of_false (by simp) ?_
    rintro ⟨⟨_, _⟩, ⟨_, _⟩, -⟩
    rcases hnames with h | h | h | h <;> contradiction
  · rw [if_neg hnames]
    simp only [not_or, not_not] at hnames
    obtain ⟨hworld, hgame, hworldBase, hgameBase⟩ := hnames
    cases hrel : rel root (clean (join [root, world, game])) with
    | none =>
      refine iff_of_false (by simp) ?_
      rintro ⟨-, -, rfl, r, hr, -⟩
      exact absurd (hrel.symm.trans hr) (by simp)
    | some r =>
      have hlooks : looksBelow r = true ↔
          ¬(r = "." ∨ "../".toList.isPrefixOf r.toList = true ∨ isAbs r = true) := by
        simp only [looksBelow, Bool.not_eq_true', Bool.or_eq_false_iff, decide_eq_false_iff_not,
          not_or, Bool.not_eq_true, and_assoc]
      dsimp only
      split_ifs with hout
      · refine iff_of_false (by simp) ?_
        rintro ⟨-, -, rfl, r', hr, hbelow⟩
        obtain rfl := Option.some.inj (hrel.symm.trans hr)
        exact hlooks.mp hbelow hout
      · constructor
        · intro h
          obtain rfl := Except.ok.inj h
          exact ⟨⟨hworld, hworldBase⟩, ⟨hgame, hgameBase⟩, rfl, r, hrel, hlooks.mpr hout⟩
        · rintro ⟨-, -, rfl, -⟩
          rfl

/-- A name is a plain text, or the root. -/
theorem elements_of_isName {name : String} (h : IsName name) :
    name = "/" ∧ elements name = [] ∨ Plain name ∧ elements name = [name] := by
  obtain ⟨hne, hbase⟩ := h
  unfold base at hbase
  rw [if_neg hne] at hbase
  cases hlast : (elements name).getLast? with
  | none =>
    rw [hlast] at hbase
    exact .inl ⟨hbase.symm, List.getLast?_eq_none_iff.mp hlast⟩
  | some last =>
    rw [hlast] at hbase
    obtain rfl : last = name := hbase
    have hplain : Plain last := plain_of_mem_elements (List.mem_of_getLast? hlast)
    exact .inr ⟨hplain, elements_plain hplain⟩

/-- The directory of the saves by its names. -/
theorem exists_names (habs : isAbs (userData cfg properties) = true) :
    ∃ ns, (∀ n ∈ ns ++ ["Saves"], Normal n) ∧ clean (userData cfg properties) = ofNames ns ∧
      savesRoot cfg properties = ofNames (ns ++ ["Saves"]) := by
  have hsaves : ∀ n ∈ ["Saves"], Normal n := by
    intro n hn
    rw [List.mem_singleton.mp hn]
    exact ⟨⟨by decide, by decide⟩, by decide, by decide⟩
  obtain ⟨ns, hns, hclean, hjoin⟩ := join_rooted habs hsaves
  have hnormal : ∀ n ∈ ns ++ ["Saves"], Normal n := by
    intro n hn
    rcases List.mem_append.mp hn with hn | hn
    · exact hns n hn
    · exact hsaves n hn
  refine ⟨ns, hnormal, hclean, ?_⟩
  rw [String.intercalate_singleton] at hjoin
  unfold savesRoot
  rw [hjoin]
  exact clean_ofNames hnormal

variable {es : List String}

/-- Two names after a path of names. -/
theorem clean_slashes (hes : ∀ e ∈ es, Normal e) (world game : String) :
    clean (ofNames es ++ "/" ++ world ++ "/" ++ game) =
      ofNames ((elements world ++ elements game).foldl (descend true) es) := by
  have habs : isAbs (ofNames es ++ "/" ++ world ++ "/" ++ game) = true := by
    rw [isAbs_slash (by simp), isAbs_slash (ofNames_ne_empty hes), isAbs_ofNames hes]
  unfold clean
  rw [habs, elements_append, elements_append, elements_ofNames hes, List.append_assoc,
    List.foldl_append, (settled_of_normal hes).fixed]
  rfl

/-- Two names joined to a path of names. -/
theorem clean_join (hes : ∀ e ∈ es, Normal e) (world game : String) :
    clean (join [ofNames es, world, game]) =
      ofNames ((elements world ++ elements game).foldl (descend true) es) := by
  have hjoin : join [ofNames es, world, game] =
      clean (ofNames es ++ "/" ++ world ++ "/" ++ game) := by
    unfold join
    rw [List.dropWhile_cons_of_neg (by simpa using ofNames_ne_empty hes)]
    simp [String.intercalate_cons_cons, String.intercalate_singleton, String.append_assoc]
  rw [hjoin, clean_clean, clean_slashes hes]

/-- Each name leads at most one down, and only `..` leads up. -/
theorem length_descend (hes : ∀ e ∈ es, Normal e) {name : String} (h : IsName name) :
    ((elements name).foldl (descend true) es).length ≤ es.length + 1 ∧
      (name = ".." → ((elements name).foldl (descend true) es).length = es.length - 1) ∧
      (name ≠ ".." → es.length ≤ ((elements name).foldl (descend true) es).length) := by
  rcases elements_of_isName h with ⟨rfl, helements⟩ | ⟨-, helements⟩
  · rw [helements]
    exact ⟨Nat.le_succ _, fun hdots => absurd hdots (by decide), fun _ => le_rfl⟩
  · rw [helements, List.foldl_cons, List.foldl_nil, descend]
    by_cases hdot : name = "."
    · rw [if_pos hdot]
      exact ⟨Nat.le_succ _, fun hdots => absurd (hdot.symm.trans hdots) (by decide),
        fun _ => le_rfl⟩
    rw [if_neg hdot]
    by_cases hdots : name = ".."
    · -- `..` takes back the last name, if there is one
      rw [if_pos hdots]
      cases hlast : es.getLast? with
      | none =>
        rw [List.getLast?_eq_none_iff.mp hlast]
        exact ⟨Nat.zero_le _, fun _ => rfl, fun hne => absurd hdots hne⟩
      | some last =>
        have hne : last ≠ ".." := (hes last (List.mem_of_getLast? hlast)).2.2
        dsimp only
        rw [if_neg hne, List.length_dropLast]
        exact ⟨by omega, fun _ => rfl, fun hne => absurd hdots hne⟩
    · rw [if_neg hdots, List.length_append, List.length_singleton]
      exact ⟨le_rfl, fun heq => absurd heq hdots, fun _ => Nat.le_succ _⟩

/-- **Below `Saves`, or all of the user's data.** What is accepted, where the directory of the
user's data is given from the root. -/
theorem savePath_cases (habs : isAbs (userData cfg properties) = true)
    (h : savePath cfg properties = .ok target) :
    Below (savesRoot cfg properties) target ∧ property properties "GameWorld" ≠ ".." ∧
        property properties "GameName" ≠ ".." ∨
      target = clean (userData cfg properties) ∧ (property properties "GameWorld" = ".." ∨
        property properties "GameName" = "..") := by
  obtain ⟨hworld, hgame, htarget, hrel⟩ := savePath_eq_ok.mp h
  obtain ⟨ns, hes, hdata, hroot⟩ := exists_names habs
  have hplain : ∀ path, ∀ e ∈ elements path, Plain e := fun _ _ he => plain_of_mem_elements he
  have hworldNormal := normal_of_rooted (hplain (property properties "GameWorld")) hes
  have hnormal := normal_of_rooted (hplain (property properties "GameName")) hworldNormal
  obtain ⟨hworldMost, hworldUp, hworldDown⟩ := length_descend hes hworld
  obtain ⟨hgameMost, hgameUp, hgameDown⟩ := length_descend hworldNormal hgame
  rw [hroot, clean_join hes, List.foldl_append] at htarget
  rw [hroot, htarget, looksBelow_iff hes hnormal] at hrel
  have hlength : (ns ++ ["Saves"]).length = ns.length + 1 := by simp
  -- below `Saves` there are more names than in it, in its parent fewer: `..` cannot be in the
  -- first, and must be in the second
  rcases hrel with ⟨names, hne, hnames⟩ | ⟨e, he⟩
  · left
    have hlonger := congrArg List.length hnames
    have hsome := List.length_pos_iff.mpr hne
    rw [List.length_append] at hlonger
    refine ⟨?_, fun hdots => ?_, fun hdots => ?_⟩
    · rw [hroot, htarget]
      exact (below_ofNames hes hnormal).mpr ⟨names, hne, hnames⟩
    · have hup := hworldUp hdots
      omega
    · have hup := hgameUp hdots
      omega
  · right
    have hparent := (List.append_inj' he rfl).1
    refine ⟨by rw [htarget, hdata, ← hparent], ?_⟩
    by_contra hneither
    rw [not_or] at hneither
    have hworldLength := hworldDown hneither.1
    have hgameLength := hgameDown hneither.2
    have hsame := congrArg List.length hparent
    omega

/-- A configuration whose world is above `Saves`. -/
def dots : List (String × String) :=
  [("UserDataFolder", "/opt/7dtd/userdata"), ("GameWorld", ".."), ("GameName", ".")]

/-- The server of the configuration. -/
def dotsConfig : InstanceConfig := ⟨"/opt/7dtd/server", false⟩

/-- All of the user's data is accepted as a save. -/
theorem savePath_cases_dots : savePath dotsConfig dots = .ok "/opt/7dtd/userdata" ∧
    "/opt/7dtd/userdata" = clean (userData dotsConfig dots) := by
  have haccepted : savePath dotsConfig dots = .ok "/opt/7dtd/userdata" := by decide +kernel
  refine ⟨haccepted, ?_⟩
  rcases savePath_cases (by decide +kernel) haccepted with ⟨-, hworld, -⟩ | ⟨hparent, -⟩
  · exact absurd (by decide +kernel) hworld
  · exact hparent

/-! ## The script -/

/-- What the script asks the system. -/
structure Host where
  realpath : String → String
  isLink : String → Bool
  isDir : String → Bool

/-- `os.path.basename`. -/
def basename (path : String) : String :=
  String.ofList (path.toList.reverse.takeWhile (· ≠ '/')).reverse

/-- The names that two lists begin with. -/
def commonNames : List String → List String → List String
  | a :: as, b :: bs => if a = b then a :: commonNames as bs else []
  | _, _ => []

/-- `os.path.commonpath` of two paths from the root. -/
def commonpath (a b : String) : String := ofNames (commonNames (elements a) (elements b))

/-- Where the script looks for the saves of a configuration. -/
def Host.savesRoot (host : Host) (properties : String → String) (configPath : String) : String :=
  let userData :=
    if properties "UserDataFolder" = "" then dir (host.realpath configPath) ++ "/userdata"
    else properties "UserDataFolder"
  host.realpath (userData ++ "/Saves")

/-- What is added to the name of a save that is put aside. -/
def rollbackSuffix : String := ".mastermind-restore-old"

/-- `wipe-7dtd-save.py`: the directory that it deletes. `requested` is the path that it is given, as
`os.path.abspath` has it. -/
def wipeScript (host : Host) (properties : String → String) (configPath requested : String) :
    Except String String :=
  let world := properties "GameWorld"
  let game := properties "GameName"
  if world = "" ∨ game = "" ∨ basename world ≠ world ∨ basename game ≠ game then
    .error "unsafe GameWorld or GameName"
  else
    let savesRoot := host.savesRoot properties configPath
    -- both names are plain, so that `os.path.join` only puts separators
    let resolved := clean (savesRoot ++ "/" ++ world ++ "/" ++ game)
    if commonpath savesRoot resolved ≠ savesRoot ∨ resolved = savesRoot then
      .error "resolved save is outside Saves"
    else if requested ∉ [resolved, resolved ++ rollbackSuffix] then
      .error "requested path does not match the configured save or its restore rollback directory"
    else if host.isLink resolved then .error "save path must not be a symlink"
    else if !host.isDir requested then .error "requested save directory does not exist"
    else .ok requested

theorem exists_of_commonNames {fs : List String} (h : commonNames es fs = es) :
    ∃ names, fs = es ++ names := by
  induction es generalizing fs with
  | nil => exact ⟨fs, rfl⟩
  | cons e es ih =>
    cases fs with
    | nil => exact absurd h (by simp [commonNames])
    | cons f fs =>
      unfold commonNames at h
      split_ifs at h with hef
      obtain ⟨names, rfl⟩ := ih (List.cons.inj h).2
      exact ⟨names, by rw [hef, List.cons_append]⟩

theorem commonNames_begins (es fs : List String) : commonNames es fs <+: es := by
  induction es generalizing fs with
  | nil => exact List.nil_prefix
  | cons e es ih =>
    cases fs with
    | nil => exact List.nil_prefix
    | cons f fs =>
      unfold commonNames
      split_ifs
      · exact List.cons_prefix_cons.mpr ⟨rfl, ih fs⟩
      · exact List.nil_prefix

theorem normal_rollback (name : String) (h : Normal name) : Normal (name ++ rollbackSuffix) := by
  have hlong : ∀ s : String, s.length < 3 → name ++ rollbackSuffix ≠ s := by
    rintro s hs rfl
    rw [String.length_append, show rollbackSuffix.length = 23 by decide] at hs
    omega
  refine ⟨⟨hlong "" (by decide), fun hmem => ?_⟩, hlong "." (by decide), hlong ".." (by decide)⟩
  rw [String.toList_append, List.mem_append] at hmem
  rcases hmem with hmem | hmem
  · exact h.1.2 hmem
  · exact absurd hmem (by decide)

/-- **The script deletes saves only.** The path that it deletes is strictly below the saves of the
configuration, by its names. -/
theorem wipeScript_below {host : Host} {properties : String → String}
    {configPath requested deleted : String}
    (hreal : ∀ path, ∃ es, (∀ e ∈ es, Normal e) ∧ host.realpath path = ofNames es)
    (h : wipeScript host properties configPath requested = .ok deleted) :
    Below (host.savesRoot properties configPath) deleted := by
  obtain ⟨es, hes, hroot⟩ : ∃ es, (∀ e ∈ es, Normal e) ∧
      host.savesRoot properties configPath = ofNames es := hreal _
  have hplain : ∀ e ∈ elements (properties "GameWorld") ++ elements (properties "GameName"),
      Plain e := fun e he =>
    (List.mem_append.mp he).elim plain_of_mem_elements plain_of_mem_elements
  have hnormal := normal_of_rooted hplain hes
  unfold wipeScript at h
  dsimp only at h
  rw [hroot, clean_slashes hes] at h
  split_ifs at h with hnames houtside hrequested hlink hdir
  rw [not_or, not_not] at houtside
  have hcommon : commonNames es ((elements (properties "GameWorld") ++
      elements (properties "GameName")).foldl (descend true) es) = es := by
    have hpaths := houtside.1
    unfold commonpath at hpaths
    rw [elements_ofNames hes, elements_ofNames hnormal] at hpaths
    exact ofNames_inj (fun e he => hes e ((commonNames_begins _ _).subset he)) hes hpaths
  obtain ⟨names, hfold⟩ := exists_of_commonNames hcommon
  have hbelow : Below (ofNames es) (ofNames ((elements (properties "GameWorld") ++
      elements (properties "GameName")).foldl (descend true) es)) := by
    refine (below_ofNames hes hnormal).mpr ⟨names, ?_, hfold⟩
    rintro rfl
    rw [hfold, List.append_nil] at houtside
    exact houtside.2 rfl
  obtain rfl := Except.ok.inj h
  rw [hroot]
  rw [List.mem_cons, List.mem_singleton] at hrequested
  -- the save itself, or what was put aside beside it
  rcases hrequested with rfl | rfl
  · exact hbelow
  · exact hbelow.of_suffix normal_rollback

/-- A system without links, where every directory exists. -/
def plainHost : Host := ⟨fun path => clean ("/" ++ path), fun _ => false, fun _ => true⟩

/-- The properties of a save. -/
def builder (name : String) : String :=
  if name = "GameWorld" then "Rotterdam" else if name = "GameName" then "Builder" else ""

theorem plainHost_realpath (path : String) :
    ∃ es, (∀ e ∈ es, Normal e) ∧ plainHost.realpath path = ofNames es := by
  have habs : isAbs ("/" ++ path) = true := by
    unfold isAbs
    simp
  refine ⟨(elements ("/" ++ path)).foldl (descend true) [], ?_, ?_⟩
  · exact normal_of_rooted (fun _ he => plain_of_mem_elements he)
      fun _ he => absurd he List.not_mem_nil
  · change clean ("/" ++ path) = _
    rw [clean, habs]
    rfl

/-- The rollback of the save is deleted. -/
theorem wipeScript_below_rollback :
    Below (plainHost.savesRoot builder "/opt/7dtd/serverconfig.xml")
      "/opt/7dtd/userdata/Saves/Rotterdam/Builder.mastermind-restore-old" :=
  wipeScript_below
    plainHost_realpath
    (by decide +kernel :
      wipeScript plainHost builder "/opt/7dtd/serverconfig.xml"
        "/opt/7dtd/userdata/Saves/Rotterdam/Builder.mastermind-restore-old" =
        .ok "/opt/7dtd/userdata/Saves/Rotterdam/Builder.mastermind-restore-old")

end Mastermind.Agent.SaveFolder
