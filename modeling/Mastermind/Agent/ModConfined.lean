import Mastermind.Agent.ModInstall
import Mastermind.Platform.CleanPath

/-!
# Where the files of a mod archive go

The extraction loop of `installUploadedModsToQuarantine` again, now as the files that it creates,
also when it fails (`created`). A name that the validation accepts is clean and leads nowhere up, so
that the target of an entry is below the folder of its root (`join_target`); a target that has been
written is not written again; and the first root to which an entry belongs takes it.

The roots are sorted before they are compared, and a text that begins with `-` or another character
below `.` sorts before the root `.`, which is then not the only root. An entry with the name of such
a root belongs to it, but is not below it, and goes nowhere, although it is below `.`.
-/

namespace Mastermind.Agent.ModInstall

open ModArchive

/-- A file that the extraction creates: its entry, the root that takes it, and its path. -/
structure Created where
  entry : ZipEntry × String
  root : String
  target : String

/-- The staging directory of a root. -/
def targetRoot (upload : Upload) (root : String) : String :=
  Path.join [upload.stagingRoot, deriveFolder upload.originalName root]

/-- The files that `extract` creates, also if it fails. -/
def created (faults : FileCall → Bool) (upload : Upload) (roots : List String) :
    List (ZipEntry × String) → List String → List Created
  | [], _ => []
  | (entry, clean) :: rest, writtenPaths =>
    match placement roots clean with
    | none => created faults upload roots rest writtenPaths
    | some (root, relative) =>
      let target := Path.join [targetRoot upload root, relative]
      if target ≠ targetRoot upload root ∧
          hasPrefix target (targetRoot upload root ++ "/") = false then []
      else if target ∈ writtenPaths then []
      else if faults (.makeFolders target) then []
      else if isDir entry = true then created faults upload roots rest (writtenPaths ++ [target])
      else if faults (.openEntry target) || faults (.create target) then []
      else if faults (.copy target) || entry.content.length ≠ entry.size then
        [⟨(entry, clean), root, target⟩]
      else ⟨(entry, clean), root, target⟩ ::
        created faults upload roots rest (writtenPaths ++ [target])

/-- The loop over the entries passes the entry over. -/
def isSkipped (entry : ZipEntry) : Bool := trimSuffix entry.name "/" = "" && isDir entry

/-- The totals that the loop over the entries computes, also if it fails. -/
def totals : List ZipEntry → ℕ → List ℕ
  | [], _ => []
  | entry :: rest, expandedBytes =>
    let name := trimSuffix entry.name "/"
    if isSkipped entry then totals rest expandedBytes
    else if isUnsafe entry name (Path.clean name) then []
    else if entry.symlink then []
    else if maxModArchiveExpandedBytes < entry.size then []
    else if maxModArchiveExpandedBytes < expandedBytes + entry.size then
      [expandedBytes + entry.size]
    else (expandedBytes + entry.size) :: totals rest (expandedBytes + entry.size)

/-- What the entries declare to expand to. -/
def declared (entries : List ZipEntry) : ℕ := (entries.map ZipEntry.size).sum

/-- The entry with the clean name is below the root. -/
def StrictlyBelow (clean root : String) : Prop :=
  root = "." ∨ hasPrefix clean (root ++ "/") = true

/-- The extraction of an accepted archive creates files below the folders of the roots only, no two
at one path; if it succeeds, every regular entry below a root has been written once; and the declared
sizes add up to at most 2 GiB, with totals that an `int64` can hold. -/
structure ExtractsSafely (upload : Upload) (cleanNames : List (ZipEntry × String))
    (roots : List String) : Prop where
  confined : ∀ (faults : FileCall → Bool) (q : Quarantine) (order : MapOrder) (folders : List String),
    makeFolders faults q upload.originalName roots [] = .ok folders →
      ∀ y ∈ created faults upload roots (order.visit cleanNames) [],
        (y.root ∈ roots ∧ StrictlyBelow y.entry.2 y.root) ∧
          (∃ relative, relative ≠ "" ∧ y.target = targetRoot upload y.root ++ "/" ++ relative) ∧
            ".." ∉ Path.elements y.target
  once : ∀ (faults : FileCall → Bool) (order : MapOrder),
    ((created faults upload roots (order.visit cleanNames) []).map Created.target).Nodup
  complete : ∀ (faults : FileCall → Bool) (q : Quarantine) (order : MapOrder) (folders : List String)
    (files : List (String × String × List UInt8)),
    makeFolders faults q upload.originalName roots [] = .ok folders →
      extract faults upload roots (order.visit cleanNames) [] = .ok files →
        ∀ x ∈ cleanNames, isDir x.1 = false → (∃ root ∈ roots, StrictlyBelow x.2 root) →
          ∃! y, y ∈ created faults upload roots (order.visit cleanNames) [] ∧ y.entry = x
  sizes : declared upload.entries ≤ maxModArchiveExpandedBytes
  bounded : ∀ total ∈ totals upload.entries 0, total < 2 ^ 63

/-- Where an entry is extracted to. -/
def targetOf (upload : Upload) (roots : List String) (clean : String) : Option String :=
  (placement roots clean).map fun p => Path.join [targetRoot upload p.1, p.2]

/-- Unless a call fails, the archive is extracted: the folders of the roots are different ones, no
two entries go to one path, and every content is as long as its entry declares. -/
structure Extractable (upload : Upload) (cleanNames : List (ZipEntry × String))
    (roots : List String) : Prop where
  folders : ∀ root ∈ roots, isModFolder (deriveFolder upload.originalName root) = true
  different : (roots.map fun root => lower (deriveFolder upload.originalName root)).Nodup
  targets : (cleanNames.filterMap fun x => targetOf upload roots x.2).Nodup
  whole : ∀ x ∈ cleanNames, isDir x.1 = false → (placement roots x.2).isSome = true →
    x.1.content.length = x.1.size

/-- If the archive itself is a root, no regular entry has the name of another root, or the archive
cannot be extracted; and the entries that are passed over declare no more than what the others leave
of the limit. -/
structure Ordinary (upload : Upload) (cleanNames : List (ZipEntry × String)) (roots : List String) :
    Prop where
  apart : Extractable upload cleanNames roots → "." ∈ roots →
    ∀ x ∈ cleanNames, isDir x.1 = false → x.2 ∉ roots
  skipped : declared (upload.entries.filter isSkipped) ≤
    maxModArchiveExpandedBytes - declared (upload.entries.filter fun entry => !isSkipped entry)

section Validation

/-- A relative path of normal elements. -/
def NormalPath (p : String) : Prop :=
  ∃ es, es ≠ [] ∧ (∀ e ∈ es, Path.Normal e) ∧ p = "/".intercalate es

/-- A safe name is a path of normal elements. -/
theorem normalPath_of_safe {entry : ZipEntry} {name : String}
    (h : isUnsafe entry name (Path.clean name) = false) :
    NormalPath (Path.clean name) := by
  unfold isUnsafe at h
  simp only [Bool.or_eq_false_iff, decide_eq_false_iff_not, ne_eq, not_not] at h
  obtain ⟨⟨⟨⟨⟨⟨⟨hempty, -⟩, habs⟩, hdot⟩, hdots⟩, hup⟩, hclean⟩, -⟩ := h
  rw [hclean] at hdot hdots hup ⊢
  have hup' : ¬"../".toList <+: name.toList := by
    intro hbegins
    rw [hasPrefix, List.isPrefixOf_iff_prefix.mpr hbegins] at hup
    cases hup
  exact Path.exists_normal_of_clean hclean habs hdot hdots hup'

/-- What the loop over the entries accepts. -/
theorem checkEntries_spec {entries : List ZipEntry} {expandedBytes : ℕ}
    {named named' : List (ZipEntry × String)} {rootSet rootSet' : List String}
    (h : checkEntries entries expandedBytes named rootSet = .ok (named', rootSet'))
    (hnamed : ∀ x ∈ named, NormalPath x.2) (hle : expandedBytes ≤ maxModArchiveExpandedBytes) :
    (∀ x ∈ named', NormalPath x.2) ∧
      expandedBytes + declared (entries.filter fun entry => !isSkipped entry) ≤
        maxModArchiveExpandedBytes := by
  induction entries generalizing expandedBytes named rootSet with
  | nil =>
    obtain ⟨rfl, rfl⟩ := Prod.mk.inj (Except.ok.inj h)
    exact ⟨hnamed, hle⟩
  | cons entry rest ih =>
    unfold checkEntries at h
    dsimp only at h
    by_cases hskip : isSkipped entry = true
    · have hcond : (trimSuffix entry.name "/" = "" && isDir entry) = true := hskip
      rw [if_pos hcond] at h
      rw [List.filter_cons_of_neg (by simp [hskip])]
      exact ih h hnamed hle
    have hcond : ¬(trimSuffix entry.name "/" = "" && isDir entry) = true := hskip
    rw [if_neg hcond] at h
    rw [List.filter_cons_of_pos (by simp [hskip])]
    by_cases hunsafe : isUnsafe entry (trimSuffix entry.name "/")
        (Path.clean (trimSuffix entry.name "/")) = true
    · rw [if_pos hunsafe] at h
      exact absurd h (by simp)
    rw [if_neg hunsafe] at h
    by_cases hlink : entry.symlink = true
    · rw [if_pos hlink] at h
      exact absurd h (by simp)
    rw [if_neg hlink] at h
    by_cases hlarge : maxModArchiveExpandedBytes < entry.size
    · rw [if_pos hlarge] at h
      exact absurd h (by simp)
    rw [if_neg hlarge] at h
    by_cases htotal : maxModArchiveExpandedBytes < expandedBytes + entry.size
    · rw [if_pos htotal] at h
      exact absurd h (by simp)
    rw [if_neg htotal] at h
    have hnext : ∀ x ∈ named ++ [(entry, Path.clean (trimSuffix entry.name "/"))],
        NormalPath x.2 := by
      intro x hx
      rcases List.mem_append.mp hx with hx | hx
      · exact hnamed x hx
      · rw [List.mem_singleton.mp hx]
        exact normalPath_of_safe (Bool.not_eq_true _ ▸ hunsafe)
    obtain ⟨hall, hsum⟩ := ih h hnext (not_lt.mp htotal)
    refine ⟨hall, ?_⟩
    unfold declared at hsum ⊢
    rw [List.map_cons, List.sum_cons, ← Nat.add_assoc]
    exact hsum

/-- No total leaves the range of an `int64`: an entry that is too large is not added, and the total
of accepted entries is at most the limit. -/
theorem totals_lt {entries : List ZipEntry} {expandedBytes : ℕ}
    (hle : expandedBytes ≤ maxModArchiveExpandedBytes) :
    ∀ total ∈ totals entries expandedBytes, total < 2 ^ 63 := by
  have hsmall {a b : ℕ} (ha : a ≤ maxModArchiveExpandedBytes) (hb : b ≤ maxModArchiveExpandedBytes) :
      a + b < 2 ^ 63 := by
    unfold maxModArchiveExpandedBytes at ha hb
    omega
  induction entries generalizing expandedBytes with
  | nil => exact fun _ h => absurd h List.not_mem_nil
  | cons entry rest ih =>
    unfold totals
    dsimp only
    split_ifs with _ _ _ hlarge htotal
    · exact ih hle
    · exact fun _ h => absurd h List.not_mem_nil
    · exact fun _ h => absurd h List.not_mem_nil
    · exact fun _ h => absurd h List.not_mem_nil
    · exact List.forall_mem_singleton.mpr (hsmall hle (not_lt.mp hlarge))
    · exact List.forall_mem_cons.mpr ⟨hsmall hle (not_lt.mp hlarge), ih (not_lt.mp htotal)⟩

/-- The entries that are passed over and the others are all entries. -/
theorem declared_filter (entries : List ZipEntry) :
    declared (entries.filter isSkipped) + declared (entries.filter fun entry => !isSkipped entry) =
      declared entries := by
  unfold declared
  rw [← List.sum_append, ← List.map_append]
  exact ((List.filter_append_perm isSkipped entries).map ZipEntry.size).sum_eq

/-- Roots that are not nested: none is below a later one. -/
theorem pairwise_of_nested {roots : List String} (h : nested roots = none) :
    roots.Pairwise fun root other => ¬(root = "." ∨ hasPrefix other (root ++ "/") = true) := by
  induction roots with
  | nil => exact List.Pairwise.nil
  | cons root rest ih =>
    unfold nested at h
    cases hfind : rest.find? fun other => root = "." || hasPrefix other (root ++ "/") with
    | some other =>
      rw [hfind] at h
      exact absurd h (by simp)
    | none =>
      rw [hfind] at h
      refine List.pairwise_cons.mpr ⟨fun other hother => ?_, ih h⟩
      simpa using List.find?_eq_none.mp hfind other hother

/-- A path below another one comes after it. -/
theorem lt_of_hasPrefix {clean root : String} (h : hasPrefix clean (root ++ "/") = true) :
    root < clean := by
  unfold hasPrefix at h
  obtain ⟨rest, hrest⟩ := List.isPrefixOf_iff_prefix.mp h
  have hlist : clean.toList = root.toList ++ '/' :: rest := by
    rw [← hrest]
    simp
  have hlex : List.Lex (· < ·) (root.toList ++ []) (root.toList ++ '/' :: rest) :=
    List.Lex.append_left (· < ·) List.Lex.nil root.toList
  rw [List.append_nil, ← hlist] at hlex
  exact String.lt_iff_toList_lt.mpr hlex

/-- No root is below another one. -/
theorem apart_of_pairwise {roots : List String}
    (hpair : roots.Pairwise fun root other => ¬(root = "." ∨ hasPrefix other (root ++ "/") = true))
    (horder : roots.Pairwise fun root other => root ≤ other) :
    ∀ root ∈ roots, ∀ other ∈ roots, hasPrefix other (root ++ "/") = false := by
  have hsymm : Std.Symm fun root other : String =>
      hasPrefix other (root ++ "/") = false ∧ hasPrefix root (other ++ "/") = false :=
    ⟨fun _ _ h => And.symm h⟩
  have hself : ∀ root ∈ roots, hasPrefix root (root ++ "/") = false ∧
      hasPrefix root (root ++ "/") = false := by
    intro root _
    have hbelow : hasPrefix root (root ++ "/") = false :=
      Bool.not_eq_true _ ▸ fun hbelow => lt_irrefl _ (lt_of_hasPrefix hbelow)
    exact ⟨hbelow, hbelow⟩
  have happart : roots.Pairwise fun root other =>
      hasPrefix other (root ++ "/") = false ∧ hasPrefix root (other ++ "/") = false := by
    refine (List.pairwise_and_iff.mpr ⟨hpair, horder⟩).imp fun {root other} h => ⟨?_, ?_⟩
    · exact Bool.not_eq_true _ ▸ fun hbelow => h.1 (.inr hbelow)
    · -- a root that comes first is not below a later one
      exact Bool.not_eq_true _ ▸ fun hbelow => absurd (lt_of_hasPrefix hbelow) (not_lt.mpr h.2)
  exact fun root hroot other hother => (happart.forall_of_forall hself hroot hother).1

/-- What the validation accepts: clean names, roots of which none is below another one but for the
archive itself, which is the last root if it is one, and sizes within the limit. -/
structure Valid (entries : List ZipEntry) (cleanNames : List (ZipEntry × String))
    (roots : List String) : Prop where
  names : ∀ x ∈ cleanNames, NormalPath x.2
  last : roots.Pairwise fun root _ => root ≠ "."
  apart : ∀ root ∈ roots, ∀ other ∈ roots, hasPrefix other (root ++ "/") = false
  sizes : declared (entries.filter fun entry => !isSkipped entry) ≤ maxModArchiveExpandedBytes

/-- What the validation accepts is valid. -/
theorem valid_of_validate {entries : List ZipEntry} {cleanNames : List (ZipEntry × String)}
    {roots : List String} (h : validate entries = .ok (cleanNames, roots)) :
    Valid entries cleanNames roots := by
  unfold validate at h
  dsimp only at h
  split_ifs at h with hcount
  · exact absurd h (by simp [throw, throwThe, MonadExceptOf.throw, bind, Except.bind])
  obtain ⟨⟨named, rootSet⟩, hcheck, h⟩ := exists_of_bind_eq_ok h
  dsimp only at h
  split_ifs at h with hempty
  · exact absurd h (by simp [throw, throwThe, MonadExceptOf.throw, bind, Except.bind])
  set sorted := rootSet.dedup.insertionSort fun a b => a ≤ b
  have horder : sorted.Pairwise fun a b => a ≤ b := List.pairwise_insertionSort _ _
  cases hnested : nested sorted with
  | some pair =>
    rw [hnested] at h
    exact absurd h (by simp [throw, throwThe, MonadExceptOf.throw])
  | none =>
    rw [hnested] at h
    obtain ⟨rfl, rfl⟩ := Prod.mk.inj (Except.ok.inj h)
    obtain ⟨hnames, hsizes⟩ := checkEntries_spec hcheck
      (fun _ h => absurd h List.not_mem_nil) (Nat.zero_le _)
    have hpair := pairwise_of_nested hnested
    refine ⟨hnames, hpair.imp fun hroot heq => hroot (.inl heq), apart_of_pairwise hpair horder, ?_⟩
    rwa [Nat.zero_add] at hsizes

end Validation

section Targets

/-- A text that begins with another one is that one and more. -/
theorem hasPrefix_iff {s start : String} : hasPrefix s start = true ↔ ∃ t, s = start ++ t := by
  unfold hasPrefix
  rw [List.isPrefixOf_iff_prefix]
  constructor
  · rintro ⟨t, ht⟩
    refine ⟨String.ofList t, String.ext ?_⟩
    rw [String.toList_append, String.toList_ofList, ht]
  · rintro ⟨t, rfl⟩
    exact ⟨t.toList, (String.toList_append).symm⟩

theorem trimPrefix_append (start t : String) : trimPrefix (start ++ t) start = t := by
  unfold trimPrefix
  rw [if_pos (hasPrefix_iff.mpr ⟨t, rfl⟩), String.toList_append, ← String.length_toList,
    List.drop_left]
  exact String.ofList_toList

/-- A normal path is not empty, nor is it the directory itself. -/
theorem NormalPath.ne {p : String} (h : NormalPath p) : p ≠ "" ∧ p ≠ "." := by
  obtain ⟨es, hne, hes, rfl⟩ := h
  have helements := Path.elements_intercalate fun e he => (hes e he).1
  constructor
  · intro hempty
    rw [hempty] at helements
    exact hne (helements.symm.trans (by decide))
  · intro hdot
    rw [hdot] at helements
    have hes' : es = ["."] := helements.symm.trans (by decide)
    exact (hes "." (hes' ▸ List.mem_singleton_self _)).2.1 rfl

/-- A file beside a normal path has a normal path. -/
theorem NormalPath.beside {p : String} (h : NormalPath p) :
    NormalPath (Path.join [Path.dir p, "ModInfo.xml"]) := by
  obtain ⟨es, hne, hes, rfl⟩ := h
  have hfile : Path.Normal "ModInfo.xml" := by
    refine ⟨⟨by decide, by decide⟩, by decide, by decide⟩
  obtain ⟨ms, m, rfl⟩ := (List.eq_nil_or_concat' es).resolve_left hne
  have hms : ∀ e ∈ ms, Path.Normal e := fun e he => hes e (List.mem_append_left _ he)
  rw [Path.dir_intercalate hms (hes m (by simp)).1]
  by_cases hempty : ms = []
  · rw [if_pos hempty]
    exact ⟨["ModInfo.xml"], by simp, by simpa using hfile, by decide⟩
  · rw [if_neg hempty]
    have hfiles : ∀ e ∈ ms ++ ["ModInfo.xml"], Path.Normal e := by
      intro e he
      rcases List.mem_append.mp he with he | he
      · exact hms e he
      · exact List.mem_singleton.mp he ▸ hfile
    have hname : "/".intercalate ms ≠ "" := (NormalPath.ne ⟨ms, hempty, hms, rfl⟩).1
    refine ⟨ms ++ ["ModInfo.xml"], by simp, hfiles, ?_⟩
    have hclean := Path.clean_intercalate (by simp) hfiles
    rw [String.intercalate_append_of_ne_nil hempty (by simp), String.intercalate_singleton] at hclean ⊢
    unfold Path.join
    simpa [hname, String.intercalate_cons_cons, String.intercalate_singleton] using hclean

theorem belongs_iff {clean root : String} :
    belongs clean root = true ↔ StrictlyBelow clean root ∨ clean = root := by
  unfold belongs StrictlyBelow
  simp [Bool.or_eq_true, or_assoc]

/-- The path in the folder of a root of what is below it. -/
theorem relativePath_of_below {clean root : String} (hclean : NormalPath clean)
    (h : StrictlyBelow clean root) :
    ∃ relative, relativePath clean root = some relative ∧ NormalPath relative := by
  obtain ⟨start, hstart, hnormal⟩ : ∃ start,
      (if root = "." then clean else trimPrefix (trimPrefix clean root) "/") = start ∧
        NormalPath start := by
    by_cases hroot : root = "."
    · exact ⟨clean, if_pos hroot, hclean⟩
    · obtain ⟨t, ht⟩ := hasPrefix_iff.mp (h.resolve_left hroot)
      obtain ⟨es, -, hes, heq⟩ := hclean
      obtain ⟨ns, hns, hsuffix, hpath⟩ :=
        Path.exists_suffix (fun e he => (hes e he).1) (heq.symm.trans ht)
      refine ⟨t, ?_, ns, hns, fun e he => hes e (hsuffix.subset he), hpath⟩
      rw [if_neg hroot, ht, String.append_assoc, trimPrefix_append, trimPrefix_append]
  unfold relativePath
  rw [hstart]
  dsimp only
  rw [if_neg hnormal.ne.1]
  split_ifs
  · exact ⟨_, rfl, hnormal.beside⟩
  · exact ⟨_, rfl, hnormal⟩

/-- The root itself goes nowhere. -/
theorem relativePath_self {root : String} (h : root ≠ ".") : relativePath root root = none := by
  have htrim : trimPrefix root root = "" := by
    have happend := trimPrefix_append root ""
    rwa [String.append_empty] at happend
  have hempty : trimPrefix "" "/" = "" := by decide
  unfold relativePath
  rw [if_neg h, htrim, hempty]
  rfl

/-- An entry goes to the first root to which it belongs, if it has a path there. -/
theorem placement_eq_some {roots : List String} {clean root relative : String} :
    placement roots clean = some (root, relative) ↔
      roots.find? (belongs clean) = some root ∧ relativePath clean root = some relative := by
  unfold placement
  rw [Option.bind_eq_some_iff]
  constructor
  · rintro ⟨r, hfind, hmap⟩
    obtain ⟨_, hrelative, hpair⟩ := Option.map_eq_some_iff.mp hmap
    obtain ⟨rfl, rfl⟩ := Prod.mk.inj hpair
    exact ⟨hfind, hrelative⟩
  · rintro ⟨hfind, hrelative⟩
    exact ⟨root, hfind, by rw [hrelative]; rfl⟩

/-- The root that takes an entry has it below, and the entry has a normal path there. -/
theorem placement_spec {roots : List String} {clean root relative : String}
    (hclean : NormalPath clean) (h : placement roots clean = some (root, relative)) :
    root ∈ roots ∧ StrictlyBelow clean root ∧ NormalPath relative := by
  obtain ⟨hfind, hrelative⟩ := placement_eq_some.mp h
  refine ⟨List.mem_of_find?_eq_some hfind, ?_⟩
  rcases belongs_iff.mp (List.find?_some hfind) with hbelow | hself
  · obtain ⟨_, heq, hnormal⟩ := relativePath_of_below hclean hbelow
    obtain rfl := Option.some.inj (hrelative.symm.trans heq)
    exact ⟨hbelow, hnormal⟩
  · subst hself
    rw [relativePath_self hclean.ne.2] at hrelative
    exact absurd hrelative (by simp)

/-- An accepted folder is a normal element. -/
theorem normal_of_isModFolder {folder : String} (h : isModFolder folder = true) :
    Path.Normal folder := by
  unfold isModFolder at h
  simp only [Bool.not_eq_true', Bool.or_eq_false_iff, decide_eq_false_iff_not, List.any_eq_false] at h
  obtain ⟨⟨⟨⟨hempty, hdot⟩, hdots⟩, -⟩, hchars⟩ := h
  refine ⟨⟨hempty, fun hmem => ?_⟩, hdot, hdots⟩
  exact absurd (hchars '/' hmem) (by simp)

variable {upload : Upload} {root relative : String}

/-- A target is its root's folder and the path there, and has no `..`. -/
theorem join_target (hstaging : Path.isAbs upload.stagingRoot = true)
    (hfolder : isModFolder (deriveFolder upload.originalName root) = true)
    (hrelative : NormalPath relative) :
    Path.join [targetRoot upload root, relative] = targetRoot upload root ++ "/" ++ relative ∧
      ".." ∉ Path.elements (targetRoot upload root ++ "/" ++ relative) := by
  obtain ⟨es, hne, hes, rfl⟩ := hrelative
  have hnormal := normal_of_isModFolder hfolder
  have hsingle : ∀ e ∈ [deriveFolder upload.originalName root], Path.Normal e :=
    List.forall_mem_singleton.mpr hnormal
  obtain ⟨out, hout, -, hfolder'⟩ := Path.join_rooted hstaging hsingle
  have hbase : ∀ e ∈ out ++ [deriveFolder upload.originalName root], Path.Normal e :=
    List.forall_mem_append.mpr ⟨hout, hsingle⟩
  have hroot : targetRoot upload root =
      "/" ++ "/".intercalate (out ++ [deriveFolder upload.originalName root]) := by
    rw [← hfolder', String.intercalate_singleton]
    rfl
  have hbelow : targetRoot upload root ++ "/" ++ "/".intercalate es =
      "/" ++ "/".intercalate (out ++ [deriveFolder upload.originalName root] ++ es) := by
    rw [hroot, String.intercalate_append_of_ne_nil (by simp) hne, ← String.append_assoc,
      ← String.append_assoc]
  have hall : ∀ e ∈ out ++ [deriveFolder upload.originalName root] ++ es, Path.Normal e :=
    List.forall_mem_append.mpr ⟨hbase, hes⟩
  constructor
  · rw [hbelow, hroot, Path.join_normal hbase hes]
  · rw [hbelow, Path.elements_rooted fun e he => (hall e he).1]
    exact fun hmem => (hall ".." hmem).2.2 rfl

end Targets

section Extraction

variable {faults : FileCall → Bool} {upload : Upload} {roots : List String}

/-- A created file is a regular entry at its target. -/
theorem created_spec {entries : List (ZipEntry × String)} {writtenPaths : List String} {y : Created}
    (h : y ∈ created faults upload roots entries writtenPaths) :
    y.entry ∈ entries ∧ ∃ relative, placement roots y.entry.2 = some (y.root, relative) ∧
      y.target = Path.join [targetRoot upload y.root, relative] := by
  induction entries generalizing writtenPaths with
  | nil => exact absurd h List.not_mem_nil
  | cons x rest ih =>
    obtain ⟨entry, clean⟩ := x
    have hrest {writtenPaths : List String} (h : y ∈ created faults upload roots rest writtenPaths) :
        y.entry ∈ (entry, clean) :: rest ∧ ∃ relative,
          placement roots y.entry.2 = some (y.root, relative) ∧
            y.target = Path.join [targetRoot upload y.root, relative] :=
      ⟨List.mem_cons_of_mem _ (ih h).1, (ih h).2⟩
    unfold created at h
    cases hplace : placement roots clean with
    | none =>
      rw [hplace] at h
      exact hrest h
    | some p =>
      obtain ⟨root, relative⟩ := p
      rw [hplace] at h
      dsimp only at h
      split_ifs at h
      · exact absurd h List.not_mem_nil
      · exact absurd h List.not_mem_nil
      · exact absurd h List.not_mem_nil
      · exact hrest h
      · exact absurd h List.not_mem_nil
      · rw [List.mem_singleton.mp h]
        exact ⟨List.mem_cons_self, relative, hplace, rfl⟩
      · rcases List.mem_cons.mp h with rfl | h
        · exact ⟨List.mem_cons_self, relative, hplace, rfl⟩
        · exact hrest h

/-- No file is created at a path that has been written, or twice. -/
theorem created_once (entries : List (ZipEntry × String)) (writtenPaths : List String) :
    ((created faults upload roots entries writtenPaths).map Created.target).Nodup ∧
      ∀ y ∈ created faults upload roots entries writtenPaths, y.target ∉ writtenPaths := by
  induction entries generalizing writtenPaths with
  | nil => exact ⟨List.nodup_nil, fun _ h => absurd h List.not_mem_nil⟩
  | cons x rest ih =>
    obtain ⟨entry, clean⟩ := x
    unfold created
    cases placement roots clean with
    | none => exact ih writtenPaths
    | some p =>
      obtain ⟨root, relative⟩ := p
      dsimp only
      obtain ⟨hnodup, hnew⟩ := ih (writtenPaths ++ [Path.join [targetRoot upload root, relative]])
      have hold : ∀ y ∈ created faults upload roots rest
          (writtenPaths ++ [Path.join [targetRoot upload root, relative]]),
            y.target ∉ writtenPaths := fun y hy hmem => hnew y hy (List.mem_append_left _ hmem)
      split_ifs with _ hwritten
      · exact ⟨List.nodup_nil, fun _ h => absurd h List.not_mem_nil⟩
      · exact ⟨List.nodup_nil, fun _ h => absurd h List.not_mem_nil⟩
      · exact ⟨List.nodup_nil, fun _ h => absurd h List.not_mem_nil⟩
      · exact ⟨hnodup, hold⟩
      · exact ⟨List.nodup_nil, fun _ h => absurd h List.not_mem_nil⟩
      · exact ⟨List.nodup_singleton _, List.forall_mem_singleton.mpr hwritten⟩
      · refine ⟨List.nodup_cons.mpr ⟨fun hmem => ?_, hnodup⟩,
          List.forall_mem_cons.mpr ⟨hwritten, hold⟩⟩
        obtain ⟨y, hy, htarget⟩ := List.mem_map.mp hmem
        exact hnew y hy (htarget ▸ List.mem_append_right _ (List.mem_singleton_self _))

/-- An extraction that succeeds goes on after an entry, whose target is new, and has created its file
if it is regular. -/
theorem created_cons {entry : ZipEntry} {clean root relative : String}
    {rest : List (ZipEntry × String)} {writtenPaths : List String}
    {files : List (String × String × List UInt8)}
    (hplace : placement roots clean = some (root, relative))
    (h : extract faults upload roots ((entry, clean) :: rest) writtenPaths = .ok files) :
    (∃ files', extract faults upload roots rest
      (writtenPaths ++ [Path.join [targetRoot upload root, relative]]) = .ok files') ∧
      Path.join [targetRoot upload root, relative] ∉ writtenPaths ∧
      (isDir entry = false → entry.content.length = entry.size) ∧
      created faults upload roots ((entry, clean) :: rest) writtenPaths =
        (if isDir entry = true then []
          else [⟨(entry, clean), root, Path.join [targetRoot upload root, relative]⟩]) ++
          created faults upload roots rest
            (writtenPaths ++ [Path.join [targetRoot upload root, relative]]) := by
  have hroot : Path.join [upload.stagingRoot, deriveFolder upload.originalName root] =
      targetRoot upload root := rfl
  unfold extract at h
  rw [hplace] at h
  rw [created, hplace]
  dsimp only at h ⊢
  rw [hroot] at h
  split_ifs at h with hunsafe hwritten hmake hdir hopen hcopy
  · rw [if_neg hunsafe, if_neg hwritten, if_neg hmake, if_pos hdir, if_pos hdir]
    exact ⟨⟨files, h⟩, hwritten, fun hfile => absurd (hfile.symm.trans hdir) Bool.false_ne_true, rfl⟩
  · rw [if_neg hunsafe, if_neg hwritten, if_neg hmake, if_neg hdir, if_neg hopen, if_neg hcopy,
      if_neg hdir]
    obtain ⟨files', hrest, -⟩ := exists_of_bind_eq_ok h
    refine ⟨⟨files', hrest⟩, hwritten, fun _ => ?_, rfl⟩
    simp only [Bool.or_eq_true, decide_eq_true_eq, not_or, not_not] at hcopy
    exact hcopy.2

/-- An extraction that succeeds has created the file of every regular entry that goes somewhere. -/
theorem mem_created_of_extract {entries : List (ZipEntry × String)} {writtenPaths : List String}
    {files : List (String × String × List UInt8)}
    (h : extract faults upload roots entries writtenPaths = .ok files) {x : ZipEntry × String}
    {root relative : String} (hx : x ∈ entries) (hfile : isDir x.1 = false)
    (hplace : placement roots x.2 = some (root, relative)) :
    (⟨x, root, Path.join [targetRoot upload root, relative]⟩ : Created) ∈
      created faults upload roots entries writtenPaths := by
  induction entries generalizing writtenPaths files with
  | nil => exact absurd hx List.not_mem_nil
  | cons first rest ih =>
    obtain ⟨entry, clean⟩ := first
    cases hfirst : placement roots clean with
    | none =>
      have hne : x ≠ (entry, clean) := by
        rintro rfl
        exact absurd (hfirst.symm.trans hplace) (by simp)
      unfold extract at h
      unfold created
      rw [hfirst] at h ⊢
      exact ih h ((List.mem_cons.mp hx).resolve_left hne)
    | some p =>
      obtain ⟨⟨files', hrest⟩, -, -, hcreated⟩ := created_cons hfirst h
      rw [hcreated]
      rcases List.mem_cons.mp hx with rfl | hx
      · obtain rfl := Option.some.inj (hfirst.symm.trans hplace)
        refine List.mem_append_left _ ?_
        rw [if_neg (by simp [hfile])]
        exact List.mem_singleton_self _
      · exact List.mem_append_right _ (ih hrest hx)

/-- If an extraction succeeds, no two entries go to one path, and every content is whole. -/
theorem targets_of_extract {entries : List (ZipEntry × String)} {writtenPaths : List String}
    {files : List (String × String × List UInt8)}
    (h : extract faults upload roots entries writtenPaths = .ok files) :
    (entries.filterMap fun x => targetOf upload roots x.2).Nodup ∧
      (∀ x ∈ entries, ∀ target, targetOf upload roots x.2 = some target → target ∉ writtenPaths) ∧
        ∀ x ∈ entries, isDir x.1 = false → (placement roots x.2).isSome = true →
          x.1.content.length = x.1.size := by
  induction entries generalizing writtenPaths files with
  | nil => exact ⟨List.nodup_nil, by simp, by simp⟩
  | cons first rest ih =>
    obtain ⟨entry, clean⟩ := first
    cases hfirst : placement roots clean with
    | none =>
      have htarget : targetOf upload roots clean = none := by
        rw [targetOf, hfirst]
        rfl
      unfold extract at h
      rw [hfirst] at h
      obtain ⟨hnodup, hnew, hwhole⟩ := ih h
      rw [List.filterMap_cons_none (f := fun x : ZipEntry × String => targetOf upload roots x.2)
        (a := (entry, clean)) htarget]
      refine ⟨hnodup, List.forall_mem_cons.mpr ⟨fun target hsome => ?_, hnew⟩,
        List.forall_mem_cons.mpr ⟨fun _ hsome => ?_, hwhole⟩⟩
      · exact absurd (htarget.symm.trans hsome) (by simp)
      · rw [hfirst] at hsome
        exact absurd hsome (by simp)
    | some p =>
      obtain ⟨root, relative⟩ := p
      have htarget : targetOf upload roots clean =
          some (Path.join [targetRoot upload root, relative]) := by
        rw [targetOf, hfirst]
        rfl
      obtain ⟨⟨files', hrest⟩, hfree, hlength, -⟩ := created_cons hfirst h
      obtain ⟨hnodup, hnew, hwhole⟩ := ih hrest
      rw [List.filterMap_cons_some (f := fun x : ZipEntry × String => targetOf upload roots x.2)
        (a := (entry, clean)) htarget]
      refine ⟨List.nodup_cons.mpr ⟨fun hmem => ?_, hnodup⟩,
        List.forall_mem_cons.mpr ⟨fun target hsome => ?_, fun x hx target hsome hmem => ?_⟩,
        List.forall_mem_cons.mpr ⟨fun hfile _ => hlength hfile, hwhole⟩⟩
      · obtain ⟨x, hx, hsome⟩ := List.mem_filterMap.mp hmem
        exact hnew x hx _ hsome (List.mem_append_right _ (List.mem_singleton_self _))
      · obtain rfl := Option.some.inj (htarget.symm.trans hsome)
        exact hfree
      · exact hnew x hx target hsome (List.mem_append_left _ hmem)

/-- If no call fails, no two entries go to one path and every content is whole, the extraction
succeeds. -/
theorem exists_extract {entries : List (ZipEntry × String)} {writtenPaths : List String}
    (hbelow : ∀ x ∈ entries, ∀ root relative, placement roots x.2 = some (root, relative) →
      Path.join [targetRoot upload root, relative] = targetRoot upload root ++ "/" ++ relative)
    (hnodup : (entries.filterMap fun x => targetOf upload roots x.2).Nodup)
    (hnew : ∀ x ∈ entries, ∀ target, targetOf upload roots x.2 = some target →
      target ∉ writtenPaths)
    (hwhole : ∀ x ∈ entries, isDir x.1 = false → (placement roots x.2).isSome = true →
      x.1.content.length = x.1.size) :
    ∃ files, extract (fun _ => false) upload roots entries writtenPaths = .ok files := by
  induction entries generalizing writtenPaths with
  | nil => exact ⟨[], rfl⟩
  | cons x rest ih =>
    obtain ⟨entry, clean⟩ := x
    have hbelow' := fun x hx => hbelow x (List.mem_cons_of_mem _ hx)
    have hwhole' := fun x hx => hwhole x (List.mem_cons_of_mem _ hx)
    unfold extract
    cases hplace : placement roots clean with
    | none =>
      have htarget : targetOf upload roots clean = none := by
        rw [targetOf, hplace]
        rfl
      rw [List.filterMap_cons_none (f := fun x : ZipEntry × String => targetOf upload roots x.2)
        (a := (entry, clean)) htarget] at hnodup
      exact ih hbelow' hnodup (fun x hx => hnew x (List.mem_cons_of_mem _ hx)) hwhole'
    | some p =>
      obtain ⟨root, relative⟩ := p
      have htarget : targetOf upload roots clean =
          some (Path.join [targetRoot upload root, relative]) := by
        rw [targetOf, hplace]
        rfl
      rw [List.filterMap_cons_some (f := fun x : ZipEntry × String => targetOf upload roots x.2)
        (a := (entry, clean)) htarget] at hnodup
      obtain ⟨hfirst, hnodup⟩ := List.nodup_cons.mp hnodup
      have hnext : ∀ x ∈ rest, ∀ target, targetOf upload roots x.2 = some target →
          target ∉ writtenPaths ++ [Path.join [targetRoot upload root, relative]] := by
        intro x hx target hx' hmem
        rcases List.mem_append.mp hmem with hmem | hmem
        · exact hnew x (List.mem_cons_of_mem _ hx) target hx' hmem
        · rw [List.mem_singleton.mp hmem] at hx'
          exact hfirst (List.mem_filterMap.mpr ⟨x, hx, hx'⟩)
      obtain ⟨files, hfiles⟩ := ih hbelow' hnodup hnext hwhole'
      have hunder := hbelow (entry, clean) List.mem_cons_self root relative hplace
      have hbegins : hasPrefix (Path.join [targetRoot upload root, relative])
          (targetRoot upload root ++ "/") = true := hasPrefix_iff.mpr ⟨relative, hunder⟩
      have hsafe : ¬(Path.join [targetRoot upload root, relative] ≠ targetRoot upload root ∧
          hasPrefix (Path.join [targetRoot upload root, relative])
            (targetRoot upload root ++ "/") = false) := by
        rintro ⟨-, hfalse⟩
        exact absurd (hbegins.symm.trans hfalse) (by simp)
      have hroot : Path.join [upload.stagingRoot, deriveFolder upload.originalName root] =
          targetRoot upload root := rfl
      dsimp only
      rw [hroot, if_neg hsafe, if_neg (hnew (entry, clean) List.mem_cons_self _ htarget),
        if_neg Bool.false_ne_true]
      by_cases hdir : isDir entry = true
      · rw [if_pos hdir]
        exact ⟨files, hfiles⟩
      · have hlength : entry.content.length = entry.size :=
          hwhole (entry, clean) List.mem_cons_self (by simpa using hdir) (by simp [hplace])
        rw [if_neg hdir, if_neg (by simp), if_neg (by simp [hlength]), hfiles]
        exact ⟨_, rfl⟩

/-- If no call fails and nothing is there, the folders of the roots are made. -/
theorem exists_makeFolders {originalName : String} {roots usedFolders : List String}
    (hfolders : ∀ root ∈ roots, isModFolder (deriveFolder originalName root) = true)
    (hnodup : (roots.map fun root => lower (deriveFolder originalName root)).Nodup)
    (hnew : ∀ root ∈ roots, lower (deriveFolder originalName root) ∉ usedFolders) :
    ∃ folders, makeFolders (fun _ => false) (fun _ => none) originalName roots usedFolders =
      .ok folders := by
  induction roots generalizing usedFolders with
  | nil => exact ⟨[], rfl⟩
  | cons root rest ih =>
    rw [List.map_cons, List.nodup_cons] at hnodup
    have hnext : ∀ other ∈ rest, lower (deriveFolder originalName other) ∉
        usedFolders ++ [lower (deriveFolder originalName root)] := by
      intro other hother hmem
      rcases List.mem_append.mp hmem with hmem | hmem
      · exact hnew other (List.mem_cons_of_mem _ hother) hmem
      · exact hnodup.1 (List.mem_map.mpr ⟨other, hother, List.mem_singleton.mp hmem⟩)
    obtain ⟨folders, hrest⟩ := ih (fun other hother => hfolders other (List.mem_cons_of_mem _ hother))
      hnodup.2 hnext
    have hvalid : ¬isModFolder (deriveFolder originalName root) = false := by
      simp [hfolders root List.mem_cons_self]
    unfold makeFolders
    dsimp only
    rw [if_neg hvalid, if_neg (hnew root List.mem_cons_self), hrest]
    exact ⟨_, rfl⟩

/-- The folders that have been made are accepted ones, and different in lower case. -/
theorem folders_of_makeFolders {q : Quarantine} {originalName : String}
    {usedFolders folders : List String}
    (h : makeFolders faults q originalName roots usedFolders = .ok folders) :
    (∀ root ∈ roots, isModFolder (deriveFolder originalName root) = true) ∧
      (roots.map fun root => lower (deriveFolder originalName root)).Nodup ∧
        ∀ root ∈ roots, lower (deriveFolder originalName root) ∉ usedFolders := by
  induction roots generalizing usedFolders folders with
  | nil => exact ⟨by simp, List.nodup_nil, by simp⟩
  | cons root rest ih =>
    unfold makeFolders at h
    dsimp only at h
    split_ifs at h with hvalid hused
    obtain ⟨folders', hrest, -⟩ := exists_of_bind_eq_ok h
    obtain ⟨hvalid', hnodup, hnew⟩ := ih hrest
    refine ⟨List.forall_mem_cons.mpr ⟨Bool.not_eq_false _ ▸ hvalid, hvalid'⟩,
      List.nodup_cons.mpr ⟨fun hmem => ?_, hnodup⟩,
      List.forall_mem_cons.mpr ⟨hused, fun other hother hmem => ?_⟩⟩
    · obtain ⟨other, hother, heq⟩ := List.mem_map.mp hmem
      exact hnew other hother (List.mem_append_right _ (List.mem_singleton.mpr heq))
    · exact hnew other hother (List.mem_append_left _ hmem)

end Extraction

section Safety

variable {upload : Upload} {cleanNames : List (ZipEntry × String)} {roots : List String}

/-- An entry below a root goes somewhere, unless it has the name of a root itself. -/
theorem exists_placement {clean : String} (hclean : NormalPath clean)
    (hapart : ∀ root ∈ roots, ∀ other ∈ roots, hasPrefix other (root ++ "/") = false)
    (hbelow : ∃ root ∈ roots, StrictlyBelow clean root) (hnot : "." ∈ roots → clean ∉ roots) :
    ∃ root relative, placement roots clean = some (root, relative) := by
  obtain ⟨root, hroot, hbelow⟩ := hbelow
  cases hfind : roots.find? (belongs clean) with
  | none => exact absurd (belongs_iff.mpr (.inl hbelow)) (List.find?_eq_none.mp hfind root hroot)
  | some first =>
    have hfirst : first ∈ roots := List.mem_of_find?_eq_some hfind
    rcases belongs_iff.mp (List.find?_some hfind) with htakes | hself
    · obtain ⟨relative, hrelative, -⟩ := relativePath_of_below hclean htakes
      exact ⟨first, relative, placement_eq_some.mpr ⟨hfind, hrelative⟩⟩
    · subst hself
      rcases hbelow with rfl | hbelow
      · exact absurd hfirst (hnot hroot)
      · exact absurd (hbelow.symm.trans (hapart root hroot clean hfirst)) (by simp)

/-- An entry with the name of a root goes nowhere: no root before it takes it. -/
theorem placement_root {entries : List ZipEntry} {clean : String}
    (hvalid : Valid entries cleanNames roots) (hclean : NormalPath clean) (hmem : clean ∈ roots) :
    placement roots clean = none := by
  have hfind : roots.find? (belongs clean) = some clean := by
    obtain ⟨as, bs, hroots, has⟩ := List.eq_append_cons_of_mem hmem
    refine List.find?_eq_some_iff_append.mpr
      ⟨belongs_iff.mpr (.inr rfl), as, bs, hroots, fun root hroot => ?_⟩
    have hlast := hvalid.last
    rw [hroots, List.pairwise_append] at hlast
    have hbefore : ¬belongs clean root = true := by
      rw [belongs_iff]
      rintro ((rfl | hbelow) | rfl)
      · exact hlast.2.2 "." hroot clean List.mem_cons_self rfl
      · have hroot' : root ∈ roots := hroots ▸ List.mem_append_left _ hroot
        exact absurd (hbelow.symm.trans (hvalid.apart root hroot' clean hmem)) (by simp)
      · exact has hroot
    simpa using hbefore
  unfold placement
  rw [hfind, Option.bind_some, relativePath_self hclean.ne.2]
  rfl

/-- Every file that is created is below the folder of its root. -/
theorem confined_of_valid {entries : List ZipEntry} (hvalid : Valid entries cleanNames roots)
    (hstaging : Path.isAbs upload.stagingRoot = true)
    (hfolders : ∀ root ∈ roots, isModFolder (deriveFolder upload.originalName root) = true)
    {faults : FileCall → Bool} {order : MapOrder} {y : Created}
    (hy : y ∈ created faults upload roots (order.visit cleanNames) []) :
    (y.root ∈ roots ∧ StrictlyBelow y.entry.2 y.root) ∧
      (∃ relative, relative ≠ "" ∧ y.target = targetRoot upload y.root ++ "/" ++ relative) ∧
        ".." ∉ Path.elements y.target := by
  obtain ⟨hentry, relative, hplace, htarget⟩ := created_spec hy
  have hclean := hvalid.names _ ((order.perm cleanNames).mem_iff.mp hentry)
  obtain ⟨hroot, hbelow, hnormal⟩ := placement_spec hclean hplace
  obtain ⟨hjoin, hup⟩ := join_target hstaging (hfolders _ hroot) hnormal
  rw [htarget, hjoin]
  exact ⟨⟨hroot, hbelow⟩, ⟨relative, hnormal.ne.1, rfl⟩, hup⟩

/-- A run that succeeds shows that the archive can be extracted. -/
theorem extractable_of_run {faults : FileCall → Bool} {q : Quarantine} {order : MapOrder}
    {folders : List String} {files : List (String × String × List UInt8)}
    (hfolders : makeFolders faults q upload.originalName roots [] = .ok folders)
    (hfiles : extract faults upload roots (order.visit cleanNames) [] = .ok files) :
    Extractable upload cleanNames roots := by
  obtain ⟨hmod, hdifferent, -⟩ := folders_of_makeFolders hfolders
  obtain ⟨hnodup, -, hwhole⟩ := targets_of_extract hfiles
  have hperm := order.perm cleanNames
  refine ⟨hmod, hdifferent, (hperm.filterMap _).nodup_iff.mp hnodup, fun x hx => ?_⟩
  exact hwhole x (hperm.mem_iff.mpr hx)

/-- An archive that can be extracted is, if no call fails and nothing is there. -/
theorem exists_run {entries : List ZipEntry} (hvalid : Valid entries cleanNames roots)
    (hstaging : Path.isAbs upload.stagingRoot = true) (h : Extractable upload cleanNames roots) :
    (∃ folders, makeFolders (fun _ => false) (fun _ => none) upload.originalName roots [] =
      .ok folders) ∧
      ∃ files, extract (fun _ => false) upload roots cleanNames [] = .ok files := by
  refine ⟨exists_makeFolders h.folders h.different fun _ _ => List.not_mem_nil,
    exists_extract (fun x hx root relative hplace => ?_) h.targets
      (fun _ _ _ _ => List.not_mem_nil) h.whole⟩
  obtain ⟨hroot, -, hnormal⟩ := placement_spec (hvalid.names x hx) hplace
  exact (join_target hstaging (h.folders root hroot) hnormal).1

/-- The extraction of an accepted archive is safe exactly if the archive is ordinary. -/
theorem extracts_safely_iff (hstaging : Path.isAbs upload.stagingRoot = true)
    (h : validate upload.entries = .ok (cleanNames, roots)) :
    ExtractsSafely upload cleanNames roots ↔ Ordinary upload cleanNames roots := by
  have hvalid := valid_of_validate h
  have hsum := declared_filter upload.entries
  have hnamed := hvalid.sizes
  constructor
  · intro hsafe
    have htotal := hsafe.sizes
    refine ⟨fun hextractable hdot x hx hfile hmem => ?_, by omega⟩
    obtain ⟨⟨folders, hfolders⟩, files, hfiles⟩ := exists_run hvalid hstaging hextractable
    obtain ⟨y, ⟨hy, rfl⟩, -⟩ := hsafe.complete (fun _ => false) (fun _ => none)
      ⟨id, fun l => List.Perm.refl l⟩ folders files hfolders hfiles x hx hfile ⟨".", hdot, .inl rfl⟩
    obtain ⟨-, relative, hplace, -⟩ := created_spec hy
    rw [placement_root hvalid (hvalid.names _ hx) hmem] at hplace
    exact absurd hplace (by simp)
  · intro hordinary
    have hskipped := hordinary.skipped
    refine ⟨fun faults q order folders hfolders y hy => ?_, fun faults order => ?_,
      fun faults q order folders files hfolders hfiles x hx hfile hbelow => ?_, by omega,
      totals_lt (Nat.zero_le _)⟩
    · exact confined_of_valid hvalid hstaging (folders_of_makeFolders hfolders).1 hy
    · exact (created_once _ []).1
    · have hextractable := extractable_of_run hfolders hfiles
      obtain ⟨root, relative, hplace⟩ := exists_placement (hvalid.names x hx) hvalid.apart hbelow
        fun hdot => hordinary.apart hextractable hdot x hx hfile
      refine ⟨_, ⟨mem_created_of_extract hfiles ((order.perm cleanNames).mem_iff.mpr hx) hfile
        hplace, rfl⟩, ?_⟩
      rintro ⟨entry, root', target⟩ ⟨hy, rfl⟩
      obtain ⟨-, relative', hplace', htarget⟩ := created_spec hy
      obtain ⟨rfl, rfl⟩ := Prod.mk.inj (Option.some.inj (hplace.symm.trans hplace'))
      rw [show target = _ from htarget]

end Safety

/-- Two mods in folders of their own are extracted safely. -/
theorem extracts_safely_twoMods :
    ExtractsSafely twoMods
      [(⟨"Alpha/ModInfo.xml", false, false, 1, [60]⟩, "Alpha/ModInfo.xml"),
        (⟨"Beta/ModInfo.xml", false, false, 1, [60]⟩, "Beta/ModInfo.xml")] ["Alpha", "Beta"] :=
  (extracts_safely_iff (by decide) rfl).mpr
    ⟨fun _ hdot => absurd hdot (by decide), by decide +kernel⟩

/-- An archive that is a mod and has another one in a folder, whose name a file has too. -/
def strayFile : Upload where
  originalName := "pack.zip"
  entries := [⟨"ModInfo.xml", false, false, 1, [60]⟩, ⟨"-mod/ModInfo.xml", false, false, 1, [60]⟩,
    ⟨"-mod", false, false, 1, [60]⟩]
  stagingRoot := "/var/lib/mastermind-agent/mod-quarantine/pve/.upload-1"

/-- A computation without an error has a result. -/
theorem exists_of_isOk {α : Type} {x : Except InstallError α} (h : x.isOk = true) :
    ∃ a, x = .ok a := by
  cases x with
  | error e => exact absurd h Bool.false_ne_true
  | ok a => exact ⟨a, rfl⟩

/-- The archive is accepted and extracted, but the file with the name of the folder is not written,
although it is below the archive. -/
theorem stray_file_lost :
    ∃ cleanNames roots, validate strayFile.entries = .ok (cleanNames, roots) ∧
      ¬ExtractsSafely strayFile cleanNames roots := by
  refine ⟨[(⟨"ModInfo.xml", false, false, 1, [60]⟩, "ModInfo.xml"),
    (⟨"-mod/ModInfo.xml", false, false, 1, [60]⟩, "-mod/ModInfo.xml"),
    (⟨"-mod", false, false, 1, [60]⟩, "-mod")], ["-mod", "."], rfl, fun hsafe => ?_⟩
  have hmade : (makeFolders (fun _ => false) (fun _ => none) strayFile.originalName ["-mod", "."]
      []).isOk = true := by decide +kernel
  have hextracted : (extract (fun _ => false) strayFile ["-mod", "."]
      [(⟨"ModInfo.xml", false, false, 1, [60]⟩, "ModInfo.xml"),
        (⟨"-mod/ModInfo.xml", false, false, 1, [60]⟩, "-mod/ModInfo.xml"),
        (⟨"-mod", false, false, 1, [60]⟩, "-mod")] []).isOk = true := by decide +kernel
  obtain ⟨folders, hfolders⟩ := exists_of_isOk hmade
  obtain ⟨files, hfiles⟩ := exists_of_isOk hextracted
  obtain ⟨y, ⟨hy, hentry⟩, -⟩ := hsafe.complete (fun _ => false) (fun _ => none)
    ⟨id, fun l => List.Perm.refl l⟩ folders files hfolders hfiles
    (⟨"-mod", false, false, 1, [60]⟩, "-mod") (by simp) rfl ⟨".", by simp, .inl rfl⟩
  -- the first root to which the file belongs is the folder
  have hnowhere : placement ["-mod", "."] "-mod" = none := by decide +kernel
  obtain ⟨-, relative, hplace, -⟩ := created_spec hy
  rw [hentry, hnowhere] at hplace
  exact absurd hplace (by simp)

end Mastermind.Agent.ModInstall
