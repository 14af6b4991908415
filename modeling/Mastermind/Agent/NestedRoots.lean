import Mastermind.Agent.ModConfined

/-!
# Archives with nested mods

The validation of an archive compares each root with the later ones in the order of the texts. A
directory comes before those in it, but the archive itself, `.`, does not come before all: a name that
begins with `-` or another character below `.` is before it. `nested_iff` says which roots are reported,
whatever the order of the entries.
-/

namespace Mastermind.Agent.ModInstall

open ModArchive

/-- The directories that lead to a root, of which the archive itself needs none. -/
def directories (root : String) : List String := if root = "." then [] else Path.elements root

/-- One root is a directory above another one. -/
def ProperAncestor (root other : String) : Prop :=
  directories root <+: directories other ∧ directories root ≠ directories other

/-- The roots that the loop over the entries finds, if it gets to its end. -/
def detectedRoots (entries : List ZipEntry) : Option (List String) :=
  if entries.length = 0 || maxModArchiveFiles < entries.length then none
  else match checkEntries entries 0 [] [] with
  | .ok (_, rootSet) => some rootSet
  | .error _ => none

/-- The archive is refused for nested roots. -/
def ReportsNested (entries : List ZipEntry) : Prop :=
  ∃ root other, validate entries = .error (.nestedModInfo root other)

/-- A root is nested in another one. -/
def HasNested (entries : List ZipEntry) : Prop :=
  ∃ roots, detectedRoots entries = some roots ∧
    ∃ root ∈ roots, ∃ other ∈ roots, ProperAncestor root other

/-- An archive is refused exactly if it has nested roots, and in every order of its entries alike. -/
def RefusesNested (entries : List ZipEntry) : Prop :=
  (ReportsNested entries ↔ HasNested entries) ∧
    ∀ entries' : List ZipEntry, entries'.Perm entries → (ReportsNested entries' ↔ ReportsNested entries)

/-! ## The loop over the entries -/

/-- The loop gets past an entry. -/
def isAccepted (entry : ZipEntry) : Bool :=
  isSkipped entry || !(isUnsafe entry (trimSuffix entry.name "/")
    (Path.clean (trimSuffix entry.name "/")) || entry.symlink ||
      decide (maxModArchiveExpandedBytes < entry.size))

/-- The root that an entry makes. -/
def rootOf (entry : ZipEntry) : Option String :=
  if !isSkipped entry && (!isDir entry &&
      equalFold (Path.base (Path.clean (trimSuffix entry.name "/"))) "modinfo.xml") then
    some (Path.dir (Path.clean (trimSuffix entry.name "/")))
  else none

/-- What the loop finds, and when it gets to its end. -/
theorem checkEntries_rootSet {entries : List ZipEntry} {expandedBytes : ℕ}
    {named : List (ZipEntry × String)} {rootSet found : List String}
    (hle : expandedBytes ≤ maxModArchiveExpandedBytes) :
    (∃ named', checkEntries entries expandedBytes named rootSet = .ok (named', found)) ↔
      (∀ entry ∈ entries, isAccepted entry = true) ∧
        expandedBytes + declared (entries.filter fun entry => !isSkipped entry) ≤
          maxModArchiveExpandedBytes ∧ found = rootSet ++ entries.filterMap rootOf := by
  induction entries generalizing expandedBytes named rootSet with
  | nil =>
    rw [checkEntries]
    constructor
    · rintro ⟨named', h⟩
      obtain ⟨-, rfl⟩ := Prod.mk.inj (Except.ok.inj h)
      exact ⟨by simp, hle, by simp⟩
    · rintro ⟨-, -, rfl⟩
      exact ⟨named, by simp⟩
  | cons entry rest ih =>
    unfold checkEntries
    dsimp only
    rw [List.forall_mem_cons]
    by_cases hskip : isSkipped entry = true
    · have hcond : (trimSuffix entry.name "/" = "" && isDir entry) = true := hskip
      rw [if_pos hcond, ih hle, List.filter_cons_of_neg (by simp [hskip]),
        List.filterMap_cons_none (by simp [rootOf, hskip])]
      simp [isAccepted, hskip]
    have hcond : ¬(trimSuffix entry.name "/" = "" && isDir entry) = true := hskip
    rw [if_neg hcond, List.filter_cons_of_pos (by simp [hskip])]
    by_cases hpath : isUnsafe entry (trimSuffix entry.name "/")
        (Path.clean (trimSuffix entry.name "/")) = true
    · simp [hpath, isAccepted, hskip]
    by_cases hlink : entry.symlink = true
    · simp [hpath, hlink, isAccepted, hskip]
    by_cases hlarge : maxModArchiveExpandedBytes < entry.size
    · simp [hpath, hlink, hlarge, isAccepted, hskip]
    have haccepted : isAccepted entry = true := by simp [hpath, hlink, hlarge, isAccepted]
    rw [if_neg hpath, if_neg hlink, if_neg hlarge]
    have hsum : declared (entry :: rest.filter fun entry => !isSkipped entry) =
        entry.size + declared (rest.filter fun entry => !isSkipped entry) := by
      rw [declared, List.map_cons, List.sum_cons, declared]
    rw [hsum, ← Nat.add_assoc]
    by_cases htotal : maxModArchiveExpandedBytes < expandedBytes + entry.size
    · rw [if_pos htotal]
      constructor
      · rintro ⟨named', h⟩
        cases h
      · rintro ⟨-, h, -⟩
        omega
    · rw [if_neg htotal, ih (not_lt.mp htotal)]
      simp only [haccepted, true_and]
      refine and_congr_right fun _ => and_congr_right fun _ => ?_
      by_cases hroot : (!isDir entry && equalFold (Path.base (Path.clean
          (trimSuffix entry.name "/"))) "modinfo.xml") = true
      · rw [if_pos hroot, List.filterMap_cons_some (by simp only [rootOf, hskip, hroot]; rfl),
          List.append_assoc, List.singleton_append]
      · rw [if_neg hroot, List.filterMap_cons_none (by simp [rootOf, hroot])]

/-- The loop itself knows no nested roots. -/
theorem checkEntries_error {entries : List ZipEntry} {expandedBytes : ℕ}
    {named : List (ZipEntry × String)} {rootSet : List String} {e : InstallError}
    (h : checkEntries entries expandedBytes named rootSet = .error e) (root other : String) :
    e ≠ .nestedModInfo root other := by
  induction entries generalizing expandedBytes named rootSet with
  | nil => cases h
  | cons entry rest ih =>
    unfold checkEntries at h
    dsimp only at h
    split_ifs at h
    · exact ih h
    all_goals first | exact ih h | (rw [← Except.error.inj h]; exact fun hne => by cases hne)

/-- When the loop gets to its end, and what it has found. -/
theorem detectedRoots_iff {entries : List ZipEntry} {roots : List String} :
    detectedRoots entries = some roots ↔
      ¬(entries.length = 0 || decide (maxModArchiveFiles < entries.length)) = true ∧
        (∀ entry ∈ entries, isAccepted entry = true) ∧
        0 + declared (entries.filter fun entry => !isSkipped entry) ≤ maxModArchiveExpandedBytes ∧
        roots = [] ++ entries.filterMap rootOf := by
  rw [← @checkEntries_rootSet entries 0 [] [] roots (Nat.zero_le _), detectedRoots]
  split_ifs with hcount
  · exact iff_of_false (by simp) fun h => h.1 hcount
  · rw [eq_true hcount, true_and]
    cases hcheck : checkEntries entries 0 [] [] with
    | error e => simp
    | ok found => simp [Prod.ext_iff]

/-- What the loop finds does not depend on the order of the entries. -/
theorem detectedRoots_perm {entries entries' : List ZipEntry} (h : entries'.Perm entries)
    {roots : List String} (hroots : detectedRoots entries = some roots) :
    ∃ roots', detectedRoots entries' = some roots' ∧ ∀ root, root ∈ roots' ↔ root ∈ roots := by
  obtain ⟨hcount, haccepted, hsize, rfl⟩ := detectedRoots_iff.mp hroots
  have hdeclared : declared (entries'.filter fun entry => !isSkipped entry) =
      declared (entries.filter fun entry => !isSkipped entry) :=
    ((h.filter _).map _).sum_eq
  refine ⟨_, detectedRoots_iff.mpr ⟨by rwa [h.length_eq], fun entry hentry => ?_, ?_, rfl⟩,
    fun root => ?_⟩
  · exact haccepted entry (h.mem_iff.mp hentry)
  · rwa [hdeclared]
  · rw [List.nil_append, List.nil_append]
    exact (h.filterMap rootOf).mem_iff

/-! ## The comparison of the roots -/

/-- The comparison finds a pair exactly if there is one. -/
theorem nested_eq_none_iff {roots : List String} : nested roots = none ↔
    roots.Pairwise fun root other => ¬(root = "." ∨ hasPrefix other (root ++ "/") = true) := by
  refine ⟨pairwise_of_nested, fun h => ?_⟩
  induction roots with
  | nil => rfl
  | cons root rest ih =>
    obtain ⟨hroot, hrest⟩ := List.pairwise_cons.mp h
    have hfind : (rest.find? fun other => root = "." || hasPrefix other (root ++ "/")) = none :=
      List.find?_eq_none.mpr fun other hother => by simpa using hroot other hother
    rw [nested, hfind]
    exact ih hrest

/-- Roots in order are reported if one begins with another, or if one comes after the archive. -/
theorem nested_sorted_iff {roots : List String} (hsorted : roots.Pairwise fun a b => a < b) :
    nested roots ≠ none ↔ (∃ root ∈ roots, ∃ other ∈ roots, hasPrefix other (root ++ "/") = true) ∨
      "." ∈ roots ∧ ∃ other ∈ roots, "." < other := by
  rw [Ne, nested_eq_none_iff, not_iff_comm, not_or]
  constructor
  · rintro ⟨hnone, hdot⟩
    refine hsorted.imp_of_mem fun {root other} hroot hother hlt => ?_
    rintro (rfl | hbelow)
    · exact hdot ⟨hroot, other, hother, hlt⟩
    · exact hnone ⟨root, hroot, other, hother, hbelow⟩
  · intro hpair
    refine ⟨?_, ?_⟩
    · rintro ⟨root, hroot, other, hother, hbelow⟩
      have hapart := apart_of_pairwise hpair (hsorted.imp fun h => h.le) root hroot other hother
      rw [hbelow] at hapart
      cases hapart
    · rintro ⟨hdot, other, hother, hlt⟩
      -- what comes after the archive stands behind it
      obtain ⟨before, after, hsplit⟩ := List.append_of_mem hdot
      rw [hsplit] at hpair hsorted hother
      obtain ⟨-, hafter, hbefore⟩ := List.pairwise_append.mp hsorted
      rcases List.mem_append.mp hother with hother | hother
      · exact lt_asymm hlt (hbefore other hother "." List.mem_cons_self)
      · rcases List.mem_cons.mp hother with rfl | hother
        · exact lt_irrefl _ hlt
        · exact (List.pairwise_cons.mp (List.pairwise_append.mp hpair).2.1).1 other hother (.inl rfl)

/-- When an archive is refused for nested roots. -/
theorem reportsNested_iff {entries : List ZipEntry} : ReportsNested entries ↔
    ∃ roots, detectedRoots entries = some roots ∧
      ((∃ root ∈ roots, ∃ other ∈ roots, hasPrefix other (root ++ "/") = true) ∨
        "." ∈ roots ∧ ∃ other ∈ roots, "." < other) := by
  have hmem : ∀ (roots : List String) root,
      root ∈ roots.dedup.insertionSort (fun a b => a ≤ b) ↔ root ∈ roots := by
    intro roots root
    rw [List.mem_insertionSort, List.mem_dedup]
  have hsorted : ∀ roots : List String,
      (roots.dedup.insertionSort fun a b => a ≤ b).Pairwise fun a b => a < b := by
    intro roots
    have hnodup : (roots.dedup.insertionSort fun a b => a ≤ b).Nodup :=
      (List.perm_insertionSort _ _).nodup_iff.mpr (List.nodup_dedup roots)
    have hle : (roots.dedup.insertionSort fun a b => a ≤ b).Pairwise fun a b => a ≤ b :=
      List.pairwise_insertionSort _ _
    exact (hle.and hnodup).imp fun h => lt_of_le_of_ne h.1 h.2
  have hvalidate : ReportsNested entries ↔ ∃ roots, detectedRoots entries = some roots ∧
      nested (roots.dedup.insertionSort fun a b => a ≤ b) ≠ none := by
    rw [ReportsNested, validate, detectedRoots]
    split_ifs with hcount
    · simp [throw, throwThe, MonadExceptOf.throw, bind, Except.bind]
    cases hcheck : checkEntries entries 0 [] [] with
    | error e =>
      have hother := checkEntries_error hcheck
      simp [bind, Except.bind, hother]
    | ok found =>
      obtain ⟨named, rootSet⟩ := found
      by_cases hempty : rootSet = []
      · simp [bind, Except.bind, hempty, throw, throwThe, MonadExceptOf.throw, nested]
      · cases hnested : nested (rootSet.dedup.insertionSort fun a b => a ≤ b) with
        | none => simp [bind, Except.bind, pure, Except.pure, hempty, hnested]
        | some pair =>
          simp [bind, Except.bind, hempty, throw, throwThe, MonadExceptOf.throw, hnested]
  rw [hvalidate]
  refine exists_congr fun roots => and_congr_right fun _ => ?_
  rw [nested_sorted_iff (hsorted roots)]
  simp only [hmem]

/-! ## The roots as directories -/

/-- A root is the archive itself, or a path of normal elements. -/
theorem root_cases {entries : List ZipEntry} {roots : List String}
    (h : detectedRoots entries = some roots) {root : String} (hroot : root ∈ roots) :
    root = "." ∨ NormalPath root := by
  obtain ⟨-, haccepted, -, rfl⟩ := detectedRoots_iff.mp h
  rw [List.nil_append] at hroot
  obtain ⟨entry, hentry, hmakes⟩ := List.mem_filterMap.mp hroot
  unfold rootOf at hmakes
  split_ifs at hmakes with hcond
  obtain rfl := Option.some.inj hmakes
  have hnot : isSkipped entry = false := by
    rw [Bool.and_eq_true, Bool.not_eq_true'] at hcond
    exact hcond.1
  have hsafe : isUnsafe entry (trimSuffix entry.name "/")
      (Path.clean (trimSuffix entry.name "/")) = false := by
    have hthis := haccepted entry hentry
    simp only [isAccepted, hnot, Bool.false_or, Bool.not_eq_true', Bool.or_eq_false_iff] at hthis
    exact hthis.1.1
  obtain ⟨es, hne, hes, heq⟩ := normalPath_of_safe hsafe
  obtain ⟨ms, m, rfl⟩ := (List.eq_nil_or_concat' es).resolve_left hne
  have hms : ∀ e ∈ ms, Path.Normal e := fun e he => hes e (List.mem_append_left _ he)
  rw [heq, Path.dir_intercalate hms (hes m (by simp)).1]
  by_cases hempty : ms = []
  · exact .inl (if_pos hempty)
  · exact .inr ⟨ms, hempty, hms, if_neg hempty⟩

/-- The directories that lead to a path of normal elements. -/
theorem directories_intercalate {es : List String} (hne : es ≠ []) (hes : ∀ e ∈ es, Path.Normal e) :
    directories ("/".intercalate es) = es := by
  have hdot : "/".intercalate es ≠ "." := (NormalPath.ne ⟨es, hne, hes, rfl⟩).2
  rw [directories, if_neg hdot, Path.elements_intercalate fun e he => (hes e he).1]

/-- One root is above another one if it is the archive itself and the other one is not, or if the other
one begins with it. -/
theorem properAncestor_iff {root other : String} (hroot : root = "." ∨ NormalPath root)
    (hother : other = "." ∨ NormalPath other) : ProperAncestor root other ↔
      root = "." ∧ other ≠ "." ∨ hasPrefix other (root ++ "/") = true := by
  have hdot : directories "." = [] := if_pos rfl
  have hshort : hasPrefix "." (root ++ "/") = true → False := by
    intro h
    obtain ⟨t, ht⟩ := hasPrefix_iff.mp h
    have hmem : '/' ∈ ".".toList := by
      rw [ht]
      simp
    exact absurd hmem (by decide)
  rcases hroot with rfl | ⟨es, hes, hnormal, rfl⟩
  · rcases hother with rfl | ⟨fs, hfs, hfnormal, rfl⟩
    · exact iff_of_false (fun h => h.2 rfl) (by rintro (⟨-, h⟩ | h); exacts [h rfl, hshort h])
    · rw [ProperAncestor, hdot, directories_intercalate hfs hfnormal]
      exact iff_of_true ⟨List.nil_prefix, Ne.symm hfs⟩
        (.inl ⟨rfl, (NormalPath.ne ⟨fs, hfs, hfnormal, rfl⟩).2⟩)
  rw [or_iff_right fun h => (NormalPath.ne ⟨es, hes, hnormal, rfl⟩).2 h.1, ProperAncestor,
    directories_intercalate hes hnormal]
  rcases hother with rfl | ⟨fs, hfs, hfnormal, rfl⟩
  · rw [hdot]
    exact iff_of_false (fun h => hes (List.prefix_nil.mp h.1)) hshort
  rw [directories_intercalate hfs hfnormal]
  constructor
  · rintro ⟨⟨ms, rfl⟩, hne⟩
    have hms : ms ≠ [] := by
      rintro rfl
      exact hne (List.append_nil _).symm
    rw [String.intercalate_append_of_ne_nil hes hms]
    exact hasPrefix_iff.mpr ⟨_, rfl⟩
  · intro h
    obtain ⟨t, ht⟩ := hasPrefix_iff.mp h
    obtain ⟨ns, hns, hsuffix, rfl⟩ := Path.exists_suffix (fun e he => (hfnormal e he).1) ht
    have hsplit : fs = es ++ ns := by
      have helements := congrArg Path.elements ht
      rwa [Path.elements_append, Path.elements_intercalate fun e he => (hfnormal e he).1,
        Path.elements_intercalate fun e he => (hnormal e he).1,
        Path.elements_intercalate fun e he => (hfnormal e (hsuffix.subset he)).1] at helements
    rw [hsplit]
    exact ⟨List.prefix_append _ _, by simpa using hns⟩

/-- When an archive has nested roots. -/
theorem hasNested_iff {entries : List ZipEntry} : HasNested entries ↔
    ∃ roots, detectedRoots entries = some roots ∧
      ((∃ root ∈ roots, ∃ other ∈ roots, hasPrefix other (root ++ "/") = true) ∨
        "." ∈ roots ∧ ∃ other ∈ roots, other ≠ ".") := by
  refine exists_congr fun roots => and_congr_right fun hroots => ?_
  have hiff : ∀ root ∈ roots, ∀ other ∈ roots, (ProperAncestor root other ↔
      root = "." ∧ other ≠ "." ∨ hasPrefix other (root ++ "/") = true) :=
    fun root hroot other hother =>
      properAncestor_iff (root_cases hroots hroot) (root_cases hroots hother)
  constructor
  · rintro ⟨root, hroot, other, hother, habove⟩
    rcases (hiff root hroot other hother).mp habove with ⟨rfl, hne⟩ | hbelow
    · exact .inr ⟨hroot, other, hother, hne⟩
    · exact .inl ⟨root, hroot, other, hother, hbelow⟩
  · rintro (⟨root, hroot, other, hother, hbelow⟩ | ⟨hdot, other, hother, hne⟩)
    · exact ⟨root, hroot, other, hother, (hiff root hroot other hother).mpr (.inr hbelow)⟩
    · exact ⟨".", hdot, other, hother, (hiff "." hdot other hother).mpr (.inl ⟨rfl, hne⟩)⟩

/-- The order of the entries does not matter. -/
theorem reportsNested_perm {entries entries' : List ZipEntry} (h : entries'.Perm entries) :
    ReportsNested entries' ↔ ReportsNested entries := by
  have hone : ∀ {l l' : List ZipEntry}, l'.Perm l → ReportsNested l → ReportsNested l' := by
    intro l l' hperm hreports
    obtain ⟨roots, hroots, hpair⟩ := reportsNested_iff.mp hreports
    obtain ⟨roots', hroots', hmem⟩ := detectedRoots_perm hperm hroots
    refine reportsNested_iff.mpr ⟨roots', hroots', ?_⟩
    simpa only [hmem] using hpair
  exact ⟨hone h.symm, hone h⟩

/-- The archive itself is not a root beside others that are all before it in the order of texts, unless
another root is nested in one of those. -/
def TopLevelFirst (entries : List ZipEntry) : Prop :=
  ∀ roots, detectedRoots entries = some roots → "." ∈ roots → (∃ other ∈ roots, other ≠ ".") →
    (∃ other ∈ roots, "." < other) ∨
      ∃ root ∈ roots, ∃ other ∈ roots, hasPrefix other (root ++ "/") = true

/-- An archive is refused for nested roots exactly if it has some, unless the archive itself is a root
that comes after all others. -/
theorem refusesNested_iff (entries : List ZipEntry) :
    RefusesNested entries ↔ TopLevelFirst entries := by
  rw [RefusesNested, and_iff_left fun entries' h => reportsNested_perm h, reportsNested_iff,
    hasNested_iff]
  cases hroots : detectedRoots entries with
  | none => exact iff_of_true (by simp) fun roots h => by cases hroots.symm.trans h
  | some roots =>
    have hafter : (∃ other ∈ roots, "." < other) → ∃ other ∈ roots, other ≠ "." := by
      rintro ⟨other, hother, hlt⟩
      exact ⟨other, hother, hlt.ne'⟩
    simp only [Option.some.injEq, exists_eq_left', TopLevelFirst, hroots, forall_eq']
    constructor
    · intro h hdot hothers
      rcases h.mpr (.inr ⟨hdot, hothers⟩) with hbelow | ⟨-, hlater⟩
      · exact .inr hbelow
      · exact .inl hlater
    · intro h
      constructor
      · rintro (hbelow | ⟨hdot, hlater⟩)
        · exact .inl hbelow
        · exact .inr ⟨hdot, hafter hlater⟩
      · rintro (hbelow | ⟨hdot, hothers⟩)
        · exact .inl hbelow
        · rcases h hdot hothers with hlater | hbelow
          · exact .inr ⟨hdot, hlater⟩
          · exact .inl hbelow

/-- A mod at the top of the archive, and one in a directory that begins with a dash. -/
def dashedArchive : List ZipEntry :=
  [⟨"ModInfo.xml", false, false, 0, []⟩, ⟨"-old/ModInfo.xml", false, false, 0, []⟩]

theorem dashedArchive_accepted : ¬ RefusesNested dashedArchive := by
  intro h
  have hroots : detectedRoots dashedArchive = some [".", "-old"] := by decide +kernel
  have hnested : HasNested dashedArchive :=
    hasNested_iff.mpr ⟨_, hroots, .inr ⟨by decide, "-old", by decide, by decide⟩⟩
  obtain ⟨roots, hfound, hpair⟩ := reportsNested_iff.mp (h.1.mpr hnested)
  obtain rfl := Option.some.inj (hroots.symm.trans hfound)
  revert hpair
  decide +kernel

end Mastermind.Agent.ModInstall
