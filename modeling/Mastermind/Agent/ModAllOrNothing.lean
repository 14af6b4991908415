import Mastermind.Agent.ModConfined

/-!
# All of the mods or none

An installation that fails leaves the quarantine as it was, and one that succeeds adds the folders of
the archive's roots, each with the files of its root: the regular entries that are below it, but those
below another root go there rather than to the archive itself. `all_or_nothing_iff` says when this is
so.
-/

namespace Mastermind.Agent.ModInstall

open ModArchive

instance (clean root : String) : Decidable (StrictlyBelow clean root) :=
  inferInstanceAs (Decidable (_ ∨ _))

/-- The entry with the clean name is one of the root: it is below it and, if the root is the archive
itself, below no other root. -/
def Takes (roots : List String) (root clean : String) : Prop :=
  StrictlyBelow clean root ∧
    (root = "." → ∀ other ∈ roots, StrictlyBelow clean other → other = ".")

instance (roots : List String) (root clean : String) : Decidable (Takes roots root clean) :=
  inferInstanceAs (Decidable (_ ∧ _))

/-- What a root has of an entry: a regular entry that is the root's, at its path there. -/
def held (roots : List String) (root : String) (x : ZipEntry × String) :
    Option (String × List UInt8) :=
  if isDir x.1 = false ∧ Takes roots root x.2 then
    (relativePath x.2 root).map fun path => (path, x.1.content)
  else none

/-- The folders are those of the roots of the archive; all of them are new, each holds the files of
its root, and nothing else has changed. -/
structure Installed (upload : Upload) (before after : Quarantine) (folders : List String) : Prop where
  added : ∃ cleanNames roots, validate upload.entries = .ok (cleanNames, roots) ∧
    folders.Perm (roots.map (deriveFolder upload.originalName)) ∧
      ∀ root ∈ roots, before (deriveFolder upload.originalName root) = none ∧
        ∃ files, after (deriveFolder upload.originalName root) = some files ∧
          files.Perm (cleanNames.filterMap (held roots root))
  others : ∀ name ∉ folders, after name = before name

/-- An installation adds the mods of the archive, or fails and changes nothing. -/
def AllOrNothing (upload : Upload) (before : Quarantine)
    (done : Except InstallError (List String) × Quarantine) : Prop :=
  match done.1 with
  | .error _ => done.2 = before
  | .ok folders => Installed upload before done.2 folders

/-- The archive itself is a root, and a regular entry has the name of another one. -/
def Stray (cleanNames : List (ZipEntry × String)) (roots : List String) : Prop :=
  "." ∈ roots ∧ ∃ x ∈ cleanNames, isDir x.1 = false ∧ x.2 ∈ roots

/-- Such an archive is staged, and every mod of it can be moved. -/
def LosesFile (faults : FileCall → Bool) (order : MapOrder) (q : Quarantine) (upload : Upload) :
    Prop :=
  ∃ folders files cleanNames roots, stage faults order q upload = .ok (folders, files) ∧
    (∀ folder ∈ folders, unready faults files folder = false ∧ faults (.rename folder) = false) ∧
      validate upload.entries = .ok (cleanNames, roots) ∧ Stray cleanNames roots

section Roots

variable {entries : List ZipEntry} {cleanNames : List (ZipEntry × String)} {roots : List String}

/-- Of two paths above a third one, one is above the other, or they are one. -/
theorem above_of_above {clean root other : String} (hroot : hasPrefix clean (root ++ "/") = true)
    (hother : hasPrefix clean (other ++ "/") = true) :
    root = other ∨ hasPrefix root (other ++ "/") = true ∨ hasPrefix other (root ++ "/") = true := by
  have hcompare : ∀ {r o : String}, (r ++ "/").toList <+: (o ++ "/").toList →
      r = o ∨ hasPrefix o (r ++ "/") = true := by
    intro r o h
    have hlast : (o ++ "/").toList = o.toList ++ ['/'] := by simp
    rw [hlast, List.prefix_concat_iff] at h
    rcases h with heq | hbelow
    · left
      have hlists : r.toList ++ ['/'] = o.toList ++ ['/'] := by simpa using heq
      exact String.toList_inj.mp (List.append_cancel_right hlists)
    · exact .inr (List.isPrefixOf_iff_prefix.mpr hbelow)
  rcases List.prefix_or_prefix_of_prefix (List.isPrefixOf_iff_prefix.mp hroot)
    (List.isPrefixOf_iff_prefix.mp hother) with h | h
  · exact (hcompare h).imp_right .inr
  · exact (hcompare h).symm.elim (fun h => .inr (.inl h)) fun h => .inl h.symm

/-- The archive itself takes an entry only if no other root is before it. -/
theorem eq_of_find_dot (hvalid : Valid entries cleanNames roots) {clean : String}
    (hfind : roots.find? (belongs clean) = some ".") {other : String} (hother : other ∈ roots)
    (hbelongs : belongs clean other = true) : other = "." := by
  obtain ⟨-, as, bs, hroots, has⟩ := List.find?_eq_some_iff_append.mp hfind
  have hlast := hvalid.last
  rw [hroots, List.pairwise_append] at hlast
  rw [hroots] at hother
  rcases List.mem_append.mp hother with hother | hother
  · have hnot := has other hother
    rw [hbelongs] at hnot
    exact absurd hnot (by simp)
  · rcases List.mem_cons.mp hother with rfl | hother
    · rfl
    · exact absurd rfl ((List.pairwise_cons.mp hlast.2.1).1 other hother)

/-- An entry that goes to a root is one of the root. -/
theorem takes_of_placement (hvalid : Valid entries cleanNames roots) {clean root relative : String}
    (hclean : NormalPath clean) (h : placement roots clean = some (root, relative)) :
    root ∈ roots ∧ Takes roots root clean ∧ relativePath clean root = some relative := by
  obtain ⟨hroot, hbelow, -⟩ := placement_spec hclean h
  obtain ⟨hfind, hrelative⟩ := placement_eq_some.mp h
  refine ⟨hroot, ⟨hbelow, fun hdot other hother hbelow' => ?_⟩, hrelative⟩
  subst hdot
  exact eq_of_find_dot hvalid hfind hother (belongs_iff.mpr (.inl hbelow'))

/-- An entry of a root goes there, unless it has the name of a root itself. -/
theorem placement_of_takes (hvalid : Valid entries cleanNames roots) {clean root relative : String}
    (hroot : root ∈ roots) (htakes : Takes roots root clean) (hnot : "." ∈ roots → clean ∉ roots)
    (hrelative : relativePath clean root = some relative) :
    placement roots clean = some (root, relative) := by
  obtain ⟨hbelow, hdot⟩ := htakes
  have hbelongs : belongs clean root = true := belongs_iff.mpr (.inl hbelow)
  obtain ⟨first, hfind⟩ : ∃ first, roots.find? (belongs clean) = some first := by
    refine Option.isSome_iff_exists.mp (List.find?_isSome.mpr ⟨root, hroot, hbelongs⟩)
  have hfirst : first ∈ roots := List.mem_of_find?_eq_some hfind
  -- the first root to which the entry belongs is the one that takes it
  have hsame : first = root := by
    rcases belongs_iff.mp (List.find?_some hfind) with hbelow' | hself
    · -- both are above the entry, and neither is above the other
      rcases hbelow' with rfl | habove'
      · exact (eq_of_find_dot hvalid hfind hroot hbelongs).symm
      rcases hbelow with rfl | habove
      · exact hdot rfl first hfirst (.inr habove')
      rcases above_of_above habove habove' with heq | h | h
      · exact heq.symm
      · exact absurd (h.symm.trans (hvalid.apart first hfirst root hroot)) (by simp)
      · exact absurd (h.symm.trans (hvalid.apart root hroot first hfirst)) (by simp)
    · subst hself
      rcases hbelow with rfl | habove
      · exact absurd hfirst (hnot hroot)
      · exact absurd (habove.symm.trans (hvalid.apart root hroot clean hfirst)) (by simp)
  subst hsame
  exact placement_eq_some.mpr ⟨hfind, hrelative⟩

/-- An entry with the name of a root is one of the archive itself, if that is a root. -/
theorem takes_of_root (hvalid : Valid entries cleanNames roots) {clean : String}
    (hmem : clean ∈ roots) : Takes roots "." clean := by
  refine ⟨.inl rfl, fun _ other hother hbelow => hbelow.resolve_right fun habove => ?_⟩
  exact absurd (habove.symm.trans (hvalid.apart other hother clean hmem)) (by simp)

end Roots

section Folders

variable {upload : Upload} {cleanNames : List (ZipEntry × String)} {roots : List String}

/-- What the folder of a root gets of an entry. -/
def received (originalName : String) (roots : List String) (folder : String)
    (x : ZipEntry × String) : Option (String × List UInt8) :=
  ((staged originalName roots x).filter fun y => y.1 == folder).map Prod.snd

/-- The files of a folder are what it gets of the entries. -/
theorem perm_filesOf {files : List (String × String × List UInt8)}
    (h : files.Perm (cleanNames.filterMap (staged upload.originalName roots))) (folder : String) :
    (filesOf files folder).Perm
      (cleanNames.filterMap (received upload.originalName roots folder)) := by
  have hfiles := (h.filter fun y => y.1 == folder).map Prod.snd
  rw [List.filter_filterMap, List.map_filterMap] at hfiles
  exact hfiles

/-- The folder of a root gets of an entry a file that goes to the root. -/
theorem received_eq_some
    (hnodup : (roots.map (deriveFolder upload.originalName)).Nodup) {root : String}
    (hroot : root ∈ roots) {x : ZipEntry × String} {path : String} {content : List UInt8} :
    received upload.originalName roots (deriveFolder upload.originalName root) x =
        some (path, content) ↔
      isDir x.1 = false ∧ placement roots x.2 = some (root, path) ∧ x.1.content = content := by
  unfold received staged
  cases hdir : isDir x.1 with
  | true => simp
  | false =>
    cases hplace : placement roots x.2 with
    | none => simp
    | some p =>
      obtain ⟨r, relative⟩ := p
      have hr : r ∈ roots := List.mem_of_find?_eq_some (placement_eq_some.mp hplace).1
      -- two roots with one folder are one root
      have hfolder : deriveFolder upload.originalName r = deriveFolder upload.originalName root ↔
          r = root :=
        ⟨fun h => List.inj_on_of_nodup_map hnodup hr hroot h, fun h => by rw [h]⟩
      simp [Option.filter_some, hfolder, and_assoc]

/-- An entry that is received is held. -/
theorem held_of_received {entries : List ZipEntry} (hvalid : Valid entries cleanNames roots)
    (hnodup : (roots.map (deriveFolder upload.originalName)).Nodup) {root : String}
    (hroot : root ∈ roots) {x : ZipEntry × String} (hx : x ∈ cleanNames)
    {y : String × List UInt8}
    (h : received upload.originalName roots (deriveFolder upload.originalName root) x = some y) :
    held roots root x = some y := by
  obtain ⟨path, content⟩ := y
  obtain ⟨hdir, hplace, rfl⟩ := (received_eq_some hnodup hroot).mp h
  obtain ⟨-, htakes, hrelative⟩ := takes_of_placement hvalid (hvalid.names x hx) hplace
  unfold held
  rw [if_pos ⟨hdir, htakes⟩, hrelative]
  rfl

/-- If no entry is stray, the folder of a root gets what the root has. -/
theorem received_eq_held {entries : List ZipEntry} (hvalid : Valid entries cleanNames roots)
    (hnodup : (roots.map (deriveFolder upload.originalName)).Nodup)
    (hstray : ¬Stray cleanNames roots) {root : String} (hroot : root ∈ roots)
    {x : ZipEntry × String} (hx : x ∈ cleanNames) :
    received upload.originalName roots (deriveFolder upload.originalName root) x =
      held roots root x := by
  refine Option.ext fun y => ⟨held_of_received hvalid hnodup hroot hx, fun hheld => ?_⟩
  unfold held at hheld
  split_ifs at hheld with hhas
  obtain ⟨hdir, htakes⟩ := hhas
  obtain ⟨path, hrelative, rfl⟩ := Option.map_eq_some_iff.mp hheld
  have hnot : "." ∈ roots → x.2 ∉ roots := fun hdot hmem => hstray ⟨hdot, x, hx, hdir, hmem⟩
  exact (received_eq_some hnodup hroot).mpr
    ⟨hdir, placement_of_takes hvalid hroot htakes hnot hrelative, rfl⟩

/-- A longer list of results: wherever the first function has one, the second has, and once more. -/
theorem length_filterMap_lt {α β γ : Type} {f : α → Option β} {g : α → Option γ} {l : List α}
    (hle : ∀ x ∈ l, (f x).isSome = true → (g x).isSome = true) {x : α} (hx : x ∈ l)
    (hf : f x = none) (hg : (g x).isSome = true) :
    (l.filterMap f).length < (l.filterMap g).length := by
  obtain ⟨s, t, rfl⟩ := List.append_of_mem hx
  rw [List.length_filterMap_eq_countP, List.length_filterMap_eq_countP, List.countP_append,
    List.countP_append, List.countP_cons, List.countP_cons]
  have hs := List.countP_mono_left (p := fun y => (f y).isSome) (q := fun y => (g y).isSome)
    (l := s) fun y hy => hle y (List.mem_append_left _ hy)
  have ht := List.countP_mono_left (p := fun y => (f y).isSome) (q := fun y => (g y).isSome)
    (l := t) fun y hy => hle y (List.mem_append_right _ (List.mem_cons_of_mem _ hy))
  rw [hf, hg]
  simp only [Option.isSome_none, Bool.false_eq_true, if_false, if_true]
  omega

/-- If an entry is stray, the folder of the archive itself does not get all that it has. -/
theorem not_perm_of_stray {entries : List ZipEntry} (hvalid : Valid entries cleanNames roots)
    (hnodup : (roots.map (deriveFolder upload.originalName)).Nodup)
    (hstray : Stray cleanNames roots) {files : List (String × String × List UInt8)}
    (h : files.Perm (cleanNames.filterMap (staged upload.originalName roots))) :
    ¬(filesOf files (deriveFolder upload.originalName ".")).Perm
      (cleanNames.filterMap (held roots ".")) := by
  obtain ⟨hdot, x, hx, hdir, hmem⟩ := hstray
  intro hperm
  -- the folder gets at least one entry less than the archive itself has
  have hlength := ((perm_filesOf h (deriveFolder upload.originalName ".")).symm.trans
    hperm).length_eq
  have hnormal := hvalid.names x hx
  have hnone : received upload.originalName roots (deriveFolder upload.originalName ".") x =
      none := by
    unfold received staged
    rw [placement_root hvalid hnormal hmem]
    simp
  have htakes := takes_of_root hvalid hmem
  obtain ⟨relative, hrelative, -⟩ := relativePath_of_below hnormal htakes.1
  have hheld : (held roots "." x).isSome = true := by
    unfold held
    rw [if_pos ⟨hdir, htakes⟩, hrelative]
    rfl
  refine absurd hlength (length_filterMap_lt (fun y hy hreceived => ?_) hx hnone hheld).ne
  obtain ⟨z, hz⟩ := Option.isSome_iff_exists.mp hreceived
  rw [held_of_received hvalid hnodup hdot hy hz]
  rfl

end Folders

variable {faults : FileCall → Bool}

/-- The staged folders in the quarantine are the mods of the archive, exactly if no entry is stray. -/
theorem installed_iff {order : MapOrder} {upload : Upload} {q : Quarantine} {folders : List String}
    {files : List (String × String × List UInt8)} {cleanNames : List (ZipEntry × String)}
    {roots : List String} (h : stage faults order q upload = .ok (folders, files))
    (hvalidate : validate upload.entries = .ok (cleanNames, roots)) :
    Installed upload q (put files folders q) (folders.insertionSort fun a b => a ≤ b) ↔
      ¬Stray cleanNames roots := by
  obtain ⟨cleanNames', roots', hvalidate', rfl, hnew, hnodup, hfiles⟩ := stage_spec h
  obtain ⟨rfl, rfl⟩ := Prod.mk.inj (Except.ok.inj (hvalidate.symm.trans hvalidate'))
  have hvalid := valid_of_validate hvalidate
  have hput : ∀ root ∈ roots, put files (roots.map (deriveFolder upload.originalName)) q
      (deriveFolder upload.originalName root) =
        some (filesOf files (deriveFolder upload.originalName root)) :=
    fun root hroot => if_pos (List.mem_map_of_mem hroot)
  constructor
  · rintro ⟨⟨_, _, hvalidate', -, hadded⟩, -⟩ hstray
    obtain ⟨rfl, rfl⟩ := Prod.mk.inj (Except.ok.inj (hvalidate.symm.trans hvalidate'))
    obtain ⟨-, files', hafter, hperm⟩ := hadded "." hstray.1
    obtain rfl := Option.some.inj ((hput "." hstray.1).symm.trans hafter)
    exact not_perm_of_stray hvalid hnodup hstray hfiles hperm
  · intro hstray
    have hsorted := List.perm_insertionSort (fun a b : String => a ≤ b)
      (roots.map (deriveFolder upload.originalName))
    refine ⟨⟨cleanNames, roots, hvalidate, hsorted, fun root hroot =>
      ⟨hnew _ (List.mem_map_of_mem hroot), _, hput root hroot, ?_⟩⟩, fun name hname => ?_⟩
    · have hheld : cleanNames.filterMap (held roots root) = cleanNames.filterMap
          (received upload.originalName roots (deriveFolder upload.originalName root)) :=
        List.filterMap_congr fun x hx => (received_eq_held hvalid hnodup hstray hroot hx).symm
      rw [hheld]
      exact perm_filesOf hfiles _
    · exact if_neg fun hmem => hname (hsorted.mem_iff.mpr hmem)

/-- An installation adds the mods of the archive or fails and changes nothing, exactly if the first
step that fails is not the `Stat` or the change of permissions of a mod after the first one, and no
stray file is lost. -/
theorem all_or_nothing_iff (faults : FileCall → Bool) (order : MapOrder) (q : Quarantine)
    (upload : Upload) :
    AllOrNothing upload q (installUploadedModsToQuarantine faults order q upload) ↔
      ¬FailsLate faults order q upload ∧ ¬LosesFile faults order q upload := by
  unfold installUploadedModsToQuarantine
  cases hstage : stage faults order q upload with
  | error e =>
    refine iff_of_true rfl ⟨?_, ?_⟩
    · rintro ⟨first, rest, files, hstage', -⟩
      exact absurd (hstage.symm.trans hstage') (by simp)
    · rintro ⟨folders, files, _, _, hstage', -⟩
      exact absurd (hstage.symm.trans hstage') (by simp)
  | ok staged =>
    obtain ⟨folders, files⟩ := staged
    obtain ⟨cleanNames, roots, hvalidate, -, hnew, -, -⟩ := stage_spec hstage
    have hinstalled := installed_iff hstage hvalidate
    obtain ⟨hbroken, hwhole⟩ := @place_all faults files q folders hnew
    have hmoves := @isOk_place faults files q folders []
    dsimp only
    by_cases hlate : BreaksLate faults files folders
    · -- the error leaves something behind
      obtain ⟨e, q', hplaced, hchanged⟩ := hbroken hlate
      obtain ⟨first, rest, rfl, hready⟩ := hlate
      rw [hplaced]
      exact iff_of_false hchanged fun h => h.1 ⟨first, rest, files, hstage, hready⟩
    · have hkept : ¬FailsLate faults order q upload := by
        rintro ⟨first, rest, files', hstage', hready⟩
        obtain ⟨rfl, rfl⟩ := Prod.mk.inj (Except.ok.inj (hstage.symm.trans hstage'))
        exact hlate ⟨first, rest, rfl, hready⟩
      rw [and_iff_right hkept]
      rcases hwhole hlate with ⟨e, hplaced⟩ | hplaced
      · -- a mod cannot be moved, and those before it have been removed again
        rw [hplaced] at hmoves ⊢
        refine iff_of_true rfl ?_
        rintro ⟨folders', files', _, _, hstage', hready, -⟩
        obtain ⟨rfl, rfl⟩ := Prod.mk.inj (Except.ok.inj (hstage.symm.trans hstage'))
        exact absurd (hmoves.mpr hready) Bool.false_ne_true
      · -- every mod is in the quarantine
        rw [hplaced] at hmoves ⊢
        refine hinstalled.trans (not_congr ⟨fun hstray => ?_, ?_⟩)
        · exact ⟨folders, files, cleanNames, roots, hstage, hmoves.mp rfl, hvalidate, hstray⟩
        · rintro ⟨_, _, _, _, -, -, hvalidate', hstray⟩
          obtain ⟨rfl, rfl⟩ := Prod.mk.inj (Except.ok.inj (hvalidate.symm.trans hvalidate'))
          exact hstray

/-- The permissions of the second mod cannot be changed: the first one stays. -/
theorem first_mod_stays :
    ¬AllOrNothing twoMods (fun _ => none)
      (installUploadedModsToQuarantine (fun c => c == .chmod "Beta") ⟨id, fun _ => .refl _⟩
        (fun _ => none) twoMods) := by
  have hstays : (fun done : Except InstallError (List String) × Quarantine =>
      !done.1.isOk && (done.2 "Alpha").isSome)
      (installUploadedModsToQuarantine (fun c => c == .chmod "Beta") ⟨id, fun _ => .refl _⟩
        (fun _ => none) twoMods) = true := by
    decide +kernel
  generalize installUploadedModsToQuarantine (fun c => c == .chmod "Beta") ⟨id, fun _ => .refl _⟩
    (fun _ => none) twoMods = done at hstays ⊢
  obtain ⟨result, after⟩ := done
  cases result with
  | ok folders => exact absurd hstays (by simp [Except.isOk, Except.toBool])
  | error e =>
    intro hsame
    obtain rfl : after = fun _ => none := hsame
    exact absurd hstays (by simp)

end Mastermind.Agent.ModInstall
