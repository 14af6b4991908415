import Mastermind.Agent.Restoring

/-!
# The restored saves

What the calls of `RestoreSave` do to a save. No single call loses it (`leaves_of_restoreSave`), and
no number of calls leaves half of one (`whole_of_runs`). A success means what it says
(`restoreSave_ok`), but the rollback of a snapshot's `Region` is not one that the helper deletes: a
call for a snapshot never succeeds, and the first that replaces the `Region` is the last that does
anything (`region_replaced_once`).
-/

namespace Mastermind.Agent.Restoring

open FileTree Pruning

variable {C : Type}

/-! ## A small save -/

section Example

/-- A directory with a save of one file. -/
def smallWorld : Folder String :=
  some (.dir "Game" (.dir "Region" (.file "r.0.0.7rg" "old" .nil) .nil) .nil)

/-- A full backup, and a snapshot. -/
def smallRoot : Entries String :=
  .dir "mastermind_2026-01-01_00-00-00"
    (.file ".mastermind-save.json" "full-world" (.file "main.ttw" "new" .nil))
    (.dir "snap_2026-01-01_00-00-00" (.dir "Region" (.file "r.0.0.7rg" "new" .nil) .nil) .nil)

/-- Metadata are recognized by their text. -/
def smallReader : Reader String where
  metadata content := if content = "full-world" then some ⟨0, 7, "full-world"⟩ else none
  size := String.length
  modTime _ := 0

/-- A call that nothing hinders. -/
def calmCall (id : String) : RestoreCall String where
  id := id
  live := .ok "/saves/Game"
  liveAgain := .ok "/saves/Game"
  resolved := .ok "/saves/Game"
  serverActive := false
  healerActive := false
  stopHealer := .ok ()
  lostSource := false
  readRoot := .ok ()
  described _ := true
  lostRegion := false
  linked := ""
  lookOld := .ok ()
  clean := .done
  statFails := false
  stage := .ok ()
  mishap _ := none
  chmod := .ok ()
  assign := .ok ()
  discarded := none
  undo := .ok ()
  drop := .done

theorem look_smallWorld : look "Game" smallWorld =
    some (.dir (.dir "Region" (.file "r.0.0.7rg" "old" .nil) .nil)) := rfl

theorem smallRoot_distinct : smallRoot.Distinct := by
  simp [smallRoot, Entries.Distinct, Entries.names]

end Example

/-! ## What a run leaves -/

section Runs

/-- The entries of a save, which are none if it does not exist. -/
def contents : Option (Node C) → Entries C
  | some (.dir entries) => entries
  | _ => .nil

/-- What a call leaves of the save that was live: the save itself, live or put aside, or a whole
copy of a full backup in its place, or the save with its `Region` live, put aside or replaced by a
whole copy of that of a snapshot. -/
inductive Leaves (root : Entries C) (id game : String) (before after : Folder C) : Prop where
  | live (h : look game after = look game before)
  | aside (h : look (game ++ rollbackSuffix) after = look game before)
  | full {source : Entries C} (hsource : root.lookup id = some (.dir source))
      (h : look game after = some (wholeCopy true source))
  | region {source region entries : Entries C} (hsource : root.lookup id = some (.dir source))
      (hregion : source.lookup "Region" = some (.dir region))
      (hlive : look game after = some (.dir entries))
      (hframe : ∀ m, m ≠ "Region" → m ≠ "Region" ++ rollbackSuffix →
        entries.lookup m = (contents (look game before)).lookup m)
      (h : entries.lookup "Region" = (contents (look game before)).lookup "Region" ∨
        entries.lookup ("Region" ++ rollbackSuffix) =
          (contents (look game before)).lookup "Region" ∨
        entries.lookup "Region" = some (wholeCopy false region))

/-- A call, and the directory of the backups when it is made. -/
structure Attempt (C : Type) where
  root : Entries C
  distinct : root.Distinct
  call : RestoreCall C

/-- The directory of the world after some calls. -/
def restores (reader : Reader C) (game : String) (world : Folder C) (attempts : List (Attempt C)) :
    Folder C :=
  attempts.foldl (fun world a => (restoreSave reader a.root game a.call world).1) world

/-- The save is the original one, or a whole copy of a full backup, with its `Region` or that of a
snapshot. The rollback of a `Region` does not count. -/
inductive Whole (backups : Entries C → Prop) (original : Option (Node C)) :
    Option (Node C) → Prop where
  | original : Whole backups original original
  | full {source : Entries C} (hsource : backups source) :
      Whole backups original (some (wholeCopy true source))
  | region {live : Option (Node C)} {entries : Entries C} (h : Whole backups original live)
      (hframe : ∀ m, m ≠ "Region" → m ≠ "Region" ++ rollbackSuffix →
        entries.lookup m = (contents live).lookup m)
      (hregion : entries.lookup "Region" = (contents live).lookup "Region" ∨
        ∃ source region, backups source ∧ source.lookup "Region" = some (.dir region) ∧
          entries.lookup "Region" = some (wholeCopy false region)) :
      Whole backups original (some (.dir entries))

/-- A call that sees the live directory where there is one, and is not hindered in undoing. -/
structure Steady (c : RestoreCall C) : Prop where
  sees : c.statFails = false
  discards : c.discarded = none
  undoes : c.undo = .ok ()

theorem distinct_of_lookup {t below : Entries C} {name : String} (h : t.Distinct)
    (hname : t.lookup name = some (.dir below)) : below.Distinct := by
  induction t with
  | nil => exact absurd hname (by simp [Entries.lookup])
  | file m content rest ih =>
    rw [Entries.lookup] at hname
    split_ifs at hname
    · exact absurd (Option.some.inj hname) (by simp)
    · exact ih h.2 hname
  | special m rest ih =>
    rw [Entries.lookup] at hname
    split_ifs at hname
    · exact absurd (Option.some.inj hname) (by simp)
    · exact ih h.2 hname
  | dir m inner rest _ ih =>
    rw [Entries.lookup] at hname
    split_ifs at hname with hm
    · obtain rfl := Node.dir.inj (Option.some.inj hname)
      exact h.2.1
    · exact ih h.2.2 hname

variable {reader : Reader C} {root : Entries C} {game : String} {c : RestoreCall C}
  {world : Folder C}

/-- A call ends before it touches anything, or it restores a directory among the backups. -/
theorem restoreSave_cases (reader : Reader C) (root : Entries C) (game : String)
    (c : RestoreCall C) (world : Folder C) :
    (∃ err, restoreSave reader root game c world = (world, .error err)) ∨
    ∃ source live selected, c.serverActive = false ∧ c.live = .ok live ∧
      root.lookup c.id = some (.dir source) ∧
      (∃ saves, listSaves reader c root = .ok saves ∧
        saves.find? (fun save => save.id == c.id) = some selected) ∧
      restoreSave reader root game c world =
        ((restoreSelected c selected source live game world).1,
          (restoreSelected c selected source live game world).2.map fun _ => selected) := by
  unfold restoreSave
  by_cases hactive : c.serverActive
  · exact .inl ⟨_, if_pos hactive⟩
  simp only [if_neg hactive]
  split
  · exact .inl ⟨_, rfl⟩
  · exact .inl ⟨_, rfl⟩
  rename_i live _ hlive hpath
  split
  swap
  · exact .inl ⟨_, rfl⟩
  rename_i source hlost hsource
  split
  · exact .inl ⟨_, rfl⟩
  split
  · exact .inl ⟨_, rfl⟩
  rename_i saves hsaves
  split
  · exact .inl ⟨_, rfl⟩
  rename_i selected hselected
  refine .inr ⟨source, live, selected, by simpa using hactive, hlive, hsource,
    ⟨saves, hsaves, hselected⟩, ?_⟩
  cases hr : restoreSelected c selected source live game world with
  | mk left r => cases r <;> rfl

/-- A call for a full backup restores the save, and one for a snapshot restores its `Region`, unless
it ends before. -/
theorem restoreSelected_cases (c : RestoreCall C) (selected : SaveRecord) (source : Entries C)
    (live game : String) (world : Folder C) :
    (∃ err, restoreSelected c selected source live game world = (world, .error err)) ∨
    (selected.kind = "full-world" ∧ restoreSelected c selected source live game world =
      restoreInto c true source (live ++ rollbackSuffix) game world) ∨
    ∃ region folder, source.lookup "Region" = some (.dir region) ∧
      (folder = none → look game world = none) ∧
      (∀ m, look m folder = (contents (look game world)).lookup m) ∧
      restoreSelected c selected source live game world =
        (write game ((restoreInto c false region (Path.join [live, "Region"] ++ rollbackSuffix)
          "Region" folder).1.map Node.dir) world,
        (restoreInto c false region (Path.join [live, "Region"] ++ rollbackSuffix) "Region"
          folder).2) := by
  unfold restoreSelected
  by_cases hkind : selected.kind = "full-world"
  · exact .inr (.inl ⟨hkind, if_pos hkind⟩)
  · rw [if_neg hkind]
    split
    · rename_i region _ hregion
      split
      · rename_i hlive
        exact .inr (.inr ⟨region, none, hregion, fun _ => hlive, fun m => by rw [hlive]; rfl, rfl⟩)
      · rename_i entries hlive
        exact .inr (.inr ⟨region, some entries, hregion, nofun, fun m => by rw [hlive]; rfl, rfl⟩)
      · exact .inl ⟨_, rfl⟩
      · exact .inl ⟨_, rfl⟩
    · exact .inl ⟨_, rfl⟩

/-- A call makes the directory in which it restores, or finds it. -/
theorem eq_none_of_restoreInto {fullWorld : Bool} {source : Entries C} {path name : String}
    {folder : Folder C} (h : (restoreInto c fullWorld source path name folder).1 = none) :
    folder = none := by
  by_contra hsome
  have hleft := (touches_restoreInto c fullWorld source path name folder).isSome
    (Option.isSome_iff_ne_none.mpr hsome)
  rw [h] at hleft
  exact absurd hleft (by simp)

/-- **No call loses a save.** Whatever fails in a call, also in its undoing, the save that was live
is still there, or a whole copy has taken its place: it is enough that the call sees the live
directory where there is one. -/
theorem leaves_of_restoreSave (hdistinct : root.Distinct) (hstat : c.statFails = false) :
    Leaves root c.id game world (restoreSave reader root game c world).1 := by
  rcases restoreSave_cases reader root game c world with
    ⟨err, hr⟩ | ⟨source, live, selected, -, -, hsource, -, hr⟩
  · rw [hr]
    exact .live rfl
  have hsourceDistinct := distinct_of_lookup hdistinct hsource
  rw [hr]
  dsimp only
  rcases restoreSelected_cases c selected source live game world with
    ⟨err, hs⟩ | ⟨-, hs⟩ | ⟨region, folder, hregion, hnone, hfolder, hs⟩
  · rw [hs]
    exact .live rfl
  · rw [hs]
    rcases restoreInto_keeps true (live ++ rollbackSuffix) game world hstat hsourceDistinct with
      hlive | haside | hcopy
    · exact .live hlive
    · exact .aside haside
    · exact .full hsource hcopy
  · rw [hs]
    dsimp only
    have htouches := touches_restoreInto c false region
      (Path.join [live, "Region"] ++ rollbackSuffix) "Region" folder
    have hkeeps := restoreInto_keeps false (Path.join [live, "Region"] ++ rollbackSuffix) "Region"
      folder hstat (distinct_of_lookup hsourceDistinct hregion)
    cases hleft : (restoreInto c false region (Path.join [live, "Region"] ++ rollbackSuffix)
        "Region" folder).1 with
    | none =>
      exact .live ((look_write_self _ _ _).trans (hnone (eq_none_of_restoreInto hleft)).symm)
    | some entries =>
      rw [hleft] at htouches hkeeps
      rw [hfolder] at hkeeps
      exact .region hsource hregion (look_write_self _ _ _)
        (fun m hm hold => (htouches.frame m hm hold).trans (hfolder m)) hkeeps

/-- A call for a snapshot that cannot put the `Region` back. -/
theorem leaves_of_restoreSave_stuck :
    let c := { calmCall "snap_2026-01-01_00-00-00" with
      chmod := .error "operation not permitted", undo := .error "input/output error" }
    Leaves smallRoot c.id "Game" smallWorld
      (restoreSave smallReader smallRoot "Game" c smallWorld).1 :=
  leaves_of_restoreSave smallRoot_distinct rfl

variable {backups : Entries C → Prop} {original : Option (Node C)}

/-- A call for a `Region` leaves the rest of a whole save as it is. -/
theorem Whole.restoreRegion {live : Option (Node C)} {folder : Folder C} {path : String}
    {source region : Entries C} (h : Whole backups original live)
    (hfolder : ∀ m, look m folder = (contents live).lookup m)
    (hnone : folder = none → live = none) (hsteady : Steady c) (hbackup : backups source)
    (hregion : source.lookup "Region" = some (.dir region)) (hdistinct : region.Distinct) :
    Whole backups original ((restoreInto c false region path "Region" folder).1.map Node.dir) := by
  have htouches := touches_restoreInto c false region path "Region" folder
  have hwhole := restoreInto_whole false path "Region" folder hsteady.sees hsteady.discards
    hsteady.undoes hdistinct
  cases hleft : (restoreInto c false region path "Region" folder).1 with
  | none =>
    rw [hnone (eq_none_of_restoreInto hleft)] at h
    exact h
  | some entries =>
    rw [hleft] at htouches hwhole
    refine .region h (fun m hm hold => ?_) ?_
    · exact (htouches.frame m hm hold).trans (hfolder m)
    · rcases hwhole with hsame | hcopy
      · exact .inl (hsame.trans (hfolder "Region"))
      · exact .inr ⟨source, region, hbackup, hregion, hcopy⟩

/-- A steady call leaves a whole save whole. -/
theorem Whole.restoreSave (h : Whole backups original (look game world)) (hsteady : Steady c)
    (hdistinct : root.Distinct)
    (hbackups : ∀ name source, root.lookup name = some (.dir source) → backups source) :
    Whole backups original (look game (restoreSave reader root game c world).1) := by
  rcases restoreSave_cases reader root game c world with
    ⟨err, hr⟩ | ⟨source, live, selected, -, -, hsource, -, hr⟩
  · rw [hr]
    exact h
  have hbackup := hbackups _ _ hsource
  have hsourceDistinct := distinct_of_lookup hdistinct hsource
  rw [hr]
  dsimp only
  rcases restoreSelected_cases c selected source live game world with
    ⟨err, hs⟩ | ⟨-, hs⟩ | ⟨region, folder, hregion, hnone, hfolder, hs⟩
  · rw [hs]
    exact h
  · rw [hs]
    rcases restoreInto_whole true (live ++ rollbackSuffix) game world hsteady.sees
      hsteady.discards hsteady.undoes hsourceDistinct with
      hsame | hcopy
    · rw [hsame]
      exact h
    · rw [hcopy]
      exact .full hbackup
  · rw [hs]
    dsimp only
    rw [look_write_self]
    exact h.restoreRegion hfolder hnone hsteady hbackup hregion
      (distinct_of_lookup hsourceDistinct hregion)

/-- **No call leaves half a save.** Over any number of calls, of any backups as they are at the
time, a save is the original one or a whole copy, as long as each call sees the live directory where
there is one and is not hindered in undoing what it did. -/
theorem whole_of_runs (reader : Reader C) (game : String) (world : Folder C)
    {attempts : List (Attempt C)} (hsteady : ∀ a ∈ attempts, Steady a.call) :
    Whole (fun source => ∃ a ∈ attempts, ∃ name, a.root.lookup name = some (.dir source))
      (look game world) (look game (restores reader game world attempts)) := by
  suffices hrun : ∀ (backups : Entries C → Prop) (world₀ : Folder C),
      (∀ a ∈ attempts, ∀ name source, a.root.lookup name = some (.dir source) → backups source) →
      Whole backups (look game world) (look game world₀) →
      Whole backups (look game world) (look game (restores reader game world₀ attempts)) from
    hrun _ world (fun a ha name source h => ⟨a, ha, name, h⟩) .original
  intro backups
  induction attempts with
  | nil => exact fun world₀ _ h => h
  | cons a rest ih =>
    intro world₀ hbackups h
    refine ih (fun b hb => hsteady b (List.mem_cons_of_mem _ hb)) _
      (fun b hb => hbackups b (List.mem_cons_of_mem _ hb)) ?_
    exact h.restoreSave (hsteady a (List.mem_cons_self ..)) a.distinct
      (hbackups a (List.mem_cons_self ..))

/-- The save after a full backup and a snapshot have been restored. -/
theorem whole_of_runs_two :
    let attempts : List (Attempt String) :=
      [⟨smallRoot, smallRoot_distinct, calmCall "mastermind_2026-01-01_00-00-00"⟩,
        ⟨smallRoot, smallRoot_distinct, calmCall "snap_2026-01-01_00-00-00"⟩]
    Whole (fun source => ∃ a ∈ attempts, ∃ name, a.root.lookup name = some (.dir source))
      (look "Game" smallWorld) (look "Game" (restores smallReader "Game" smallWorld attempts)) :=
  whole_of_runs smallReader "Game" smallWorld fun a ha => by
    rcases List.mem_pair.mp ha with rfl | rfl
    · exact ⟨rfl, rfl, rfl⟩
    · exact ⟨rfl, rfl, rfl⟩

end Runs

/-! ## When a call succeeds -/

section Success

variable {reader : Reader C} {root : Entries C} {game : String} {c : RestoreCall C}
  {world : Folder C}

/-- A path that `filepath.Clean` leaves as it is, other than `.`. -/
def Tidy (path : String) : Prop :=
  ∃ es, Path.Settled (Path.isAbs path) es ∧ path = Path.assemble (Path.isAbs path) es

/-- The path of elements, and one more whose name goes on. -/
theorem assemble_concat_append {rooted : Bool} {es : List String} (m t : String) :
    Path.assemble rooted (es ++ [m]) ++ t = Path.assemble rooted (es ++ [m ++ t]) := by
  have hjoin (k : String) : "/".intercalate (es ++ [k]) =
      (if es = [] then "" else "/".intercalate es ++ "/") ++ k := by
    split_ifs with hes
    · simp [hes]
    · rw [String.intercalate_append_of_ne_nil hes (by simp), String.intercalate_singleton]
  unfold Path.assemble
  simp only [hjoin, List.append_eq_nil_iff, List.cons_ne_nil, and_false, if_false]
  split_ifs <;> simp only [String.append_assoc]

/-- The helper does not delete the rollback of a `Region`. -/
theorem regionRollback_ne {live : String} (h : Tidy live) :
    Path.join [live, "Region"] ++ rollbackSuffix ≠ live ∧
      Path.join [live, "Region"] ++ rollbackSuffix ≠ live ++ rollbackSuffix := by
  obtain ⟨es, hes, hlive⟩ := h
  have hnormal (e : String) (he : e = "Region" ∨ e = "Region" ++ rollbackSuffix) :
      ∀ f ∈ [e], Path.Normal f := by
    rintro f hf
    obtain rfl := List.mem_singleton.mp hf
    rcases he with rfl | rfl
    · exact ⟨⟨by decide, by decide +kernel⟩, by decide, by decide⟩
    · exact ⟨⟨by decide +kernel, by decide +kernel⟩, by decide +kernel, by decide +kernel⟩
  have hjoin : Path.join [live, "Region"] = Path.assemble (Path.isAbs live) (es ++ ["Region"]) := by
    have h := Path.join_settled hes (hnormal "Region" (.inl rfl))
    rwa [← hlive] at h
  have helements : Path.elements live = es := by
    rw [hlive]
    exact Path.elements_assemble hes
  refine ⟨fun heq => ?_, fun heq => ?_⟩
  · rw [hjoin, assemble_concat_append] at heq
    have hlong := Path.elements_assemble (hes.append (hnormal _ (.inr rfl)))
    rw [heq, helements] at hlong
    exact absurd (congrArg List.length hlong) (by simp)
  · rw [hjoin] at heq
    have heq : Path.assemble (Path.isAbs live) (es ++ ["Region"]) = live := by
      have := congrArg String.toList heq
      rw [String.toList_append, String.toList_append] at this
      exact String.toList_inj.mp (List.append_cancel_right this)
    have hlong := Path.elements_assemble (hes.append (hnormal _ (.inl rfl)))
    rw [heq, helements] at hlong
    exact absurd (congrArg List.length hlong) (by simp)

/-- A call for a `Region` never succeeds: at the latest, the helper refuses to delete the
rollback. -/
theorem region_never_restores {live : String} (hlive : Tidy live) (hresolved : ∀ save,
    c.resolved = .ok save → save = live) {region : Entries C} (hregion : region.Distinct)
    (folder : Folder C) :
    ∃ err, (restoreInto c false region (Path.join [live, "Region"] ++ rollbackSuffix) "Region"
      folder).2 = .error err := by
  cases hr : (restoreInto c false region (Path.join [live, "Region"] ++ rollbackSuffix) "Region"
    folder).2 with
  | error err => exact ⟨err, rfl⟩
  | ok _ =>
    obtain ⟨-, -, -, -, save, hsave, hpath⟩ := restoreInto_ok hregion hr
    obtain rfl := hresolved save hsave
    obtain ⟨hne, hne'⟩ := regionRollback_ne hlive
    exact absurd hpath (not_or.mpr ⟨hne, hne'⟩)

theorem mem_subfolders {name : String} {below : Entries C} {t : Entries C} (h : t.Distinct) :
    (name, below) ∈ subfolders t ↔ t.lookup name = some (.dir below) := by
  have hnames (t : Entries C) : ∀ entry ∈ subfolders t, entry.1 ∈ t.names := by
    intro entry
    induction t with
    | nil => simp [subfolders]
    | file m content rest ih => exact fun he => List.mem_cons_of_mem _ (ih he)
    | special m rest ih => exact fun he => List.mem_cons_of_mem _ (ih he)
    | dir m inner rest _ ih =>
      intro he
      rcases List.mem_cons.mp he with rfl | he
      · exact List.mem_cons_self ..
      · exact List.mem_cons_of_mem _ (ih he)
  induction t with
  | nil => simp [subfolders, Entries.lookup]
  | file m content rest ih =>
    have hrest := ih h.2
    rw [Entries.lookup]
    refine hrest.trans ?_
    split_ifs with hm
    · rw [Entries.lookup_eq_none.mpr (hm ▸ h.1)]
      simp
    · rfl
  | special m rest ih =>
    have hrest := ih h.2
    rw [Entries.lookup]
    refine hrest.trans ?_
    split_ifs with hm
    · rw [Entries.lookup_eq_none.mpr (hm ▸ h.1)]
      simp
    · rfl
  | dir m inner rest _ ih =>
    have hrest := ih h.2.2
    rw [Entries.lookup]
    refine (List.mem_cons.trans (or_congr Iff.rfl hrest)).trans ?_
    split_ifs with hm
    · rw [Entries.lookup_eq_none.mpr (hm ▸ h.1)]
      simp [hm, eq_comm]
    · simp [Ne.symm hm]

/-- The record that a call selects is that of the backup with its id. -/
theorem selected_eq {saves : List SaveRecord} {selected : SaveRecord} {source : Entries C}
    (hdistinct : root.Distinct) (hsource : root.lookup c.id = some (.dir source))
    (hsaves : listSaves reader c root = .ok saves)
    (hselected : saves.find? (fun save => save.id == c.id) = some selected) :
    selected = saveRecord reader c.id source := by
  have hmem := List.mem_of_find?_eq_some hselected
  have hid : selected.id = c.id := by simpa using List.find?_some hselected
  unfold listSaves at hsaves
  split at hsaves
  · exact absurd hsaves (by simp)
  · exact absurd hsaves (by simp)
  · obtain rfl := Except.ok.inj hsaves
    rw [List.mem_mergeSort, List.mem_map] at hmem
    obtain ⟨⟨name, below⟩, hbelow, rfl⟩ := hmem
    have hlookup := (mem_subfolders hdistinct).mp (List.mem_of_mem_filter hbelow)
    have hname : name = c.id := by
      rw [← hid]
      unfold saveRecord
      dsimp only
      split <;> rfl
    rw [hname, hsource] at hlookup
    obtain rfl := Node.dir.inj (Option.some.inj hlookup)
    rw [hname]

/-- A directory under the name of the metadata makes no full backup. -/
theorem metadata_ne_dir {reader : Reader C} {id : String} {source : Entries C}
    (h : (saveRecord reader id source).kind = "full-world") (below : Entries C) :
    source.lookup metadataName ≠ some (.dir below) := by
  intro hdir
  unfold saveRecord at h
  rw [hdir] at h
  exact absurd h (by simp)

/-- **What a success says.** A call that succeeds was for a full backup, the game was stopped, there
was a save, and now there is a copy of the backup in its place: its directories and regular files
are those of the backup but the metadata, and no rollback is left. -/
theorem restoreSave_ok {selected : SaveRecord} (hdistinct : root.Distinct)
    (hlive : ∀ live, c.live = .ok live → Tidy live)
    (hresolved : ∀ save, c.resolved = .ok save → c.live = .ok save)
    (h : (restoreSave reader root game c world).2 = .ok selected) :
    c.serverActive = false ∧ selected.id = c.id ∧ selected.kind = "full-world" ∧
      (∃ entries, look game world = some (.dir entries)) ∧
      look (game ++ rollbackSuffix) (restoreSave reader root game c world).1 = none ∧
      ∃ source copy, root.lookup c.id = some (.dir source) ∧
        look game (restoreSave reader root game c world).1 = some (.dir copy) ∧
        copy = (source.erase metadataName).regular := by
  rcases restoreSave_cases reader root game c world with
    ⟨err, hr⟩ | ⟨source, live, selected', hactive, hc, hsource, ⟨saves, hsaves, hselected⟩, hr⟩
  · rw [hr] at h
    exact absurd h (by simp)
  · rw [hr] at h ⊢
    dsimp only at h ⊢
    have hrecord := selected_eq hdistinct hsource hsaves hselected
    have hsourceDistinct := distinct_of_lookup hdistinct hsource
    cases hdone : (restoreSelected c selected' source live game world).2 with
    | error err =>
      rw [hdone] at h
      exact absurd h (by simp [Except.map])
    | ok _ =>
      rw [hdone] at h
      obtain rfl : selected' = selected := by simpa [Except.map] using h
      have hid : selected'.id = c.id := by simpa using List.find?_some hselected
      have hagree : ∀ save, c.resolved = .ok save → save = live := fun save hsave =>
        Except.ok.inj ((hresolved save hsave).symm.trans hc)
      rcases restoreSelected_cases c selected' source live game world with
        ⟨err, hs⟩ | ⟨hkind, hs⟩ | ⟨region, folder, hregion, -, -, hs⟩
      · rw [hs] at hdone
        exact absurd hdone (by simp)
      · rw [hs] at hdone ⊢
        obtain ⟨hnew, hold, hdir, -, -⟩ := restoreInto_ok hsourceDistinct hdone
        exact ⟨hactive, hid, hkind, hdir, hold, source, _, hsource, hnew,
          regular_hideMetadata hsourceDistinct (metadata_ne_dir (hrecord ▸ hkind))⟩
      · obtain ⟨err, herr⟩ := region_never_restores (hlive live hc) hagree
          (distinct_of_lookup hsourceDistinct hregion) folder
        rw [hs] at hdone
        exact absurd (herr.symm.trans hdone) (by simp)

/-- A call that nothing hinders. -/
structure Unhindered (c : RestoreCall C) (live : String) : Prop where
  resolves : c.live = .ok live
  liveAgain : c.liveAgain = .ok live
  resolved : c.resolved = .ok live
  stopHealer : c.stopHealer = .ok ()
  lostSource : c.lostSource = false
  readRoot : c.readRoot = .ok ()
  described : ∀ id, c.described id = true
  lookOld : c.lookOld = .ok ()
  clean : c.clean = .done
  stat : c.statFails = false
  stage : c.stage = .ok ()
  mishap : c.mishap = fun _ => none
  chmod : c.chmod = .ok ()
  assign : c.assign = .ok ()
  drop : c.drop = .done

/-- The helper deletes the rollback of a save that is a directory, if nothing hinders it. -/
theorem removeRestoreRollback_done {live name : String} {folder : Folder C} {new old : Entries C}
    (hlive : look name folder = some (.dir new))
    (hold : look (name ++ rollbackSuffix) folder = some (.dir old)) :
    removeRestoreRollback (.ok live) .done (live ++ rollbackSuffix) name folder =
      (write (name ++ rollbackSuffix) none folder, .ok ()) := by
  unfold removeRestoreRollback
  simp [hlive, hold]

theorem restoreInto_calm {live name : String} {source entries : Entries C} {folder : Folder C}
    (h : Unhindered c live) (hsource : source.Distinct)
    (hlive : look name folder = some (.dir entries))
    (hstale : ∀ node, look (name ++ rollbackSuffix) folder = some node →
      ∃ old, node = .dir old) :
    (restoreInto c true source (live ++ rollbackSuffix) name folder).2 = .ok () := by
  have hne := rollback_ne name
  obtain ⟨cleaned, hclean, hcleaned, hnone⟩ : ∃ cleaned,
      cleanStale c (live ++ rollbackSuffix) name folder = (cleaned, .ok ()) ∧
      look name cleaned = some (.dir entries) ∧
      look (name ++ rollbackSuffix) cleaned = none := by
    unfold cleanStale
    rw [h.lookOld, h.resolved, h.clean]
    cases hold : look (name ++ rollbackSuffix) folder with
    | none => exact ⟨folder, rfl, hlive, hold⟩
    | some node =>
      obtain ⟨old, rfl⟩ := hstale node hold
      simp only [removeRestoreRollback_done hlive hold]
      exact ⟨_, rfl, by rw [look_write_of_ne hne.symm, hlive], look_write_self _ _ _⟩
  obtain ⟨staged, hstage, hgone, haside⟩ : ∃ staged,
      stageLive c name cleaned = (staged, .ok ()) ∧ look name staged = none ∧
      look (name ++ rollbackSuffix) staged = some (.dir entries) := by
    rcases stageLive_cases name h.stat hnone with ⟨err, hstage⟩ | ⟨staged, hs, hg, ha⟩
    · simp [stageLive, hcleaned, h.stat, h.stage, rename_free hcleaned hnone, wrap] at hstage
    · exact ⟨staged, hs, hg, ha.trans hcleaned⟩
  obtain ⟨new, hreplace, hnew, hkept⟩ : ∃ new,
      replaceLive c true source name staged = (new, .ok ()) ∧
      look name new = some (wholeCopy true source) ∧
      look (name ++ rollbackSuffix) new = some (.dir entries) := by
    have hcalm := Entries.copy_calm [] .nil (distinct_copied hsource true)
      (by simp [Entries.names])
    have hcopied : (copySaveTree c.mishap true source name staged).2 = .ok () := by
      unfold copySaveTree
      rw [h.mishap, hgone]
      exact hcalm
    rcases replaceLive_cases c true hsource name staged with ⟨new, hr, hk, hw⟩ | ⟨tried, err, hr, -⟩
    · exact ⟨new, hr, hw hgone, hk.trans haside⟩
    · unfold replaceLive at hr
      cases hcopy : copySaveTree c.mishap true source name staged with
      | mk copy r =>
        rw [hcopy] at hcopied
        obtain rfl : r = .ok () := hcopied
        simp [hcopy, orUndo, andThen, h.chmod, h.assign] at hr
  unfold restoreInto
  simp only [hclean, hstage, hreplace, andThen, h.resolved, h.drop,
    removeRestoreRollback_done hnew hkept, wrap]

/-- An unhindered call for a full backup restores a save that is there, while the game is
stopped. -/
theorem restoreSave_calm {live : String} {source entries : Entries C} (hdistinct : root.Distinct)
    (h : Unhindered c live) (hactive : c.serverActive = false) (hid : validSaveID c.id = true)
    (hsource : root.lookup c.id = some (.dir source))
    (hkind : (saveRecord reader c.id source).kind = "full-world")
    (hlive : look game world = some (.dir entries))
    (hstale : ∀ node, look (game ++ rollbackSuffix) world = some node →
      ∃ old, node = .dir old) :
    (restoreSave reader root game c world).2 = .ok (saveRecord reader c.id source) := by
  have hpath : checkedBackupPath c.id = .ok (saveBackupPath c.id) := if_pos hid
  have hhealer : (if c.healerActive then c.stopHealer else .ok ()) = .ok () := by
    rw [h.stopHealer, ite_self]
  obtain ⟨saves, hsaves⟩ : ∃ saves, listSaves reader c root = .ok saves := by
    unfold listSaves
    rw [h.liveAgain, h.readRoot]
    exact ⟨_, rfl⟩
  have hlisted : ∃ selected, saves.find? (fun save => save.id == c.id) = some selected := by
    have hmem : saveRecord reader c.id source ∈ saves := by
      unfold listSaves at hsaves
      rw [h.liveAgain, h.readRoot] at hsaves
      obtain rfl := Except.ok.inj hsaves
      rw [List.mem_mergeSort]
      refine List.mem_map_of_mem (List.mem_filter.mpr
        ⟨(mem_subfolders hdistinct).mpr hsource, ?_⟩)
      rw [hid, h.described]
      rfl
    have hrecord : (saveRecord reader c.id source).id = c.id := by
      unfold saveRecord
      dsimp only
      split <;> rfl
    rw [← Option.isSome_iff_exists, List.find?_isSome]
    exact ⟨_, hmem, by rw [hrecord, beq_self_eq_true]⟩
  obtain ⟨selected, hselected⟩ := hlisted
  have hrecord := selected_eq hdistinct hsource hsaves hselected
  have hdone := restoreInto_calm h (distinct_of_lookup hdistinct hsource) hlive hstale
  have hrestored : (restoreSelected c selected source live game world).2 = .ok () := by
    unfold restoreSelected
    rw [hrecord, if_pos hkind, hdone]
  unfold restoreSave
  simp only [hactive, h.resolves, hpath, h.lostSource, hsource, hhealer, hsaves, hselected]
  cases hr : restoreSelected c selected source live game world with
  | mk left r =>
    rw [hr] at hrestored
    obtain rfl : r = .ok () := hrestored
    rw [← hrecord]
    rfl

theorem tidy_saves : Tidy "/saves/Game" := by
  refine ⟨["saves", "Game"], ⟨fun e he => ?_, by decide +kernel, nofun⟩, by decide +kernel⟩
  rcases List.mem_pair.mp he with rfl | rfl
  · exact ⟨by decide, by decide +kernel⟩
  · exact ⟨by decide, by decide +kernel⟩

/-- The small save is restored from the full backup. -/
theorem restoreSave_ok_full :
    let c := calmCall "mastermind_2026-01-01_00-00-00"
    look "Game" (restoreSave smallReader smallRoot "Game" c smallWorld).1 =
      some (.dir (.file "main.ttw" "new" .nil)) := by
  intro c
  have hcalm : Unhindered c "/saves/Game" :=
    ⟨rfl, rfl, rfl, rfl, rfl, rfl, fun _ => rfl, rfl, rfl, rfl, rfl, rfl, rfl, rfl, rfl⟩
  have hstale : look ("Game" ++ rollbackSuffix) smallWorld = none := by
    simp [look, smallWorld, Entries.lookup, rollbackSuffix]
  have hdone : (restoreSave smallReader smallRoot "Game" c smallWorld).2 = .ok _ :=
    restoreSave_calm smallRoot_distinct hcalm rfl (by decide +kernel) rfl rfl look_smallWorld
      fun node hnode => absurd (hstale.symm.trans hnode) (by simp)
  have htidy : ∀ live, c.live = .ok live → Tidy live := fun live hlive => by
    obtain rfl : "/saves/Game" = live := Except.ok.inj hlive
    exact tidy_saves
  obtain ⟨-, -, -, -, -, source, copy, hsource, hcopy, hregular⟩ :=
    restoreSave_ok smallRoot_distinct htidy (fun save hsave => hsave) hdone
  obtain rfl := Node.dir.inj (Option.some.inj hsource)
  rw [hcopy, hregular]
  rfl

end Success

/-! ## Snapshots -/

section Snapshots

variable {reader : Reader C} {game : String} {c : RestoreCall C} {world folder : Folder C}
  {name path : String}

/-- The path is not one that the helper deletes. -/
def Refused (c : RestoreCall C) (path : String) : Prop :=
  ∀ save, c.resolved = .ok save → path ≠ save ∧ path ≠ save ++ rollbackSuffix

theorem removeRestoreRollback_refused (h : Refused c path) (deletion : Deletion C) (name : String)
    (folder : Folder C) :
    ∃ err, removeRestoreRollback c.resolved deletion path name folder = (folder, .error err) := by
  unfold removeRestoreRollback
  cases hresolved : c.resolved with
  | error err => exact ⟨_, rfl⟩
  | ok save => exact ⟨_, if_pos (h save hresolved)⟩

/-- Where a rollback is that the helper does not delete, a call changes nothing. -/
theorem restoreInto_stuck (h : Refused c path) (name : String) (folder : Folder C)
    {source : Entries C} (hold : (look (name ++ rollbackSuffix) folder).isSome) :
    (restoreInto c false source path name folder).1 = folder := by
  obtain ⟨node, hnode⟩ := Option.isSome_iff_exists.mp hold
  obtain ⟨err, hr⟩ := removeRestoreRollback_refused h c.clean name folder
  have hclean : ∃ err, cleanStale c path name folder = (folder, .error err) := by
    unfold cleanStale
    cases c.lookOld with
    | error err => exact ⟨_, rfl⟩
    | ok _ => exact ⟨_, by rw [hnode, hr]; rfl⟩
  obtain ⟨err, hclean⟩ := hclean
  unfold restoreInto
  rw [hclean]
  rfl

/-- Where there is none, a call leaves what it found, or a rollback. -/
theorem restoreInto_leaves_rollback (h : Refused c path) (name : String) (folder : Folder C)
    (hstat : c.statFails = false) {source : Entries C} (hsource : source.Distinct)
    (hlive : (look name folder).isSome) (hnone : look (name ++ rollbackSuffix) folder = none) :
    (look (name ++ rollbackSuffix) (restoreInto c false source path name folder).1).isSome ∨
      look name (restoreInto c false source path name folder).1 = look name folder ∧
      look (name ++ rollbackSuffix) (restoreInto c false source path name folder).1 = none := by
  have hclean : (∃ err, cleanStale c path name folder = (folder, .error err)) ∨
      cleanStale c path name folder = (folder, .ok ()) := by
    unfold cleanStale
    cases c.lookOld with
    | error err => exact .inl ⟨_, rfl⟩
    | ok _ => exact .inr (by rw [hnone])
  unfold restoreInto
  rcases hclean with ⟨err, hclean⟩ | hclean
  · rw [hclean]
    exact .inr ⟨rfl, hnone⟩
  rw [hclean]
  simp only [andThen]
  rcases stageLive_cases name hstat hnone with ⟨err, hs⟩ | ⟨staged, hs, hgone, haside⟩
  · rw [hs]
    exact .inr ⟨rfl, hnone⟩
  rw [hs]
  rcases replaceLive_cases c false hsource name staged with
    ⟨new, hr, hkept, -⟩ | ⟨tried, err, hr, hkept⟩
  · obtain ⟨err, hdrop⟩ := removeRestoreRollback_refused h c.drop name new
    simp only [hr, hdrop]
    exact .inl (by rw [hkept, haside, hlive])
  · simp only [hr]
    have hframe := look_removeAll_of_ne (rollback_ne name) c.discarded tried
    unfold undone
    rcases rename_cases c.undo (rollback_ne name) (removeAll c.discarded name tried) with
      ⟨err, hmove⟩ | ⟨moved, hmove, -, hdst, hsrc, -⟩
    · exact .inl (by rw [hmove, hframe, hkept, haside, hlive])
    · rw [hmove]
      exact .inr ⟨by rw [hdst, hframe, hkept, haside], hsrc⟩

/-- The entries of the live save. -/
def liveEntries (game : String) (world : Folder C) : Entries C := contents (look game world)

/-- A call for the `Region` of a snapshot, whose paths are resolved alike, and which sees the live
directory where there is one. -/
structure Snapshot (reader : Reader C) (a : Attempt C) : Prop where
  kind : ∀ source, a.root.lookup a.call.id = some (.dir source) →
    (saveRecord reader a.call.id source).kind ≠ "full-world"
  tidy : ∀ live, a.call.live = .ok live → Tidy live
  resolved : ∀ save, a.call.resolved = .ok save → a.call.live = .ok save
  sees : a.call.statFails = false

theorem write_look {entries : Entries C} (h : look game world = some (.dir entries)) :
    write game (some (.dir entries)) world = world := by
  cases world with
  | none => exact absurd h (by simp [look])
  | some t => exact congrArg some (Entries.put_lookup h)

/-- A call for a snapshot does nothing, or it is a call for the `Region` of the live save. -/
theorem restoreSave_snapshot {a : Attempt C} {entries : Entries C} (h : Snapshot reader a)
    (hlive : look game world = some (.dir entries)) :
    (restoreSave reader a.root game a.call world).1 = world ∨
      ∃ region path, region.Distinct ∧ Refused a.call path ∧
        (restoreSave reader a.root game a.call world).1 =
          write game ((restoreInto a.call false region path "Region" (some entries)).1.map Node.dir)
            world := by
  rcases restoreSave_cases reader a.root game a.call world with
    ⟨err, hr⟩ | ⟨source, live, selected, -, hc, hsource, ⟨saves, hsaves, hselected⟩, hr⟩
  · exact .inl (by rw [hr])
  have hrecord := selected_eq a.distinct hsource hsaves hselected
  have hnot : selected.kind ≠ "full-world" := hrecord ▸ h.kind source hsource
  rw [hr]
  unfold restoreSelected
  rw [if_neg hnot, hlive]
  split
  · rename_i region _ hregion
    refine .inr ⟨region, Path.join [live, "Region"] ++ rollbackSuffix,
      distinct_of_lookup (distinct_of_lookup a.distinct hsource) hregion, fun save hsave => ?_, rfl⟩
    have hsave : save = live := Except.ok.inj ((h.resolved save hsave).symm.trans hc)
    rw [hsave]
    exact regionRollback_ne (h.tidy live hc)
  · exact .inl rfl

/-- Once a rollback of the `Region` is there, no call for a snapshot changes anything. -/
theorem restoreSave_stuck {a : Attempt C} {entries : Entries C} (h : Snapshot reader a)
    (hlive : look game world = some (.dir entries))
    (hold : (entries.lookup ("Region" ++ rollbackSuffix)).isSome) :
    (restoreSave reader a.root game a.call world).1 = world := by
  rcases restoreSave_snapshot h hlive with hsame | ⟨region, path, -, hrefused, hr⟩
  · exact hsame
  · rw [hr, restoreInto_stuck hrefused "Region" (some entries) hold]
    exact write_look hlive

/-- Without one, a call for a snapshot leaves the `Region` as it was, or it leaves a rollback. -/
theorem restoreSave_leaves_rollback {a : Attempt C} {entries : Entries C} {node : Node C}
    (h : Snapshot reader a) (hlive : look game world = some (.dir entries))
    (hregion : entries.lookup "Region" = some node)
    (hnone : entries.lookup ("Region" ++ rollbackSuffix) = none) :
    ∃ left, look game (restoreSave reader a.root game a.call world).1 = some (.dir left) ∧
      ((left.lookup ("Region" ++ rollbackSuffix)).isSome ∨
        left.lookup "Region" = some node ∧ left.lookup ("Region" ++ rollbackSuffix) = none) := by
  rcases restoreSave_snapshot h hlive with hsame | ⟨region, path, hdistinct, hrefused, hr⟩
  · rw [hsame]
    exact ⟨entries, hlive, .inr ⟨hregion, hnone⟩⟩
  · have hfolder : (look "Region" (some entries)).isSome := by
      rw [show look "Region" (some entries) = some node from hregion]
      rfl
    have hleaves := restoreInto_leaves_rollback hrefused "Region" (some entries) h.sees hdistinct
      hfolder hnone
    obtain ⟨left, hleft⟩ := Option.isSome_iff_exists.mp
      ((touches_restoreInto a.call false region path "Region" (some entries)).isSome rfl)
    rw [hleft] at hleaves
    refine ⟨left, by rw [hr, hleft, look_write_self]; rfl, hleaves.imp_right fun hsame => ?_⟩
    exact ⟨hsame.1.trans hregion, hsame.2⟩

theorem restores_stuck {attempts : List (Attempt C)} (h : ∀ a ∈ attempts, Snapshot reader a)
    {entries : Entries C} (hlive : look game world = some (.dir entries))
    (hold : (entries.lookup ("Region" ++ rollbackSuffix)).isSome) :
    restores reader game world attempts = world := by
  induction attempts with
  | nil => rfl
  | cons a rest ih =>
    show restores reader game (restoreSave reader a.root game a.call world).1 rest = world
    rw [restoreSave_stuck (h a (List.mem_cons_self ..)) hlive hold]
    exact ih fun b hb => h b (List.mem_cons_of_mem _ hb)

/-- **A `Region` is replaced at most once.** Over any number of calls for snapshots, with any
failures, there is one up to which the live `Region` stays as it was, and after which nothing
changes at all: the rollback that it leaves is in the way of all the others. -/
theorem region_replaced_once {attempts : List (Attempt C)}
    (h : ∀ a ∈ attempts, Snapshot reader a) {entries : Entries C} {node : Node C}
    (hlive : look game world = some (.dir entries))
    (hregion : entries.lookup "Region" = some node) :
    ∃ k ≤ attempts.length,
      (∀ i < k, (liveEntries game (restores reader game world (attempts.take i))).lookup "Region" =
        some node) ∧
      ∀ i, k ≤ i → restores reader game world (attempts.take i) =
        restores reader game world (attempts.take k) := by
  by_cases hold : (entries.lookup ("Region" ++ rollbackSuffix)).isSome
  · refine ⟨0, Nat.zero_le _, nofun, fun i _ => ?_⟩
    exact restores_stuck (fun a ha => h a (List.mem_of_mem_take ha)) hlive hold
  have hnone : entries.lookup ("Region" ++ rollbackSuffix) = none := by simpa using hold
  clear hold
  induction attempts generalizing world entries with
  | nil => exact ⟨0, le_rfl, nofun, fun i _ => by rw [List.take_nil, List.take_nil]⟩
  | cons a rest ih =>
    have hrest : ∀ b ∈ rest, Snapshot reader b := fun b hb => h b (List.mem_cons_of_mem _ hb)
    obtain ⟨left, hleft, hcases⟩ :=
      restoreSave_leaves_rollback (h a (List.mem_cons_self ..)) hlive hregion hnone
    have hzero : (liveEntries game (restores reader game world ((a :: rest).take 0))).lookup
        "Region" = some node := by
      show (contents (look game world)).lookup "Region" = some node
      rw [hlive]
      exact hregion
    rcases hcases with hold | ⟨hsame, hstill⟩
    · -- this call has left its rollback: all the others are stuck
      refine ⟨1, by simp, fun i hi => ?_, fun i hi => ?_⟩
      · obtain rfl : i = 0 := by omega
        exact hzero
      · obtain ⟨i, rfl⟩ := Nat.exists_eq_add_of_le' hi
        show restores reader game (restoreSave reader a.root game a.call world).1 (rest.take i) =
          restores reader game (restoreSave reader a.root game a.call world).1 (rest.take 0)
        rw [restores_stuck (fun b hb => hrest b (List.mem_of_mem_take hb)) hleft hold]
        rfl
    · obtain ⟨k, hk, hbefore, hafter⟩ := ih hrest hleft hsame hstill
      refine ⟨k + 1, Nat.succ_le_succ hk, fun i hi => ?_, fun i hi => ?_⟩
      · cases i with
        | zero => exact hzero
        | succ i => exact hbefore i (by omega)
      · obtain ⟨i, rfl⟩ := Nat.exists_eq_add_of_le' (Nat.le_of_add_left_le hi)
        exact hafter i (by omega)

/-- Two calls for the snapshot of the small save. -/
theorem region_replaced_once_twice :
    let snapshot : Attempt String :=
      ⟨smallRoot, smallRoot_distinct, calmCall "snap_2026-01-01_00-00-00"⟩
    ∃ k ≤ 2,
      (∀ i < k, (liveEntries "Game" (restores smallReader "Game" smallWorld
          ([snapshot, snapshot].take i))).lookup "Region" =
        some (.dir (.file "r.0.0.7rg" "old" .nil))) ∧
      ∀ i, k ≤ i → restores smallReader "Game" smallWorld ([snapshot, snapshot].take i) =
        restores smallReader "Game" smallWorld ([snapshot, snapshot].take k) := by
  intro snapshot
  have hsnapshot : Snapshot smallReader snapshot := by
    refine ⟨fun source hsource => ?_, fun live hlive => Except.ok.inj hlive ▸ tidy_saves,
      fun save hsave => hsave, rfl⟩
    obtain rfl := Node.dir.inj (Option.some.inj hsource)
    decide +kernel
  have hregion : (Entries.dir "Region" (.file "r.0.0.7rg" "old" .nil) .nil).lookup "Region" =
      some (.dir (.file "r.0.0.7rg" "old" .nil)) := rfl
  have hall : ∀ a ∈ [snapshot, snapshot], Snapshot smallReader a := fun a ha => by
    rcases List.mem_pair.mp ha with rfl | rfl
    · exact hsnapshot
    · exact hsnapshot
  exact region_replaced_once hall look_smallWorld hregion

end Snapshots

end Mastermind.Agent.Restoring
