import Mastermind.Agent.Access
import Mastermind.Platform.FileTree

/-!
# Mods and their quarantine

`internal/games/7dtd/adapter.go`: the folder of a mod is moved out of `Mods` into the quarantine of
its server, moved back, or deleted. A move is one of `mv`, which copies the folder and removes it
where it cannot rename it, so that it may end with half a folder on one of the sides. Both
directions look at the destination first, and move nothing to a name that is taken there.

Therefore a mod stays whole on one of the sides, whatever fails (`has_of_calls`), and where `mv`
does all or nothing, no mod is lost, doubled or written over (`swapped_of_calls`).

A deletion gives the name of the folder to `find` as a pattern; `takes` says which names a pattern
takes. The modes and the times of the files are left out.
-/

namespace Mastermind.Agent.Mods

open FileTree Access ModArchive

variable {C : Type}

/-! ## Moves -/

/-- How `mv` goes. -/
inductive Move (C : Type) where
  | done
  /-- The copy fails, and some of it may be at the destination. -/
  | cut (err : String) (part : Option (Entries C))
  /-- The copy is whole, but some of the source may be left. -/
  | stuck (err : String) (rest : Option (Entries C))

/-- The move does all or nothing. -/
def Move.Atomic : Move C → Prop
  | .done => True
  | .cut _ part => part = none
  | .stuck _ rest => rest = none

/-- The entries with a folder under a name, or without the name. -/
def write (name : String) (folder : Option (Entries C)) (t : Entries C) : Entries C :=
  match folder with
  | some entries => t.put name (.dir entries)
  | none => t.erase name

/-- `mv` of a folder from one directory to another that does not have its name: both directories
afterwards. -/
def mv (move : Move C) (name : String) (folder : Entries C) (source destination : Entries C) :
    (Entries C × Entries C) × Fallible Unit :=
  match move with
  | .done => ((write name none source, write name (some folder) destination), .ok ())
  | .cut err part => ((source, write name part destination), .error err)
  | .stuck err rest => ((write name rest source, write name (some folder) destination), .error err)

/-- The failures of the steps of a move. -/
structure MoveFaults (C : Type) where
  lstatSource : Bool
  makeQuarantine : Option String
  lstatDestination : Bool
  move : Move C
  normalize : Option String
  chtimes : Option String

/-! ## Calls -/

/-- The mods of a server: the entries of `Mods`, and those of its quarantine. -/
structure Places (C : Type) where
  mods : Entries C
  quarantine : Entries C

/-- The entries that are a folder. -/
def asFolder : Node C → Option (Entries C)
  | .dir entries => some entries
  | _ => none

/-- `realModDirectory`: what is in the folder. -/
def realModDirectory (fails : Bool) (t : Entries C) (folder : String) : Fallible (Entries C) := do
  check (isModFolder folder) "invalid mod folder"
  let info ← found (if fails then none else t.lookup folder) "mod folder not found"
  found (asFolder info) "mod target must be a real directory"

/-- `os.Lstat` says that there is nothing under the name. -/
def isNotExist (fails : Bool) (t : Entries C) (folder : String) : Bool :=
  !fails && (t.lookup folder).isNone

/-- `quarantineMod`. -/
def quarantineMod (cfg : InstanceConfig) (override folder : String) (f : MoveFaults C)
    (p : Places C) : Places C × Fallible Unit :=
  let checked : Fallible (Entries C) := do
    let _ ← modsPath cfg override
    let target ← realModDirectory f.lstatSource p.mods folder
    Access.attempt f.makeQuarantine ("create quarantine directory: " ++ ·)
    check (isNotExist f.lstatDestination p.quarantine folder)
      ("quarantined mod already exists: " ++ folder)
    return target
  -- nothing has changed before `mv`, but that the quarantine may have been made
  match checked with
  | .error err => (p, .error err)
  | .ok target =>
    let ((mods, quarantine), result) := mv f.move folder target p.mods p.quarantine
    (⟨mods, quarantine⟩, result.mapError ("quarantine mod: " ++ ·))

/-- `restoreMod`. -/
def restoreMod (cfg : InstanceConfig) (override folder : String) (f : MoveFaults C)
    (p : Places C) : Places C × Fallible Unit :=
  let checked : Fallible (Entries C) := do
    let _ ← modsPath cfg override
    let source ← (realModDirectory f.lstatSource p.quarantine folder).mapError ("quarantined " ++ ·)
    check (isNotExist f.lstatDestination p.mods folder)
      ("active mod folder already exists: " ++ folder)
    return source
  match checked with
  | .error err => (p, .error err)
  | .ok source =>
    let ((quarantine, mods), result) := mv f.move folder source p.quarantine p.mods
    (⟨mods, quarantine⟩, do
      result.mapError ("restore mod: " ++ ·)
      Access.attempt f.normalize ("make restored mod readable by game server: " ++ ·)
      Access.attempt f.chtimes ("record restored mod activation time: " ++ ·))

/-- What `find` and `rm` leave of the folders that the pattern takes: nothing, or some of each. -/
def sweep (taken : String → Bool) (left : String → Option (Entries C)) : Entries C → Entries C
  | .nil => .nil
  | .file name content rest => .file name content (sweep taken left rest)
  | .special name rest => .special name (sweep taken left rest)
  | .dir name below rest =>
    if taken name then
      match left name with
      | none => sweep taken left rest
      | some entries => .dir name entries (sweep taken left rest)
    else .dir name below (sweep taken left rest)

/-- The failures of the steps of a deletion. -/
structure DeleteFaults (C : Type) where
  lstatTarget : Bool
  left : String → Option (Entries C)
  command : Option String
  lstatAfter : Bool

section

variable (takes : String → String → Bool)

/-- `deleteModWithPipe`. -/
def deleteModWithPipe (cfg : InstanceConfig) (override folder : String) (f : DeleteFaults C)
    (p : Places C) : Places C × Fallible Unit :=
  let checked : Fallible Unit := do
    let _ ← modsPath cfg override
    let _ ← realModDirectory f.lstatTarget p.mods folder
  match checked with
  | .error err => (p, .error err)
  | .ok _ =>
    -- the folder's own name may be none of those that its pattern takes
    let mods := sweep (takes folder) f.left p.mods
    (⟨mods, p.quarantine⟩, do
      Access.attempt f.command ("delete mod: " ++ ·)
      check (isNotExist f.lstatAfter mods folder) "mod folder still exists after delete")

/-- A call for a folder, and how it goes. -/
inductive Call (C : Type) where
  | quarantine (cfg : InstanceConfig) (override folder : String) (f : MoveFaults C)
  | restore (cfg : InstanceConfig) (override folder : String) (f : MoveFaults C)
  | delete (cfg : InstanceConfig) (override folder : String) (f : DeleteFaults C)

/-- The mods after a call. -/
def Call.run (p : Places C) : Call C → Places C
  | quarantine cfg override folder f => (quarantineMod cfg override folder f p).1
  | restore cfg override folder f => (restoreMod cfg override folder f p).1
  | delete cfg override folder f => (deleteModWithPipe takes cfg override folder f p).1

/-- The mods after calls, one after the other. -/
def after (p : Places C) (calls : List (Call C)) : Places C := calls.foldl (Call.run takes) p

/-- The call deletes what has the name. -/
def Call.Deletes (name : String) : Call C → Prop
  | delete _ _ folder _ => takes folder name
  | _ => False

end

/-- The moves of the call do all or nothing. -/
def Call.Atomic : Call C → Prop
  | quarantine _ _ _ f => f.move.Atomic
  | restore _ _ _ f => f.move.Atomic
  | delete .. => True

/-! ## What a call leaves -/

variable {move : Move C} {name m folder : String} {entries : Entries C}
  {source destination source' destination' : Entries C} {p : Places C}

@[simp]
theorem lookup_write_self (left : Option (Entries C)) (t : Entries C) :
    (write name left t).lookup name = left.map .dir := by
  cases left <;> simp [write]

theorem lookup_write_of_ne (h : m ≠ name) (left : Option (Entries C)) (t : Entries C) :
    (write name left t).lookup m = t.lookup m := by
  cases left with
  | none => exact Entries.lookup_erase_of_ne h t
  | some entries => exact Entries.lookup_put_of_ne h _ t

/-- A folder is moved to a name that was free, or nothing is. -/
def Moves (move : Move C) (name : String) (source destination source' destination' : Entries C) :
    Prop :=
  source' = source ∧ destination' = destination ∨
    ∃ folder, source.lookup name = some (.dir folder) ∧ destination.lookup name = none ∧
      (mv move name folder source destination).1 = (source', destination')

/-- The other names are left as they are. -/
theorem Moves.lookup_of_ne (h : Moves move name source destination source' destination')
    (hm : m ≠ name) :
    source'.lookup m = source.lookup m ∧ destination'.lookup m = destination.lookup m := by
  obtain ⟨rfl, rfl⟩ | ⟨folder, -, -, hmv⟩ := h
  · exact ⟨rfl, rfl⟩
  · cases move with
    | done =>
      obtain ⟨rfl, rfl⟩ := Prod.mk.inj hmv
      exact ⟨lookup_write_of_ne hm none source, lookup_write_of_ne hm _ destination⟩
    | cut err part =>
      obtain ⟨rfl, rfl⟩ := Prod.mk.inj hmv
      exact ⟨rfl, lookup_write_of_ne hm part destination⟩
    | stuck err rest =>
      obtain ⟨rfl, rfl⟩ := Prod.mk.inj hmv
      exact ⟨lookup_write_of_ne hm rest source, lookup_write_of_ne hm _ destination⟩

/-- A folder that is whole on one of the sides stays so. -/
theorem Moves.kept (h : Moves move name source destination source' destination')
    (hwhole : source.lookup name = some (.dir entries) ∨
      destination.lookup name = some (.dir entries)) :
    source'.lookup name = some (.dir entries) ∨
      destination'.lookup name = some (.dir entries) := by
  obtain ⟨rfl, rfl⟩ | ⟨folder, hfolder, hfree, hmv⟩ := h
  · exact hwhole
  · -- the destination is free, so that the whole folder is the one that is moved
    rw [hfree] at hwhole
    obtain rfl : folder = entries := by simpa [hfolder] using hwhole
    cases move with
    | done =>
      obtain ⟨rfl, rfl⟩ := Prod.mk.inj hmv
      exact .inr (lookup_write_self _ _)
    | cut err part =>
      obtain ⟨rfl, rfl⟩ := Prod.mk.inj hmv
      exact .inl hfolder
    | stuck err rest =>
      obtain ⟨rfl, rfl⟩ := Prod.mk.inj hmv
      exact .inr (lookup_write_self _ _)

/-- A move that does all or nothing leaves what was under the name on both sides, or swaps it. -/
theorem Moves.swapped (h : Moves move name source destination source' destination')
    (hatomic : move.Atomic) :
    (source'.lookup name, destination'.lookup name) =
        (source.lookup name, destination.lookup name) ∨
      (source'.lookup name, destination'.lookup name) =
        (destination.lookup name, source.lookup name) := by
  obtain ⟨rfl, rfl⟩ | ⟨folder, hfolder, hfree, hmv⟩ := h
  · exact .inl rfl
  · rw [hfolder, hfree]
    cases move with
    | done =>
      obtain ⟨rfl, rfl⟩ := Prod.mk.inj hmv
      exact .inr (by simp)
    | cut err part =>
      obtain rfl : part = none := hatomic
      obtain ⟨rfl, rfl⟩ := Prod.mk.inj hmv
      exact .inl (by simp [hfolder])
    | stuck err rest =>
      obtain rfl : rest = none := hatomic
      obtain ⟨rfl, rfl⟩ := Prod.mk.inj hmv
      exact .inr (by simp)

theorem realModDirectory_eq_ok {fails : Bool} {t : Entries C} :
    realModDirectory fails t folder = .ok entries ↔
      isModFolder folder = true ∧ fails = false ∧ t.lookup folder = some (.dir entries) := by
  simp only [realModDirectory, bind_eq_ok, check_eq_ok, found_eq_ok]
  constructor
  · rintro ⟨-, hfolder, info, hinfo, hdir⟩
    cases fails with
    | true => cases hinfo
    | false =>
      cases info with
      | dir entries =>
        obtain rfl := Option.some.inj hdir
        exact ⟨hfolder, rfl, hinfo⟩
      | file content => cases hdir
      | special => cases hdir
  · rintro ⟨hfolder, rfl, hdir⟩
    exact ⟨(), hfolder, .dir entries, hdir, rfl⟩

theorem isNotExist_eq_true {fails : Bool} {t : Entries C} :
    isNotExist fails t folder = true ↔ fails = false ∧ t.lookup folder = none := by
  simp [isNotExist]

theorem mapError_eq_ok {α : Type} {x : Fallible α} {describe : String → String} {a : α} :
    x.mapError describe = .ok a ↔ x = .ok a := by
  cases x <;> simp [Except.mapError]

section

variable (cfg : InstanceConfig) (override folder : String) (f : MoveFaults C) (p : Places C)

/-- What `quarantineMod` does. -/
theorem quarantineMod_moves :
    Moves f.move folder p.mods p.quarantine (quarantineMod cfg override folder f p).1.mods
      (quarantineMod cfg override folder f p).1.quarantine := by
  unfold quarantineMod
  dsimp only
  split
  · exact .inl ⟨rfl, rfl⟩
  · rename_i target hchecked
    simp only [bind_eq_ok, realModDirectory_eq_ok, check_eq_ok, isNotExist_eq_true,
      pure_eq_ok] at hchecked
    obtain ⟨-, -, entries, ⟨-, -, hdir⟩, -, -, -, ⟨-, hfree⟩, rfl⟩ := hchecked
    exact .inr ⟨entries, hdir, hfree, rfl⟩

/-- What `restoreMod` does. -/
theorem restoreMod_moves :
    Moves f.move folder p.quarantine p.mods (restoreMod cfg override folder f p).1.quarantine
      (restoreMod cfg override folder f p).1.mods := by
  unfold restoreMod
  dsimp only
  split
  · exact .inl ⟨rfl, rfl⟩
  · rename_i source hchecked
    simp only [bind_eq_ok, mapError_eq_ok, realModDirectory_eq_ok, check_eq_ok,
      isNotExist_eq_true, pure_eq_ok] at hchecked
    obtain ⟨-, -, entries, ⟨-, -, hdir⟩, -, ⟨-, hfree⟩, rfl⟩ := hchecked
    exact .inr ⟨entries, hdir, hfree, rfl⟩

end

section

variable {takes : String → String → Bool} {calls : List (Call C)}

/-- What the pattern does not take is left. -/
theorem lookup_sweep {taken : String → Bool} {left : String → Option (Entries C)}
    (hname : taken name = false) (t : Entries C) :
    (sweep taken left t).lookup name = t.lookup name := by
  induction t with
  | nil => rfl
  | file other content rest ih => simp only [sweep, Entries.lookup, ih]
  | special other rest ih => simp only [sweep, Entries.lookup, ih]
  | dir other below rest _ ih =>
    rw [sweep]
    split_ifs with hother
    · have hne : other ≠ name := by
        rintro rfl
        exact absurd hother (by simp [hname])
      cases left other <;> simp only [Entries.lookup, if_neg hne, ih]
    · simp only [Entries.lookup, ih]

/-- What `deleteModWithPipe` does. -/
theorem deleteModWithPipe_sweeps (takes : String → String → Bool) (cfg : InstanceConfig)
    (override folder : String) (f : DeleteFaults C) (p : Places C) :
    (deleteModWithPipe takes cfg override folder f p).1 = p ∨
      (deleteModWithPipe takes cfg override folder f p).1 =
        ⟨sweep (takes folder) f.left p.mods, p.quarantine⟩ := by
  unfold deleteModWithPipe
  dsimp only
  split
  · exact .inl rfl
  · exact .inr rfl

/-- A deletion leaves what its pattern does not take. -/
theorem lookup_deleteModWithPipe (cfg : InstanceConfig) (override : String) (f : DeleteFaults C)
    (p : Places C) (hname : takes folder name = false) :
    (deleteModWithPipe takes cfg override folder f p).1.mods.lookup name = p.mods.lookup name ∧
      (deleteModWithPipe takes cfg override folder f p).1.quarantine = p.quarantine := by
  rcases deleteModWithPipe_sweeps takes cfg override folder f p with h | h
  · rw [h]
    exact ⟨rfl, rfl⟩
  · rw [h]
    exact ⟨lookup_sweep hname p.mods, rfl⟩

/-! ## Runs -/

/-- The folder is whole in `Mods` or in the quarantine. -/
def Places.Has (p : Places C) (name : String) (folder : Entries C) : Prop :=
  p.mods.lookup name = some (.dir folder) ∨ p.quarantine.lookup name = some (.dir folder)

/-- What is under a name in `Mods`, and what in the quarantine. -/
def Places.under (p : Places C) (name : String) : Option (Node C) × Option (Node C) :=
  (p.mods.lookup name, p.quarantine.lookup name)

/-- A call that does not delete the folder keeps it. -/
theorem Call.has_run {call : Call C} (hcall : ¬call.Deletes takes name) (h : p.Has name entries) :
    (call.run takes p).Has name entries := by
  cases call with
  | quarantine cfg override folder f =>
    have hmoves := quarantineMod_moves cfg override folder f p
    by_cases hname : name = folder
    · subst hname
      exact hmoves.kept h
    · unfold Places.Has Call.run
      rwa [(hmoves.lookup_of_ne hname).1, (hmoves.lookup_of_ne hname).2]
  | restore cfg override folder f =>
    have hmoves := restoreMod_moves cfg override folder f p
    by_cases hname : name = folder
    · subst hname
      exact (hmoves.kept h.symm).symm
    · unfold Places.Has Call.run
      rwa [(hmoves.lookup_of_ne hname).1, (hmoves.lookup_of_ne hname).2]
  | delete cfg override folder f =>
    have hleft := lookup_deleteModWithPipe cfg override f p
      (Bool.eq_false_of_not_eq_true hcall)
    unfold Places.Has Call.run
    rwa [hleft.1, hleft.2]

/-- **A mod stays whole.** Whatever fails in the calls, a folder that is whole in `Mods` or in the
quarantine is so after them, unless one of them deletes what has its name. -/
theorem has_of_calls (hcalls : ∀ call ∈ calls, ¬call.Deletes takes name)
    (h : p.Has name entries) : (after takes p calls).Has name entries := by
  induction calls generalizing p with
  | nil => exact h
  | cons call calls ih =>
    exact ih (fun later hlater => hcalls later (List.mem_cons_of_mem _ hlater))
      (Call.has_run (hcalls call List.mem_cons_self) h)

/-- A server with one mod. -/
def lamps : Places String := ⟨.dir "Lamps" (.file "ModInfo.xml" "<xml/>" .nil) .nil, .nil⟩

/-- The configuration of the server. -/
def lampsConfig : InstanceConfig := ⟨"/srv/7dtd", false⟩

/-- The copy into the quarantine is whole, but nothing of the mod can be removed; the mod is then
quarantined again, and another one deleted. -/
def stuckCalls : List (Call String) :=
  let stuck : Move String := .stuck "busy" (some (.file "ModInfo.xml" "<xml/>" .nil))
  let again : Call String :=
    .quarantine lampsConfig "" "Lamps" ⟨false, none, false, stuck, none, none⟩
  [again, again, .delete lampsConfig "" "Torches" ⟨false, fun _ => none, none, false⟩]

theorem has_of_calls_stuck : (after (fun pattern name => pattern == name) lamps stuckCalls).Has
    "Lamps" (.file "ModInfo.xml" "<xml/>" .nil) :=
  has_of_calls (by simp [stuckCalls, Call.Deletes]) (.inl rfl)

/-- A call whose moves do all or nothing leaves what is under a name, or swaps it. -/
theorem Call.under_run {call : Call C} (hcall : ¬call.Deletes takes name) (hatomic : call.Atomic) :
    (call.run takes p).under name = p.under name ∨
      (call.run takes p).under name = (p.under name).swap := by
  cases call with
  | quarantine cfg override folder f =>
    have hmoves := quarantineMod_moves cfg override folder f p
    by_cases hname : name = folder
    · subst hname
      exact hmoves.swapped hatomic
    · exact .inl (Prod.ext (hmoves.lookup_of_ne hname).1 (hmoves.lookup_of_ne hname).2)
  | restore cfg override folder f =>
    have hmoves := restoreMod_moves cfg override folder f p
    by_cases hname : name = folder
    · subst hname
      exact (hmoves.swapped hatomic).imp (congrArg Prod.swap) (congrArg Prod.swap)
    · exact .inl (Prod.ext (hmoves.lookup_of_ne hname).2 (hmoves.lookup_of_ne hname).1)
  | delete cfg override folder f =>
    have hleft := lookup_deleteModWithPipe cfg override f p
      (Bool.eq_false_of_not_eq_true hcall)
    exact .inl (Prod.ext hleft.1 (congrArg (Entries.lookup name) hleft.2))

/-- **No mod is lost, doubled or written over.** Where moves do all or nothing, what is under a name
in `Mods` and in the quarantine after some calls is what was there before them, or the two of it
swapped, unless one of the calls deletes what has the name. -/
theorem swapped_of_calls (hcalls : ∀ call ∈ calls, ¬call.Deletes takes name)
    (hatomic : ∀ call ∈ calls, call.Atomic) :
    (after takes p calls).under name = p.under name ∨
      (after takes p calls).under name = (p.under name).swap := by
  induction calls generalizing p with
  | nil => exact .inl rfl
  | cons call calls ih =>
    have hlater := ih (p := call.run takes p)
      (fun later hlater => hcalls later (List.mem_cons_of_mem _ hlater))
      (fun later hlater => hatomic later (List.mem_cons_of_mem _ hlater))
    have hcall := Call.under_run (p := p) (hcalls call List.mem_cons_self)
      (hatomic call List.mem_cons_self)
    change (after takes (call.run takes p) calls).under name = _ ∨
      (after takes (call.run takes p) calls).under name = _
    -- two swaps are none
    rcases hlater with h | h <;> rcases hcall with h' | h' <;> rw [h, h']
    · exact .inl rfl
    · exact .inr rfl
    · exact .inr rfl
    · exact .inl (Prod.swap_swap _)

/-- A mod is quarantined and restored. -/
def thereAndBack : List (Call String) :=
  let calm : MoveFaults String := ⟨false, none, false, .done, none, none⟩
  [.quarantine lampsConfig "" "Lamps" calm, .restore lampsConfig "" "Lamps" calm]

theorem swapped_of_calls_back :
    (after (fun pattern name => pattern == name) lamps thereAndBack).under "Lamps" =
        lamps.under "Lamps" ∨
      (after (fun pattern name => pattern == name) lamps thereAndBack).under "Lamps" =
        (lamps.under "Lamps").swap :=
  swapped_of_calls (by simp [thereAndBack, Call.Deletes])
    (by simp [thereAndBack, Call.Atomic, Move.Atomic])

end

end Mastermind.Agent.Mods
