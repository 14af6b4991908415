import Mastermind.Platform.CleanPath

/-!
# Trees with links

What a Unix system finds at a path. A location is where a file is: the names from the root to it, none
of which is a link. A path leads to a location by its elements, one after the other, and a link among
them is followed as if its target stood in its place. A system gives up after some links.

`walk_cases` says where a path of names leads to: by no link, or by a last one.
-/

namespace Mastermind.Links

open Mastermind.Path

/-- The names from the root. -/
abbrev Location := List String

/-- What is at a location. -/
inductive Node where
  | file (content : List UInt8)
  | folder
  | link (target : String)
  /-- A device, a pipe or a socket. -/
  | other
deriving DecidableEq

/-- The files of a system. -/
abbrev Tree := Location → Option Node

/-- Where a path begins, in a working directory. -/
def start (cwd : Location) (path : String) : Location := if isAbs path then [] else cwd

/-- What stands between the separators of a path. -/
def pieces (path : String) : List String := (path.toList.splitOn '/').map String.ofList

/-- The location that elements lead to, with how many links may still be followed from there. -/
def walk (t : Tree) (links : ℕ) (cwd : Location) (es : List String) : Option (ℕ × Location) :=
  match es with
  | [] => some (links, cwd)
  | e :: es =>
    if t cwd ≠ some .folder then none
    else if e = "" ∨ e = "." then walk t links cwd es
    else if e = ".." then walk t links cwd.dropLast es
    else
      match t (cwd ++ [e]) with
      | none => none
      -- the target of the link stands in its place
      | some (.link target) =>
        match links with
        | 0 => none
        | links + 1 => walk t links (start cwd target) (pieces target ++ es)
      | some _ => walk t links (cwd ++ [e]) es
termination_by (links, es.length)

/-- A system: its files, its working directory, and how many links it follows. -/
structure System where
  tree : Tree
  cwd : Location
  maxLinks : ℕ

variable (y : System)

/-- Where a path leads to, from its beginning. -/
def System.follow (path : String) : Option (ℕ × Location) :=
  walk y.tree y.maxLinks (start y.cwd path) (elements path)

/-- Where the file of a path is. -/
def System.locate (path : String) : Option Location := (y.follow path).map Prod.snd

/-- `os.Stat`. -/
def System.stat (path : String) : Option Node := (y.locate path).bind y.tree

/-- Where what the last element of a path names is: a link there is not followed. -/
def System.entry (path : String) : Option Location :=
  match (elements path).getLast? with
  | none => y.locate path
  | some last =>
    if last = "." ∨ last = ".." then y.locate path
    else
      match walk y.tree y.maxLinks (start y.cwd path) (elements path).dropLast with
      | none => none
      | some (_, folder) =>
        if y.tree folder ≠ some .folder then none else some (folder ++ [last])

/-- `os.Lstat`. -/
def System.lstat (path : String) : Option Node := (y.entry path).bind y.tree

/-! ## What a walk does -/

section Walking

variable {t : Tree}

@[simp] theorem walk_nil (links : ℕ) (cwd : Location) : walk t links cwd [] = some (links, cwd) := by
  rw [walk]

/-- A walk goes on where its first part ends. -/
theorem walk_append (links : ℕ) (cwd : Location) (es fs : List String) :
    walk t links cwd (es ++ fs) = (walk t links cwd es).bind fun r => walk t r.1 r.2 fs := by
  induction links, cwd, es using walk.induct t with
  | case1 links cwd => simp
  | case2 links cwd e es hfolder => simp [walk, hfolder]
  | case3 links cwd e es hfolder hdot ih =>
    rw [List.cons_append, walk, if_neg hfolder, if_pos hdot, ih, walk, if_neg hfolder, if_pos hdot]
  | case4 links cwd es hfolder hdot ih =>
    rw [List.cons_append, walk, if_neg hfolder, if_neg hdot, if_pos rfl, ih, walk, if_neg hfolder,
      if_neg hdot, if_pos rfl]
  | case5 links cwd e es hfolder hdot hup hnode =>
    simp [walk, hfolder, hdot, hup, hnode]
  | case6 cwd e es hfolder hdot hup target hnode =>
    simp [walk, hfolder, hdot, hup, hnode]
  | case7 cwd e es hfolder hdot hup target hnode links ih =>
    rw [List.append_assoc] at ih
    rw [List.cons_append, walk, if_neg hfolder, if_neg hdot, if_neg hup, hnode]
    dsimp only
    rw [ih, walk, if_neg hfolder, if_neg hdot, if_neg hup, hnode]
  | case8 links cwd e es hfolder hdot hup node hlink hnode ih =>
    have hstep : ∀ es, walk t links cwd (e :: es) = walk t links (cwd ++ [e]) es := by
      intro es
      rw [walk, if_neg hfolder, if_neg hdot, if_neg hup, hnode]
      cases node with
      | link target => exact (hlink target rfl).elim
      | file content => rfl
      | folder => rfl
      | other => rfl
    rw [List.cons_append, hstep, ih, hstep]

/-- A name that is no link leads to what it names. -/
theorem walk_name {links : ℕ} {cwd : Location} {e : String} (he : Normal e) {r : ℕ × Location}
    (h : walk t links cwd [e] = some r) (hlink : ∀ target, t (cwd ++ [e]) ≠ some (.link target)) :
    r = (links, cwd ++ [e]) := by
  have hdot : ¬(e = "" ∨ e = ".") := not_or.mpr ⟨he.1.1, he.2.1⟩
  rw [walk] at h
  split_ifs at h with hfolder hup
  · exact absurd hup he.2.2
  · split at h
    · cases h
    · rename_i target hnode
      exact absurd hnode (hlink target)
    · simpa using h.symm

/-- No link is among the names that follow a location. -/
def NoLinks (t : Tree) (place : Location) (es : List String) : Prop :=
  ∀ ms e, ms ++ [e] <+: es → ∀ target, t (place ++ ms ++ [e]) ≠ some (.link target)

/-- Without links, names lead to what they name. -/
theorem walk_noLinks {links : ℕ} {cwd : Location} {es : List String} (hes : ∀ e ∈ es, Normal e)
    (hlinks : NoLinks t cwd es) {r : ℕ × Location} (h : walk t links cwd es = some r) :
    r = (links, cwd ++ es) := by
  induction es using List.reverseRecOn generalizing r with
  | nil => simpa using h.symm
  | append_singleton es e ih =>
    rw [walk_append] at h
    obtain ⟨r', hr', hlast⟩ := Option.bind_eq_some_iff.mp h
    have hbefore : NoLinks t cwd es := fun ms x hms => hlinks ms x (hms.trans (List.prefix_append _ _))
    obtain rfl := ih (fun x hx => hes x (List.mem_append_left _ hx)) hbefore hr'
    have hname := walk_name (hes e (by simp)) hlast (hlinks es e (List.prefix_refl _))
    rw [hname, List.append_assoc]

/-- The last link among the elements of a walk leads to a location, and some names are left. -/
def LastLink (t : Tree) (links : ℕ) (cwd : Location) (es : List String) (place : Location)
    (left : List String) : Prop :=
  ∃ before e r target links', es = before ++ e :: left ∧ walk t links cwd before = some r ∧
    t (r.2 ++ [e]) = some (.link target) ∧
      walk t links cwd (before ++ [e]) = some (links', place) ∧ NoLinks t place left

/-- A walk with a last link ends with the names that are left. -/
theorem LastLink.location {links : ℕ} {cwd : Location} {es : List String} (hes : ∀ e ∈ es, Normal e)
    {place : Location} {left : List String} (h : LastLink t links cwd es place left)
    {r : ℕ × Location} (hwalk : walk t links cwd es = some r) : r.2 = place ++ left := by
  obtain ⟨before, e, -, -, links', rfl, -, -, hplace, hlinks⟩ := h
  rw [← List.singleton_append, ← List.append_assoc, walk_append, hplace] at hwalk
  have hleft : ∀ x ∈ left, Normal x := fun x hx =>
    hes x (List.mem_append_right _ (List.mem_cons_of_mem _ hx))
  rw [walk_noLinks hleft hlinks hwalk]

/-- A walk over names meets no link, or a last one. -/
theorem walk_cases {links : ℕ} {cwd : Location} {es : List String} (hes : ∀ e ∈ es, Normal e)
    {r : ℕ × Location} (hwalk : walk t links cwd es = some r) :
    r.2 = cwd ++ es ∨ ∃ place left, LastLink t links cwd es place left := by
  induction es using List.reverseRecOn generalizing r with
  | nil =>
    left
    rw [walk_nil] at hwalk
    simp [← Option.some.inj hwalk]
  | append_singleton es e ih =>
    have hbefore : ∀ x ∈ es, Normal x := fun x hx => hes x (List.mem_append_left _ hx)
    have hsplit := hwalk
    rw [walk_append] at hsplit
    obtain ⟨r', hr', hlast⟩ := Option.bind_eq_some_iff.mp hsplit
    by_cases hlink : ∃ target, t (r'.2 ++ [e]) = some (.link target)
    · -- the last name is the last link
      obtain ⟨target, htarget⟩ := hlink
      refine .inr ⟨r.2, [], es, e, r', target, r.1, rfl, hr', htarget, hwalk, ?_⟩
      intro ms x hms
      cases ms <;> cases hms.length_le
    · have hlink : ∀ target, t (r'.2 ++ [e]) ≠ some (.link target) := not_exists.mp hlink
      have hname := walk_name (hes e (by simp)) hlast hlink
      rcases ih hbefore hr' with hr'' | ⟨place, left, hlastLink⟩
      · left
        rw [hname, hr'', List.append_assoc]
      · right
        have hlocation := hlastLink.location hbefore hr'
        obtain ⟨before, x, q, target, links', hes', hq, htarget, hplace, hnone⟩ := hlastLink
        refine ⟨place, left ++ [e], before, x, q, target, links', ?_, hq, htarget, hplace, ?_⟩
        · rw [hes', List.append_assoc, List.cons_append]
        · intro ms z hms
          rcases List.prefix_concat_iff.mp hms with heq | hms
          · obtain ⟨rfl, hz⟩ := List.append_inj' heq rfl
            obtain rfl : z = e := by simpa using hz
            rwa [← hlocation]
          · exact hnone ms z hms

end Walking

/-! ## Directories and files -/

section Entries

variable {y : System}

theorem walk_step {t : Tree} {links : ℕ} {cwd : Location} {e : String} {node : Node}
    (hfolder : t cwd = some .folder) (he : Normal e) (hnode : t (cwd ++ [e]) = some node)
    (hlink : ∀ target, node ≠ .link target) :
    walk t links cwd [e] = some (links, cwd ++ [e]) := by
  have hdot : ¬(e = "" ∨ e = ".") := not_or.mpr ⟨he.1.1, he.2.1⟩
  rw [walk, if_neg (not_not.mpr hfolder), if_neg hdot, if_neg he.2.2, hnode]
  cases node with
  | link target => exact absurd rfl (hlink target)
  | file content => exact walk_nil _ _
  | folder => exact walk_nil _ _
  | other => exact walk_nil _ _

/-- What is found at a path that ends with a name, and is no link. -/
theorem lstat_name {path e : String} (he : (elements path).getLast? = some e) (hnormal : Normal e)
    {node : Node} (hlstat : y.lstat path = some node) (hlink : ∀ target, node ≠ .link target) :
    ∃ r, walk y.tree y.maxLinks (start y.cwd path) (elements path).dropLast = some r ∧
      y.tree r.2 = some .folder ∧ y.tree (r.2 ++ [e]) = some node ∧
        y.entry path = some (r.2 ++ [e]) ∧ y.follow path = some (r.1, r.2 ++ [e]) := by
  have hdot : ¬(e = "." ∨ e = "..") := not_or.mpr hnormal.2
  have hentry : y.entry path =
      match walk y.tree y.maxLinks (start y.cwd path) (elements path).dropLast with
      | none => none
      | some (_, folder) => if y.tree folder ≠ some .folder then none else some (folder ++ [e]) := by
    rw [System.entry, he]
    exact if_neg hdot
  obtain ⟨location, hlocation, hnode⟩ := Option.bind_eq_some_iff.mp hlstat
  cases hwalk : walk y.tree y.maxLinks (start y.cwd path) (elements path).dropLast with
  | none =>
    rw [hentry, hwalk] at hlocation
    cases hlocation
  | some r =>
    rw [hentry, hwalk] at hlocation
    dsimp only at hlocation
    split_ifs at hlocation with hfolder
    obtain rfl := Option.some.inj hlocation
    have hfolder : y.tree r.2 = some .folder := not_not.mp hfolder
    refine ⟨r, rfl, hfolder, hnode, ?_, ?_⟩
    · rw [hentry, hwalk]
      exact if_neg (not_not.mpr hfolder)
    · have hsplit : elements path = (elements path).dropLast ++ [e] :=
        (List.dropLast_append_getLast? e he).symm
      rw [System.follow, hsplit, walk_append, hwalk]
      exact walk_step hfolder hnormal hnode hlink

/-- What is found to be a directory can be entered. -/
theorem lstat_folder {path : String} (h : y.lstat path = some .folder) :
    ∃ r, y.follow path = some r ∧ y.tree r.2 = some .folder := by
  have hstat : y.stat path = some .folder → ∃ r, y.follow path = some r ∧
      y.tree r.2 = some .folder := by
    intro h
    obtain ⟨location, hlocate, hfolder⟩ := Option.bind_eq_some_iff.mp h
    obtain ⟨r, hr, rfl⟩ := Option.map_eq_some_iff.mp hlocate
    exact ⟨r, hr, hfolder⟩
  cases he : (elements path).getLast? with
  | none =>
    refine hstat ?_
    rw [System.lstat, System.entry, he] at h
    exact h
  | some e =>
    by_cases hdot : e = "." ∨ e = ".."
    · refine hstat ?_
      rw [System.lstat, System.entry, he] at h
      dsimp only at h
      rwa [if_pos hdot] at h
    · have hnormal : Normal e :=
        ⟨plain_of_mem_elements (List.mem_of_getLast? he), not_or.mp hdot⟩
      obtain ⟨r, -, -, hfolder, -, hfollow⟩ := lstat_name he hnormal h (fun _ => nofun)
      exact ⟨_, hfollow, hfolder⟩

end Entries

/-! ## Staying inside -/

/-- On the way along a relative path from a directory, the last link leads, with the rest of the
path, out of the directory. -/
def System.LeadsOut (y : System) (directory relative : String) : Prop :=
  ∃ r place left e, y.follow directory = some r ∧ (elements relative).getLast? = some e ∧
    LastLink y.tree r.1 r.2 (elements relative).dropLast place left ∧ ¬ r.2 <+: place ++ left ++ [e]

/-- A file at names below a directory is in it, unless the last link before it leads out. -/
theorem inside_iff {y : System} {directory relative target : String} {r : ℕ × Location}
    (hdirectory : y.follow directory = some r)
    (helements : elements target = elements directory ++ elements relative)
    (habs : isAbs target = isAbs directory) (hnormal : ∀ e ∈ elements relative, Normal e)
    (hne : elements relative ≠ []) {content : List UInt8}
    (hfile : y.lstat target = some (.file content)) :
    ∃ q e, walk y.tree y.maxLinks (start y.cwd target) (elements target).dropLast = some q ∧
      y.tree q.2 = some .folder ∧ y.tree (q.2 ++ [e]) = some (.file content) ∧
        y.entry target = some (q.2 ++ [e]) ∧ y.locate target = some (q.2 ++ [e]) ∧
          (r.2 <+: q.2 ++ [e] ↔ ¬ y.LeadsOut directory relative) := by
  obtain ⟨es, e, hes⟩ : ∃ es e, elements relative = es ++ [e] :=
    ⟨_, _, (List.dropLast_append_getLast hne).symm⟩
  rw [hes] at hnormal
  have hlast : (elements target).getLast? = some e := by
    rw [helements, hes, ← List.append_assoc, List.getLast?_concat]
  obtain ⟨q, hq, hfolder, hnode, hentry, hfollow⟩ :=
    lstat_name hlast (hnormal e (by simp)) hfile (fun _ => nofun)
  have hlocate : y.locate target = some (q.2 ++ [e]) := by
    rw [System.locate, hfollow]
    rfl
  refine ⟨q, e, hq, hfolder, hnode, hentry, hlocate, ?_⟩
  have hbefore : ∀ x ∈ es, Normal x := fun x hx => hnormal x (List.mem_append_left _ hx)
  -- the way to the file begins with the way to the directory
  have hwalk : walk y.tree r.1 r.2 es = some q := by
    have hstart : start y.cwd target = start y.cwd directory := by rw [start, habs, start]
    rw [hstart, helements, hes, ← List.append_assoc, List.dropLast_concat, walk_append] at hq
    rw [System.follow] at hdirectory
    rw [hdirectory] at hq
    exact hq
  constructor
  · rintro hinside ⟨r', place, left, e', hr', he', hlink, hout⟩
    obtain rfl : r = r' := Option.some.inj (hdirectory.symm.trans hr')
    rw [hes, List.getLast?_concat] at he'
    obtain rfl := Option.some.inj he'
    rw [hes, List.dropLast_concat] at hlink
    rw [hlink.location hbefore hwalk] at hinside
    exact hout hinside
  · intro hleads
    rcases walk_cases hbefore hwalk with hstraight | ⟨place, left, hlink⟩
    · rw [hstraight, List.append_assoc]
      exact List.prefix_append _ _
    · by_contra hout
      refine hleads ⟨r, place, left, e, hdirectory, ?_, ?_, ?_⟩
      · rw [hes, List.getLast?_concat]
      · rwa [hes, List.dropLast_concat]
      · rwa [← hlink.location hbefore hwalk]

end Mastermind.Links
