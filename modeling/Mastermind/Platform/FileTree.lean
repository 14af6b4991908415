import Mathlib

/-!
# Trees of files

The entries of a directory, with what is below them, and the copy of such a tree that may go wrong
at any of its paths. A copy that ends without an error has made the directories and the regular files
of its source, and nothing else (`Entries.copy_ok`).
-/

namespace Mastermind.FileTree

/-- The entries of a directory, one after the other. Links, sockets and the like are special. -/
inductive Entries (C : Type) where
  | nil
  | file (name : String) (content : C) (rest : Entries C)
  | special (name : String) (rest : Entries C)
  | dir (name : String) (below rest : Entries C)

/-- What a name stands for. -/
inductive Node (C : Type) where
  | file (content : C)
  | special
  | dir (entries : Entries C)

/-- What hinders the copy of a path: nothing is made there, or something is left, which for a file
is some content. -/
inductive Mishap (C : Type) where
  | early (err : String)
  | late (err : String) (left : C)

/-- The text of the error. -/
def Mishap.err {C : Type} : Mishap C → String
  | .early err => err
  | .late err _ => err

/-- An entry before others. -/
def Node.cons {C : Type} (name : String) (rest : Entries C) : Node C → Entries C
  | .file content => .file name content rest
  | .special => .special name rest
  | .dir entries => .dir name entries rest

namespace Entries

variable {C : Type}

/-- The names of the entries. -/
def names : Entries C → List String
  | .nil => []
  | .file name _ rest => name :: rest.names
  | .special name rest => name :: rest.names
  | .dir name _ rest => name :: rest.names

/-- The names of each directory are distinct. -/
def Distinct : Entries C → Prop
  | .nil => True
  | .file name _ rest => name ∉ rest.names ∧ rest.Distinct
  | .special name rest => name ∉ rest.names ∧ rest.Distinct
  | .dir name below rest => name ∉ rest.names ∧ below.Distinct ∧ rest.Distinct

/-- What is under a name. -/
def lookup (name : String) : Entries C → Option (Node C)
  | .nil => none
  | .file m content rest => if m = name then some (.file content) else rest.lookup name
  | .special m rest => if m = name then some .special else rest.lookup name
  | .dir m below rest => if m = name then some (.dir below) else rest.lookup name

/-- The tree without a name. -/
def erase (name : String) : Entries C → Entries C
  | .nil => .nil
  | .file m content rest => if m = name then rest.erase name else .file m content (rest.erase name)
  | .special m rest => if m = name then rest.erase name else .special m (rest.erase name)
  | .dir m below rest => if m = name then rest.erase name else .dir m below (rest.erase name)

/-- The tree with something under a name: in the place of what was there, or last. -/
def put (name : String) (node : Node C) : Entries C → Entries C
  | .nil => node.cons name .nil
  | .file m content rest =>
    if m = name then node.cons name rest else .file m content (rest.put name node)
  | .special m rest => if m = name then node.cons name rest else .special m (rest.put name node)
  | .dir m below rest =>
    if m = name then node.cons name rest else .dir m below (rest.put name node)

/-- The entries of one tree, then those of another. -/
def append : Entries C → Entries C → Entries C
  | .nil, t => t
  | .file name content rest, t => .file name content (rest.append t)
  | .special name rest, t => .special name (rest.append t)
  | .dir name below rest, t => .dir name below (rest.append t)

/-- The directories and the regular files. -/
def regular : Entries C → Entries C
  | .nil => .nil
  | .file name content rest => .file name content rest.regular
  | .special _ rest => rest.regular
  | .dir name below rest => .dir name below.regular rest.regular

/-- The regular files, with their paths. -/
def files (path : List String) : Entries C → List (List String × C)
  | .nil => []
  | .file name content rest => (path ++ [name], content) :: rest.files path
  | .special _ rest => rest.files path
  | .dir name below rest => below.files (path ++ [name]) ++ rest.files path

/-- What the copy of a file leaves at its destination. A directory or a special file there is not
opened for writing. -/
def copyFile (mishap : Option (Mishap C)) (content : C) (found : Option (Node C)) :
    Option (Node C) × Except String Unit :=
  match mishap, found with
  | some (.early err), _ => (found, .error err)
  | _, some (.dir _) => (found, .error "is a directory")
  | _, some .special => (found, .error "is a special file")
  | some (.late err left), _ => (some (.file left), .error err)
  | none, _ => (some (.file content), .ok ())

/-- What a directory is copied into: the one that is there, or a new one. -/
def entered : Option (Node C) → Except String (Entries C)
  | none => .ok .nil
  | some (.dir entries) => .ok entries
  | some _ => .error "not a directory"

/-- The tree with what was made under a name, if anything was. -/
def made (name : String) : Option (Node C) → Entries C → Entries C
  | none, out => out
  | some node, out => out.put name node

/-- The copy of the entries of a directory into another, in order, to the first error. `mishap` says
what hinders it at which path. -/
def copy (mishap : List String → Option (Mishap C)) (path : List String) :
    Entries C → Entries C → Entries C × Except String Unit
  | .nil, out => (out, .ok ())
  | .file name content rest, out =>
    match copyFile (mishap (path ++ [name])) content (out.lookup name) with
    | (node, .error err) => (out.made name node, .error err)
    | (node, .ok _) => rest.copy mishap path (out.made name node)
  | .special name rest, out =>
    match mishap (path ++ [name]) with
    | some hindrance => (out, .error hindrance.err)
    | none => rest.copy mishap path out
  | .dir name below rest, out =>
    match mishap (path ++ [name]), entered (out.lookup name) with
    | some (.early err), _ => (out, .error err)
    | _, .error err => (out, .error err)
    | some (.late err _), .ok entries => (out.put name (.dir entries), .error err)
    | none, .ok entries =>
      match below.copy mishap (path ++ [name]) entries with
      | (below, .error err) => (out.put name (.dir below), .error err)
      | (below, .ok _) => rest.copy mishap path (out.put name (.dir below))

/-! ## Entries -/

/-- The entries one after the other, whatever each of them is. -/
theorem entries_induction {P : Entries C → Prop} (nil : P .nil)
    (cons : ∀ name (node : Node C) rest, P rest → P (node.cons name rest)) : ∀ t, P t
  | .nil => nil
  | .file name content rest => cons name (.file content) rest (entries_induction nil cons rest)
  | .special name rest => cons name .special rest (entries_induction nil cons rest)
  | .dir name below rest => cons name (.dir below) rest (entries_induction nil cons rest)

section Entry

variable (name m : String) (node new : Node C) (rest : Entries C)

@[simp]
theorem lookup_cons :
    (node.cons m rest).lookup name = if m = name then some node else rest.lookup name := by
  cases node <;> rfl

@[simp]
theorem put_cons : (node.cons m rest).put name new =
    if m = name then new.cons name rest else node.cons m (rest.put name new) := by
  cases node <;> rfl

@[simp]
theorem erase_cons : (node.cons m rest).erase name =
    if m = name then rest.erase name else node.cons m (rest.erase name) := by
  cases node <;> rfl

@[simp]
theorem names_cons : (node.cons m rest).names = m :: rest.names := by
  cases node <;> rfl

@[simp]
theorem append_cons (t : Entries C) :
    (node.cons m rest).append t = node.cons m (rest.append t) := by
  cases node <;> rfl

end Entry

@[simp]
theorem lookup_put_self (name : String) (node : Node C) (t : Entries C) :
    (t.put name node).lookup name = some node := by
  induction t using entries_induction with
  | nil => simp [put]
  | cons m other rest ih =>
    rw [put_cons]
    split_ifs with h
    · simp
    · simp [h, ih]

theorem lookup_put_of_ne {name m : String} (h : m ≠ name) (node : Node C) (t : Entries C) :
    (t.put name node).lookup m = t.lookup m := by
  induction t using entries_induction with
  | nil => simp [put, lookup, h.symm]
  | cons k other rest ih =>
    rw [put_cons]
    split_ifs with hk
    · simp [hk, h.symm]
    · simp [ih]

/-- What is put back leaves the tree as it was. -/
theorem put_lookup {name : String} {node : Node C} {t : Entries C} (h : t.lookup name = some node) :
    t.put name node = t := by
  induction t using entries_induction with
  | nil => exact absurd h (by simp [lookup])
  | cons m other rest ih =>
    rw [lookup_cons] at h
    rw [put_cons]
    split_ifs at h ⊢ with hm
    · rw [Option.some.inj h, hm]
    · rw [ih h]

@[simp]
theorem lookup_erase_self (name : String) (t : Entries C) : (t.erase name).lookup name = none := by
  induction t using entries_induction with
  | nil => rfl
  | cons m other rest ih =>
    rw [erase_cons]
    split_ifs with h
    · exact ih
    · rw [lookup_cons, if_neg h, ih]

theorem lookup_erase_of_ne {name m : String} (h : m ≠ name) (t : Entries C) :
    (t.erase name).lookup m = t.lookup m := by
  induction t using entries_induction with
  | nil => rfl
  | cons k other rest ih =>
    rw [erase_cons]
    split_ifs with hk
    · rw [ih, lookup_cons, if_neg (by rw [hk]; exact h.symm)]
    · rw [lookup_cons, lookup_cons, ih]

theorem lookup_eq_none {name : String} {t : Entries C} : t.lookup name = none ↔ name ∉ t.names := by
  induction t using entries_induction with
  | nil => simp [lookup, names]
  | cons m other rest ih =>
    rw [lookup_cons, names_cons, List.mem_cons]
    split_ifs with h
    · simp [h]
    · simp [ih, Ne.symm h]

/-- A new name comes last. -/
theorem put_of_new {name : String} (node : Node C) {t : Entries C} (h : name ∉ t.names) :
    t.put name node = t.append (node.cons name .nil) := by
  induction t using entries_induction with
  | nil => rfl
  | cons m other rest ih =>
    rw [names_cons, List.mem_cons, not_or] at h
    rw [put_cons, if_neg (Ne.symm h.1), append_cons, ih h.2]

@[simp]
theorem names_append (t u : Entries C) : (t.append u).names = t.names ++ u.names := by
  induction t using entries_induction with
  | nil => rfl
  | cons m other rest ih => simp [ih]

theorem append_assoc (t u v : Entries C) : (t.append u).append v = t.append (u.append v) := by
  induction t using entries_induction with
  | nil => rfl
  | cons m other rest ih => rw [append_cons, append_cons, append_cons, ih]

@[simp]
theorem append_nil (t : Entries C) : t.append .nil = t := by
  induction t using entries_induction with
  | nil => rfl
  | cons m other rest ih => rw [append_cons, ih]

/-! ## The copy -/

theorem copyFile_ok {mishap : Option (Mishap C)} {content : C} {found node : Option (Node C)}
    (h : copyFile mishap content found = (node, .ok ())) : node = some (.file content) := by
  unfold copyFile at h
  split at h <;> simp_all

/-- Names that are new stay so when another one is taken. -/
theorem new_of_put {name : String} {taken : List String} {out : Entries C} (node : Node C)
    (hout : ∀ m ∈ name :: taken, m ∉ out.names) (hname : name ∉ taken) :
    ∀ m ∈ taken, m ∉ (out.put name node).names := by
  intro m hm
  rw [put_of_new node (hout name (List.mem_cons_self ..)), names_append, List.mem_append]
  rintro (hmem | hmem)
  · exact hout m (List.mem_cons_of_mem _ hm) hmem
  · obtain rfl : m = name := by simpa [Entries.names] using hmem
    exact hname hm

/-- A copy into entries of other names that ends without an error has added the directories and
the regular files of its source. -/
theorem copy_ok {mishap : List String → Option (Mishap C)} {path : List String}
    {t out result : Entries C} (ht : t.Distinct) (hout : ∀ name ∈ t.names, name ∉ out.names)
    (h : t.copy mishap path out = (result, .ok ())) : result = out.append t.regular := by
  induction t generalizing path out result with
  | nil =>
    obtain rfl : out = result := by simpa [copy] using h
    simp [regular]
  | file name content rest ih =>
    have hnew : out.lookup name = none := lookup_eq_none.mpr (hout name (List.mem_cons_self ..))
    rw [copy] at h
    cases hfile : copyFile (mishap (path ++ [name])) content (out.lookup name) with
    | mk node r =>
      rw [hfile] at h
      cases r with
      | error err => exact absurd (congrArg Prod.snd h) (by simp)
      | ok _ =>
        rw [copyFile_ok hfile] at h
        rw [ih ht.2 (new_of_put _ hout ht.1) h,
          put_of_new (.file content) (lookup_eq_none.mp hnew), append_assoc]
        rfl
  | special name rest ih =>
    rw [copy] at h
    cases hm : mishap (path ++ [name]) with
    | some hindrance =>
      rw [hm] at h
      exact absurd (congrArg Prod.snd h) (by simp)
    | none =>
      rw [hm] at h
      exact ih ht.2 (fun m hm => hout m (List.mem_cons_of_mem _ hm)) h
  | dir name below rest hbelow ih =>
    have hnew : out.lookup name = none := lookup_eq_none.mpr (hout name (List.mem_cons_self ..))
    rw [copy, hnew] at h
    cases hm : mishap (path ++ [name]) with
    | some hindrance =>
      rw [hm] at h
      cases hindrance <;> exact absurd (congrArg Prod.snd h) (by simp [entered])
    | none =>
      rw [hm] at h
      simp only [entered] at h
      cases hcopy : below.copy mishap (path ++ [name]) .nil with
      | mk inner r =>
        rw [hcopy] at h
        cases r with
        | error err => exact absurd (congrArg Prod.snd h) (by simp)
        | ok _ =>
          have hinner : inner = below.regular :=
            hbelow ht.2.1 (fun _ _ => by simp [names]) hcopy
          rw [ih ht.2.2 (new_of_put _ hout ht.1) h,
            put_of_new (.dir inner) (lookup_eq_none.mp hnew), append_assoc, hinner]
          rfl

/-- Without a mishap, a copy into entries of other names ends without an error. -/
theorem copy_calm (path : List String) {t : Entries C} (out : Entries C) (ht : t.Distinct)
    (hout : ∀ name ∈ t.names, name ∉ out.names) :
    (t.copy (fun _ => none) path out).2 = .ok () := by
  induction t generalizing path out with
  | nil => rfl
  | file name content rest ih =>
    rw [copy, lookup_eq_none.mpr (hout name (List.mem_cons_self ..))]
    exact ih _ _ ht.2 (new_of_put _ hout ht.1)
  | special name rest ih => exact ih _ _ ht.2 fun m hm => hout m (List.mem_cons_of_mem _ hm)
  | dir name below rest hbelow ih =>
    rw [copy, lookup_eq_none.mpr (hout name (List.mem_cons_self ..))]
    have hinner := hbelow (path ++ [name]) .nil ht.2.1 (fun _ _ => by simp [names])
    simp only [entered]
    cases hcopy : below.copy (fun _ => none) (path ++ [name]) .nil with
    | mk inner r =>
      rw [hcopy] at hinner
      rw [show r = .ok () from hinner]
      exact ih _ _ ht.2.2 (new_of_put _ hout ht.1)

end Entries

end Mastermind.FileTree
