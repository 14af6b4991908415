import Mastermind.Platform.Path

/-!
# Clean paths

What `clean` and `join` do to the elements of a path. A normal element is a name, neither `.` nor
`..`. A clean relative path that leads nowhere up is normal elements with separators between them
(`exists_normal_of_clean`), and joining such a path to a directory at the root appends its elements
(`join_rooted`).
-/

namespace Mastermind.Path

/-- A text that can stand between two separators. -/
def Plain (e : String) : Prop := e ≠ "" ∧ '/' ∉ e.toList

/-- The name of a file or a directory. -/
def Normal (e : String) : Prop := Plain e ∧ e ≠ "." ∧ e ≠ ".."

section Elements

/-- What stands between two separators has none. -/
theorem not_mem_of_mem_splitOn {α : Type} [BEq α] [LawfulBEq α] {a : α} {xs l : List α}
    (h : l ∈ xs.splitOn a) : a ∉ l := by
  induction hn : xs.length using Nat.strong_induction_on generalizing xs with
  | _ n ih =>
    by_cases ha : a ∈ xs
    · obtain ⟨as, bs, rfl, has⟩ := List.eq_append_cons_of_mem ha
      rw [List.splitOn_append_cons_self_of_not_mem has] at h
      rcases List.mem_cons.mp h with rfl | h
      · exact has
      · have hlt : bs.length < n := by
          rw [← hn, List.length_append, List.length_cons]
          omega
        exact ih _ hlt h rfl
    · rw [List.splitOn_eq_singleton ha] at h
      rw [List.mem_singleton.mp h]
      exact ha

/-- The elements of a path are plain. -/
theorem plain_of_mem_elements {p e : String} (h : e ∈ elements p) : Plain e := by
  unfold elements at h
  obtain ⟨l, hl, rfl⟩ := List.mem_map.mp h
  obtain ⟨hsplit, hne⟩ := List.mem_filter.mp hl
  refine ⟨fun hempty => ?_, ?_⟩
  · have : l = [] := by simpa using congrArg String.toList hempty
    simp [this] at hne
  · rw [String.toList_ofList]
    exact not_mem_of_mem_splitOn hsplit

/-- A plain text is one element. -/
theorem elements_plain {e : String} (h : Plain e) : elements e = [e] := by
  have hne : e.toList ≠ [] := fun hempty => h.1 (by simpa using hempty)
  unfold elements
  rw [List.splitOn_eq_singleton h.2]
  simp [hne]

/-- The elements of two paths with a separator between them. -/
theorem elements_append (s t : String) : elements (s ++ "/" ++ t) = elements s ++ elements t := by
  have hlist : (s ++ "/" ++ t).toList = s.toList ++ '/' :: t.toList := by simp
  unfold elements
  rw [hlist, List.splitOn_append_cons_self, List.filter_append, List.map_append]

/-- The elements of plain texts with separators between them. -/
theorem elements_intercalate {es : List String} (h : ∀ e ∈ es, Plain e) :
    elements ("/".intercalate es) = es := by
  induction es with
  | nil => rfl
  | cons e es ih =>
    have he := h e List.mem_cons_self
    cases es with
    | nil => rw [String.intercalate_singleton, elements_plain he]
    | cons e' es =>
      have hrest := ih fun x hx => h x (List.mem_cons_of_mem _ hx)
      rw [String.intercalate_cons_cons, elements_append, elements_plain he, hrest]
      rfl

end Elements

section Clean

/-- Going down through normal elements. -/
theorem foldl_descend {rooted : Bool} {es : List String} (h : ∀ e ∈ es, Normal e)
    (out : List String) : es.foldl (descend rooted) out = out ++ es := by
  induction es generalizing out with
  | nil => simp
  | cons e es ih =>
    obtain ⟨-, hdot, hdots⟩ := h e List.mem_cons_self
    have hstep : descend rooted out e = out ++ [e] := by
      unfold descend
      rw [if_neg hdot, if_neg hdots]
    rw [List.foldl_cons, hstep, ih fun x hx => h x (List.mem_cons_of_mem _ hx),
      List.append_assoc, List.singleton_append]

/-- Nothing leads out of the root. -/
theorem normal_of_rooted {es out : List String} (hes : ∀ e ∈ es, Plain e)
    (hout : ∀ e ∈ out, Normal e) : ∀ e ∈ es.foldl (descend true) out, Normal e := by
  induction es generalizing out with
  | nil => exact hout
  | cons e es ih =>
    rw [List.foldl_cons]
    refine ih (fun x hx => hes x (List.mem_cons_of_mem _ hx)) ?_
    by_cases hdot : e = "."
    · rw [hdot]
      exact hout
    by_cases hdots : e = ".."
    · rw [hdots]
      intro x hx
      cases hlast : out.getLast? with
      | none => simp [descend, hlast] at hx
      | some last =>
        have hne : last ≠ ".." := (hout last (List.mem_of_getLast? hlast)).2.2
        simp only [descend, hlast, if_neg hne] at hx
        exact hout x (List.mem_of_mem_dropLast hx)
    · have hstep : descend true out e = out ++ [e] := by
        unfold descend
        rw [if_neg hdot, if_neg hdots]
      rw [hstep]
      intro x hx
      rcases List.mem_append.mp hx with hx | hx
      · exact hout x hx
      · rw [List.mem_singleton.mp hx]
        exact ⟨hes e List.mem_cons_self, hdot, hdots⟩

/-- Some steps up, and then normal elements. -/
def Ascends (out : List String) : Prop :=
  ∃ k ns, out = List.replicate k ".." ++ ns ∧ ∀ e ∈ ns, Normal e

/-- A relative path leads up first. -/
theorem Ascends.foldl {es out : List String} (hes : ∀ e ∈ es, Plain e) (hout : Ascends out) :
    Ascends (es.foldl (descend false) out) := by
  induction es generalizing out with
  | nil => exact hout
  | cons e es ih =>
    rw [List.foldl_cons]
    refine ih (fun x hx => hes x (List.mem_cons_of_mem _ hx)) ?_
    obtain ⟨k, ns, rfl, hns⟩ := hout
    by_cases hdot : e = "."
    · rw [hdot]
      exact ⟨k, ns, rfl, hns⟩
    by_cases hdots : e = ".."
    · rw [hdots]
      rcases List.eq_nil_or_concat ns with rfl | ⟨ms, m, rfl⟩
      · -- one more step up
        refine ⟨k + 1, [], ?_, fun x hx => absurd hx List.not_mem_nil⟩
        cases k with
        | zero => rfl
        | succ k =>
          have hlast : (List.replicate (k + 1) ".." ++ []).getLast? = some ".." := by
            rw [List.append_nil, List.replicate_succ', List.getLast?_concat]
          simp only [descend, hlast, if_true]
          simp [List.replicate_succ']
      · rw [List.concat_eq_append] at hns ⊢
        have hm : m ≠ ".." := (hns m (by simp)).2.2
        have hlast : (List.replicate k ".." ++ (ms ++ [m])).getLast? = some m := by
          rw [← List.append_assoc, List.getLast?_concat]
        refine ⟨k, ms, ?_, fun x hx => hns x (by simp [hx])⟩
        simp only [descend, hlast, if_neg hm]
        rw [← List.append_assoc, List.dropLast_concat]
        rfl
    · have hstep : descend false (List.replicate k ".." ++ ns) e =
          List.replicate k ".." ++ (ns ++ [e]) := by
        unfold descend
        rw [if_neg hdot, if_neg hdots, List.append_assoc]
      refine ⟨k, ns ++ [e], hstep, fun x hx => ?_⟩
      rcases List.mem_append.mp hx with hx | hx
      · exact hns x hx
      · rw [List.mem_singleton.mp hx]
        exact ⟨hes e List.mem_cons_self, hdot, hdots⟩

/-- A clean relative path that is neither the directory itself nor leads up is normal elements. -/
theorem exists_normal_of_clean {name : String} (hclean : clean name = name)
    (habs : isAbs name = false) (hdot : name ≠ ".") (hdots : name ≠ "..")
    (hup : ¬"../".toList <+: name.toList) :
    ∃ es, es ≠ [] ∧ (∀ e ∈ es, Normal e) ∧ name = "/".intercalate es := by
  have hout : Ascends ((elements name).foldl (descend false) []) :=
    Ascends.foldl (fun _ he => plain_of_mem_elements he) ⟨0, [], rfl, by simp⟩
  obtain ⟨k, ns, heq, hns⟩ := hout
  unfold clean assemble at hclean
  rw [habs, heq] at hclean
  simp only [Bool.false_eq_true, if_false] at hclean
  split_ifs at hclean with hempty
  · exact absurd hclean.symm hdot
  · cases k with
    | zero => exact ⟨ns, by simpa using hempty, hns, by simpa using hclean.symm⟩
    | succ k =>
      -- the path leads up
      rw [List.replicate_succ, List.cons_append] at hclean
      cases hrest : List.replicate k ".." ++ ns with
      | nil =>
        rw [hrest, String.intercalate_singleton] at hclean
        exact absurd hclean.symm hdots
      | cons e es =>
        rw [hrest, String.intercalate_cons_cons] at hclean
        refine absurd ⟨("/".intercalate (e :: es)).toList, ?_⟩ hup
        rw [← hclean]
        simp

/-- Joining normal elements to a directory at the root appends them. -/
theorem join_rooted {dir : String} {es : List String} (hdir : isAbs dir = true)
    (hes : ∀ e ∈ es, Normal e) :
    ∃ out, (∀ e ∈ out, Normal e) ∧ clean dir = "/" ++ "/".intercalate out ∧
      join [dir, "/".intercalate es] = "/" ++ "/".intercalate (out ++ es) := by
  have hout := @normal_of_rooted (elements dir) []
    (fun _ he => plain_of_mem_elements he) fun _ he => absurd he List.not_mem_nil
  refine ⟨_, hout, ?_, ?_⟩
  · unfold clean assemble
    rw [hdir]
    rfl
  · have hname : dir ≠ "" := by
      rintro rfl
      exact absurd hdir (by decide)
    have hjoin : join [dir, "/".intercalate es] = clean (dir ++ "/" ++ "/".intercalate es) := by
      unfold join
      simp [hname, String.intercalate_cons_cons, String.intercalate_singleton]
    have habs : isAbs (dir ++ "/" ++ "/".intercalate es) = true := by
      unfold isAbs at hdir ⊢
      have hhead : dir.toList.head? = some '/' := by simpa using hdir
      simp [List.head?_append, hhead]
    rw [hjoin]
    unfold clean assemble
    rw [habs, elements_append, elements_intercalate fun e he => (hes e he).1, List.foldl_append,
      foldl_descend hes]
    rfl

/-- The elements of a path at the root. -/
theorem elements_rooted {es : List String} (hes : ∀ e ∈ es, Plain e) :
    elements ("/" ++ "/".intercalate es) = es := by
  have happend := elements_append "" ("/".intercalate es)
  rw [String.empty_append] at happend
  rw [happend, elements_intercalate hes]
  rfl

/-- A path at the root that is normal elements is clean. -/
theorem clean_rooted {es : List String} (hes : ∀ e ∈ es, Normal e) :
    clean ("/" ++ "/".intercalate es) = "/" ++ "/".intercalate es := by
  have habs : isAbs ("/" ++ "/".intercalate es) = true := by
    unfold isAbs
    simp
  unfold clean assemble
  rw [habs, elements_rooted fun e he => (hes e he).1, foldl_descend hes]
  rfl

/-- Joining normal elements to normal elements at the root appends them. -/
theorem join_normal {base es : List String} (hbase : ∀ e ∈ base, Normal e)
    (hes : ∀ e ∈ es, Normal e) :
    join ["/" ++ "/".intercalate base, "/".intercalate es] = "/" ++ "/".intercalate (base ++ es) := by
  have habs : isAbs ("/" ++ "/".intercalate base) = true := by
    unfold isAbs
    simp
  obtain ⟨out, hout, hclean, hjoin⟩ := join_rooted habs hes
  rw [clean_rooted hbase] at hclean
  have hsame : base = out := by
    rw [← elements_rooted fun e he => (hbase e he).1, hclean,
      elements_rooted fun e he => (hout e he).1]
  subst hsame
  exact hjoin

/-- A relative path of normal elements is clean. -/
theorem clean_intercalate {es : List String} (hne : es ≠ []) (hes : ∀ e ∈ es, Normal e) :
    clean ("/".intercalate es) = "/".intercalate es := by
  have habs : isAbs ("/".intercalate es) = false := by
    obtain ⟨e, rest, rfl⟩ := List.exists_cons_of_ne_nil hne
    have he := (hes e List.mem_cons_self).1
    obtain ⟨c, cs, hcs⟩ := List.exists_cons_of_ne_nil fun hnil : e.toList = [] =>
      he.1 (by simpa using hnil)
    have hc : c ≠ '/' := fun h => he.2 (by rw [hcs, h]; exact List.mem_cons_self)
    unfold isAbs
    cases rest with
    | nil =>
      rw [String.intercalate_singleton, hcs]
      simpa using hc
    | cons e' rest =>
      rw [String.intercalate_cons_cons]
      simpa [hcs] using hc
  unfold clean assemble
  rw [habs, elements_intercalate fun e he => (hes e he).1, foldl_descend hes]
  simp [hne]

/-- What follows a separator in plain elements is some of them. -/
theorem exists_suffix {es : List String} {s t : String} (hes : ∀ e ∈ es, Plain e)
    (h : "/".intercalate es = s ++ "/" ++ t) :
    ∃ ns, ns ≠ [] ∧ ns <:+ es ∧ t = "/".intercalate ns := by
  have hne : es.map String.toList ≠ [] := by
    rintro hnil
    obtain rfl : es = [] := by simpa using hnil
    have hlist := congrArg String.toList h
    simp at hlist
  have hparts : es.map String.toList = s.toList.splitOn '/' ++ t.toList.splitOn '/' := by
    have hlist := congrArg String.toList h
    rw [String.toList_intercalate] at hlist
    have hsplit : (['/'].intercalate (es.map String.toList)).splitOn '/' = es.map String.toList := by
      refine List.splitOn_intercalate '/' (fun l hl => ?_) hne
      obtain ⟨e, he, rfl⟩ := List.mem_map.mp hl
      exact (hes e he).2
    rw [← hsplit, show ['/'] = "/".toList from rfl, hlist]
    have happend : (s ++ "/" ++ t).toList = s.toList ++ '/' :: t.toList := by simp
    rw [happend, List.splitOn_append_cons_self]
  refine ⟨(t.toList.splitOn '/').map String.ofList, ?_, ?_, ?_⟩
  · simp
  · refine ⟨(s.toList.splitOn '/').map String.ofList, ?_⟩
    rw [← List.map_append, ← hparts, List.map_map]
    have hid : String.ofList ∘ String.toList = id := funext fun x => String.ofList_toList
    rw [hid, List.map_id]
  · refine String.ext ?_
    rw [String.toList_intercalate, List.map_map]
    have hid : String.toList ∘ String.ofList = id := funext fun x => String.toList_ofList
    rw [hid, List.map_id]
    exact (List.intercalate_splitOn '/').symm

/-- The directory of a relative path of plain elements, which are normal but perhaps for the
last. -/
theorem dir_intercalate {ms : List String} {m : String} (hms : ∀ e ∈ ms, Normal e) (hm : Plain m) :
    dir ("/".intercalate (ms ++ [m])) = if ms = [] then "." else "/".intercalate ms := by
  have hlast : (m.toList.reverse.dropWhile (· ≠ '/')) = [] := by
    rw [List.dropWhile_eq_nil_iff]
    intro c hc
    have hmem : c ∈ m.toList := List.mem_reverse.mp hc
    have hne : c ≠ '/' := fun h => hm.2 (h ▸ hmem)
    simpa using hne
  unfold dir
  split_ifs with hempty
  · subst hempty
    rw [List.nil_append, String.intercalate_singleton, hlast]
    rfl
  · have hjoin : ("/".intercalate (ms ++ [m])).toList =
        ("/".intercalate ms).toList ++ '/' :: m.toList := by
      rw [String.intercalate_append_of_ne_nil hempty (by simp), String.intercalate_singleton]
      simp
    have hdrop : (("/".intercalate (ms ++ [m])).toList.reverse.dropWhile (· ≠ '/')) =
        '/' :: ("/".intercalate ms).toList.reverse := by
      rw [hjoin, List.reverse_append, List.reverse_cons, List.append_assoc, List.singleton_append,
        List.dropWhile_append, hlast]
      simp
    rw [hdrop]
    have hdir : String.ofList ('/' :: ("/".intercalate ms).toList.reverse).reverse =
        "/".intercalate ms ++ "/" ++ "" := by
      apply String.ext
      simp
    rw [hdir]
    have hclean := clean_intercalate hempty hms
    have helements : elements ("/".intercalate ms ++ "/" ++ "") = elements ("/".intercalate ms) := by
      rw [elements_append]
      exact List.append_nil _
    have habs : isAbs ("/".intercalate ms ++ "/" ++ "") = isAbs ("/".intercalate ms) := by
      obtain ⟨e, rest, rfl⟩ := List.exists_cons_of_ne_nil hempty
      have he := (hms e List.mem_cons_self).1
      obtain ⟨c, cs, hcs⟩ := List.exists_cons_of_ne_nil fun hnil : e.toList = [] =>
        he.1 (by simpa using hnil)
      unfold isAbs
      cases rest with
      | nil => simp [String.intercalate_singleton, hcs]
      | cons e' rest => simp [String.intercalate_cons_cons, hcs]
    unfold clean at hclean ⊢
    rw [helements, habs]
    exact hclean

end Clean

/-! ## Settled elements -/

/-- Elements that cleaning leaves as they are. -/
structure Settled (rooted : Bool) (es : List String) : Prop where
  plain : ∀ e ∈ es, Plain e
  fixed : es.foldl (descend rooted) [] = es
  nonempty : rooted = false → es ≠ []

theorem Settled.append {rooted : Bool} {es fs : List String} (h : Settled rooted es)
    (hfs : ∀ e ∈ fs, Normal e) : Settled rooted (es ++ fs) where
  plain := by
    intro e he
    rcases List.mem_append.mp he with he | he
    · exact h.plain e he
    · exact (hfs e he).1
  fixed := by rw [List.foldl_append, h.fixed, foldl_descend hfs]
  nonempty hrooted hnil := h.nonempty hrooted (List.append_eq_nil_iff.mp hnil).1

theorem isAbs_cons {e : String} {es : List String} (h : Plain e) :
    isAbs ("/".intercalate (e :: es)) = false := by
  obtain ⟨c, cs, hcs⟩ := List.exists_cons_of_ne_nil fun hnil : e.toList = [] =>
    h.1 (by simpa using hnil)
  have hc : c ≠ '/' := by
    rintro rfl
    exact h.2 (hcs ▸ List.mem_cons_self)
  unfold isAbs
  rw [String.toList_intercalate]
  cases es with
  | nil => simpa [List.intercalate, hcs] using hc
  | cons e' es => simpa [List.intercalate, hcs] using hc

theorem isAbs_assemble {rooted : Bool} {es : List String} (h : Settled rooted es) :
    isAbs (assemble rooted es) = rooted := by
  cases rooted with
  | true =>
    unfold assemble isAbs
    simp
  | false =>
    obtain ⟨e, es, rfl⟩ := List.exists_cons_of_ne_nil (h.nonempty rfl)
    unfold assemble
    rw [if_neg (by simp), if_neg (by simp)]
    exact isAbs_cons (h.plain e List.mem_cons_self)

theorem elements_assemble {rooted : Bool} {es : List String} (h : Settled rooted es) :
    elements (assemble rooted es) = es := by
  unfold assemble
  cases rooted with
  | true => exact elements_rooted h.plain
  | false =>
    rw [if_neg (by simp), if_neg (h.nonempty rfl)]
    exact elements_intercalate h.plain

/-- A path with settled elements is cleaned to their path. -/
theorem clean_of_settled {rooted : Bool} {es : List String} (h : Settled rooted es) {path : String}
    (habs : isAbs path = rooted) (helements : elements path = es) :
    clean path = assemble rooted es := by
  unfold clean
  rw [habs, helements, h.fixed]

theorem Ascends.fixed {es : List String} (h : Ascends es) : es.foldl (descend false) [] = es := by
  obtain ⟨k, ns, rfl, hns⟩ := h
  have hup : ∀ i, (List.replicate k "..").foldl (descend false) (List.replicate i "..") =
      List.replicate (i + k) ".." := by
    induction k with
    | zero => intro i; rfl
    | succ k ih =>
      intro i
      have hstep : descend false (List.replicate i "..") ".." = List.replicate (i + 1) ".." := by
        cases i with
        | zero => rfl
        | succ i =>
          unfold descend
          rw [if_neg (by decide), if_pos rfl, List.getLast?_replicate, if_neg (by simp)]
          exact (if_pos rfl).trans List.replicate_succ'.symm
      rw [List.replicate_succ, List.foldl_cons, hstep, ih]
      congr 1
      omega
  have hzero := hup 0
  rw [List.replicate_zero, Nat.zero_add] at hzero
  rw [List.foldl_append, hzero, foldl_descend hns]

/-- The elements of a clean path. -/
theorem settled_clean {path : String}
    (h : isAbs path = false → (elements path).foldl (descend (isAbs path)) [] ≠ []) :
    Settled (isAbs path) ((elements path).foldl (descend (isAbs path)) []) := by
  have hplain : ∀ e ∈ elements path, Plain e := fun _ he => plain_of_mem_elements he
  cases habs : isAbs path with
  | true =>
    have hnormal : ∀ e ∈ (elements path).foldl (descend true) [], Normal e :=
      normal_of_rooted hplain fun _ he => absurd he List.not_mem_nil
    refine ⟨fun e he => (hnormal e he).1, ?_, nofun⟩
    rw [foldl_descend hnormal, List.nil_append]
  | false =>
    have hout : Ascends ((elements path).foldl (descend false) []) :=
      Ascends.foldl hplain ⟨0, [], rfl, by simp⟩
    rw [habs] at h
    refine ⟨fun e he => ?_, hout.fixed, h⟩
    obtain ⟨k, ns, hns, hnormal⟩ := hout
    rw [hns] at he
    rcases List.mem_append.mp he with he | he
    · rw [List.eq_of_mem_replicate he]
      exact ⟨by decide, by decide⟩
    · exact (hnormal e he).1

/-- A clean path is `.`, or the path of settled elements. -/
theorem clean_cases (path : String) :
    clean path = "." ∨ ∃ es, Settled (isAbs path) es ∧ clean path = assemble (isAbs path) es := by
  by_cases h : isAbs path = false ∧ (elements path).foldl (descend (isAbs path)) [] = []
  · left
    rw [clean, h.2, h.1]
    rfl
  · exact .inr ⟨_, settled_clean fun habs hnil => h ⟨habs, hnil⟩, rfl⟩

theorem clean_clean (path : String) : clean (clean path) = clean path := by
  rcases clean_cases path with hdot | ⟨es, hes, hclean⟩
  · rw [hdot]
    decide
  · rw [hclean]
    exact clean_of_settled hes (isAbs_assemble hes) (elements_assemble hes)

theorem isAbs_slash {s : String} (h : s ≠ "") (t : String) : isAbs (s ++ "/" ++ t) = isAbs s := by
  obtain ⟨c, cs, hcs⟩ := List.exists_cons_of_ne_nil fun hnil : s.toList = [] =>
    h (by simpa using hnil)
  unfold isAbs
  simp [hcs]

/-- Joining names to settled elements. -/
theorem join_settled {rooted : Bool} {es fs : List String} (h : Settled rooted es)
    (hfs : ∀ e ∈ fs, Normal e) :
    join [assemble rooted es, "/".intercalate fs] = assemble rooted (es ++ fs) := by
  have hne : assemble rooted es ≠ "" := by
    intro hempty
    have habs := isAbs_assemble h
    have helements := elements_assemble h
    rw [hempty] at habs helements
    exact h.nonempty habs.symm helements.symm
  unfold join
  rw [List.dropWhile_cons_of_neg (by simpa using hne)]
  refine clean_of_settled (h.append hfs) ?_ ?_
  · rw [show "/".intercalate [assemble rooted es, "/".intercalate fs] =
      assemble rooted es ++ "/" ++ "/".intercalate fs from rfl, isAbs_slash hne, isAbs_assemble h]
  · rw [show "/".intercalate [assemble rooted es, "/".intercalate fs] =
      assemble rooted es ++ "/" ++ "/".intercalate fs from rfl, elements_append,
      elements_assemble h, elements_intercalate fun e he => (hfs e he).1]

/-- The directory of a path that ends with a name. -/
theorem dir_slash (s : String) {m : String} (hm : Plain m) : dir (s ++ "/" ++ m) = clean (s ++ "/") := by
  have hlast : (m.toList.reverse.dropWhile (· ≠ '/')) = [] := by
    rw [List.dropWhile_eq_nil_iff]
    intro c hc
    have hne : c ≠ '/' := fun h => hm.2 (h ▸ List.mem_reverse.mp hc)
    simpa using hne
  have hdrop : (s ++ "/" ++ m).toList.reverse.dropWhile (· ≠ '/') = '/' :: s.toList.reverse := by
    rw [String.toList_append, String.toList_append, List.reverse_append, List.dropWhile_append,
      hlast]
    simp
  unfold dir
  rw [hdrop]
  refine congrArg clean (String.ext ?_)
  simp

/-- The directory of settled elements and a name. -/
theorem dir_settled {rooted : Bool} {es : List String} {m : String} (h : Settled rooted es)
    (hm : Plain m) : dir (assemble rooted (es ++ [m])) = assemble rooted es := by
  have hslash : ∀ s : String, elements (s ++ "/") = elements s := by
    intro s
    have happend := elements_append s ""
    rwa [String.append_empty, show elements "" = [] from rfl, List.append_nil] at happend
  by_cases hes : es = []
  · subst hes
    cases rooted with
    | true =>
      have hroot : assemble true ([] ++ [m]) = "" ++ "/" ++ m := by
        unfold assemble
        simp
      rw [hroot, dir_slash _ hm]
      decide
    | false => exact absurd rfl (h.nonempty rfl)
  · have hjoin : assemble rooted (es ++ [m]) = assemble rooted es ++ "/" ++ m := by
      unfold assemble
      rw [String.intercalate_append_of_ne_nil hes (by simp), String.intercalate_singleton]
      cases rooted with
      | true => simp [String.append_assoc]
      | false => simp [hes]
    have hne : assemble rooted es ≠ "" := by
      intro hempty
      have helements := elements_assemble h
      rw [hempty] at helements
      exact hes helements.symm
    have habs : isAbs (assemble rooted es ++ "/") = rooted := by
      have hslash := isAbs_slash hne ""
      rw [String.append_empty] at hslash
      rw [hslash, isAbs_assemble h]
    rw [hjoin, dir_slash _ hm]
    exact clean_of_settled h habs ((hslash _).trans (elements_assemble h))

end Mastermind.Path
