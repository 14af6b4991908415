import Mastermind.Platform.CleanPath

/-!
# Relative paths

From one directory at the root to another, `filepath.Rel` leads up out of the names that only the
first of them has, and then down. A program that wants the second to be below the first checks that
this path is not `.`, not at the root, and does not begin with `../`. The path to the parent is
`..`, which passes that check (`looksBelow_iff`).
-/

namespace Mastermind.Path

variable {es fs : List String}

/-- The path of normal names from the root. -/
def ofNames (es : List String) : String := assemble true es

/-- The path is strictly below another. -/
def Below (root path : String) : Prop :=
  ∃ es names, (∀ e ∈ es ++ names, Normal e) ∧ names ≠ [] ∧ root = ofNames es ∧
    path = ofNames (es ++ names)

/-- The check of a relative path by its beginning. -/
def looksBelow (rel : String) : Bool :=
  !(rel = "." || "../".toList.isPrefixOf rel.toList || isAbs rel)

theorem settled_of_normal (h : ∀ e ∈ es, Normal e) : Settled true es where
  plain e he := (h e he).1
  fixed := by rw [foldl_descend h, List.nil_append]
  nonempty := nofun

theorem elements_ofNames (h : ∀ e ∈ es, Normal e) : elements (ofNames es) = es :=
  elements_assemble (settled_of_normal h)

theorem isAbs_ofNames (h : ∀ e ∈ es, Normal e) : isAbs (ofNames es) = true :=
  isAbs_assemble (settled_of_normal h)

theorem clean_ofNames (h : ∀ e ∈ es, Normal e) : clean (ofNames es) = ofNames es :=
  clean_of_settled (settled_of_normal h) (isAbs_ofNames h) (elements_ofNames h)

theorem ofNames_inj (hes : ∀ e ∈ es, Normal e) (hfs : ∀ f ∈ fs, Normal f)
    (h : ofNames es = ofNames fs) : es = fs := by
  rw [← elements_ofNames hes, h, elements_ofNames hfs]

theorem ofNames_ne_empty (h : ∀ e ∈ es, Normal e) : ofNames es ≠ "" := by
  intro hempty
  have habs := isAbs_ofNames h
  rw [hempty] at habs
  exact absurd habs (by decide)

theorem ofNames_ne_dot (h : ∀ e ∈ es, Normal e) : ofNames es ≠ "." := by
  intro hdot
  have habs := isAbs_ofNames h
  rw [hdot] at habs
  exact absurd habs (by decide)

/-- Whether a path of names is strictly below another is seen from the names. -/
theorem below_ofNames (hes : ∀ e ∈ es, Normal e) (hfs : ∀ f ∈ fs, Normal f) :
    Below (ofNames es) (ofNames fs) ↔ ∃ names, names ≠ [] ∧ fs = es ++ names := by
  constructor
  · rintro ⟨es', names, hnormal, hne, hroot, hpath⟩
    obtain rfl := ofNames_inj hes (fun e he => hnormal e (List.mem_append_left _ he)) hroot
    exact ⟨names, hne, ofNames_inj hfs hnormal hpath⟩
  · rintro ⟨names, hne, rfl⟩
    exact ⟨es, names, hfs, hne, rfl, rfl⟩

theorem Below.of_suffix {root path suffix : String} (h : Below root path)
    (hsuffix : ∀ name, Normal name → Normal (name ++ suffix)) : Below root (path ++ suffix) := by
  obtain ⟨es, names, hnormal, hne, rfl, rfl⟩ := h
  obtain ⟨names, last, rfl⟩ : ∃ front last, names = front ++ [last] :=
    ⟨_, _, (List.dropLast_append_getLast hne).symm⟩
  rw [← List.append_assoc] at hnormal ⊢
  refine ⟨es, names ++ [last ++ suffix], ?_, by simp, rfl, ?_⟩
  · rw [← List.append_assoc]
    intro e he
    rcases List.mem_append.mp he with he | he
    · exact hnormal e (List.mem_append_left _ he)
    · rw [List.mem_singleton.mp he]
      exact hsuffix last (hnormal last (by simp))
  · have hconcat : ∀ (front : List String) (e : String),
        ofNames (front ++ [e]) = ofNames front ++ (if front = [] then "" else "/") ++ e := by
      intro front e
      unfold ofNames assemble
      by_cases hfront : front = []
      · simp [hfront]
      · simp [hfront, String.intercalate_append_of_ne_nil, String.append_assoc]
    rw [← List.append_assoc, hconcat, hconcat, String.append_assoc]

/-- What two lists begin with alike. -/
theorem exists_common (es fs : List String) : ∃ common, es = common ++ (dropCommon es fs).1 ∧
    fs = common ++ (dropCommon es fs).2 := by
  induction es generalizing fs with
  | nil => exact ⟨[], by simp [dropCommon], by simp [dropCommon]⟩
  | cons e es ih =>
    cases fs with
    | nil => exact ⟨[], by simp [dropCommon], by simp [dropCommon]⟩
    | cons f fs =>
      unfold dropCommon
      split_ifs with hef
      · obtain ⟨common, hes, hfs⟩ := ih fs
        refine ⟨e :: common, ?_, ?_⟩
        · rw [List.cons_append, ← hes]
        · rw [List.cons_append, ← hfs, hef]
      · exact ⟨[], rfl, rfl⟩

theorem dropCommon_append (common es fs : List String) :
    dropCommon (common ++ es) (common ++ fs) = dropCommon es fs := by
  induction common with
  | nil => rfl
  | cons e common ih => rw [List.cons_append, List.cons_append, dropCommon, if_pos rfl, ih]

/-- The path from names to names. -/
theorem rel_ofNames (hes : ∀ e ∈ es, Normal e) (hfs : ∀ f ∈ fs, Normal f) (hne : es ≠ fs) :
    rel (ofNames es) (ofNames fs) = some ("/".intercalate
      (List.replicate (dropCommon es fs).1.length ".." ++ (dropCommon es fs).2)) := by
  have hup : (dropCommon es fs).1.head? ≠ some ".." := by
    intro hhead
    obtain ⟨common, hcommon, -⟩ := exists_common es fs
    have hmem : ".." ∈ es := by
      rw [hcommon]
      exact List.mem_append_right _ (List.mem_of_head? hhead)
    exact (hes ".." hmem).2.2 rfl
  unfold rel
  dsimp only
  rw [clean_ofNames hes, clean_ofNames hfs, if_neg fun h => hne (ofNames_inj hfs hes h).symm,
    if_neg (by rw [isAbs_ofNames hes, isAbs_ofNames hfs]; simp), if_neg (ofNames_ne_dot hes),
    elements_ofNames hes, elements_ofNames hfs, if_neg hup]

/-- A path of plain elements that begins with `../`. -/
theorem dots_isPrefixOf {e : String} (he : Plain e) (es : List String) :
    "../".toList.isPrefixOf ("/".intercalate (e :: es)).toList = true ↔ e = ".." ∧ es ≠ [] := by
  obtain ⟨hne, hslash⟩ := he
  have htext : ("/".intercalate (e :: es)).toList =
      e.toList ++ if es = [] then [] else '/' :: ("/".intercalate es).toList := by
    cases es with
    | nil => simp [String.intercalate_singleton]
    | cons f fs => simp [String.intercalate_cons_cons]
  rw [htext, List.isPrefixOf_iff_prefix, show "../".toList = ['.', '.', '/'] from rfl]
  constructor
  · intro hprefix
    -- the first separator of the path is the one after `e`
    rcases hcs : e.toList with _ | ⟨a, _ | ⟨b, _ | ⟨c, cs⟩⟩⟩
    · exact absurd (String.toList_eq_nil_iff.mp hcs) hne
    · rw [hcs] at hprefix
      split_ifs at hprefix <;> simp at hprefix
    · rw [hcs] at hprefix
      split_ifs at hprefix with hes
      · simp at hprefix
      · obtain ⟨rfl, rfl⟩ : '.' = a ∧ '.' = b := by simpa using hprefix
        exact ⟨String.ext hcs, hes⟩
    · rw [hcs] at hprefix hslash
      obtain ⟨-, -, rfl⟩ : '.' = a ∧ '.' = b ∧ '/' = c := by simpa using hprefix
      exact absurd (by simp) hslash
  · rintro ⟨rfl, hes⟩
    rw [if_neg hes]
    exact ⟨_, rfl⟩

theorem looksBelow_intercalate {e : String} (h : ∀ x ∈ e :: es, Plain x) :
    looksBelow ("/".intercalate (e :: es)) = true ↔ e :: es ≠ ["."] ∧ ¬(e = ".." ∧ es ≠ []) := by
  have he : Plain e := h e List.mem_cons_self
  unfold looksBelow
  rw [isAbs_cons he, Bool.or_false, Bool.not_eq_true', Bool.or_eq_false_iff,
    decide_eq_false_iff_not, Bool.eq_false_iff, Ne, dots_isPrefixOf he]
  refine and_congr_left' (not_congr ⟨fun hdot => ?_, fun hlist => ?_⟩)
  · rw [← elements_intercalate h, hdot]
    decide
  · rw [hlist, String.intercalate_singleton]

/-- **Below, or the parent.** Which paths the check lets through. -/
theorem looksBelow_iff (hes : ∀ e ∈ es, Normal e) (hfs : ∀ f ∈ fs, Normal f) :
    (∃ r, rel (ofNames es) (ofNames fs) = some r ∧ looksBelow r = true) ↔
      (∃ names, names ≠ [] ∧ fs = es ++ names) ∨ ∃ e, es = fs ++ [e] := by
  by_cases heq : es = fs
  · subst heq
    have hrel : rel (ofNames es) (ofNames es) = some "." := if_pos rfl
    refine iff_of_false ?_ ?_
    · rintro ⟨r, hr, hlooks⟩
      obtain rfl := Option.some.inj (hrel.symm.trans hr)
      exact absurd hlooks (by decide)
    · rintro (⟨names, hne, hnames⟩ | ⟨e, he⟩)
      · exact hne (List.self_eq_append_right.mp hnames)
      · exact absurd (List.self_eq_append_right.mp he) (by simp)
  · have hbelow : ∀ names, fs = es ++ names → dropCommon es fs = ([], names) := by
      rintro names rfl
      have happend := dropCommon_append es [] names
      rwa [List.append_nil] at happend
    have hparent : ∀ e, es = fs ++ [e] → dropCommon es fs = ([e], []) := by
      rintro e rfl
      have happend := dropCommon_append fs [e] []
      rwa [List.append_nil] at happend
    rw [rel_ofNames hes hfs heq]
    simp only [Option.some.injEq, exists_eq_left']
    obtain ⟨common, hcommon, hdown⟩ := exists_common es fs
    have hplain : ∀ x ∈ (dropCommon es fs).2, Plain x := fun x hx =>
      (hfs x (hdown ▸ List.mem_append_right _ hx)).1
    have hdots : Plain ".." := ⟨by decide, by decide⟩
    -- how many names the path leads up decides: none is below, and one is below only with no name
    -- after it
    rcases hdrop : dropCommon es fs with ⟨up, down⟩
    rw [hdrop] at hcommon hdown hplain hbelow hparent
    dsimp only at hcommon hdown hplain ⊢
    cases up with
    | nil =>
      obtain rfl : es = common := by simpa using hcommon
      cases down with
      | nil => exact absurd (by simpa using hdown.symm) heq
      | cons f down =>
        have hf : f ≠ "." ∧ f ≠ ".." := (hfs f (hdown ▸ by simp)).2
        refine iff_of_true ?_ (.inl ⟨f :: down, by simp, hdown⟩)
        refine (looksBelow_intercalate hplain).mpr ⟨fun hlist => ?_, fun h => hf.2 h.1⟩
        exact hf.1 (List.cons.inj hlist).1
    | cons e up =>
      rw [List.length_cons, List.replicate_succ, List.cons_append, looksBelow_intercalate]
      · cases up with
        | nil =>
          cases down with
          | nil =>
            refine iff_of_true ⟨by simp, by simp⟩ (.inr ⟨e, ?_⟩)
            rw [hcommon, hdown, List.append_nil]
          | cons f down =>
            refine iff_of_false (by simp) ?_
            rintro (⟨names, -, hnames⟩ | ⟨e', he'⟩)
            · exact absurd (hbelow names hnames) (by simp)
            · exact absurd (hparent e' he') (by simp)
        | cons e' up =>
          refine iff_of_false (by simp [List.replicate_succ]) ?_
          rintro (⟨names, -, hnames⟩ | ⟨e'', he''⟩)
          · exact absurd (hbelow names hnames) (by simp)
          · exact absurd (hparent e'' he'') (by simp)
      · intro x hx
        rcases List.mem_cons.mp hx with rfl | hx
        · exact hdots
        · rcases List.mem_append.mp hx with hx | hx
          · rw [List.eq_of_mem_replicate hx]
            exact hdots
          · exact hplain x hx

end Mastermind.Path
