import Mastermind.Platform.Utf16

/-!
# The configuration editor of the mods page

The editor as a machine: its pieces of state, the actions that its buttons and fields allow, and the
ends of the requests that they start. Every letter of the content carries whether it comes from a
proposal of the assistant that has not been approved since; the code does not know this mark.

The Save button looks at the summary of a proposal to see that there is one. A request to the
assistant clears the summary before it is answered. If it fails, a proposal that is still in the
editor passes for typed text; if no request fails over an unapproved proposal, none can be saved.
-/

namespace Mastermind.ModEditor

/-- A text whose letters are marked if they are proposed and not approved. -/
abbrev Marked := List (UInt16 × Bool)

namespace Marked

/-- The text itself, as the code has it. -/
def text (c : Marked) : Text := c.map Prod.fst

/-- A text of a file or of the user. -/
def plain (t : Text) : Marked := t.map fun u => (u, false)

/-- A text of the assistant. -/
def proposed (t : Text) : Marked := t.map fun u => (u, true)

/-- The same text after its approval. -/
def approved (c : Marked) : Marked := plain c.text

/-- The same text after an edit in the field: the user's text replaces a range. -/
def edited (c : Marked) (start stop : ℕ) (t : Text) : Marked :=
  c.take start ++ plain t ++ c.drop (max start stop)

/-- The text has letters that are proposed and not approved. -/
def unapproved (c : Marked) : Bool := c.any Prod.snd

end Marked

/-- The fields of `ModRecord` that the editor reads. -/
structure ModRecord where
  folder : Text
  name : Text
  configFiles : List Text

/-- The answer of the assistant. -/
structure Proposal where
  updatedContent : Text
  summary : Text
  warnings : List Text
  model : Text
  agent : Text

/-- A request that an action of the editor waits for. -/
inductive Pending where
  | read (path : Text)
  | save (content : Marked)
  | ask

/-- The state of the editor. `orgId` and `server` say whether the page has them. -/
structure Editor where
  orgId : Bool
  server : Bool
  editorMod : Option ModRecord
  editorPath : Text
  editorContent : Marked
  originalContent : Marked
  editorBusy : Bool
  codexRequest : Text
  codexSummary : Text
  codexWarnings : List Text
  aiAgent : Text
  diffApproved : Bool
  showDiff : Bool
  pending : Option Pending

namespace Editor

/-- The page as it is first shown. -/
def fresh : Editor where
  orgId := true
  server := true
  editorMod := none
  editorPath := []
  editorContent := []
  originalContent := []
  editorBusy := false
  codexRequest := []
  codexSummary := []
  codexWarnings := []
  aiAgent := Text.of "Codex"
  diffApproved := false
  showDiff := false
  pending := none

variable (e : Editor)

/-- `editorContent !== originalContent`. -/
def dirty : Bool := e.editorContent.text != e.originalContent.text

/-- The Save button is enabled:
`!(editorBusy || editorContent === originalContent || (Boolean(codexSummary) && !diffApproved))`. -/
def saveEnabled : Bool :=
  e.editorMod.isSome &&
    !(e.editorBusy || !e.dirty || (e.codexSummary != [] && !e.diffApproved))

/-- The buttons below an unapproved proposal are shown. -/
def reviewing : Bool := e.codexSummary != [] && e.showDiff && !e.diffApproved

/-- The start of `readConfig`. -/
def readConfig (path : Text) : Editor :=
  if !e.orgId || !e.server || path = [] then e
  else { e with editorBusy := true, pending := some (.read path) }

end Editor

/-- What can happen to the editor. The answers to a request end the action that waits for it; a
failed answer stands for a failure at any of its steps. -/
inductive Event where
  | openEditor (mod : ModRecord)
  | closeEditor
  | selectPath (path : Text)
  | readDone (content : Text)
  | readFailed
  | edit (start stop : ℕ) (text : Text)
  | setRequest (text : Text)
  | askCodex
  | askDone (proposal : Proposal)
  | askFailed
  | toggleDiff
  | approve
  | reject
  | discard
  | saveConfig
  | saveDone
  | saveFailed

/-- What an event does, if the editor allows it. -/
def step (e : Editor) : Event → Option Editor
  | .openEditor mod =>
    match mod.configFiles.head? with
    | none => none
    | some path =>
      if e.editorMod.isSome then none
      else some <| Editor.readConfig { e with
        editorMod := some mod, editorPath := path, editorContent := [], originalContent := [] } path
  | .closeEditor =>
    -- With changes the user is asked first, and this is the answer that they go.
    if e.editorMod.isSome && !e.editorBusy then some { e with editorMod := none } else none
  | .selectPath path =>
    if e.editorMod.any (fun mod => path ∈ mod.configFiles) && !e.editorBusy then
      some (e.readConfig path)
    else none
  | .readDone content =>
    match e.pending with
    | some (.read path) => some { e with
        editorPath := path, editorContent := .plain content, originalContent := .plain content,
        editorBusy := false, pending := none }
    | _ => none
  | .readFailed =>
    match e.pending with
    | some (.read _) => some { e with editorBusy := false, pending := none }
    | _ => none
  | .edit start stop text =>
    if e.editorMod.isSome && !e.editorBusy then
      some { e with
        editorContent := e.editorContent.edited start stop text,
        diffApproved := if e.codexSummary ≠ [] then false else e.diffApproved }
    else none
  | .setRequest text =>
    if e.editorMod.isSome && !e.editorBusy then some { e with codexRequest := text } else none
  | .askCodex =>
    if !e.orgId || e.editorMod.isNone || e.editorPath = [] || e.codexRequest.trim = [] ||
        e.editorBusy then none
    else some { e with
      editorBusy := true, codexSummary := [], codexWarnings := [], diffApproved := false,
      pending := some .ask }
  | .askDone result =>
    match e.pending with
    | some .ask => some { e with
        aiAgent := result.agent, editorContent := .proposed result.updatedContent,
        codexSummary := result.summary ++ Text.of " (" ++ result.agent ++ [32, 0xB7, 32] ++
          result.model ++ Text.of ")",
        codexWarnings := result.warnings, showDiff := true, editorBusy := false, pending := none }
    | _ => none
  | .askFailed =>
    match e.pending with
    | some .ask => some { e with editorBusy := false, pending := none }
    | _ => none
  | .toggleDiff =>
    if e.editorMod.isSome && e.codexSummary != [] then some { e with showDiff := !e.showDiff }
    else none
  | .approve =>
    if e.editorMod.isSome && e.reviewing then
      some { e with
        editorContent := e.editorContent.approved, diffApproved := true, showDiff := false }
    else none
  | .reject =>
    if e.editorMod.isSome && e.reviewing then
      some { e with
        editorContent := e.originalContent, codexSummary := [], codexWarnings := [],
        showDiff := false }
    else none
  | .discard =>
    if e.editorMod.isSome && !e.editorBusy && e.dirty then
      some { e with
        editorContent := e.originalContent, codexSummary := [], codexWarnings := [],
        diffApproved := false, showDiff := false }
    else none
  | .saveConfig =>
    if e.saveEnabled && e.orgId && e.server && e.editorPath != [] then
      some { e with editorBusy := true, pending := some (.save e.editorContent) }
    else none
  | .saveDone =>
    match e.pending with
    | some (.save content) => some { e with
        originalContent := content, editorBusy := false, pending := none }
    | _ => none
  | .saveFailed =>
    match e.pending with
    | some (.save _) => some { e with editorBusy := false, pending := none }
    | _ => none

/-- The states of the editor after events all of which meet a condition on the state before. -/
inductive Reached (cond : Editor → Event → Prop) : Editor → Prop
  | fresh (orgId server : Bool) : Reached cond { Editor.fresh with orgId, server }
  | step {e e' : Editor} (event : Event) :
      Reached cond e → cond e event → step e event = some e' → Reached cond e'

/-- A request to the assistant does not fail over a proposal that has not been approved. -/
def FailsOverNothing (e : Editor) (event : Event) : Prop :=
  event = .askFailed → e.editorContent.unapproved = false

/-! ## Marks -/

@[simp] theorem unapproved_plain (t : Text) : (Marked.plain t).unapproved = false := by
  simp [Marked.unapproved, Marked.plain]

@[simp] theorem unapproved_approved (c : Marked) : c.approved.unapproved = false :=
  unapproved_plain _

/-- An edit brings no marks. -/
theorem unapproved_edited {c : Marked} (h : c.unapproved = false) (start stop : ℕ) (t : Text) :
    (c.edited start stop t).unapproved = false := by
  have hmarks : ∀ x ∈ c, x.2 = false := by simpa [Marked.unapproved] using h
  have htyped : ∀ x ∈ Marked.plain t, x.2 = false := by
    simpa [Marked.unapproved] using unapproved_plain t
  simp only [Marked.unapproved, Marked.edited, List.any_eq_false, List.mem_append]
  rintro x ((hx | hx) | hx)
  · simpa using hmarks x (List.mem_of_mem_take hx)
  · simpa using htyped x hx
  · simpa using hmarks x (List.mem_of_mem_drop hx)

/-! ## The invariant -/

/-- The assistant is asked. -/
def Editor.asking (e : Editor) : Prop := e.pending = some .ask

/-- Unapproved text in the editor is guarded: its summary is there and nothing is approved, or the
assistant is asked again. What was read, and what is being saved, has none. -/
structure Guarded (e : Editor) : Prop where
  busy : e.pending.isSome = true → e.editorBusy = true
  asking : e.asking → e.codexSummary = [] ∧ e.diffApproved = false
  content : e.editorContent.unapproved = true →
    (e.codexSummary ≠ [] ∧ e.diffApproved = false) ∨ e.asking
  original : e.originalContent.unapproved = false
  saved : ∀ content, e.pending = some (.save content) → content.unapproved = false

section Step

variable {e e' : Editor}

/-- An editor that is not busy waits for nothing. -/
theorem Guarded.idle (h : Guarded e) (hidle : e.editorBusy = false) : e.pending = none := by
  cases hpending : e.pending with
  | none => rfl
  | some p =>
    have hbusy := h.busy (by rw [hpending]; rfl)
    exact absurd (hidle.symm.trans hbusy) Bool.false_ne_true

/-- What is guarded cannot be saved unapproved. -/
theorem Guarded.approved (h : Guarded e) (hsave : e.saveEnabled = true) :
    e.editorContent.unapproved = false := by
  have hparts : e.editorBusy = false ∧ (e.codexSummary = [] ∨ e.diffApproved = true) := by
    unfold Editor.saveEnabled at hsave
    simp only [Bool.and_eq_true, Bool.not_eq_true', Bool.or_eq_false_iff, Bool.and_eq_false_iff,
      bne_eq_false_iff_eq, Bool.not_eq_false'] at hsave
    exact ⟨hsave.2.1.1, hsave.2.2⟩
  obtain ⟨hidle, hgate⟩ := hparts
  by_contra hmarked
  rcases h.content (by simpa using hmarked) with ⟨hsummary, happroved⟩ | hasking
  · rcases hgate with hnone | happroved'
    · exact hsummary hnone
    · exact absurd (happroved.symm.trans happroved') Bool.false_ne_true
  · have hnone := h.idle hidle
    unfold Editor.asking at hasking
    exact absurd (hnone.symm.trans hasking) (by simp)

/-- Reading a file starts from any content that is guarded without the assistant. -/
theorem Guarded.readConfig (h : Guarded e)
    (hidle : e.editorContent.unapproved = true → ¬e.asking) (path : Text) :
    Guarded (e.readConfig path) := by
  unfold Editor.readConfig
  split_ifs
  · exact h
  · refine ⟨fun _ => rfl, fun hasking => ?_, fun hmarked => ?_, h.original, fun content hsave => ?_⟩
    · exact absurd hasking (by simp [Editor.asking])
    · exact .inl ((h.content hmarked).resolve_right (hidle hmarked))
    · exact absurd hsave (by simp)

/-- The end of a request other than one to the assistant, which leaves the content. -/
theorem Guarded.ended (h : Guarded e) (hother : ¬e.asking) :
    Guarded { e with editorBusy := false, pending := none } where
  busy hsome := absurd hsome (by simp)
  asking hasking := absurd hasking (by simp [Editor.asking])
  content hmarked := .inl ((h.content hmarked).resolve_right hother)
  original := h.original
  saved content hsave := absurd hsave (by simp)

/-- Every event that meets the condition keeps unapproved text guarded. -/
theorem Guarded.step (h : Guarded e) {event : Event} (hc : FailsOverNothing e event)
    (hs : step e event = some e') : Guarded e' := by
  cases event with
  | openEditor mod =>
    simp only [ModEditor.step] at hs
    split at hs
    · exact absurd hs (by simp)
    split_ifs at hs
    rename_i path _ _
    obtain rfl := Option.some.inj hs
    have hempty : Guarded { e with
        editorMod := some mod, editorPath := path, editorContent := [], originalContent := [] } :=
      ⟨h.busy, h.asking, fun hmarked => absurd hmarked (by simp [Marked.unapproved]), rfl, h.saved⟩
    exact hempty.readConfig (fun hmarked => absurd hmarked (by simp [Marked.unapproved])) path
  | closeEditor =>
    simp only [ModEditor.step] at hs
    split_ifs at hs
    obtain rfl := Option.some.inj hs
    exact ⟨h.busy, h.asking, h.content, h.original, h.saved⟩
  | selectPath path =>
    simp only [ModEditor.step] at hs
    split_ifs at hs with hguard
    obtain rfl := Option.some.inj hs
    have hidle := h.idle (by simpa using (Bool.and_eq_true_iff.mp hguard).2)
    exact h.readConfig (fun _ hasking => absurd (hidle.symm.trans hasking) (by simp)) path
  | readDone content =>
    simp only [ModEditor.step] at hs
    split at hs
    · obtain rfl := Option.some.inj hs
      refine ⟨fun hsome => absurd hsome (by simp), fun hasking => ?_, fun hmarked => ?_,
        unapproved_plain content, fun _ hsave => absurd hsave (by simp)⟩
      · exact absurd hasking (by simp [Editor.asking])
      · exact absurd hmarked (by simp)
    · exact absurd hs (by simp)
  | readFailed =>
    simp only [ModEditor.step] at hs
    split at hs
    · rename_i hpending
      obtain rfl := Option.some.inj hs
      exact h.ended fun hasking => absurd (hpending.symm.trans hasking) (by simp)
    · exact absurd hs (by simp)
  | edit start stop text =>
    simp only [ModEditor.step] at hs
    have hmarks : (e.editorContent.edited start stop text).unapproved = true →
        e.editorContent.unapproved = true := by
      intro hmarked
      by_contra hclean
      have hnone := unapproved_edited (by simpa using hclean) start stop text
      exact absurd (hnone.symm.trans hmarked) Bool.false_ne_true
    split_ifs at hs with hguard hsummary
    · obtain rfl := Option.some.inj hs
      have hidle := h.idle (by simpa using (Bool.and_eq_true_iff.mp hguard).2)
      exact ⟨h.busy, fun hasking => absurd (hidle.symm.trans hasking) (by simp),
        fun _ => .inl ⟨hsummary, rfl⟩, h.original, h.saved⟩
    · obtain rfl := Option.some.inj hs
      exact ⟨h.busy, h.asking, fun hmarked => h.content (hmarks hmarked), h.original, h.saved⟩
  | setRequest text =>
    simp only [ModEditor.step] at hs
    split_ifs at hs
    obtain rfl := Option.some.inj hs
    exact ⟨h.busy, h.asking, h.content, h.original, h.saved⟩
  | askCodex =>
    simp only [ModEditor.step] at hs
    split_ifs at hs
    obtain rfl := Option.some.inj hs
    exact ⟨fun _ => rfl, fun _ => ⟨rfl, rfl⟩, fun _ => .inr rfl, h.original,
      fun _ hsave => absurd hsave (by simp)⟩
  | askDone result =>
    simp only [ModEditor.step] at hs
    split at hs
    · rename_i hpending
      obtain rfl := Option.some.inj hs
      refine ⟨fun hsome => absurd hsome (by simp), fun hasking => ?_, fun _ => .inl ⟨?_, ?_⟩,
        h.original, fun _ hsave => absurd hsave (by simp)⟩
      · exact absurd hasking (by simp [Editor.asking])
      · simp [Text.of]
      · exact (h.asking hpending).2
    · exact absurd hs (by simp)
  | askFailed =>
    simp only [ModEditor.step] at hs
    split at hs
    · obtain rfl := Option.some.inj hs
      have hclean := hc rfl
      refine ⟨fun hsome => absurd hsome (by simp), fun hasking => ?_, fun hmarked => ?_,
        h.original, fun _ hsave => absurd hsave (by simp)⟩
      · exact absurd hasking (by simp [Editor.asking])
      · exact absurd (hclean.symm.trans hmarked) Bool.false_ne_true
    · exact absurd hs (by simp)
  | toggleDiff =>
    simp only [ModEditor.step] at hs
    split_ifs at hs
    obtain rfl := Option.some.inj hs
    exact ⟨h.busy, h.asking, h.content, h.original, h.saved⟩
  | approve =>
    simp only [ModEditor.step] at hs
    split_ifs at hs with hguard
    obtain rfl := Option.some.inj hs
    have hsummary : e.codexSummary ≠ [] := by
      have hreview := (Bool.and_eq_true_iff.mp hguard).2
      simp only [Editor.reviewing, Bool.and_eq_true, bne_iff_ne] at hreview
      exact hreview.1.1
    refine ⟨h.busy, fun hasking => absurd (h.asking hasking).1 hsummary, fun hmarked => ?_,
      h.original, h.saved⟩
    exact absurd hmarked (by simp)
  | reject =>
    simp only [ModEditor.step] at hs
    split_ifs at hs
    obtain rfl := Option.some.inj hs
    refine ⟨h.busy, fun hasking => ⟨rfl, (h.asking hasking).2⟩, fun hmarked => ?_, h.original,
      h.saved⟩
    exact absurd (h.original.symm.trans hmarked) Bool.false_ne_true
  | discard =>
    simp only [ModEditor.step] at hs
    split_ifs at hs
    obtain rfl := Option.some.inj hs
    refine ⟨h.busy, fun _ => ⟨rfl, rfl⟩, fun hmarked => ?_, h.original, h.saved⟩
    exact absurd (h.original.symm.trans hmarked) Bool.false_ne_true
  | saveConfig =>
    simp only [ModEditor.step] at hs
    split_ifs at hs with hguard
    obtain rfl := Option.some.inj hs
    have hclean : e.editorContent.unapproved = false := h.approved (by
      simp only [Bool.and_eq_true] at hguard
      exact hguard.1.1.1)
    refine ⟨fun _ => rfl, fun hasking => ?_, fun hmarked => ?_, h.original, fun content hsave => ?_⟩
    · exact absurd hasking (by simp [Editor.asking])
    · exact absurd (hclean.symm.trans hmarked) Bool.false_ne_true
    · obtain rfl := Pending.save.inj (Option.some.inj hsave)
      exact hclean
  | saveDone =>
    simp only [ModEditor.step] at hs
    split at hs
    · rename_i content hpending
      obtain rfl := Option.some.inj hs
      have hended := h.ended fun hasking => absurd (hpending.symm.trans hasking) (by simp)
      exact ⟨hended.busy, hended.asking, hended.content, h.saved content hpending, hended.saved⟩
    · exact absurd hs (by simp)
  | saveFailed =>
    simp only [ModEditor.step] at hs
    split at hs
    · rename_i hpending
      obtain rfl := Option.some.inj hs
      exact h.ended fun hasking => absurd (hpending.symm.trans hasking) (by simp)
    · exact absurd hs (by simp)

end Step

/-- In every state reached by events among which no request to the assistant fails over unapproved
text, what the Save button saves is approved. -/
theorem save_is_approved {e : Editor} (hr : Reached FailsOverNothing e)
    (hsave : e.saveEnabled = true) : e.editorContent.unapproved = false := by
  suffices h : Guarded e from h.approved hsave
  clear hsave
  induction hr with
  | fresh orgId server =>
    refine ⟨fun h => absurd h (by simp [Editor.fresh]), fun _ => ⟨rfl, rfl⟩, fun h => ?_, rfl,
      fun _ h => absurd h (by simp [Editor.fresh])⟩
    exact absurd h (by simp [Editor.fresh, Marked.unapproved])
  | step event _ hc hs ih => exact ih.step hc hs

section Examples

/-- A mod with one file. -/
def backpack : ModRecord := ⟨Text.of "Backpack", Text.of "Backpack", [Text.of "items.xml"]⟩

/-- An answer of the assistant. -/
def larger : Proposal := ⟨Text.of "9", Text.of "Larger", [], Text.of "model", Text.of "Codex"⟩

/-- The events until the first proposal is in the editor. -/
def proposing : List Event :=
  [.openEditor backpack, .readDone (Text.of "1"), .setRequest (Text.of "larger"), .askCodex,
    .askDone larger]

/-- Events that the editor allows lead to a reached state, if each meets the condition. -/
theorem reached_foldlM {cond : Editor → Event → Prop} {events : List Event} {e e' : Editor}
    (hr : Reached cond e) (hc : ∀ e, ∀ event ∈ events, cond e event)
    (hs : events.foldlM step e = some e') : Reached cond e' := by
  induction events generalizing e with
  | nil =>
    obtain rfl := Option.some.inj hs
    exact hr
  | cons event events ih =>
    obtain ⟨mid, hfirst, hrest⟩ := Option.bind_eq_some_iff.mp hs
    exact ih (.step event hr (hc e event (by simp)) hfirst)
      (fun e event hevent => hc e event (by simp [hevent])) hrest

/-- A proposal that was approved can be saved. -/
theorem save_is_approved_proposal : ∃ e : Editor, e.saveEnabled = true ∧
    e.editorContent.text = Text.of "9" ∧ e.editorContent.unapproved = false := by
  have hrun : ((proposing ++ [Event.approve]).foldlM step Editor.fresh).any
      (fun e : Editor => e.saveEnabled && e.editorContent.text == Text.of "9") = true := by decide
  obtain ⟨e, hs, hsave⟩ := (Option.any_eq_true _ _).mp hrun
  obtain ⟨hsave, htext⟩ := Bool.and_eq_true_iff.mp hsave
  have hr : Reached FailsOverNothing e := by
    refine reached_foldlM (.fresh true true) (fun e event hevent hfailed => ?_) hs
    rw [hfailed] at hevent
    exact absurd hevent (by simp [proposing])
  exact ⟨e, hsave, by simpa using htext, save_is_approved hr hsave⟩

/-- A proposal can be saved without approval: the assistant is asked again, and the request
fails. -/
theorem unapproved_saved : ¬∀ e : Editor, Reached (fun _ _ => True) e →
    e.saveEnabled = true → e.editorContent.unapproved = false := by
  intro hall
  have hrun : ((proposing ++ [Event.askCodex, Event.askFailed]).foldlM step Editor.fresh).any
      (fun e : Editor => e.saveEnabled && e.editorContent.unapproved) = true := by decide
  obtain ⟨e, hs, hboth⟩ := (Option.any_eq_true _ _).mp hrun
  obtain ⟨hsave, hmarked⟩ := Bool.and_eq_true_iff.mp hboth
  have hr : Reached (fun _ _ => True) e :=
    reached_foldlM (.fresh true true) (fun _ _ _ => trivial) hs
  exact absurd ((hall e hr hsave).symm.trans hmarked) Bool.false_ne_true

end Examples

end Mastermind.ModEditor
