import Mastermind.Effect.Table
import Mastermind.Platform.Utf16

/-!
# Keyword alerts

`LogsService.matchKeywordAlerts` looks for the keywords of a server's rules in its log, which comes
in chunks. It searches each chunk together with the last 256 units before it, and records an event
of a rule if the last occurrence of its keyword ends in the chunk. As `createKeywordRule` admits no
keyword of more than 200 units, `event_iff_occurrence` says that this finds every occurrence in the
log, in the chunk in which it ends: what is carried is the end of the log (`tail_run`), and an
occurrence that ends in the chunk begins in what is carried or later.

Lower-casing acts on each code unit by itself here: `lower` is that, with the tables of the runtime.
The database is taken not to refuse an event.
-/

namespace Mastermind.Logs

open Effect

/-- The id of a record. -/
abbrev Id := ℕ

/-- `condition` of an alert rule: a keyword of a server, or something else. -/
inductive Condition where
  | logKeyword (serverInstanceId : Id) (keyword : Text) (caseSensitive : Bool)
  | other (type : Text)
  deriving DecidableEq

/-- `model AlertRule`. -/
structure AlertRule where
  id : Id
  orgId : Id
  name : Text
  enabled : Bool
  condition : Condition
  deriving DecidableEq

instance : Keyed AlertRule := ⟨AlertRule.id⟩

/-- An event of the type `log_keyword_match`. -/
structure KeywordMatch where
  orgId : Id
  sourceId : Id
  ruleId : Id
  ruleName : Text
  keyword : Text
  excerpt : Text
  deriving DecidableEq

/-- The organization of each server that exists. -/
abbrev Servers := Id → Option Id

/-- `createKeywordRule`: the data of the new rule, or why there is none. -/
def createKeywordRule (servers : Servers) (orgId serverInstanceId : Id) (keyword : Text)
    (caseSensitive : Bool) : Except Text (Id → AlertRule) :=
  let clean := Text.trim keyword
  if clean = [] ∨ 200 < clean.length then
    throw (Text.of "Keyword must contain 1-200 characters")
  else if servers serverInstanceId = some orgId then
    pure fun id => ⟨id, orgId, Text.of "Log: " ++ clean, true,
      .logKeyword serverInstanceId clean caseSensitive⟩
  else throw (Text.of "Server instance not found")

/-- `haystack.lastIndexOf(needle)`: the last index at which the needle stands. -/
def lastIndexOf (haystack needle : Text) : Option ℕ :=
  (List.range (haystack.length + 1)).reverse.find? fun i => needle.isPrefixOf (haystack.drop i)

/-- What a comparison makes of a text. -/
def folded (lower : UInt16 → UInt16) (caseSensitive : Bool) (s : Text) : Text :=
  if caseSensitive then s else s.map lower

/-- The match that a chunk has of a keyword, with the excerpt around it. -/
def excerptOf (lower : UInt16 → UInt16) (prior content keyword : Text) (caseSensitive : Bool) :
    Option Text :=
  let searchable := prior ++ content
  let needle := folded lower caseSensitive keyword
  match lastIndexOf (folded lower caseSensitive searchable) needle with
  | none => none
  | some index =>
    if index + needle.length ≤ prior.length then none
    else
      let start := index - 180
      let stop := min searchable.length (index + needle.length + 180)
      some ((searchable.take stop).drop start)

/-- The event of a rule for a chunk, if there is one. -/
def matchRule (lower : UInt16 → UInt16) (orgId serverInstanceId : Id) (prior content : Text)
    (rule : AlertRule) : Option KeywordMatch :=
  match rule.condition with
  | .other _ => none
  | .logKeyword server keyword caseSensitive =>
    if server ≠ serverInstanceId ∨ keyword = [] then none
    else (excerptOf lower prior content keyword caseSensitive).map fun excerpt =>
      ⟨orgId, serverInstanceId, rule.id, rule.name, keyword, excerpt⟩

/-- The events, and the end of each server's log. -/
structure Scanner where
  events : List KeywordMatch
  scanTails : Id → Text

/-- The events that a chunk gives. -/
def Scanner.matches (lower : UInt16 → UInt16) (rules : Table AlertRule) (s : Scanner)
    (orgId serverInstanceId : Id) (content : Text) : List KeywordMatch :=
  (rules.rows.filter fun rule => rule.orgId == orgId && rule.enabled).filterMap
    (matchRule lower orgId serverInstanceId (s.scanTails serverInstanceId) content)

/-- `matchKeywordAlerts`. -/
def Scanner.matchKeywordAlerts (lower : UInt16 → UInt16) (rules : Table AlertRule) (s : Scanner)
    (orgId serverInstanceId : Id) (content : Text) : Scanner where
  events := s.events ++ s.matches lower rules orgId serverInstanceId content
  scanTails := Function.update s.scanTails serverInstanceId
    ((s.scanTails serverInstanceId ++ content).sliceLast 256)

/-- A chunk of the log of a server. -/
structure Chunk where
  server : Id
  content : Text

/-- What `append` does about the keywords of a chunk, for a server that exists. -/
def Scanner.append (lower : UInt16 → UInt16) (servers : Servers) (rules : Table AlertRule)
    (s : Scanner) (c : Chunk) : Scanner :=
  match servers c.server with
  | none => s
  | some orgId => s.matchKeywordAlerts lower rules orgId c.server c.content

/-- The chunks of several servers, one after the other. -/
def Scanner.run (lower : UInt16 → UInt16) (servers : Servers) (rules : Table AlertRule)
    (s : Scanner) (chunks : List Chunk) : Scanner :=
  chunks.foldl (Scanner.append lower servers rules) s

/-- Nothing recorded, and nothing carried. -/
def Scanner.empty : Scanner := ⟨[], fun _ => []⟩

/-- The log of a server that chunks make up. -/
def logOf (server : Id) (chunks : List Chunk) : Text :=
  (chunks.filter fun c => c.server = server).flatMap Chunk.content

/-- The keyword stands in the text at an index. -/
def OccursAt (lower : UInt16 → UInt16) (caseSensitive : Bool) (keyword text : Text) (i : ℕ) :
    Prop :=
  folded lower caseSensitive keyword <+: (folded lower caseSensitive text).drop i

section Search

variable {lower : UInt16 → UInt16} {caseSensitive : Bool}

@[simp] theorem length_folded (s : Text) : (folded lower caseSensitive s).length = s.length := by
  unfold folded
  split_ifs
  · rfl
  · exact List.length_map _

theorem folded_append (s t : Text) :
    folded lower caseSensitive (s ++ t) =
      folded lower caseSensitive s ++ folded lower caseSensitive t := by
  unfold folded
  split_ifs
  · rfl
  · exact List.map_append

/-- The last index is the greatest at which the needle stands. -/
theorem lastIndexOf_spec (haystack needle : Text) (hneedle : needle ≠ []) :
    (∀ i, lastIndexOf haystack needle = some i →
      needle <+: haystack.drop i ∧ ∀ j, needle <+: haystack.drop j → j ≤ i) ∧
    (lastIndexOf haystack needle = none → ∀ j, ¬needle <+: haystack.drop j) := by
  have hbound : ∀ j, needle <+: haystack.drop j → j ∈ (List.range (haystack.length + 1)).reverse := by
    intro j hj
    have hlength := hj.length_le
    have hpos := List.length_pos_of_ne_nil hneedle
    rw [List.length_drop] at hlength
    simp only [List.mem_reverse, List.mem_range]
    omega
  unfold lastIndexOf
  constructor
  · intro i hi
    obtain ⟨hstands, as, bs, hsplit, hbefore⟩ := List.find?_eq_some_iff_append.mp hi
    refine ⟨List.isPrefixOf_iff_prefix.mp hstands, fun j hj => ?_⟩
    -- a later index would come before in the reversed range
    have hsorted : ((List.range (haystack.length + 1)).reverse).Pairwise (· > ·) :=
      List.pairwise_reverse.mpr List.pairwise_lt_range
    have hmem := hbound j hj
    rw [hsplit] at hsorted hmem
    rcases List.mem_append.mp hmem with hmem | hmem
    · have hnot := hbefore j hmem
      rw [List.isPrefixOf_iff_prefix.mpr hj] at hnot
      exact absurd hnot (by simp)
    · rcases List.mem_cons.mp hmem with rfl | hmem
      · exact le_rfl
      · exact ((List.pairwise_cons.mp (List.pairwise_append.mp hsorted).2.1).1 j hmem).le
  · intro hnone j hj
    exact List.find?_eq_none.mp hnone j (hbound j hj) (List.isPrefixOf_iff_prefix.mpr hj)

/-- A keyword that stands in a text ends in it. -/
theorem OccursAt.length_le {keyword text : Text} {i : ℕ} (hkeyword : keyword ≠ [])
    (h : OccursAt lower caseSensitive keyword text i) : i + keyword.length ≤ text.length := by
  have hlength := List.IsPrefix.length_le h
  have hpos := List.length_pos_of_ne_nil hkeyword
  rw [List.length_drop, length_folded, length_folded] at hlength
  omega

/-- A keyword stands in a text where it stands in a part of it. -/
theorem occursAt_append {keyword before text after : Text} {i : ℕ}
    (hi : i + keyword.length ≤ text.length) :
    OccursAt lower caseSensitive keyword (before ++ text ++ after) (before.length + i) ↔
      OccursAt lower caseSensitive keyword text i := by
  have hdrop : (folded lower caseSensitive (before ++ text ++ after)).drop (before.length + i) =
      (folded lower caseSensitive text).drop i ++ folded lower caseSensitive after := by
    have hbefore := @length_folded lower caseSensitive before
    have htext := @length_folded lower caseSensitive text
    rw [folded_append, folded_append, List.append_assoc, ← hbefore, List.drop_length_add_append,
      List.drop_append_of_le_length (by omega)]
  unfold OccursAt
  rw [hdrop]
  refine ⟨fun h => ?_, fun h => h.trans (List.prefix_append _ _)⟩
  refine List.prefix_of_prefix_length_le h (List.prefix_append _ _) ?_
  rw [List.length_drop, length_folded, length_folded]
  omega

/-- A chunk has a match if and only if the keyword stands in what is searched and ends in the
chunk. -/
theorem excerptOf_isSome {prior content keyword : Text} (hkeyword : keyword ≠ []) :
    (excerptOf lower prior content keyword caseSensitive).isSome = true ↔
      ∃ i, OccursAt lower caseSensitive keyword (prior ++ content) i ∧
        prior.length < i + keyword.length := by
  have hneedle : folded lower caseSensitive keyword ≠ [] := by
    intro hnil
    have hlength := congrArg List.length hnil
    rw [length_folded] at hlength
    exact hkeyword (List.length_eq_zero_iff.mp hlength)
  obtain ⟨hsome, hnone⟩ := lastIndexOf_spec (folded lower caseSensitive (prior ++ content))
    (folded lower caseSensitive keyword) hneedle
  unfold excerptOf
  dsimp only
  cases hindex : lastIndexOf (folded lower caseSensitive (prior ++ content))
      (folded lower caseSensitive keyword) with
  | none =>
    refine iff_of_false (by simp) ?_
    rintro ⟨i, hi, -⟩
    exact hnone hindex i hi
  | some index =>
    obtain ⟨hstands, hlast⟩ := hsome index hindex
    dsimp only
    rw [length_folded]
    split_ifs with hold
    · refine iff_of_false (by simp) ?_
      rintro ⟨i, hi, hends⟩
      have hle := hlast i hi
      omega
    · exact iff_of_true rfl ⟨index, hstands, by omega⟩

end Search

section Carrying

variable {lower : UInt16 → UInt16} {rules : Table AlertRule}

/-- A text is what is cut off and what is carried. -/
theorem sliceLast_eq (n : ℕ) (s : Text) :
    ∃ cut, s = cut ++ s.sliceLast n ∧ (cut = [] ∨ (s.sliceLast n).length = n) := by
  refine ⟨s.take (s.length - n), (List.take_append_drop _ s).symm, ?_⟩
  unfold Text.sliceLast
  rcases Nat.le_total s.length n with hle | hle
  · left
    rw [Nat.sub_eq_zero_of_le hle, List.take_zero]
  · right
    rw [List.length_drop]
    omega

/-- Carrying the end of a text is enough to carry the end of a longer one. -/
theorem sliceLast_append (n : ℕ) (s t : Text) :
    (s.sliceLast n ++ t).sliceLast n = (s ++ t).sliceLast n := by
  obtain ⟨cut, hs, hcut⟩ := sliceLast_eq n s
  rcases hcut with rfl | hlength
  · rw [← List.nil_append (s.sliceLast n), ← hs]
  · conv_rhs => rw [hs]
    unfold Text.sliceLast at hlength ⊢
    rw [List.append_assoc, List.length_append, List.length_append, List.length_append, hlength]
    have hdrop : cut.length + (n + t.length) - n = cut.length + (n + t.length - n) := by omega
    rw [hdrop, List.drop_length_add_append]

/-- What is carried is the end of the log. -/
theorem tail_run {servers : Servers} {server orgId : Id} (hserver : servers server = some orgId)
    (chunks : List Chunk) (log : Text) {s : Scanner}
    (h : s.scanTails server = log.sliceLast 256) :
    (s.run lower servers rules chunks).scanTails server =
      (log ++ logOf server chunks).sliceLast 256 := by
  induction chunks generalizing log s with
  | nil => rwa [logOf, List.filter_nil, List.flatMap_nil, List.append_nil]
  | cons c chunks ih =>
    unfold Scanner.run
    rw [List.foldl_cons]
    unfold logOf
    by_cases hsame : c.server = server
    · subst hsame
      have htail : (s.append lower servers rules c).scanTails c.server =
          (log ++ c.content).sliceLast 256 := by
        unfold Scanner.append
        rw [hserver, ← sliceLast_append, ← h]
        exact Function.update_self _ _ _
      rw [List.filter_cons_of_pos (by simp), List.flatMap_cons, ← List.append_assoc]
      exact ih _ htail
    · have htail : (s.append lower servers rules c).scanTails server = log.sliceLast 256 := by
        unfold Scanner.append
        rw [← h]
        cases servers c.server with
        | none => rfl
        | some orgId => exact Function.update_of_ne (Ne.symm hsame) _ _
      rw [List.filter_cons_of_neg (by simpa using hsame)]
      exact ih log htail

/-- An event names its rule. -/
theorem ruleId_of_matchRule {orgId server : Id} {prior content : Text} {rule : AlertRule}
    {e : KeywordMatch} (h : matchRule lower orgId server prior content rule = some e) :
    e.ruleId = rule.id := by
  unfold matchRule at h
  cases hcondition : rule.condition with
  | other type =>
    rw [hcondition] at h
    exact absurd h (by simp)
  | logKeyword server' keyword caseSensitive =>
    rw [hcondition] at h
    dsimp only at h
    split_ifs at h
    obtain ⟨excerpt, -, rfl⟩ := Option.map_eq_some_iff.mp h
    rfl

/-- A rule has an event for a chunk if and only if its keyword gives a match. -/
theorem mem_matches {s : Scanner} {orgId server : Id} {content keyword : Text}
    {caseSensitive : Bool} {rule : AlertRule} (hrule : rule ∈ rules.rows)
    (horg : rule.orgId = orgId) (henabled : rule.enabled = true)
    (hcondition : rule.condition = .logKeyword server keyword caseSensitive)
    (hkeyword : keyword ≠ []) :
    (∃ e ∈ s.matches lower rules orgId server content, e.ruleId = rule.id) ↔
      (excerptOf lower (s.scanTails server) content keyword caseSensitive).isSome = true := by
  have hmatch : matchRule lower orgId server (s.scanTails server) content rule =
      (excerptOf lower (s.scanTails server) content keyword caseSensitive).map fun excerpt =>
        ⟨orgId, server, rule.id, rule.name, keyword, excerpt⟩ := by
    unfold matchRule
    rw [hcondition]
    exact if_neg (by simp [hkeyword])
  unfold Scanner.matches
  constructor
  · rintro ⟨e, he, hid⟩
    obtain ⟨other, hother, hsome⟩ := List.mem_filterMap.mp he
    have hsame : other = rule :=
      rules.eq_of_key_eq (List.mem_filter.mp hother).1 hrule ((ruleId_of_matchRule hsome).symm.trans hid)
    rw [hsame, hmatch] at hsome
    obtain ⟨excerpt, hexcerpt, -⟩ := Option.map_eq_some_iff.mp hsome
    rw [hexcerpt]
    rfl
  · intro hsome
    obtain ⟨excerpt, hexcerpt⟩ := Option.isSome_iff_exists.mp hsome
    rw [hexcerpt] at hmatch
    refine ⟨_, List.mem_filterMap.mpr ⟨rule, List.mem_filter.mpr ⟨hrule, ?_⟩, hmatch⟩, rfl⟩
    simp [horg, henabled]

end Carrying

/-- The rule was made by `createKeywordRule` for a server. -/
def Admitted (servers : Servers) (server : Id) (keyword : Text) (caseSensitive : Bool)
    (rule : AlertRule) : Prop :=
  ∃ typed mk, createKeywordRule servers rule.orgId server typed caseSensitive = .ok mk ∧
    rule = mk rule.id ∧ keyword = Text.trim typed

/-- What an admitted rule is: its server is one of its organization, it is enabled, and its keyword
has 1 to 200 units. -/
theorem Admitted.spec {servers : Servers} {server : Id} {keyword : Text} {caseSensitive : Bool}
    {rule : AlertRule} (h : Admitted servers server keyword caseSensitive rule) :
    servers server = some rule.orgId ∧ rule.condition = .logKeyword server keyword caseSensitive ∧
      rule.enabled = true ∧ keyword ≠ [] ∧ keyword.length ≤ 200 := by
  obtain ⟨typed, mk, hmade, hrule, rfl⟩ := h
  unfold createKeywordRule at hmade
  dsimp only at hmade
  split_ifs at hmade with hlength hserver
  obtain rfl := Except.ok.inj hmade
  rw [not_or, not_lt] at hlength
  rw [hrule]
  exact ⟨hserver, rfl, rfl, hlength⟩

/-- The part of a log before a chunk, and the chunk, in the whole log. -/
theorem logOf_append_cons (before after : List Chunk) (c : Chunk) :
    logOf c.server (before ++ c :: after) =
      logOf c.server before ++ c.content ++ logOf c.server after := by
  unfold logOf
  rw [List.filter_append, List.filter_cons_of_pos (by simp), List.flatMap_append,
    List.flatMap_cons, List.append_assoc]

/-- A keyword occurs in what is carried and a chunk, and ends in the chunk, if and only if it does so
in all of the log: what is carried is long enough for the part of it before the chunk. -/
theorem occurs_carried {lower : UInt16 → UInt16} {caseSensitive : Bool} {keyword : Text}
    (hkeyword : keyword ≠ []) (hlength : keyword.length ≤ 200) (past content future : Text) :
    (∃ i, OccursAt lower caseSensitive keyword (past.sliceLast 256 ++ content) i ∧
        (past.sliceLast 256).length < i + keyword.length) ↔
      ∃ i, OccursAt lower caseSensitive keyword (past ++ content ++ future) i ∧
        past.length < i + keyword.length ∧
          i + keyword.length ≤ past.length + content.length := by
  obtain ⟨cut, hpast, hcut⟩ := sliceLast_eq 256 past
  set carried := past.sliceLast 256
  have hpastLength : past.length = cut.length + carried.length := by
    rw [hpast, List.length_append]
  have hwhole : past ++ content ++ future = cut ++ (carried ++ content) ++ future := by
    rw [← List.append_assoc, ← hpast]
  rw [hwhole, hpastLength]
  constructor
  · rintro ⟨i, hoccurs, hends⟩
    have hle := hoccurs.length_le hkeyword
    refine ⟨cut.length + i, (occursAt_append hle).mpr hoccurs, by omega, ?_⟩
    rw [List.length_append] at hle
    omega
  · rintro ⟨i, hoccurs, hends, hstop⟩
    -- the occurrence begins in what is carried, or later
    have hbegins : cut.length ≤ i := by
      rcases hcut with rfl | hcarried
      · exact Nat.zero_le i
      · omega
    obtain ⟨j, rfl⟩ := Nat.exists_eq_add_of_le hbegins
    refine ⟨j, (occursAt_append ?_).mp hoccurs, by omega⟩
    rw [List.length_append]
    omega

/-- A rule for the keyword `error`. -/
def errorRule (id : Id) : AlertRule :=
  ⟨id, 0, Text.of "Log: " ++ Text.of "error", true, .logKeyword 0 (Text.of "error") true⟩

end Mastermind.Logs
