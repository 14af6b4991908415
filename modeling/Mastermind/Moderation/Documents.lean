import Mastermind.Effect.Table
import Mastermind.Orgs.SignIn
import Mastermind.Platform.Json

/-!
# The document of the moderation settings

`getChatModeration` and `updateChatModeration` once more, with the request and the settings as the
JSON that they are. An update merges the request into the settings, turns some of its fields into
strings or numbers, and writes the result over the type and the server's id in the document, with
every other property of the request. What is not a number becomes NaN, which no bound catches and
which JSON has as `null`.

`normalized_iff` says for which requests the document is as it should be and is read back: those
that do not set another type, have numbers for numbers and an array for the muted players, and name
the server by a string.

An operation is one step here. Numbers are exact. The look-up of the server is a parameter: the
request may name it by any JSON.
-/

namespace Mastermind.Documents

open Effect Mastermind.Orgs

/-- The id of a record. -/
abbrev Id := ℕ

/-- A JavaScript number. -/
inductive JsNumber where
  | nan
  | infinity (negative : Bool)
  | finite (q : ℚ)

/-- The value of a digit. -/
def digitOf (radix : ℕ) (c : Char) : Option ℕ :=
  let d :=
    if '0' ≤ c ∧ c ≤ '9' then c.toNat - 48
    else if 'a' ≤ c ∧ c ≤ 'z' then c.toNat - 87
    else if 'A' ≤ c ∧ c ≤ 'Z' then c.toNat - 55
    else radix
  if d < radix then some d else none

/-- The value of digits, of which there is one at least. -/
def naturalOf (radix : ℕ) (l : List Char) : Option ℕ :=
  if l = [] then none
  else l.foldlM (fun n c => (digitOf radix c).map fun d => radix * n + d) 0

/-- An exponent with its sign. -/
def exponentOf : List Char → Option ℤ
  | '+' :: l => (naturalOf 10 l).map fun n => (n : ℤ)
  | '-' :: l => (naturalOf 10 l).map fun n => -(n : ℤ)
  | l => (naturalOf 10 l).map fun n => (n : ℤ)

/-- A decimal literal: digits around a point, and an exponent. -/
def decimalOf (l : List Char) : Option ℚ := do
  let mantissa := l.takeWhile fun c => c ≠ 'e' && c ≠ 'E'
  let whole := mantissa.takeWhile fun c => c ≠ '.'
  let fraction := (mantissa.drop whole.length).tail
  let n ← naturalOf 10 (whole ++ fraction)
  let e ← match l.drop mantissa.length with
    | [] => some 0
    | _ :: l => exponentOf l
  pure (n * 10 ^ (e - fraction.length))

/-- A decimal literal or `Infinity`, after its sign. -/
def signed (negative : Bool) (l : List Char) : JsNumber :=
  if l = "Infinity".toList then .infinity negative
  else match decimalOf l with
    | some q => .finite (if negative then -q else q)
    | none => .nan

/-- The radix that a prefix stands for. -/
def radixOf (c : Char) : Option ℕ :=
  if c = 'x' ∨ c = 'X' then some 16
  else if c = 'o' ∨ c = 'O' then some 8
  else if c = 'b' ∨ c = 'B' then some 2
  else none

/-- `Number(s)` of a string. -/
def stringToNumber (s : String) : JsNumber :=
  match (trim s).toList with
  | [] => .finite 0
  | '+' :: l => signed false l
  | '-' :: l => signed true l
  | '0' :: c :: l =>
    match radixOf c with
    | some radix =>
      match naturalOf radix l with
      | some n => .finite n
      | none => .nan
    | none => signed false ('0' :: c :: l)
  | l => signed false l

/-- What the service uses of its runtime: the case tables, `String(n)`, and what
`serverInstance.findFirst` finds, for whatever a request has for an id. -/
structure Env where
  cases : CaseTables
  numberToString : ℚ → String
  findServer : Id → Option Json → Option String

/-- `AlertRule`. Conditions are objects. -/
structure Rule where
  id : Id
  orgId : Id
  name : String
  enabled : Bool
  condition : JsonObject

instance : Keyed Rule := ⟨Rule.id⟩

/-- The data of a write. -/
structure RuleData where
  name : String
  enabled : Bool
  condition : JsonObject

/-- The rule that `alertRule.create` makes. -/
def RuleData.row (d : RuleData) (orgId i : Id) : Rule := ⟨i, orgId, d.name, d.enabled, d.condition⟩

/-- The rule that `alertRule.update` leaves. -/
def RuleData.apply (d : RuleData) (r : Rule) : Rule := d.row r.orgId r.id

/-- An element of the cleaned rules. Its action is the value that stands in the request. -/
structure BadWord where
  word : String
  action : Json

/-- Rules as JSON. -/
def BadWord.json (r : BadWord) : Json := .obj [("word", .str r.word), ("action", r.action)]

/-- `a === b`, of values of two documents; `none` is `undefined`. Two objects are never the same. -/
def strictEquals : Option Json → Option Json → Bool
  | none, none => true
  | some .null, some .null => true
  | some (.bool a), some (.bool b) => a == b
  | some (.num a), some (.num b) => a == b
  | some (.str a), some (.str b) => a == b
  | _, _ => false

/-- `a ?? b`. -/
def orElseNullish (a b : Option Json) : Option Json :=
  match a with
  | none => b
  | some .null => b
  | some v => some v

section Coercions

variable (env : Env)

mutual

/-- `String(value)`. It throws if an object has a property in the place of its method. -/
def jsonToString : Json → Option String
  | .null => some "null"
  | .bool b => some (if b then "true" else "false")
  | .num q => some (env.numberToString q)
  | .str s => some s
  | .arr items => (itemsToString items).map (String.intercalate ",")
  | .obj props => if (props.lookup "toString").isSome then none else some "[object Object]"

/-- The elements of an array as `join` has them. -/
def itemsToString : List Json → Option (List String)
  | [] => some []
  | .null :: items => (itemsToString items).map fun l => "" :: l
  | item :: items => do
    let s ← jsonToString item
    let l ← itemsToString items
    pure (s :: l)

end

/-- `String(value)`, where the value may be `undefined`. -/
def valueToString : Option Json → Option String
  | none => some "undefined"
  | some v => jsonToString env v

/-- `Number(value)`. -/
def toNumber : Option Json → Option JsNumber
  | none => some .nan
  | some .null => some (.finite 0)
  | some (.bool b) => some (.finite (if b then 1 else 0))
  | some (.num q) => some (.finite q)
  | some (.str s) => some (stringToNumber s)
  | some v => (jsonToString env v).map stringToNumber

end Coercions

/-- `Math.min(most, Math.max(2, n))`, as JSON has it. -/
def clamp (most : ℚ) : JsNumber → Json
  | .nan => .null
  | .infinity negative => .num (if negative then 2 else most)
  | .finite q => .num (min most (max 2 q))

section Service

variable (env : Env)

/-- `moderationAction`. -/
def moderationAction (value : Option Json) (fallback : Json) : Option Json := do
  let text ← valueToString env value
  pure (if text ∈ ["log", "warn", "kick"] then value.getD fallback else fallback)

/-- The properties of an element of the requested rules. -/
def recordOf : Json → JsonObject
  | .obj props => props
  | .arr _ => []
  | item => [("word", item)]

/-- `String(record.word ?? '').trim().toLowerCase()`. -/
def wordOf (item : Json) : Option String := do
  let text ← jsonToString env ((orElseNullish ((recordOf item).lookup "word") none).getD (.str ""))
  pure (env.cases.toLowerCase (trim text))

/-- The loop of `cleanBadWordRules`, from the rules that there are already. -/
def cleanLoop (fallback : Json) : List Json → List BadWord → Option (List BadWord)
  | [], result => some result
  | item :: items, result => do
    let word ← wordOf env item
    if word = "" ∨ 80 < utf16Length word ∨ result.any (fun r => r.word == word) = true then
      cleanLoop fallback items result
    else
      let action ← moderationAction env ((recordOf item).lookup "action") fallback
      let longer := result ++ [BadWord.mk word action]
      if longer.length = 200 then pure longer else cleanLoop fallback items longer

/-- `cleanBadWordRules`. -/
def cleanBadWordRules (value : Option Json) (fallback : Json) : Option (List BadWord) :=
  match value with
  | some (.arr items) => cleanLoop env fallback items []
  | _ => some []

/-- `moderationDefaults`. -/
def moderationDefaults : JsonObject :=
  [("enabled", .bool false), ("badWordRules", .arr []), ("badWords", .arr []),
    ("badWordAction", .str "warn"), ("floodEnabled", .bool true), ("floodMessages", .num 5),
    ("floodWindowSeconds", .num 10), ("floodAction", .str "kick"), ("mutedPlayers", .arr [])]

/-- The properties that both operations write of the rules. -/
def rulesProps (rules : List BadWord) (legacyAction : Json) : JsonObject :=
  [("badWordRules", .arr (rules.map BadWord.json)),
    ("badWords", .arr (rules.map fun r => .str r.word)), ("badWordAction", legacyAction)]

/-- The value if it is an array. -/
def arrayOr (value : Option Json) (other : Json) : Json :=
  match value with
  | some (.arr items) => .arr items
  | _ => other

/-- The rule is about the chat moderation of a server. -/
def Rule.about (server : Option Json) (r : Rule) : Bool :=
  strictEquals (r.condition.lookup "type") (some (.str "chat_moderation")) &&
    strictEquals (r.condition.lookup "serverInstanceId") server

/-- The rule of an organization about the chat moderation of a server, which both operations look
for: the first one. -/
def findRule (rules : Table Rule) (orgId : Id) (server : Option Json) : Option Rule :=
  rules.rows.find? fun r => r.orgId == orgId && r.about server

/-- The settings that a rule holds. -/
def settingsOf (r : Rule) : Option JsonObject := do
  let legacyAction ← moderationAction env (r.condition.lookup "badWordAction") (.str "warn")
  let sourceRules := arrayOr (r.condition.lookup "badWordRules")
    (arrayOr (r.condition.lookup "badWords") (.arr []))
  let badWordRules ← cleanBadWordRules env (some sourceRules) legacyAction
  pure (JsonObject.spread (JsonObject.spread moderationDefaults r.condition)
    (("enabled", .bool r.enabled) ::
      ("mutedPlayers", arrayOr (r.condition.lookup "mutedPlayers") (.arr [])) ::
        rulesProps badWordRules legacyAction))

/-- `getChatModeration`. -/
def getChatModeration (rules : Table Rule) (orgId : Id) (server : Option Json) :
    Option JsonObject :=
  match findRule rules orgId server with
  | none => some moderationDefaults
  | some r => settingsOf env r

/-- The settings that an update writes. -/
def mergedSettings (current input : JsonObject) : Option JsonObject := do
  let legacyAction ← moderationAction env
    (orElseNullish (input.lookup "badWordAction") (current.lookup "badWordAction")) (.str "warn")
  let requestedRules := (input.lookup "badWordRules").or
    ((input.lookup "badWords").or (current.lookup "badWordRules"))
  let badWordRules ← cleanBadWordRules env requestedRules legacyAction
  let floodAction ← moderationAction env
    (orElseNullish (input.lookup "floodAction") (current.lookup "floodAction"))
    ((current.lookup "floodAction").getD .null)
  let floodMessages ← toNumber env
    (orElseNullish (input.lookup "floodMessages") (current.lookup "floodMessages"))
  let floodWindowSeconds ← toNumber env
    (orElseNullish (input.lookup "floodWindowSeconds") (current.lookup "floodWindowSeconds"))
  pure (JsonObject.spread (JsonObject.spread current input)
    (("floodAction", floodAction) :: ("floodMessages", clamp 30 floodMessages) ::
      ("floodWindowSeconds", clamp 300 floodWindowSeconds) ::
        rulesProps badWordRules legacyAction))

/-- The condition of the rule that an update writes. -/
def documentOf (server : Option Json) (settings : JsonObject) : JsonObject :=
  JsonObject.spread
    (("type", .str "chat_moderation") :: JsonObject.prop "serverInstanceId" server) settings

/-- What an accepted update returns, the rule that it has written, and the rules after it. -/
structure Saved where
  settings : JsonObject
  rule : Rule
  rules : Table Rule

/-- `updateChatModeration`; `none` if it throws. The column of `enabled` takes a Boolean only. -/
def updateChatModeration (rules : Table Rule) (orgId : Id) (server : Option Json)
    (input : JsonObject) : Option Saved := do
  let name ← env.findServer orgId server
  let current ← getChatModeration env rules orgId server
  let settings ← mergedSettings env current input
  match settings.lookup "enabled" with
  | some (.bool enabled) =>
    let data : RuleData := ⟨"Chat moderation: " ++ name, enabled, documentOf server settings⟩
    match findRule rules orgId server with
    | some existing =>
      pure ⟨settings, data.apply existing, rules.update existing.id data.apply fun _ => rfl⟩
    | none => pure ⟨settings, data.row orgId rules.next, rules.insert (data.row orgId) fun _ => rfl⟩
  | _ => none

/-- The endpoint: the request names the server. -/
def saveChatModeration (rules : Table Rule) (orgId : Id) (body : JsonObject) : Option Saved :=
  updateChatModeration env rules orgId (body.lookup "serverInstanceId") body

end Service

/-! ## What a document should be -/

/-- Rules as they should be: at most 200, none empty or twice, trimmed and in lower case. -/
structure Clean (env : Env) (rules : List BadWord) : Prop where
  length : rules.length ≤ 200
  nodup : (rules.map BadWord.word).Nodup
  word : ∀ r ∈ rules, r.word ≠ "" ∧ trim r.word = r.word ∧ env.cases.toLowerCase r.word = r.word

/-- A document as it should be. -/
structure Normalized (env : Env) (server : Option Json) (document : JsonObject) : Prop where
  type : document.lookup "type" = some (.str "chat_moderation")
  server : document.lookup "serverInstanceId" = server
  floodMessages : ∃ q : ℚ, document.lookup "floodMessages" = some (.num q) ∧ 2 ≤ q ∧ q ≤ 30
  floodWindowSeconds :
    ∃ q : ℚ, document.lookup "floodWindowSeconds" = some (.num q) ∧ 2 ≤ q ∧ q ≤ 300
  badWordRules : ∃ rules : List BadWord,
    document.lookup "badWordRules" = some (.arr (rules.map BadWord.json)) ∧ Clean env rules

/-- The rule that was written is found, and it is read as the settings that were returned, beside
the type and the server's id, which belong to the document. -/
def ReadBack (env : Env) (orgId : Id) (server : Option Json) (s : Saved) : Prop :=
  findRule s.rules orgId server = some s.rule ∧
    ∃ settings, getChatModeration env s.rules orgId server = some settings ∧
      ∀ k, k ≠ "type" → k ≠ "serverInstanceId" → settings.lookup k = s.settings.lookup k

/-- A request that sets no other type, names the server by no object, leaves both numbers numbers,
and has an array for the muted players. -/
structure Regular (env : Env) (rules : Table Rule) (orgId : Id) (body : JsonObject) : Prop where
  type : ∀ v, body.lookup "type" = some v → v = .str "chat_moderation"
  server : strictEquals (body.lookup "serverInstanceId") (body.lookup "serverInstanceId") = true
  numbers : ∀ current,
    getChatModeration env rules orgId (body.lookup "serverInstanceId") = some current →
      ∀ k ∈ ["floodMessages", "floodWindowSeconds"],
        toNumber env (orElseNullish (body.lookup k) (current.lookup k)) ≠ some .nan
  mutedPlayers : ∀ v, body.lookup "mutedPlayers" = some v → ∃ items, v = .arr items

/-- Values that are the same are equal. -/
theorem eq_of_strictEquals {a b : Option Json} (h : strictEquals a b = true) : a = b := by
  unfold strictEquals at h
  split at h
  · rfl
  · rfl
  · rw [beq_iff_eq.mp h]
  · rw [beq_iff_eq.mp h]
  · rw [beq_iff_eq.mp h]
  · cases h

section Rules

variable {env : Env}

/-- An action that `moderationAction` takes. -/
def Accepted (env : Env) (v : Json) : Prop :=
  ∃ text ∈ ["log", "warn", "kick"], jsonToString env v = some text

theorem accepted_warn : Accepted env (.str "warn") := ⟨"warn", by simp, by rw [jsonToString]⟩

/-- An action that is taken stays. -/
theorem Accepted.moderationAction {v : Json} (h : Accepted env v) (fallback : Json) :
    moderationAction env (some v) fallback = some v := by
  obtain ⟨text, htext, hv⟩ := h
  show (jsonToString env v).bind
    (fun text => some (if text ∈ ["log", "warn", "kick"] then v else fallback)) = some v
  rw [hv, Option.bind_some, if_pos htext]

/-- What `moderationAction` gives is taken, if the fallback is. -/
theorem accepted_of_moderationAction {value : Option Json} {fallback a : Json}
    (hfallback : Accepted env fallback) (h : moderationAction env value fallback = some a) :
    Accepted env a := by
  obtain ⟨text, htext, ha⟩ := Option.bind_eq_some_iff.mp h
  obtain rfl := Option.some.inj ha
  split_ifs with hmem
  · cases value with
    | none =>
      obtain rfl := Option.some.inj htext
      exact absurd hmem (by decide)
    | some v => exact ⟨text, hmem, htext⟩
  · exact hfallback

/-- A rule that cleaning keeps as it is. -/
structure Kept (env : Env) (r : BadWord) : Prop where
  nonempty : r.word ≠ ""
  trimmed : trim r.word = r.word
  lower : env.cases.toLowerCase r.word = r.word
  short : ¬80 < utf16Length r.word
  action : Accepted env r.action

/-- What the loop leaves is clean, and cleaning would keep it. -/
theorem cleanLoop_spec (hlower : Lowers env.cases) {fallback : Json}
    (hfallback : Accepted env fallback) {items : List Json} {result out : List BadWord}
    (h : cleanLoop env fallback items result = some out) (hlength : result.length < 200)
    (hnodup : (result.map BadWord.word).Nodup) (hkept : ∀ r ∈ result, Kept env r) :
    out.length ≤ 200 ∧ (out.map BadWord.word).Nodup ∧ ∀ r ∈ out, Kept env r := by
  induction items generalizing result with
  | nil =>
    obtain rfl := Option.some.inj h
    exact ⟨hlength.le, hnodup, hkept⟩
  | cons item items ih =>
    obtain ⟨word, hword, hrest⟩ := Option.bind_eq_some_iff.mp h
    split_ifs at hrest with hskip
    · exact ih hrest hlength hnodup hkept
    · obtain ⟨action, haction, hrest⟩ := Option.bind_eq_some_iff.mp hrest
      obtain ⟨hnonempty, hshort, hnew⟩ : word ≠ "" ∧ ¬80 < utf16Length word ∧
          ¬result.any (fun r => r.word == word) = true := by
        simpa only [not_or] using hskip
      have hkept' : ∀ r ∈ result ++ [BadWord.mk word action], Kept env r := by
        intro r hr
        rcases List.mem_append.mp hr with hr | hr
        · exact hkept r hr
        · obtain rfl := List.mem_singleton.mp hr
          obtain ⟨text, -, hword⟩ := Option.bind_eq_some_iff.mp hword
          obtain rfl := Option.some.inj hword
          exact ⟨hnonempty, hlower.trim_toLowerCase text, hlower.toLowerCase_twice (trim text),
            hshort, accepted_of_moderationAction hfallback haction⟩
      have hnodup' : ((result ++ [BadWord.mk word action]).map BadWord.word).Nodup := by
        rw [List.map_append, List.nodup_append]
        refine ⟨hnodup, List.nodup_singleton _, ?_⟩
        intro w hw w' hw'
        obtain ⟨r, hr, rfl⟩ := List.mem_map.mp hw
        obtain rfl := List.mem_singleton.mp hw'
        rintro heq
        exact hnew (List.any_eq_true.mpr ⟨r, hr, by simpa using heq⟩)
      have hgrown : (result ++ [BadWord.mk word action]).length ≤ 200 := by
        rw [List.length_append, List.length_singleton]
        omega
      dsimp only at hrest
      split_ifs at hrest with hfull
      · obtain rfl := Option.some.inj hrest
        exact ⟨hgrown, hnodup', hkept'⟩
      · exact ih hrest (lt_of_le_of_ne hgrown hfull) hnodup' hkept'

/-- The word of a rule that cleaning keeps. -/
theorem Kept.wordOf {r : BadWord} (h : Kept env r) : wordOf env r.json = some r.word := by
  show (jsonToString env (.str r.word)).bind
    (fun text => some (env.cases.toLowerCase (trim text))) = some r.word
  rw [jsonToString, Option.bind_some, h.trimmed, h.lower]

/-- The loop keeps rules that are clean already. -/
theorem cleanLoop_of_kept {fallback : Json} {rules result : List BadWord}
    (hkept : ∀ r ∈ rules, Kept env r) (hnodup : ((result ++ rules).map BadWord.word).Nodup)
    (hlength : (result ++ rules).length ≤ 200) :
    cleanLoop env fallback (rules.map BadWord.json) result = some (result ++ rules) := by
  induction rules generalizing result with
  | nil => rw [List.append_nil]; rfl
  | cons r rules ih =>
    obtain ⟨hr, hrest⟩ := List.forall_mem_cons.mp hkept
    have hnew : ¬result.any (fun other => other.word == r.word) = true := by
      intro hany
      obtain ⟨other, hother, hword⟩ := List.any_eq_true.mp hany
      rw [List.map_append, List.nodup_append] at hnodup
      exact hnodup.2.2 other.word (List.mem_map_of_mem hother) r.word List.mem_cons_self
        (by simpa using hword)
    have haction : moderationAction env ((recordOf r.json).lookup "action") fallback =
        some r.action := hr.action.moderationAction fallback
    have happend : result ++ r :: rules = result ++ [r] ++ rules := by simp
    rw [List.map_cons, cleanLoop, hr.wordOf]
    show (if r.word = "" ∨ 80 < utf16Length r.word ∨
      result.any (fun other => other.word == r.word) = true then _ else _) = _
    rw [if_neg (by simp only [not_or]; exact ⟨hr.nonempty, hr.short, hnew⟩), haction]
    show (if (result ++ [r]).length = 200 then some (result ++ [r]) else _) = _
    rw [happend] at hnodup hlength ⊢
    split_ifs with hfull
    · -- there is no room for a further rule
      have hnone : rules = [] := by
        rw [List.length_append, hfull] at hlength
        exact List.length_eq_zero_iff.mp (by omega)
      rw [hnone, List.append_nil]
    · exact ih hrest hnodup hlength

/-- What `cleanBadWordRules` gives is clean, and cleaning it once more changes nothing. -/
theorem cleanBadWordRules_spec (hlower : Lowers env.cases) {fallback : Json}
    (hfallback : Accepted env fallback) {value : Option Json} {rules : List BadWord}
    (h : cleanBadWordRules env value fallback = some rules) :
    Clean env rules ∧
      cleanBadWordRules env (some (.arr (rules.map BadWord.json))) fallback = some rules := by
  have hspec : rules.length ≤ 200 ∧ (rules.map BadWord.word).Nodup ∧ ∀ r ∈ rules, Kept env r := by
    unfold cleanBadWordRules at h
    split at h
    · exact cleanLoop_spec hlower hfallback h (by simp) List.nodup_nil
        fun r hr => absurd hr List.not_mem_nil
    · obtain rfl := Option.some.inj h
      exact ⟨by simp, List.nodup_nil, fun r hr => absurd hr List.not_mem_nil⟩
  obtain ⟨hlength, hnodup, hkept⟩ := hspec
  exact ⟨⟨hlength, hnodup, fun r hr => ⟨(hkept r hr).nonempty, (hkept r hr).trimmed,
    (hkept r hr).lower⟩⟩, cleanLoop_of_kept hkept hnodup hlength⟩

end Rules

/-! ## What an update does -/

section Update

variable {env : Env}

/-- What is known of the settings that are read. -/
structure Current (server : Option Json) (current : JsonObject) : Prop where
  type : ∀ v, current.lookup "type" = some v → v = .str "chat_moderation"
  server : server = none → current.lookup "serverInstanceId" = none
  mutedPlayers : ∃ items, current.lookup "mutedPlayers" = some (.arr items)
  complete : ∀ k, current.lookup k = none → moderationDefaults.lookup k = none

/-- The settings that a rule holds, by property. -/
theorem settingsOf_spec {r : Rule} {settings : JsonObject} (h : settingsOf env r = some settings) :
    ∃ badWordRules legacyAction, settings =
      JsonObject.spread (JsonObject.spread moderationDefaults r.condition)
        (("enabled", .bool r.enabled) ::
          ("mutedPlayers", arrayOr (r.condition.lookup "mutedPlayers") (.arr [])) ::
            rulesProps badWordRules legacyAction) := by
  obtain ⟨legacyAction, -, hrest⟩ := Option.bind_eq_some_iff.mp h
  obtain ⟨badWordRules, -, hrest⟩ := Option.bind_eq_some_iff.mp hrest
  exact ⟨badWordRules, legacyAction, (Option.some.inj hrest).symm⟩

/-- The settings of a rule whose document is clean already. -/
theorem settingsOf_of_clean {r : Rule} {badWordRules : List BadWord} {legacyAction : Json}
    {items : List Json} (haccepted : Accepted env legacyAction)
    (hagain : cleanBadWordRules env (some (.arr (badWordRules.map BadWord.json))) legacyAction =
      some badWordRules)
    (hrules : r.condition.lookup "badWordRules" = some (.arr (badWordRules.map BadWord.json)))
    (haction : r.condition.lookup "badWordAction" = some legacyAction)
    (hmuted : r.condition.lookup "mutedPlayers" = some (.arr items)) :
    settingsOf env r = some (JsonObject.spread (JsonObject.spread moderationDefaults r.condition)
      (("enabled", .bool r.enabled) :: ("mutedPlayers", .arr items) ::
        rulesProps badWordRules legacyAction)) := by
  unfold settingsOf
  rw [hrules, haction, hmuted, haccepted.moderationAction]
  show (cleanBadWordRules env (some (.arr (badWordRules.map BadWord.json))) legacyAction).bind _ = _
  rw [hagain]
  rfl

theorem arrayOr_arr (value : Option Json) (items : List Json) :
    ∃ items', arrayOr value (.arr items) = .arr items' := by
  unfold arrayOr
  split
  · exact ⟨_, rfl⟩
  · exact ⟨_, rfl⟩

/-- The rule that is found is about the server. -/
theorem about_of_findRule {rules : Table Rule} {orgId : Id} {server : Option Json} {r : Rule}
    (h : findRule rules orgId server = some r) : r.about server = true := by
  have hfound : (r.orgId == orgId && r.about server) = true :=
    @List.find?_some _ (fun r : Rule => r.orgId == orgId && r.about server) _ _ h
  exact (Bool.and_eq_true_iff.mp hfound).2

/-- What `getChatModeration` gives. -/
theorem current_of_get {rules : Table Rule} {orgId : Id} {server : Option Json}
    {current : JsonObject} (h : getChatModeration env rules orgId server = some current) :
    Current server current := by
  unfold getChatModeration at h
  split at h
  · obtain rfl := Option.some.inj h
    refine ⟨fun v hv => ?_, fun _ => rfl, ⟨[], rfl⟩, fun _ hk => hk⟩
    cases hv
  · next r hr =>
    obtain ⟨htype, hserver⟩ := Bool.and_eq_true_iff.mp (about_of_findRule hr)
    have htype := eq_of_strictEquals htype
    have hserver := eq_of_strictEquals hserver
    obtain ⟨badWordRules, legacyAction, rfl⟩ := settingsOf_spec h
    refine ⟨fun v hv => ?_, fun hnone => ?_, ?_, fun k hk => ?_⟩
    · rw [JsonObject.lookup_spread, JsonObject.lookup_spread, htype] at hv
      exact (Option.some.inj hv).symm
    · rw [JsonObject.lookup_spread, JsonObject.lookup_spread, hserver, hnone]
      rfl
    · obtain ⟨items, hitems⟩ := arrayOr_arr (r.condition.lookup "mutedPlayers") []
      refine ⟨items, ?_⟩
      rw [JsonObject.lookup_spread, hitems]
      rfl
    · rw [JsonObject.lookup_spread, JsonObject.lookup_spread, Option.or_eq_none_iff,
        Option.or_eq_none_iff] at hk
      exact hk.2.2

/-- What `mergedSettings` gives. -/
structure Merged (env : Env) (current input settings : JsonObject) (legacyAction : Json)
    (rules : List BadWord) (floodAction : Json) (messages window : JsNumber) : Prop where
  accepted : Accepted env legacyAction
  cleaned : ∃ value, cleanBadWordRules env value legacyAction = some rules
  floodMessages : toNumber env
    (orElseNullish (input.lookup "floodMessages") (current.lookup "floodMessages")) = some messages
  floodWindowSeconds : toNumber env (orElseNullish (input.lookup "floodWindowSeconds")
    (current.lookup "floodWindowSeconds")) = some window
  settings : settings = JsonObject.spread (JsonObject.spread current input)
    (("floodAction", floodAction) :: ("floodMessages", clamp 30 messages) ::
      ("floodWindowSeconds", clamp 300 window) :: rulesProps rules legacyAction)

theorem merged_of_mergedSettings {current input settings : JsonObject}
    (h : mergedSettings env current input = some settings) :
    ∃ legacyAction rules floodAction messages window,
      Merged env current input settings legacyAction rules floodAction messages window := by
  obtain ⟨legacyAction, hlegacy, hrest⟩ := Option.bind_eq_some_iff.mp h
  obtain ⟨rules, hrules, hrest⟩ := Option.bind_eq_some_iff.mp hrest
  obtain ⟨floodAction, -, hrest⟩ := Option.bind_eq_some_iff.mp hrest
  obtain ⟨messages, hmessages, hrest⟩ := Option.bind_eq_some_iff.mp hrest
  obtain ⟨window, hwindow, hrest⟩ := Option.bind_eq_some_iff.mp hrest
  exact ⟨legacyAction, rules, floodAction, messages, window,
    accepted_of_moderationAction accepted_warn hlegacy, ⟨_, hrules⟩, hmessages, hwindow,
    (Option.some.inj hrest).symm⟩

/-- What an accepted update does. -/
structure Updated (env : Env) (rules : Table Rule) (orgId : Id) (server : Option Json)
    (input current : JsonObject) (s : Saved) : Prop where
  get : getChatModeration env rules orgId server = some current
  merged : mergedSettings env current input = some s.settings
  enabled : s.settings.lookup "enabled" = some (.bool s.rule.enabled)
  document : s.rule.condition = documentOf server s.settings
  find : findRule s.rules orgId server = some s.rule ↔ s.rule.about server = true

/-- The first rule of an organization that is about a server, after it is written. -/
theorem findRule_update {rules : Table Rule} {orgId : Id} {server : Option Json} {r : Rule}
    (hr : findRule rules orgId server = some r) (d : RuleData) :
    findRule (rules.update r.id d.apply fun _ => rfl) orgId server = some (d.apply r) ↔
      (d.apply r).about server = true := by
  constructor
  · exact about_of_findRule
  · intro habout
    obtain ⟨hr', before, after, hrows, hbefore⟩ := List.find?_eq_some_iff_append.mp hr
    refine List.find?_eq_some_iff_append.mpr ⟨?_, before,
      after.map fun a => if Keyed.key a == r.id then d.apply a else a, ?_, hbefore⟩
    · exact Bool.and_eq_true_iff.mpr ⟨(Bool.and_eq_true_iff.mp hr').1, habout⟩
    · -- no rule before it has its key
      have hkeys : before.map (fun a => if Keyed.key a == r.id then d.apply a else a) = before := by
        refine (List.map_congr_left fun a ha => ?_).trans (List.map_id before)
        have hkey : ¬(Keyed.key a == r.id) = true := by
          intro hkey
          have hsame : a = r := rules.eq_of_key_eq (by rw [hrows]; simp [ha])
            (by rw [hrows]; simp) (beq_iff_eq.mp hkey)
          have hnot := hbefore a ha
          rw [hsame, hr'] at hnot
          cases hnot
        rw [if_neg hkey]
        rfl
      show rules.rows.map (fun a => if Keyed.key a == r.id then d.apply a else a) = _
      have hkey : (Keyed.key r == r.id) = true := beq_self_eq_true r.id
      rw [hrows, List.map_append, List.map_cons, hkeys, if_pos hkey]

theorem findRule_insert {rules : Table Rule} {orgId : Id} {server : Option Json}
    (hnone : findRule rules orgId server = none) (d : RuleData) :
    findRule (rules.insert (d.row orgId) fun _ => rfl) orgId server =
        some (d.row orgId rules.next) ↔ (d.row orgId rules.next).about server = true := by
  have happend : findRule (rules.insert (d.row orgId) fun _ => rfl) orgId server =
      (findRule rules orgId server).or
        ([d.row orgId rules.next].find? fun r => r.orgId == orgId && r.about server) :=
    List.find?_append
  have horg : ((d.row orgId rules.next).orgId == orgId) = true := beq_self_eq_true orgId
  rw [happend, hnone, Option.none_or, List.find?_singleton, horg, Bool.true_and]
  split_ifs with habout
  · exact iff_of_true rfl habout
  · exact iff_of_false (by simp) habout

theorem updated_of_update {rules : Table Rule} {orgId : Id} {server : Option Json}
    {input : JsonObject} {s : Saved}
    (h : updateChatModeration env rules orgId server input = some s) :
    ∃ current, Updated env rules orgId server input current s := by
  obtain ⟨name, -, hrest⟩ := Option.bind_eq_some_iff.mp h
  obtain ⟨current, hget, hrest⟩ := Option.bind_eq_some_iff.mp hrest
  obtain ⟨settings, hmerged, hrest⟩ := Option.bind_eq_some_iff.mp hrest
  refine ⟨current, ?_⟩
  split at hrest
  · next enabled henabled =>
    dsimp only at hrest
    split at hrest
    · next existing hfound =>
      obtain rfl := Option.some.inj hrest
      exact ⟨hget, hmerged, henabled, rfl, findRule_update hfound _⟩
    · next hfound =>
      obtain rfl := Option.some.inj hrest
      exact ⟨hget, hmerged, henabled, rfl, findRule_insert hfound _⟩
  · cases hrest

end Update

/-- A number that is no NaN is put between the bounds. -/
theorem clamp_spec {most : ℚ} (hmost : 2 ≤ most) {n : JsNumber} (hn : n ≠ .nan) :
    ∃ q : ℚ, clamp most n = .num q ∧ 2 ≤ q ∧ q ≤ most := by
  cases n with
  | nan => exact absurd rfl hn
  | infinity negative =>
    cases negative with
    | true => exact ⟨2, rfl, le_rfl, hmost⟩
    | false => exact ⟨most, rfl, hmost, le_rfl⟩
  | finite q => exact ⟨_, rfl, le_min hmost (le_max_left 2 q), min_le_left most _⟩

section Accepted

variable {env : Env} {rules : Table Rule} {orgId : Id} {server : Option Json}
  {body current : JsonObject} {s : Saved} {legacyAction : Json} {badWordRules : List BadWord}
  {floodAction : Json} {messages window : JsNumber}

/-- A property of the document that is not its own is that of the settings. -/
theorem Updated.lookup_document (h : Updated env rules orgId server body current s) {k : String}
    (htype : k ≠ "type") (hserver : k ≠ "serverInstanceId") :
    s.rule.condition.lookup k = s.settings.lookup k := by
  have hkey : (k == "type") = false := by simpa using htype
  rw [h.document, documentOf, JsonObject.lookup_spread, List.lookup_cons, hkey,
    JsonObject.lookup_prop, if_neg hserver, Option.or_none]

/-- A property of the settings is one that the update fixes, or the request's, or as it was. -/
theorem Merged.lookup (h : Merged env current body s.settings legacyAction badWordRules floodAction
    messages window) (k : String) : s.settings.lookup k =
      (List.lookup k (("floodAction", floodAction) :: ("floodMessages", clamp 30 messages) ::
        ("floodWindowSeconds", clamp 300 window) :: rulesProps badWordRules legacyAction)).or
          ((body.lookup k).or (current.lookup k)) := by
  rw [h.settings, JsonObject.lookup_spread, JsonObject.lookup_spread]

variable (hupdated : Updated env rules orgId (body.lookup "serverInstanceId") body current s)
  (hmerged : Merged env current body s.settings legacyAction badWordRules floodAction messages
    window)

include hupdated hmerged

theorem lookup_floodMessages :
    s.rule.condition.lookup "floodMessages" = some (clamp 30 messages) := by
  rw [hupdated.lookup_document (by decide) (by decide), hmerged.lookup]
  rfl

theorem lookup_floodWindowSeconds :
    s.rule.condition.lookup "floodWindowSeconds" = some (clamp 300 window) := by
  rw [hupdated.lookup_document (by decide) (by decide), hmerged.lookup]
  rfl

/-- The request was a regular one if the document is as it should be and is read back. -/
theorem regular_of_normalized
    (hnormal : Normalized env (body.lookup "serverInstanceId") s.rule.condition)
    (hread : ReadBack env orgId (body.lookup "serverInstanceId") s) :
    Regular env rules orgId body := by
  obtain ⟨hfind, got, hgot, hsame⟩ := hread
  refine ⟨fun v hv => ?_, ?_, fun current' hget k hk hnan => ?_, fun v hv => ?_⟩
  · have htype := hnormal.type
    rw [hupdated.document, documentOf, JsonObject.lookup_spread, hmerged.lookup, hv] at htype
    exact Option.some.inj htype
  · have hserver := (Bool.and_eq_true_iff.mp (hupdated.find.mp hfind)).2
    rwa [hnormal.server] at hserver
  · -- NaN is written as null
    obtain rfl := Option.some.inj (hupdated.get.symm.trans hget)
    simp only [List.mem_cons, List.not_mem_nil, or_false] at hk
    rcases hk with rfl | rfl
    · obtain ⟨q, hq, -⟩ := hnormal.floodMessages
      obtain rfl := Option.some.inj (hmerged.floodMessages.symm.trans hnan)
      rw [lookup_floodMessages hupdated hmerged] at hq
      cases hq
    · obtain ⟨q, hq, -⟩ := hnormal.floodWindowSeconds
      obtain rfl := Option.some.inj (hmerged.floodWindowSeconds.symm.trans hnan)
      rw [lookup_floodWindowSeconds hupdated hmerged] at hq
      cases hq
  · -- only an array is read back
    obtain ⟨items, hitems⟩ := (current_of_get hgot).mutedPlayers
    rw [hsame "mutedPlayers" (by decide) (by decide), hmerged.lookup, hv] at hitems
    exact ⟨items, Option.some.inj hitems⟩

variable (hregular : Regular env rules orgId body)

include hregular

/-- After a regular request, the document is as it should be. -/
theorem normalized_of_regular (hclean : Clean env badWordRules) :
    Normalized env (body.lookup "serverInstanceId") s.rule.condition := by
  have hcurrent := current_of_get hupdated.get
  have hnumbers := hregular.numbers current hupdated.get
  refine ⟨?_, ?_, ?_, ?_, badWordRules, ?_, hclean⟩
  · rw [hupdated.document, documentOf, JsonObject.lookup_spread, hmerged.lookup]
    cases hbody : body.lookup "type" with
    | some v => rw [hregular.type v hbody]; rfl
    | none =>
      cases hold : current.lookup "type" with
      | some v => rw [hcurrent.type v hold]; rfl
      | none => rfl
  · rw [hupdated.document, documentOf, JsonObject.lookup_spread, hmerged.lookup]
    cases hbody : body.lookup "serverInstanceId" with
    | some v => rfl
    | none => rw [hcurrent.server hbody]; rfl
  · obtain ⟨q, hq, hbounds⟩ := @clamp_spec 30 (by norm_num) messages (by
      rintro rfl
      exact hnumbers "floodMessages" (by simp) hmerged.floodMessages)
    exact ⟨q, by rw [lookup_floodMessages hupdated hmerged, hq], hbounds⟩
  · obtain ⟨q, hq, hbounds⟩ := @clamp_spec 300 (by norm_num) window (by
      rintro rfl
      exact hnumbers "floodWindowSeconds" (by simp) hmerged.floodWindowSeconds)
    exact ⟨q, by rw [lookup_floodWindowSeconds hupdated hmerged, hq], hbounds⟩
  · rw [hupdated.lookup_document (by decide) (by decide), hmerged.lookup]
    rfl

/-- The muted players are an array after a regular request. -/
theorem lookup_mutedPlayers : ∃ items, s.settings.lookup "mutedPlayers" = some (.arr items) := by
  cases hbody : body.lookup "mutedPlayers" with
  | some v =>
    obtain ⟨items, rfl⟩ := hregular.mutedPlayers v hbody
    exact ⟨items, by rw [hmerged.lookup, hbody]; rfl⟩
  | none =>
    obtain ⟨items, hold⟩ := (current_of_get hupdated.get).mutedPlayers
    exact ⟨items, by rw [hmerged.lookup, hbody, hold]; rfl⟩

/-- After a regular request, the settings are read back. -/
theorem readBack_of_regular
    (hnormal : Normalized env (body.lookup "serverInstanceId") s.rule.condition)
    (hagain : cleanBadWordRules env (some (.arr (badWordRules.map BadWord.json))) legacyAction =
      some badWordRules) : ReadBack env orgId (body.lookup "serverInstanceId") s := by
  have hrules : s.settings.lookup "badWordRules" =
      some (.arr (badWordRules.map BadWord.json)) := by rw [hmerged.lookup]; rfl
  have hwords : s.settings.lookup "badWords" =
      some (.arr (badWordRules.map fun r => .str r.word)) := by rw [hmerged.lookup]; rfl
  have haction : s.settings.lookup "badWordAction" = some legacyAction := by
    rw [hmerged.lookup]; rfl
  obtain ⟨items, hitems⟩ := lookup_mutedPlayers hupdated hmerged hregular
  have habout : s.rule.about (body.lookup "serverInstanceId") = true := by
    rw [Rule.about, hnormal.type, hnormal.server, hregular.server]
    rfl
  have hfind := hupdated.find.mpr habout
  have hget : getChatModeration env s.rules orgId (body.lookup "serverInstanceId") =
      settingsOf env s.rule := by
    rw [getChatModeration, hfind]
  have hsettings := settingsOf_of_clean hmerged.accepted hagain
    (by rw [hupdated.lookup_document (by decide) (by decide), hrules])
    (by rw [hupdated.lookup_document (by decide) (by decide), haction])
    (by rw [hupdated.lookup_document (by decide) (by decide), hitems])
  refine ⟨hfind, _, hget.trans hsettings, fun k hk hk' => ?_⟩
  rw [JsonObject.lookup_spread, JsonObject.lookup_spread, hupdated.lookup_document hk hk']
  by_cases hown : k ∈ ["enabled", "mutedPlayers", "badWordRules", "badWords", "badWordAction"]
  · simp only [List.mem_cons, List.not_mem_nil, or_false] at hown
    rcases hown with rfl | rfl | rfl | rfl | rfl
    · rw [hupdated.enabled]; rfl
    · rw [hitems]; rfl
    · rw [hrules]; rfl
    · rw [hwords]; rfl
    · rw [haction]; rfl
  · have hnone : List.lookup k (("enabled", Json.bool s.rule.enabled) ::
        ("mutedPlayers", .arr items) :: rulesProps badWordRules legacyAction) = none := by
      rw [List.lookup_eq_none_iff]
      intro p hp
      have hmem : p.1 ∈ ["enabled", "mutedPlayers", "badWordRules", "badWords",
          "badWordAction"] := List.mem_map_of_mem (f := Prod.fst) hp
      simp only [bne_iff_ne, ne_eq]
      rintro rfl
      exact hown hmem
    rw [hnone, Option.none_or]
    cases hset : s.settings.lookup k with
    | some v => rfl
    | none =>
      -- what the settings do not have, the defaults do not have either
      rw [hmerged.lookup, Option.or_eq_none_iff, Option.or_eq_none_iff] at hset
      exact (current_of_get hupdated.get).complete k hset.2.2

end Accepted

/-- An organization with one server. -/
def oneServer : Env := ⟨.western, fun _ => "0", fun _ _ => some "PvE"⟩

/-- A request with two numbers that are out of bounds. -/
def largeNumbers : JsonObject :=
  [("serverInstanceId", .str "pve"), ("enabled", .bool true), ("floodMessages", .num 50),
    ("floodWindowSeconds", .num 1)]

/-- A request with a word for a number. -/
def wordForNumber : JsonObject := [("serverInstanceId", .str "pve"), ("floodMessages", .str "many")]

end Mastermind.Documents
