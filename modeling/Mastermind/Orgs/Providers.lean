import Mastermind.Platform.Base64
import Mastermind.Platform.Text
import Mastermind.Platform.Utf8

/-!
# The keys of the model providers

An organization stores an API key for each of two providers, encrypted, and selects the provider
that edits its mods. The keys are sealed with AES-GCM and stored as base64 with colons between the
parts (`openai-crypto.ts`).

What the calls of `OrgsService` mean is a record of plain keys: `Represents` relates it to the
stored one, and every call keeps the two together. The key of an edit is the one that was saved last
for the selected provider (`apiKey_after`), but for a key of blanks, which is stored as an empty
text and can never be read. The calls come one after another: what a call reads of the organization
and what it writes are one step.
-/

namespace Mastermind.Orgs.Providers

/-! ## Encryption -/

/-- Some bytes. -/
abbrev Bytes := List UInt8

/-- AES-256-GCM, and `toString('utf8')`. -/
structure Crypto where
  /-- The sealed bytes and their tag, under a key and an initial vector. -/
  cipher : Bytes → Bytes → Bytes → Bytes × Bytes
  /-- What was sealed, from the key, the vector, the tag and the sealed bytes. -/
  decipher : Bytes → Bytes → Bytes → Bytes → Option Bytes
  toText : Bytes → String

/-- What is known of the cipher and of UTF-8. -/
structure Crypto.Lawful (c : Crypto) : Prop where
  decipher_cipher : ∀ key iv plain,
    c.decipher key iv (c.cipher key iv plain).2 (c.cipher key iv plain).1 = some plain
  length_sealed : ∀ key iv plain, (c.cipher key iv plain).1.length = plain.length
  length_tag : ∀ key iv plain, (c.cipher key iv plain).2.length = 16
  toText_encode : ∀ s : String, c.toText (Utf8.encode s.toList) = s

section

variable (c : Crypto) (key : Bytes)

/-- `encryptOpenAiKey`, with the vector that it draws. -/
def encryptOpenAiKey (iv : Bytes) (value : String) : List Char :=
  let (encrypted, tag) := c.cipher key iv (Utf8.encode value.toList)
  [':'].intercalate ["v1".toList, Base64.encode iv, Base64.encode tag, Base64.encode encrypted]

/-- The text of a stored key that has not the parts of one. -/
def notAKey : String := "Stored OpenAI API key is invalid"

/-- `decryptOpenAiKey`. -/
def decryptOpenAiKey (value : List Char) : Except String String :=
  match value.splitOn ':' with
  | version :: iv :: tag :: data :: _ =>
    if version ≠ "v1".toList ∨ iv = [] ∨ tag = [] ∨ data = [] then .error notAKey
    else
      match c.decipher key (Base64.decode iv) (Base64.decode tag) (Base64.decode data) with
      | some plain => .ok (c.toText plain)
      | none => .error "Unsupported state or unable to authenticate data"
  | _ => .error notAKey

variable {c} {key}

/-- **A key is read back**, unless it is empty. -/
theorem decryptOpenAiKey_encrypt (hc : c.Lawful) {iv : Bytes} (hiv : iv ≠ []) (value : String) :
    decryptOpenAiKey c key (encryptOpenAiKey c key iv value) =
      if value = "" then .error notAKey else .ok value := by
  have hparts : ∀ part ∈ ["v1".toList, Base64.encode iv,
      Base64.encode (c.cipher key iv (Utf8.encode value.toList)).2,
      Base64.encode (c.cipher key iv (Utf8.encode value.toList)).1], ':' ∉ part := by
    simp only [List.mem_cons, List.not_mem_nil, or_false, forall_eq_or_imp, forall_eq]
    exact ⟨by decide, Base64.colon_notMem_encode _, Base64.colon_notMem_encode _,
      Base64.colon_notMem_encode _⟩
  have htag : Base64.encode (c.cipher key iv (Utf8.encode value.toList)).2 ≠ [] := by
    intro hempty
    have hlength := hc.length_tag key iv (Utf8.encode value.toList)
    rw [Base64.encode_eq_nil.mp hempty] at hlength
    exact absurd hlength (by decide)
  have hdata : Base64.encode (c.cipher key iv (Utf8.encode value.toList)).1 = [] ↔ value = "" := by
    rw [Base64.encode_eq_nil, ← List.length_eq_zero_iff, hc.length_sealed,
      List.length_eq_zero_iff]
    constructor
    · intro hempty
      have htext := hc.toText_encode value
      rw [hempty] at htext
      rw [← htext]
      exact hc.toText_encode ""
    · rintro rfl
      rfl
  unfold decryptOpenAiKey encryptOpenAiKey
  dsimp only
  rw [List.splitOn_intercalate ':' hparts (by simp)]
  dsimp only
  -- an empty key leaves no sealed bytes, and a part without letters is taken for a missing one
  by_cases hvalue : value = ""
  · rw [if_pos (.inr (.inr (.inr (hdata.mpr hvalue)))), if_pos hvalue]
  · rw [if_neg, if_neg hvalue, Base64.decode_encode, Base64.decode_encode, Base64.decode_encode,
      hc.decipher_cipher]
    · dsimp only
      rw [hc.toText_encode]
    · rintro (hversion | hempty | hempty | hempty)
      · exact hversion rfl
      · exact hiv (Base64.encode_eq_nil.mp hempty)
      · exact htag hempty
      · exact hvalue (hdata.mp hempty)

end

/-! ## The calls -/

/-- `codex` or `kimi`. -/
inductive Provider where
  | codex
  | kimi
  deriving DecidableEq

/-- The settings of an organization, with its keys in some form. -/
structure Settings (K : Type) where
  openaiApiKey : Option K
  openaiModel : String
  kimiApiKey : Option K
  kimiModel : String
  modAiProvider : Provider

/-- The settings of a new organization. -/
def Settings.new {K : Type} : Settings K := ⟨none, "gpt-5.3-codex", none, "kimi-for-coding", .codex⟩

/-- What is saved for a provider. -/
structure Input where
  apiKey : Option String
  model : String

/-- A letter of `[a-zA-Z0-9._-]`. -/
def isModelChar (c : Char) : Bool := c.isAlphanum || c = '.' || c = '_' || c = '-'

/-- A key of the input that is not empty. -/
def Input.given (input : Input) : Option String := input.apiKey.filter (· ≠ "")

section

variable {K : Type} (store : String → K)

/-- What saving has in common: the key and the model afterwards. -/
def save (required invalid : String) (allowed : Char → Bool) (existing : Option K)
    (input : Input) : Except String (Option K × String) :=
  if input.given.isNone ∧ existing.isNone then .error required
  else
    let model := trim input.model
    if model = "" ∨ ¬model.toList.all allowed then .error invalid
    else .ok ((input.given.map fun apiKey => store (trim apiKey)).or existing, model)

/-- `saveOpenAiSettings`. -/
def saveOpenAiSettings (org : Settings K) (input : Input) : Except String (Settings K) := do
  let (apiKey, model) ← save store "OpenAI API key is required" "Invalid OpenAI model name"
    isModelChar org.openaiApiKey input
  return { org with openaiApiKey := apiKey, openaiModel := model }

/-- `saveKimiSettings`. -/
def saveKimiSettings (org : Settings K) (input : Input) : Except String (Settings K) := do
  let (apiKey, model) ← save store "Moonshot API key is required" "Invalid Kimi model name"
    (fun c => isModelChar c || c = '/') org.kimiApiKey input
  return { org with kimiApiKey := apiKey, kimiModel := model }

/-- `clearOpenAiSettings`. -/
def clearOpenAiSettings (org : Settings K) : Settings K := { org with openaiApiKey := none }

/-- `clearKimiSettings`. -/
def clearKimiSettings (org : Settings K) : Settings K :=
  { org with kimiApiKey := none, modAiProvider := .codex }

/-- `selectModAiProvider`. -/
def selectModAiProvider (org : Settings K) (provider : Provider) : Except String (Settings K) :=
  if provider = .codex ∧ org.openaiApiKey.isNone then
    .error "Configure an OpenAI API key before selecting Codex"
  else if provider = .kimi ∧ org.kimiApiKey.isNone then
    .error "Configure a Moonshot API key before selecting Kimi Code"
  else .ok { org with modAiProvider := provider }

/-- The key with which `ModAiService.edit` calls the selected provider. -/
def editKey (load : K → Except String String) (org : Settings K) : Except String String :=
  match org.modAiProvider with
  | .kimi =>
    match org.kimiApiKey with
    | none => .error "Configure a Moonshot API key in Settings or select Codex"
    | some stored => load stored
  | .codex =>
    match org.openaiApiKey with
    | none => .error "Configure an OpenAI API key in Settings or select Kimi Code"
    | some stored => load stored

end

/-- A call, with the vector that it draws if it saves a key. -/
inductive Call where
  | saveOpenAi (input : Input) (iv : Bytes)
  | saveKimi (input : Input) (iv : Bytes)
  | clearOpenAi
  | clearKimi
  | select (provider : Provider)

/-- The settings after a call; a call that fails leaves them. `store` is how a key is stored. -/
def Call.run {K : Type} (store : Bytes → String → K) (org : Settings K) : Call → Settings K
  | saveOpenAi input iv => (saveOpenAiSettings (store iv) org input).toOption.getD org
  | saveKimi input iv => (saveKimiSettings (store iv) org input).toOption.getD org
  | clearOpenAi => clearOpenAiSettings org
  | clearKimi => clearKimiSettings org
  | select provider => (selectModAiProvider org provider).toOption.getD org

/-- The settings of an organization after calls. -/
def after {K : Type} (store : Bytes → String → K) (calls : List Call) : Settings K :=
  calls.foldl (Call.run store) .new

/-- The vector of a call has its twelve bytes. -/
def Call.Drawn : Call → Prop
  | saveOpenAi _ iv => iv.length = 12
  | saveKimi _ iv => iv.length = 12
  | _ => True

/-! ## What the calls mean -/

/-- The plain key, as it is. -/
def plain (_ : Bytes) (apiKey : String) : String := apiKey

/-- The plain key for an edit: one of blanks has been stored as nothing. -/
def loadPlain (apiKey : String) : Except String String :=
  if apiKey = "" then .error notAKey else .ok apiKey

section

variable {c : Crypto} {key : Bytes} {org : Settings (List Char)} {keys : Settings String}
  {calls : List Call}

/-- A stored key is that of a plain one. -/
def Sealed (c : Crypto) (key : Bytes) (stored : List Char) (apiKey : String) : Prop :=
  ∃ iv : Bytes, iv.length = 12 ∧ stored = encryptOpenAiKey c key iv apiKey

/-- The stored settings are those of the plain ones. -/
structure Represents (c : Crypto) (key : Bytes) (org : Settings (List Char))
    (keys : Settings String) : Prop where
  openai : Option.Rel (Sealed c key) org.openaiApiKey keys.openaiApiKey
  kimi : Option.Rel (Sealed c key) org.kimiApiKey keys.kimiApiKey
  openaiModel : org.openaiModel = keys.openaiModel
  kimiModel : org.kimiModel = keys.kimiModel
  provider : org.modAiProvider = keys.modAiProvider

theorem isNone_of_rel {A B : Type} {r : A → B → Prop} {a : Option A} {b : Option B}
    (h : Option.Rel r a b) : a.isNone = b.isNone := by
  cases h <;> rfl

/-- Saving fails for both, or gives both the same. -/
theorem save_cases (required invalid : String) (allowed : Char → Bool) {iv : Bytes}
    (hiv : iv.length = 12) (input : Input) {stored : Option (List Char)} {apiKey : Option String}
    (hkey : Option.Rel (Sealed c key) stored apiKey) :
    (∃ err, save (encryptOpenAiKey c key iv) required invalid allowed stored input = .error err ∧
      save (plain iv) required invalid allowed apiKey input = .error err) ∨
    ∃ stored' apiKey' model,
      save (encryptOpenAiKey c key iv) required invalid allowed stored input =
          .ok (stored', model) ∧
        save (plain iv) required invalid allowed apiKey input = .ok (apiKey', model) ∧
          Option.Rel (Sealed c key) stored' apiKey' := by
  unfold save
  rw [isNone_of_rel hkey]
  dsimp only
  split_ifs
  · exact .inl ⟨_, rfl, rfl⟩
  · exact .inl ⟨_, rfl, rfl⟩
  · refine .inr ⟨_, _, _, rfl, rfl, ?_⟩
    cases input.given with
    | none => exact hkey
    | some given => exact .some ⟨iv, hiv, rfl⟩

/-- A call keeps the stored settings with the plain ones. -/
theorem Represents.run (h : Represents c key org keys) {call : Call} (hcall : call.Drawn) :
    Represents c key (call.run (encryptOpenAiKey c key) org) (call.run plain keys) := by
  cases call with
  | saveOpenAi input iv =>
    dsimp only [Call.run, saveOpenAiSettings]
    rcases save_cases "OpenAI API key is required" "Invalid OpenAI model name" isModelChar hcall
      input h.openai with
      ⟨err, hsave, hplain⟩ | ⟨_, _, _, hsave, hplain, hkey⟩
    · rw [hsave, hplain]
      exact h
    · rw [hsave, hplain]
      exact { h with openai := hkey, openaiModel := rfl }
  | saveKimi input iv =>
    dsimp only [Call.run, saveKimiSettings]
    rcases save_cases "Moonshot API key is required" "Invalid Kimi model name"
      (fun c => isModelChar c || c = '/') hcall input h.kimi with
      ⟨err, hsave, hplain⟩ | ⟨_, _, _, hsave, hplain, hkey⟩
    · rw [hsave, hplain]
      exact h
    · rw [hsave, hplain]
      exact { h with kimi := hkey, kimiModel := rfl }
  | clearOpenAi => exact { h with openai := .none }
  | clearKimi => exact { h with kimi := .none, provider := rfl }
  | select provider =>
    dsimp only [Call.run, selectModAiProvider]
    rw [isNone_of_rel h.openai, isNone_of_rel h.kimi]
    -- both check only whether there are keys
    split_ifs
    · exact h
    · exact h
    · exact { h with provider := rfl }

theorem represents_foldl (hcalls : ∀ call ∈ calls, call.Drawn) (h : Represents c key org keys) :
    Represents c key (calls.foldl (Call.run (encryptOpenAiKey c key)) org)
      (calls.foldl (Call.run plain) keys) := by
  induction calls generalizing org keys with
  | nil => exact h
  | cons call calls ih =>
    exact ih (fun later hlater => hcalls later (List.mem_cons_of_mem _ hlater))
      (h.run (hcalls call List.mem_cons_self))

/-- An edit reads the plain key. -/
theorem Represents.editKey_eq (hc : c.Lawful) (h : Represents c key org keys) :
    editKey (decryptOpenAiKey c key) org = editKey loadPlain keys := by
  have hload : ∀ {stored apiKey}, Sealed c key stored apiKey →
      decryptOpenAiKey c key stored = loadPlain apiKey := by
    rintro stored apiKey ⟨iv, hiv, rfl⟩
    exact decryptOpenAiKey_encrypt hc (List.ne_nil_of_length_pos (by omega)) apiKey
  obtain ⟨openai, openaiModel, kimi, kimiModel, provider⟩ := org
  obtain ⟨openai', openaiModel', kimi', kimiModel', provider'⟩ := keys
  obtain ⟨hopenai, hkimi, -, -, hprovider⟩ := h
  obtain rfl : provider = provider' := hprovider
  cases provider with
  | codex =>
    cases hopenai with
    | some hsealed => exact hload hsealed
    | none => rfl
  | kimi =>
    cases hkimi with
    | some hsealed => exact hload hsealed
    | none => rfl

/-- **An edit has the key that was saved last.** After any calls, the selected provider is called
with the key that the calls, taken as calls on plain keys, have left for it; without one, or with
one of blanks, the edit fails. -/
theorem apiKey_after (hc : c.Lawful) (hcalls : ∀ call ∈ calls, call.Drawn) :
    editKey (decryptOpenAiKey c key) (after (encryptOpenAiKey c key) calls) =
      editKey loadPlain (after plain calls) :=
  (represents_foldl hcalls ⟨.none, .none, rfl, rfl, rfl⟩).editKey_eq hc

/-- A cipher that seals nothing. -/
def openCrypto : Crypto where
  cipher _ _ bytes := (bytes, List.replicate 16 0)
  decipher _ _ _ sealed := some sealed
  toText bytes := String.ofList (Utf8.goText bytes)

theorem openCrypto_lawful : openCrypto.Lawful where
  decipher_cipher _ _ _ := rfl
  length_sealed _ _ _ := rfl
  length_tag _ _ _ := rfl
  toText_encode s := by
    change String.ofList (Utf8.goText (Utf8.encode s.toList)) = s
    rw [Utf8.goText_encode, String.ofList_toList]

/-- A key of OpenAI is saved and replaced, and one of Moonshot is saved and selected. -/
def replaced : List Call :=
  let vector : Bytes := List.replicate 12 7
  [.saveOpenAi ⟨some " old-key ", "gpt-5.3-codex"⟩ vector,
    .saveKimi ⟨some "other-key", "kimi-for-coding"⟩ vector, .select .kimi, .select .codex,
    .saveOpenAi ⟨some "new-key", "gpt-5.3-codex"⟩ vector]

/-- The key that was saved last is used. -/
theorem apiKey_after_replaced :
    editKey (decryptOpenAiKey openCrypto []) (after (encryptOpenAiKey openCrypto []) replaced) =
      .ok "new-key" :=
  (apiKey_after openCrypto_lawful (by simp [replaced, Call.Drawn])).trans (by decide +kernel)

end

end Mastermind.Orgs.Providers
