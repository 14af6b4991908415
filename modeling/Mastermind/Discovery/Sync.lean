import Mastermind.Platform.Json
import Mastermind.Platform.Utf16

/-!
# The sync of discovered servers

The agent of a host reports the game server that it finds there, and
`ServerInstancesService.upsertDiscovered7DtdInstance` writes the report into the instance that it
matches, or into a new one. What a user has set is kept unless the instance is managed by the agent,
which its configuration says, and the configuration is itself merged from the report. So the report
that turns an instance into a managed one keeps what the user has set, and the next one overwrites
it (`next_sync_overwrites`); `sync_stable_iff` says when the second sync with a report changes
nothing.

An instance is a row of `server_instances` of one host and the game, in the order of creation, and
without its time of the last update. `lower` is `toLowerCase`.
-/

namespace Mastermind

namespace Discovery

/-- The id of a record. -/
abbrev Id := ℕ

/-- `model ServerInstance`, for one host and the game. -/
@[ext] structure ServerInstance where
  id : Id
  name : Text
  installPath : Option Text
  startCommand : Option Text
  telnetHost : Option Text
  telnetPort : Option ℤ
  telnetPassword : Option Text
  config : Option Json

/-- The report of an agent. Where it makes a difference, a property may be `null` or missing. An
object has each of its properties once. -/
structure Report where
  name : Option Text
  installPath : Option Text
  startCommand : Option Text
  telnetHost : Option Text
  telnetPort : Option (Option ℤ)
  telnetPassword : Option (Option Text)
  config : Option JsonObject
  config_distinct : ∀ o ∈ config, o.Distinct
  discovery_distinct : ∀ o ∈ config, ∀ d, o.lookup "discovery" = some (.obj d) →
    JsonObject.Distinct d

/-- A host with its instances. -/
@[ext] structure Host where
  name : Text
  instances : List ServerInstance
  nextId : Id
  distinct : instances.Pairwise fun x y => x.id ≠ y.id
  lt_nextId : ∀ x ∈ instances, x.id < nextId

/-- What `upsertDiscovered7DtdInstance` returns. -/
structure Response where
  created : Bool
  serverInstanceId : Id

/-- `s?.trim() || undefined`. -/
def given (s : Option Text) : Option Text := (s.map Text.trim).filter (· ≠ [])

/-- The text is not falsy. -/
def isSet (s : Option Text) : Bool := s.any (· ≠ [])

/-- The properties of a value that is an object and no array, and none of another. -/
def objectOf : Option Json → JsonObject
  | some (.obj o) => o
  | _ => []

/-- `Boolean(v)`. -/
def truthy : Json → Bool
  | .null => false
  | .bool b => b
  | .num n => n ≠ 0
  | .str s => s ≠ ""
  | .arr _ => true
  | .obj _ => true

/-- `isDiscoveredManaged`. -/
def isDiscoveredManaged (config : Option Json) : Bool :=
  ((objectOf ((objectOf config).lookup "discovery")).lookup "managedByAgent").any truthy

/-- `mergeConfig`. -/
def mergeConfig (existing : Option Json) (incoming : Option JsonObject) : JsonObject :=
  let base := objectOf existing
  match incoming with
  | none => base
  | some incoming =>
    (base.spread incoming).spread [("discovery", .obj
      ((objectOf (base.lookup "discovery")).spread (objectOf (incoming.lookup "discovery"))))]

section Sync

variable (lower : Text → Text)

/-- `normalizePath`. -/
def normalizePath (path : Option Text) : Text :=
  lower (((path.getD []).trim.map fun u => if u = 92 then 47 else u).rdropWhile (· = 47))

/-- `findMatchingDiscoveredInstance`. -/
def findMatchingDiscoveredInstance (rows : List ServerInstance) (installPath : Option Text) :
    Option ServerInstance :=
  if installPath = none then none
  else rows.find? fun row => normalizePath lower row.installPath = normalizePath lower installPath

/-- The instance that a report is about: the first one at its path, or the only one. -/
def existing (rows : List ServerInstance) (dto : Report) : Option ServerInstance :=
  (findMatchingDiscoveredInstance lower rows (given dto.installPath)).or
    (match rows with
    | [row] => some row
    | _ => none)

end Sync

/-- A field after an update: overwritten if the instance is managed or the field is free. -/
def settle {α : Type} (managed free : Bool) (value : Option α) (old : α) : α :=
  if managed || free then value.getD old else old

/-- An instance after the update from a report. -/
def ServerInstance.sync (x : ServerInstance) (dto : Report) : ServerInstance :=
  let discoveredManaged := isDiscoveredManaged x.config
  { x with
    installPath := (given dto.installPath).or x.installPath
    startCommand := settle discoveredManaged (!isSet x.startCommand)
      ((given dto.startCommand).map some) x.startCommand
    telnetHost := settle discoveredManaged (!isSet x.telnetHost)
      ((given dto.telnetHost).map some) x.telnetHost
    telnetPort := settle discoveredManaged x.telnetPort.isNone dto.telnetPort x.telnetPort
    telnetPassword := settle discoveredManaged (!isSet x.telnetPassword)
      (dto.telnetPassword.map fun p => p.filter (· ≠ [])) x.telnetPassword
    name := settle discoveredManaged false (given dto.name) x.name
    config := some (.obj (mergeConfig x.config dto.config)) }

/-- The instance that a report creates. -/
def Report.newInstance (dto : Report) (hostName : Text) (id : Id) : ServerInstance where
  id := id
  name := (given dto.name).getD (hostName ++ Text.of " 7DTD")
  installPath := given dto.installPath
  startCommand := given dto.startCommand
  telnetHost := some ((given dto.telnetHost).getD (Text.of "127.0.0.1"))
  telnetPort := some ((dto.telnetPort.getD none).getD 8081)
  telnetPassword := dto.telnetPassword.getD none
  config := some (.obj (mergeConfig none dto.config))

/-- A number does not fit the column of the port. -/
def overflows (port : ℤ) : Bool := port < -2 ^ 31 || 2 ^ 31 ≤ port

/-- The number that the report has for the port does not fit its column. -/
def Report.overflows (dto : Report) : Bool := (dto.telnetPort.getD none).any Discovery.overflows

/-- The update writes the port of the report. -/
def ServerInstance.writesPort (x : ServerInstance) : Bool :=
  isDiscoveredManaged x.config || x.telnetPort.isNone

namespace Host

/-- An instance is replaced by the one with its id. -/
def update (h : Host) (x : ServerInstance) : Host where
  name := h.name
  instances := h.instances.map fun y => if y.id = x.id then x else y
  nextId := h.nextId
  distinct := by
    have hid : ∀ y : ServerInstance, (if y.id = x.id then x else y).id = y.id := by
      intro y
      split_ifs with heq
      · exact heq.symm
      · rfl
    rw [List.pairwise_map]
    exact h.distinct.imp fun hne => by rwa [hid, hid]
  lt_nextId := by
    intro y hy
    obtain ⟨z, hz, rfl⟩ := List.mem_map.mp hy
    split_ifs with heq
    · exact heq ▸ h.lt_nextId z hz
    · exact h.lt_nextId z hz

/-- An instance is added. -/
def create (h : Host) (dto : Report) : Host where
  name := h.name
  instances := h.instances ++ [dto.newInstance h.name h.nextId]
  nextId := h.nextId + 1
  distinct := by
    refine List.pairwise_append.mpr ⟨h.distinct, List.pairwise_singleton _ _, fun x hx y hy => ?_⟩
    obtain rfl := List.mem_singleton.mp hy
    exact (h.lt_nextId x hx).ne
  lt_nextId := by
    intro x hx
    rcases List.mem_append.mp hx with hx | hx
    · exact (h.lt_nextId x hx).trans (Nat.lt_succ_self _)
    · obtain rfl := List.mem_singleton.mp hx
      exact Nat.lt_succ_self _

/-- `upsertDiscovered7DtdInstance`: the host after it, and the response unless the database refuses
the port. -/
def upsertDiscovered7DtdInstance (lower : Text → Text) (h : Host) (dto : Report) :
    Host × Option Response :=
  match existing lower h.instances dto with
  | none =>
    if dto.overflows then (h, none) else (h.create dto, some ⟨true, h.nextId⟩)
  | some x =>
    if x.writesPort && dto.overflows then (h, none)
    else (h.update (x.sync dto), some ⟨false, x.id⟩)

/-- The host after a report. -/
def sync (lower : Text → Text) (h : Host) (dto : Report) : Host :=
  (h.upsertDiscovered7DtdInstance lower dto).1

/-- The host after reports, one after the other. -/
def syncs (lower : Text → Text) (h : Host) (reports : List Report) : Host :=
  reports.foldl (sync lower) h

end Host

/-! ## What a sync should be -/

/-- The second sync with a report changes nothing, and so adds no instance. -/
def Stable (lower : Text → Text) (h : Host) (dto : Report) : Prop :=
  (h.sync lower dto).sync lower dto = h.sync lower dto ∧
    ((h.sync lower dto).sync lower dto).instances.length = (h.sync lower dto).instances.length

/-- An instance that a user has created and no report has made a managed one. -/
def ServerInstance.Manual (x : ServerInstance) : Prop := isDiscoveredManaged x.config = false

/-- An instance has what is set of the name, the start command and the telnet settings of another
one. -/
structure ServerInstance.KeepsOf (y x : ServerInstance) : Prop where
  name : y.name = x.name
  startCommand : isSet x.startCommand = true → y.startCommand = x.startCommand
  telnetHost : isSet x.telnetHost = true → y.telnetHost = x.telnetHost
  telnetPort : x.telnetPort.isSome = true → y.telnetPort = x.telnetPort
  telnetPassword : isSet x.telnetPassword = true → y.telnetPassword = x.telnetPassword

/-- The manual instances of a host are still there with their settings. -/
def KeepsManual (h h' : Host) : Prop :=
  ∀ x ∈ h.instances, x.Manual → ∃ y ∈ h'.instances, y.id = x.id ∧ y.KeepsOf x

/-- A report has another value for something that is set on an instance. -/
def ServerInstance.Differs (x : ServerInstance) (dto : Report) : Prop :=
  (∃ v, given dto.name = some v ∧ v ≠ x.name) ∨
  (isSet x.startCommand = true ∧ ∃ v, given dto.startCommand = some v ∧ some v ≠ x.startCommand) ∨
  (isSet x.telnetHost = true ∧ ∃ v, given dto.telnetHost = some v ∧ some v ≠ x.telnetHost) ∨
  (x.telnetPort.isSome = true ∧ ∃ v, dto.telnetPort = some v ∧ v ≠ x.telnetPort) ∨
  (isSet x.telnetPassword = true ∧
    ∃ v, dto.telnetPassword = some v ∧ v.filter (· ≠ []) ≠ x.telnetPassword)

/-- The report makes a manual instance a managed one. -/
def ServerInstance.Adopts (x : ServerInstance) (dto : Report) : Prop :=
  x.Manual ∧ isDiscoveredManaged (some (.obj (mergeConfig x.config dto.config))) = true

/-- When the second sync with a report changes nothing: its port does not fit, or it does not adopt
an instance from which it differs; and a report that creates an instance can find it again, and
leaves nothing to the defaults that it would itself overwrite. -/
def StableWhen (lower : Text → Text) (h : Host) (dto : Report) : Prop :=
  dto.overflows = true ∨
    match existing lower h.instances dto with
    | some x => ¬(x.Adopts dto ∧ x.Differs dto)
    | none => ((given dto.installPath).isSome = true ∨ h.instances = []) ∧
        dto.telnetPassword ≠ some (some []) ∧
        ¬(dto.telnetPort = some none ∧
          isDiscoveredManaged (some (.obj (mergeConfig none dto.config))) = true)

/-- No report of a run adopts the instance that it is about. -/
def Unadopting (lower : Text → Text) : Host → List Report → Prop
  | _, [] => True
  | h, dto :: reports => (∀ x, existing lower h.instances dto = some x → ¬x.Adopts dto) ∧
      Unadopting lower (h.sync lower dto) reports

/-! ## One instance -/

/-- Merging the same configuration once more changes nothing. -/
theorem mergeConfig_mergeConfig (dto : Report) (config : Option Json) :
    mergeConfig (some (.obj (mergeConfig config dto.config))) dto.config =
      mergeConfig config dto.config := by
  obtain ⟨_, _, _, _, _, _, incoming, hdistinct, hdiscovery⟩ := dto
  dsimp only at hdistinct hdiscovery ⊢
  cases incoming with
  | none => rfl
  | some incoming =>
    have hown : incoming.Distinct := hdistinct incoming rfl
    have hsub : JsonObject.Distinct (objectOf (incoming.lookup "discovery")) := by
      unfold objectOf
      split
      · next o ho => exact hdiscovery incoming rfl o ho
      · exact List.nodup_nil
    simp only [mergeConfig]
    generalize objectOf config = base
    generalize hd : (objectOf (base.lookup "discovery")).spread
      (objectOf (incoming.lookup "discovery")) = discovery
    -- the discovery that is merged the second time is the result of the first
    have hmerged : ((base.spread incoming).spread [("discovery", .obj discovery)]).lookup
        "discovery" = some (.obj discovery) := by
      rw [JsonObject.lookup_spread]
      rfl
    have hsame : discovery.spread (objectOf (incoming.lookup "discovery")) = discovery := by
      rw [← hd]
      exact JsonObject.spread_spread hsub _
    show JsonObject.spread (JsonObject.spread ((base.spread incoming).spread
      [("discovery", .obj discovery)]) incoming) [("discovery", .obj ((objectOf
        (((base.spread incoming).spread [("discovery", .obj discovery)]).lookup "discovery")).spread
          (objectOf (incoming.lookup "discovery"))))] = _
    rw [hmerged]
    show JsonObject.spread (JsonObject.spread ((base.spread incoming).spread
      [("discovery", .obj discovery)]) incoming) [("discovery", .obj (discovery.spread
          (objectOf (incoming.lookup "discovery"))))] = _
    rw [hsame]
    exact JsonObject.spread_spread_one hown base _ _

/-- A field is overwritten by the second update if and only if the instance has become a managed
one, and the field was set to another value. -/
theorem settle_settle {α : Type} (managed managed' : Bool) (free : α → Bool) (value : Option α)
    (old : α) :
    settle managed' (free (settle managed (free old) value old)) value
        (settle managed (free old) value old) = settle managed (free old) value old ↔
      ¬((managed = false ∧ managed' = true) ∧ free old = false ∧ ∃ v, value = some v ∧ v ≠ old) := by
  cases value with
  | none => simp [settle]
  | some v =>
    cases managed <;> cases managed' <;> cases hfree : free old <;> simp [settle, hfree]

theorem ServerInstance.sync_id (x : ServerInstance) (dto : Report) : (x.sync dto).id = x.id := rfl

/-- The second update of an instance changes nothing if and only if the first one does not make it a
managed one that differs from the report. -/
theorem ServerInstance.sync_sync_iff (x : ServerInstance) (dto : Report) :
    (x.sync dto).sync dto = x.sync dto ↔ ¬(x.Adopts dto ∧ x.Differs dto) := by
  have hpath : (given dto.installPath).or ((given dto.installPath).or x.installPath) =
      (given dto.installPath).or x.installPath := by
    cases given dto.installPath <;> rfl
  have hsettle {α : Type} (free : α → Bool) (value : Option α) (old : α) :=
    settle_settle (isDiscoveredManaged x.config)
      (isDiscoveredManaged (some (.obj (mergeConfig x.config dto.config)))) free value old
  have hname := hsettle (fun _ => false) (given dto.name) x.name
  have hcommand := hsettle (fun s => !isSet s) ((given dto.startCommand).map some) x.startCommand
  have hhost := hsettle (fun s => !isSet s) ((given dto.telnetHost).map some) x.telnetHost
  have hport := hsettle Option.isNone dto.telnetPort x.telnetPort
  have hpassword := hsettle (fun s => !isSet s)
    (dto.telnetPassword.map fun p => p.filter (· ≠ [])) x.telnetPassword
  rw [ServerInstance.ext_iff]
  simp only [sync, hpath, mergeConfig_mergeConfig, true_and, and_true]
  rw [hname, hcommand, hhost, hport, hpassword]
  unfold Adopts Differs Manual
  rw [and_or_left, and_or_left, and_or_left, and_or_left, not_or, not_or, not_or, not_or]
  simp only [Option.map_eq_some_iff, Bool.not_eq_false', Option.isNone_eq_false_iff,
    exists_exists_and_eq_and, true_and]

/-! ## The host -/

namespace Host

variable {lower : Text → Text} {h : Host} {dto : Report}

/-- Where the instance that is replaced stands in the list. -/
theorem update_instances {x y : ServerInstance} (hid : y.id = x.id) {above below}
    (hsplit : h.instances = above ++ x :: below) :
    (h.update y).instances = above ++ y :: below := by
  have hdistinct := h.distinct
  rw [hsplit] at hdistinct
  obtain ⟨-, hbelow, habove⟩ := List.pairwise_append.mp hdistinct
  have hkeep : ∀ l : List ServerInstance, (∀ z ∈ l, z.id ≠ x.id) →
      l.map (fun z => if z.id = y.id then y else z) = l := by
    intro l hl
    conv_rhs => rw [← List.map_id l]
    refine List.map_congr_left fun z hz => ?_
    rw [hid, if_neg (hl z hz)]
    rfl
  show h.instances.map _ = _
  rw [hsplit, List.map_append, List.map_cons, if_pos hid.symm,
    hkeep above fun z hz => habove z hz x List.mem_cons_self,
    hkeep below fun z hz => ((List.pairwise_cons.mp hbelow).1 z hz).symm]

/-- The instance that a report is about is one of the host. -/
theorem mem_of_existing {x : ServerInstance} (hx : existing lower h.instances dto = some x) :
    x ∈ h.instances := by
  unfold existing at hx
  rcases Option.or_eq_some_iff.mp hx with hfind | ⟨-, hone⟩
  · unfold findMatchingDiscoveredInstance at hfind
    split_ifs at hfind
    exact List.mem_of_find?_eq_some hfind
  · split at hone
    · next row hrow =>
      obtain rfl := Option.some.inj hone
      rw [hrow]
      exact List.mem_singleton_self _
    · cases hone

/-- After the update the report is about the same instance. -/
theorem existing_update {x : ServerInstance} (hx : existing lower h.instances dto = some x) :
    existing lower (h.update (x.sync dto)).instances dto = some (x.sync dto) := by
  have hid := ServerInstance.sync_id x dto
  unfold existing at hx ⊢
  cases hpath : given dto.installPath with
  | none =>
    rw [hpath] at hx
    have hone : (match h.instances with | [row] => some row | _ => none) = some x := hx
    split at hone
    · next row hrow =>
      obtain rfl := Option.some.inj hone
      rw [update_instances hid (show h.instances = [] ++ row :: [] from hrow)]
      rfl
    · cases hone
  | some path =>
    have hmatch : normalizePath lower (x.sync dto).installPath = normalizePath lower (some path) := by
      show normalizePath lower ((given dto.installPath).or x.installPath) = _
      rw [hpath]
      rfl
    rw [hpath] at hx
    simp only [findMatchingDiscoveredInstance, reduceCtorEq, if_false] at hx ⊢
    rcases Option.or_eq_some_iff.mp hx with hfind | ⟨-, hone⟩
    · obtain ⟨-, above, below, hsplit, habove⟩ := List.find?_eq_some_iff_append.mp hfind
      rw [update_instances hid hsplit, List.find?_append, List.find?_eq_none.mpr ?_]
      · rw [List.find?_cons_of_pos (by simpa using hmatch)]
        rfl
      · intro z hz
        simpa using habove z hz
    · split at hone
      · next row hrow =>
        obtain rfl := Option.some.inj hone
        rw [update_instances hid (show h.instances = [] ++ row :: [] from hrow), List.nil_append,
          List.find?_cons_of_pos (by simpa using hmatch)]
        rfl
      · cases hone

/-- An update with what is there already changes nothing, and no other does. -/
theorem update_eq_self_iff {x y : ServerInstance} (hx : x ∈ h.instances) (hid : y.id = x.id) :
    h.update y = h ↔ y = x := by
  obtain ⟨above, below, hsplit⟩ := List.append_of_mem hx
  have hinstances := update_instances hid hsplit
  constructor
  · intro heq
    rw [heq, hsplit] at hinstances
    exact (List.cons.inj (List.append_cancel_left hinstances)).1.symm
  · rintro rfl
    exact Host.ext rfl (hinstances.trans hsplit.symm) rfl

/-- The host after a report about one of its instances. -/
theorem sync_of_existing {x : ServerInstance} (hx : existing lower h.instances dto = some x) :
    h.sync lower dto =
      if (x.writesPort && dto.overflows) = true then h else h.update (x.sync dto) := by
  unfold sync upsertDiscovered7DtdInstance
  rw [hx]
  dsimp only
  split_ifs <;> rfl

/-- The host after a report about none of its instances. -/
theorem sync_of_new (hnone : existing lower h.instances dto = none) :
    h.sync lower dto = if dto.overflows = true then h else h.create dto := by
  unfold sync upsertDiscovered7DtdInstance
  rw [hnone]
  dsimp only
  split_ifs <;> rfl

/-- The second sync of an instance. -/
theorem sync_update_iff {x : ServerInstance} (hx : existing lower h.instances dto = some x) :
    (h.update (x.sync dto)).sync lower dto = h.update (x.sync dto) ↔
      ((x.sync dto).writesPort && dto.overflows) = true ∨ ¬(x.Adopts dto ∧ x.Differs dto) := by
  have hagain := existing_update hx
  rw [sync_of_existing hagain, ← ServerInstance.sync_sync_iff]
  split_ifs with hrefused
  · simp [hrefused]
  · rw [update_eq_self_iff (mem_of_existing hagain) (ServerInstance.sync_id _ dto)]
    simp [hrefused]

/-- A report about an instance of the host is stable if its port does not fit, or if it does not
adopt an instance from which it differs. -/
theorem sync_existing_iff {x : ServerInstance} (hx : existing lower h.instances dto = some x) :
    (h.sync lower dto).sync lower dto = h.sync lower dto ↔
      dto.overflows = true ∨ ¬(x.Adopts dto ∧ x.Differs dto) := by
  rw [sync_of_existing hx]
  split_ifs with hrefused
  · -- the update is refused, and again
    rw [sync_of_existing hx, if_pos hrefused]
    simp only [Bool.and_eq_true] at hrefused
    exact iff_of_true rfl (.inl hrefused.2)
  · rw [sync_update_iff hx]
    cases hport : dto.overflows with
    | false => simp
    | true =>
      -- the second update is refused if the instance is managed now
      refine iff_of_true ?_ (.inl rfl)
      by_cases hmanaged : isDiscoveredManaged (x.sync dto).config = true
      · exact .inl (by simp [ServerInstance.writesPort, hmanaged])
      · exact .inr fun hadopts => hmanaged hadopts.1.2

/-- An instance that a report has created stays as it is if the report does not overwrite what it
left open. -/
theorem newInstance_sync_iff (hostName : Text) (id : Id) :
    (dto.newInstance hostName id).sync dto = dto.newInstance hostName id ↔
      dto.telnetPassword ≠ some (some []) ∧
        ¬(dto.telnetPort = some none ∧
          isDiscoveredManaged (some (.obj (mergeConfig none dto.config))) = true) := by
  generalize hmanaged : isDiscoveredManaged (some (.obj (mergeConfig none dto.config))) = managed
  have hname : settle managed false (given dto.name)
      ((given dto.name).getD (hostName ++ Text.of " 7DTD")) =
        (given dto.name).getD (hostName ++ Text.of " 7DTD") := by
    cases given dto.name <;> cases managed <;> rfl
  have hpath : (given dto.installPath).or (given dto.installPath) = given dto.installPath := by
    cases given dto.installPath <;> rfl
  have hcommand : settle managed (!isSet (given dto.startCommand))
      ((given dto.startCommand).map some) (given dto.startCommand) = given dto.startCommand := by
    cases given dto.startCommand <;> simp [settle]
  have hhost : ∀ free, settle managed free ((given dto.telnetHost).map some)
      (some ((given dto.telnetHost).getD (Text.of "127.0.0.1"))) =
        some ((given dto.telnetHost).getD (Text.of "127.0.0.1")) := by
    intro free
    cases given dto.telnetHost <;> simp [settle]
  have hport : settle managed false dto.telnetPort (some ((dto.telnetPort.getD none).getD 8081)) =
      some ((dto.telnetPort.getD none).getD 8081) ↔ ¬(dto.telnetPort = some none ∧ managed = true) := by
    rcases dto.telnetPort with _ | _ | port <;> cases managed <;> simp [settle]
  have hpassword : settle managed (!isSet (dto.telnetPassword.getD none))
      (dto.telnetPassword.map fun p => p.filter (· ≠ [])) (dto.telnetPassword.getD none) =
        dto.telnetPassword.getD none ↔ dto.telnetPassword ≠ some (some []) := by
    rcases dto.telnetPassword with _ | _ | _ | ⟨u, us⟩ <;> simp [settle, isSet]
  rw [ServerInstance.ext_iff]
  simp only [ServerInstance.sync, Report.newInstance, hmanaged, Option.isNone_some, hname, hpath,
    hcommand, hhost, hport, hpassword, mergeConfig_mergeConfig, true_and, and_true]
  exact and_comm

/-- A report that creates an instance finds it again if it has a path, or if the instance is the
only one. -/
theorem existing_create (hnone : existing lower h.instances dto = none) :
    existing lower (h.create dto).instances dto =
      if (given dto.installPath).isSome = true ∨ h.instances = [] then
        some (dto.newInstance h.name h.nextId)
      else none := by
  have hinstances : (h.create dto).instances =
      h.instances ++ [dto.newInstance h.name h.nextId] := rfl
  unfold existing at hnone ⊢
  rw [Option.or_eq_none_iff] at hnone
  rw [hinstances]
  cases hpath : given dto.installPath with
  | none =>
    have hfind : ∀ rows, findMatchingDiscoveredInstance lower rows none = none := fun _ => rfl
    rw [hfind]
    cases hrows : h.instances with
    | nil => simp
    | cons row rows => cases rows <;> simp
  | some path =>
    have hmatch : normalizePath lower (dto.newInstance h.name h.nextId).installPath =
        normalizePath lower (some path) := by
      show normalizePath lower (given dto.installPath) = _
      rw [hpath]
    have hfind := hnone.1
    rw [hpath] at hfind
    simp only [findMatchingDiscoveredInstance, reduceCtorEq, if_false] at hfind ⊢
    rw [List.find?_append, hfind, List.find?_cons_of_pos (by simpa using hmatch)]
    simp

/-- A report about none of the instances is stable if its port does not fit, or if it finds the
instance that it creates and does not overwrite what it left open. -/
theorem sync_new_iff (hnone : existing lower h.instances dto = none) :
    (h.sync lower dto).sync lower dto = h.sync lower dto ↔
      dto.overflows = true ∨ ((given dto.installPath).isSome = true ∨ h.instances = []) ∧
        dto.telnetPassword ≠ some (some []) ∧
        ¬(dto.telnetPort = some none ∧
          isDiscoveredManaged (some (.obj (mergeConfig none dto.config))) = true) := by
  rw [sync_of_new hnone]
  split_ifs with hport
  · rw [sync_of_new hnone, if_pos hport]
    exact iff_of_true rfl (.inl hport)
  · have hfits : dto.overflows = false := by simpa using hport
    have hagain := existing_create hnone
    split_ifs at hagain with hfound
    · rw [sync_of_existing hagain, hfits, Bool.and_false, if_neg Bool.false_ne_true,
        update_eq_self_iff (mem_of_existing hagain) (ServerInstance.sync_id _ dto),
        newInstance_sync_iff]
      simp [hfound]
    · rw [sync_of_new hagain, if_neg hport]
      refine iff_of_false (fun heq => ?_) (by simp [hfits, hfound])
      have hlength := congrArg (fun h : Host => h.instances.length) heq
      simp [create] at hlength

end Host

/-- When the second sync with a report changes nothing. -/
theorem stable_iff (lower : Text → Text) (h : Host) (dto : Report) :
    Stable lower h dto ↔ StableWhen lower h dto := by
  have hlength : Stable lower h dto ↔
      (h.sync lower dto).sync lower dto = h.sync lower dto :=
    and_iff_left_of_imp fun heq => by rw [heq]
  unfold StableWhen
  rw [hlength]
  cases hx : existing lower h.instances dto with
  | none => exact Host.sync_new_iff hx
  | some x => exact Host.sync_existing_iff hx

/-! ## Runs -/

theorem ServerInstance.KeepsOf.refl (x : ServerInstance) : x.KeepsOf x :=
  ⟨rfl, fun _ => rfl, fun _ => rfl, fun _ => rfl, fun _ => rfl⟩

theorem ServerInstance.KeepsOf.trans {x y z : ServerInstance} (hzy : z.KeepsOf y)
    (hyx : y.KeepsOf x) : z.KeepsOf x where
  name := hzy.name.trans hyx.name
  startCommand h := (hzy.startCommand ((hyx.startCommand h).symm ▸ h)).trans (hyx.startCommand h)
  telnetHost h := (hzy.telnetHost ((hyx.telnetHost h).symm ▸ h)).trans (hyx.telnetHost h)
  telnetPort h := (hzy.telnetPort ((hyx.telnetPort h).symm ▸ h)).trans (hyx.telnetPort h)
  telnetPassword h :=
    (hzy.telnetPassword ((hyx.telnetPassword h).symm ▸ h)).trans (hyx.telnetPassword h)

/-- An update of a manual instance keeps what is set. -/
theorem ServerInstance.Manual.keepsOf {x : ServerInstance} (hx : x.Manual) (dto : Report) :
    (x.sync dto).KeepsOf x where
  name := by
    show settle (isDiscoveredManaged x.config) false _ _ = _
    rw [show isDiscoveredManaged x.config = false from hx]
    rfl
  startCommand hset := by
    show settle (isDiscoveredManaged x.config) (!isSet x.startCommand) _ _ = _
    rw [show isDiscoveredManaged x.config = false from hx, hset]
    rfl
  telnetHost hset := by
    show settle (isDiscoveredManaged x.config) (!isSet x.telnetHost) _ _ = _
    rw [show isDiscoveredManaged x.config = false from hx, hset]
    rfl
  telnetPort hset := by
    show settle (isDiscoveredManaged x.config) x.telnetPort.isNone _ _ = _
    rw [show isDiscoveredManaged x.config = false from hx, ← Option.not_isSome, hset]
    rfl
  telnetPassword hset := by
    show settle (isDiscoveredManaged x.config) (!isSet x.telnetPassword) _ _ = _
    rw [show isDiscoveredManaged x.config = false from hx, hset]
    rfl

/-- A report that does not adopt its instance leaves the manual instances with their settings, and
manual. -/
theorem Host.sync_keeps {lower : Text → Text} {h : Host} {dto : Report}
    (hadopts : ∀ x, existing lower h.instances dto = some x → ¬x.Adopts dto) {x : ServerInstance}
    (hx : x ∈ h.instances) (hmanual : x.Manual) :
    ∃ y ∈ (h.sync lower dto).instances, y.id = x.id ∧ y.Manual ∧ y.KeepsOf x := by
  have hsame : ∀ h' : Host, x ∈ h'.instances →
      ∃ y ∈ h'.instances, y.id = x.id ∧ y.Manual ∧ y.KeepsOf x :=
    fun h' hx' => ⟨x, hx', rfl, hmanual, .refl x⟩
  cases hexisting : existing lower h.instances dto with
  | none =>
    rw [Host.sync_of_new hexisting]
    split_ifs
    · exact hsame h hx
    · exact hsame _ (List.mem_append_left _ hx)
  | some z =>
    rw [Host.sync_of_existing hexisting]
    split_ifs
    · exact hsame h hx
    · by_cases hid : x.id = (z.sync dto).id
      · -- the report is about the instance
        have hxz : x = z := by
          by_contra hne
          have hsymm : Std.Symm fun a b : ServerInstance => a.id ≠ b.id := ⟨fun _ _ h => h.symm⟩
          exact h.distinct.forall hx (Host.mem_of_existing hexisting) hne hid
        subst hxz
        have hstill : (x.sync dto).Manual := by
          by_contra hmanaged
          exact hadopts x hexisting ⟨hmanual, (Bool.not_eq_false _).mp hmanaged⟩
        refine ⟨x.sync dto, List.mem_map.mpr ⟨x, hx, if_pos rfl⟩, rfl, hstill, hmanual.keepsOf dto⟩
      · exact hsame _ (List.mem_map.mpr ⟨x, hx, if_neg hid⟩)

/-- Reports that adopt no instance leave the manual instances with their settings. -/
theorem Host.syncs_keep {lower : Text → Text} {h : Host} {reports : List Report}
    (hreports : Unadopting lower h reports) {x : ServerInstance} (hx : x ∈ h.instances)
    (hmanual : x.Manual) :
    ∃ y ∈ (h.syncs lower reports).instances, y.id = x.id ∧ y.Manual ∧ y.KeepsOf x := by
  induction reports generalizing h x with
  | nil => exact ⟨x, hx, rfl, hmanual, .refl x⟩
  | cons dto reports ih =>
    obtain ⟨y, hy, hid, hymanual, hkeeps⟩ := Host.sync_keeps hreports.1 hx hmanual
    obtain ⟨z, hz, hid', hzmanual, hkeeps'⟩ := ih hreports.2 hy hymanual
    exact ⟨z, hz, hid'.trans hid, hzmanual, hkeeps'.trans hkeeps⟩

/-- A report is stable exactly when it does not adopt an instance from which it differs, or create
one that it would change again; and reports that adopt no instance leave the manual instances with
their settings. -/
theorem sync_stable_iff (lower : Text → Text) (h : Host) :
    (∀ dto, Stable lower h dto ↔ StableWhen lower h dto) ∧
      ∀ reports, Unadopting lower h reports → KeepsManual h (h.syncs lower reports) := by
  refine ⟨stable_iff lower h, fun reports hreports x hx hmanual => ?_⟩
  obtain ⟨y, hy, hid, -, hkeeps⟩ := Host.syncs_keep hreports hx hmanual
  exact ⟨y, hy, hid, hkeeps⟩

/-- An instance that a user has created with a start command. -/
def manualHost : Host where
  name := Text.of "box"
  instances := [⟨0, Text.of "mine", some (Text.of "/srv"), some (Text.of "./mine"), none, none, none,
    none⟩]
  nextId := 1
  distinct := List.pairwise_singleton _ _
  lt_nextId := by simp

/-- The report of a server with another start command, which says whether the agent manages it. -/
def otherCommand (managed : Bool) : Report where
  name := none
  installPath := some (Text.of "/srv")
  startCommand := some (Text.of "./theirs")
  telnetHost := none
  telnetPort := none
  telnetPassword := none
  config := some [("discovery", .obj [("managedByAgent", .bool managed)])]
  config_distinct := by simp [JsonObject.Distinct]
  discovery_distinct := by
    rintro o ho d hd
    obtain rfl := Option.mem_some.mp ho
    obtain rfl : [("managedByAgent", Json.bool managed)] = d := by simpa using hd
    exact List.nodup_singleton _

/-- A report that does not claim the instance is stable, one that does is not, and when the first one
is synced twice, the start command stays. -/
theorem sync_stable_iff_claims :
    Stable id manualHost (otherCommand false) ∧ ¬Stable id manualHost (otherCommand true) ∧
      KeepsManual manualHost (manualHost.syncs id [otherCommand false, otherCommand false]) := by
  have hnever : ∀ x : ServerInstance, ¬x.Adopts (otherCommand false) := by
    rintro x ⟨-, hmanaged⟩
    simp [isDiscoveredManaged, mergeConfig, objectOf, otherCommand, JsonObject.lookup_spread,
      truthy] at hmanaged
  have hadopts : ∀ x ∈ manualHost.instances, x.Adopts (otherCommand true) ∧
      x.Differs (otherCommand true) := by
    refine List.forall_mem_singleton.mpr ⟨⟨rfl, ?_⟩, .inr (.inl ⟨rfl, Text.of "./theirs", rfl, ?_⟩)⟩
    · simp [isDiscoveredManaged, mergeConfig, objectOf, otherCommand, JsonObject.lookup_spread,
        truthy]
    · decide
  obtain ⟨hstable, hkeeps⟩ := sync_stable_iff id manualHost
  have hexisting : ∀ managed, existing id manualHost.instances (otherCommand managed) =
      manualHost.instances.head? := fun _ => rfl
  refine ⟨(hstable _).mpr (.inr ?_), fun hclaimed => ?_,
    hkeeps _ ⟨fun x _ => hnever x, fun x _ => hnever x, trivial⟩⟩
  · rw [hexisting]
    exact fun h => hnever _ h.1
  · rcases (hstable _).mp hclaimed with hover | hwhen
    · cases hover
    · rw [hexisting] at hwhen
      exact hwhen (hadopts _ List.mem_cons_self)

/-- The first report with another start command makes the instance a managed one, and the second
one overwrites the start command. -/
theorem next_sync_overwrites : ¬∀ (lower : Text → Text) (h : Host),
    (∀ dto, Stable lower h dto) ∧ ∀ reports, KeepsManual h (h.syncs lower reports) := by
  intro hall
  obtain ⟨y, hy, -, hkeeps⟩ := (hall id manualHost).2 [otherCommand true, otherCommand true] _
    (List.mem_singleton_self _) rfl
  have hcommands : (manualHost.syncs id [otherCommand true, otherCommand true]).instances.map
      (·.startCommand) = [some (Text.of "./theirs")] := by
    decide +kernel
  have hcommand : y.startCommand = some (Text.of "./theirs") := by
    have := List.mem_map_of_mem (f := ServerInstance.startCommand) hy
    rw [hcommands] at this
    exact List.mem_singleton.mp this
  exact absurd (hcommand.symm.trans (hkeeps.startCommand rfl)) (by decide)

end Discovery

end Mastermind
