import Iotistica.DockerNames

/-!
# Creation of networks

A compose definition becomes the agent's own network, that the options
Docker creates it from, and what Docker tells of it later is read back and
compared with the wanted network. Docker is taken to tell what it was given,
with addresses of its own when none were requested and no driver for a
network that only holds a configuration.
-/

set_option autoImplicit false

namespace Iotistica.DockerNetworks
open Iotistica Iotistica.JsText Iotistica.JsNumerals Iotistica.DockerNames

abbrev StringMap := OrderedMap String String

/-- An address range. The compose file spells the last two `ip_range` and
`aux_addresses`, Docker writes all four in capitals. -/
structure IpamEntry where
  subnet : Option String := none
  gateway : Option String := none
  ipRange : Option String := none
  auxAddress : Option StringMap := none
  deriving DecidableEq

structure PartialIpam where
  driver : Option String := none
  config : Option (List IpamEntry) := none
  options : Option StringMap := none
  deriving DecidableEq

structure ComposeNetworkConfig where
  driver : Option String := none
  driver_opts : Option StringMap := none
  enable_ipv6 : Option Bool := none
  internal : Option Bool := none
  ipam : Option PartialIpam := none
  labels : Option StringMap := none
  config_only : Option Bool := none
  deriving DecidableEq

structure Ipam where
  driver : String
  config : List IpamEntry
  options : StringMap
  deriving DecidableEq

/-- The driver is `null` for a network read back from Docker without one. -/
structure NetworkConfig where
  driver : Option String
  ipam : Ipam
  enableIPv6 : Bool
  internal : Bool
  labels : StringMap
  options : StringMap
  configOnly : Bool
  deriving DecidableEq

structure Network where
  appId : ℤ
  appUuid : Option String
  name : String
  config : NetworkConfig
  deriving DecidableEq

structure NetworkCreateOptions where
  name : String
  driver : Option String
  checkDuplicate : Bool
  options : StringMap
  ipam : Ipam
  enableIPv6 : Bool
  internal : Bool
  labels : StringMap
  configOnly : Bool

structure NetworkInspectInfo where
  name : String
  driver : Option String
  enableIPv6 : Bool
  ipam : Option PartialIpam
  internal : Bool
  options : Option StringMap
  labels : Option StringMap
  configOnly : Bool

inductive NetworkError
  | notFound
  | invalidNetworkName (name : String)
  | internalInconsistency (message : String)
  | resourceRecreationAttempt (resourceType resourceName : String)
  deriving DecidableEq

/-- `deepEqual` on two maps: as many keys, and each key of the first with the
same value in the second. -/
def sameEntries (a b : StringMap) : Bool :=
  decide (a.size = b.size) && a.entries.all (fun e => decide (b.get? e.1 = some e.2))

theorem sameEntries_iff (a b : StringMap) :
    sameEntries a b = true ↔ ∀ k, a.get? k = b.get? k := by
  constructor
  · intro h k
    simp only [sameEntries, Bool.and_eq_true, decide_eq_true_eq, List.all_eq_true] at h
    have hsub : a.keys ⊆ b.keys := by
      intro j hj
      obtain ⟨e,he,rfl⟩ := List.mem_map.mp hj
      have hb := (OrderedMap.get?_eq_some_iff b e.1 e.2).mp (h.2 e he)
      exact List.mem_map_of_mem (f := Prod.fst) hb
    -- as many keys and all of them there: the second map has no other key
    have hperm : a.keys.Perm b.keys := by
      apply (List.subperm_of_subset a.nodup hsub).perm_of_length_le
      have hsize := h.1
      rw [OrderedMap.size_eq, OrderedMap.size_eq] at hsize
      exact hsize.ge
    cases ha : a.get? k with
    | some v => exact (h.2 (k,v) ((OrderedMap.get?_eq_some_iff a k v).mp ha)).symm
    | none =>
      cases hb : b.get? k with
      | none => rfl
      | some v =>
        have hk : k ∈ b.keys :=
          List.mem_map_of_mem (f := Prod.fst) ((OrderedMap.get?_eq_some_iff b k v).mp hb)
        exact absurd (hperm.mem_iff.mpr hk) (OrderedMap.not_mem_keys_of_get? ha)
  · intro h
    have hmem : ∀ {m m' : StringMap}, (∀ k, m.get? k = m'.get? k) → m.keys ⊆ m'.keys := by
      intro m m' hm j hj
      obtain ⟨e,he,rfl⟩ := List.mem_map.mp hj
      have hm' := hm e.1
      rw [OrderedMap.get?_of_mem he] at hm'
      exact List.mem_map_of_mem (f := Prod.fst)
        ((OrderedMap.get?_eq_some_iff m' e.1 e.2).mp hm'.symm)
    have hle := OrderedMap.size_le_of_keys_subset (hmem h)
    have hge := OrderedMap.size_le_of_keys_subset (hmem (fun k => (h k).symm))
    simp only [sameEntries, Bool.and_eq_true, decide_eq_true_eq, List.all_eq_true]
    exact ⟨by omega,fun e he => by rw [← h e.1, OrderedMap.get?_of_mem he]⟩

theorem sameEntries_self (a : StringMap) : sameEntries a a = true :=
  (sameEntries_iff a a).mpr (fun _ => rfl)

def managedLabel : String := "iotistic.managed"
def appIdLabel : String := "iotistic.app-id"
def ipamLabel : String := "iotistic.ipam.config"

/-- `...(text && { key: text })`. -/
def truthy (text : Option String) : Option String := text.filter (fun s => decide (s ≠ ""))

def present (conf : IpamEntry) : IpamEntry where
  subnet := truthy conf.subnet
  gateway := truthy conf.gateway
  ipRange := truthy conf.ipRange
  auxAddress := conf.auxAddress

theorem truthy_truthy (text : Option String) : truthy (truthy text) = truthy text := by
  cases text with
  | none => rfl
  | some s => by_cases hs : s = "" <;> simp [truthy, hs]

theorem present_present (conf : IpamEntry) : present (present conf) = present conf := by
  simp [present, truthy_truthy]

def requestedIpam (network : ComposeNetworkConfig) : List IpamEntry :=
  (network.ipam.bind PartialIpam.config).getD []

def composeLabels (network : ComposeNetworkConfig) : StringMap :=
  network.labels.getD OrderedMap.empty

def fromComposeObject (name : String) (appId : ℕ) (appUuid : String)
    (network : ComposeNetworkConfig) : Network :=
  let config := (requestedIpam network).map present
  let labels :=
    (OrderedMap.empty.set appIdLabel appId.repr).assignAll (composeLabels network).entries
  { appId := appId
    appUuid := some appUuid
    name := name
    config := {
      driver := some (orElse network.driver "bridge")
      ipam := {
        driver := (network.ipam.bind PartialIpam.driver).getD "default"
        config := config
        options := (network.ipam.bind PartialIpam.options).getD OrderedMap.empty }
      enableIPv6 := network.enable_ipv6.getD false
      internal := network.internal.getD false
      labels := if config.length > 0 then labels.set ipamLabel "true" else labels
      options := network.driver_opts.getD OrderedMap.empty
      configOnly := network.config_only.getD false } }

/-- `Object.assign` onto a plain object: a text under `__proto__` goes to the
setter of that name, which ignores it. -/
def mergeObjects (target source : StringMap) : StringMap :=
  target.assignAll (source.delete "__proto__").entries

/-- The name of a network without a uuid starts with `undefined`. -/
def dockerName (network : Network) : String :=
  generateDockerName (network.appUuid.getD "undefined") network.name

def toDockerConfig (network : Network) : NetworkCreateOptions where
  name := dockerName network
  driver := network.config.driver
  checkDuplicate := true
  options := network.config.options
  ipam := { network.config.ipam with config := network.config.ipam.config.map present }
  enableIPv6 := network.config.enableIPv6
  internal := network.config.internal
  labels := mergeObjects (OrderedMap.empty.set managedLabel "true") network.config.labels
  configOnly := network.config.configOnly

/-- `parseInt` with radix ten. -/
def parseDecimal (s : String) : Option ℤ :=
  match s.toList.dropWhile isBlank with
  | '-'::cs => (readDecimal cs).map (fun n => -(n : ℤ))
  | '+'::cs => (readDecimal cs).map (fun n => (n : ℤ))
  | cs => (readDecimal cs).map (fun n => (n : ℤ))

structure DockerName where
  name : String
  appId : Option ℤ
  appUuid : Option String

/-- `appId` is the id from the label. When there is one, digits before the
`_` are the uuid. -/
def deconstructDockerName (name : String) (appId : Option ℤ) : Option DockerName :=
  let digits := name.toList.takeWhile Char.isDigit
  match (if digits.isEmpty then none else capturedName (name.toList.dropWhile Char.isDigit)) with
  | some captured =>
    match appId with
    | some id => some ⟨captured,some id,some (String.ofList digits)⟩
    | none => some ⟨captured,some (Nat.ofDigitChars 10 digits 0),none⟩
  | none =>
    let uuid := name.toList.takeWhile isUuidChar
    match (if uuid.length < 32 then none
      else capturedName (name.toList.dropWhile isUuidChar)) with
    | some captured => some ⟨captured,none,some (String.ofList uuid)⟩
    | none => none

def readConfig (network : NetworkInspectInfo) : NetworkConfig where
  driver := network.driver
  ipam := {
    driver := (network.ipam.bind PartialIpam.driver).getD "default"
    config := ((network.ipam.bind PartialIpam.config).getD []).map present
    options := (network.ipam.bind PartialIpam.options).getD OrderedMap.empty }
  enableIPv6 := network.enableIPv6
  internal := network.internal
  labels := (network.labels.getD OrderedMap.empty).delete managedLabel
  options := network.options.getD OrderedMap.empty
  configOnly := network.configOnly

def fromDockerNetwork (network : NetworkInspectInfo) : Except NetworkError Network :=
  let labels := network.labels.getD OrderedMap.empty
  let labelled := (labels.get? appIdLabel).bind parseDecimal
  match deconstructDockerName network.name labelled with
  | none => .error (.invalidNetworkName network.name)
  | some found =>
    -- an id that is missing is as falsy as 0
    if found.appId.getD 0 = 0 ∧ labelled = none then
      .error (.internalInconsistency ("Could not read app id from network: "++network.name))
    else .ok {
      appId := (found.appId <|> labelled).getD 0
      appUuid := found.appUuid
      name := found.name
      config := readConfig network }

def sameAddresses : Option StringMap → Option StringMap → Bool
  | none, none => true
  | some a, some b => sameEntries a b
  | _, _ => false

def sameEntry (a b : IpamEntry) : Bool :=
  decide (a.subnet = b.subnet) && decide (a.gateway = b.gateway) &&
    decide (a.ipRange = b.ipRange) && sameAddresses a.auxAddress b.auxAddress

def sameConfig : List IpamEntry → List IpamEntry → Bool
  | [], [] => true
  | a::as, b::bs => sameEntry a b && sameConfig as bs
  | _, _ => false

def deepEqual (a b : NetworkConfig) : Bool :=
  decide (a.driver = b.driver) && decide (a.ipam.driver = b.ipam.driver) &&
    sameConfig a.ipam.config b.ipam.config && sameEntries a.ipam.options b.ipam.options &&
    decide (a.enableIPv6 = b.enableIPv6) && decide (a.internal = b.internal) &&
    sameEntries a.labels b.labels && sameEntries a.options b.options &&
    decide (a.configOnly = b.configOnly)

/-- The second `structuredClone` starts from the network's own configuration
again. -/
def isEqualConfig (this network : Network) : Bool :=
  let configToCompare := if network.config.ipam.config.length = 0
    then { this.config with ipam := { this.config.ipam with config := [] } } else this.config
  let configToCompare := if network.config.configOnly
    then { this.config with driver := network.config.driver } else configToCompare
  deepEqual configToCompare network.config

abbrev Docker := List NetworkInspectInfo

/-- What Docker tells of a network it created; `generated` are the addresses
it would choose. -/
def inspected (generated : List IpamEntry) (o : NetworkCreateOptions) : NetworkInspectInfo where
  name := o.name
  driver := if o.configOnly then none else o.driver
  enableIPv6 := o.enableIPv6
  ipam := some ⟨some o.ipam.driver,
    some (if o.ipam.config = [] then generated else o.ipam.config),some o.ipam.options⟩
  internal := o.internal
  options := some o.options
  labels := some o.labels
  configOnly := o.configOnly

def createNetwork (generated : List IpamEntry) (docker : Docker) (o : NetworkCreateOptions) :
    Docker :=
  docker++[inspected generated o]

def get (docker : Docker) (dockerName : String) : Except NetworkError Network :=
  match docker.find? (fun n => n.name = dockerName) with
  | none => .error .notFound
  | some dockerNet => fromDockerNetwork dockerNet

def create (generated : List IpamEntry) (docker : Docker) (network : Network) :
    Except NetworkError Docker :=
  match get docker (dockerName network) with
  | .ok existing =>
    if isEqualConfig network existing then .ok docker
    else .error (.resourceRecreationAttempt "network" network.name)
  | .error .notFound => .ok (createNetwork generated docker (toDockerConfig network))
  | .error e => .error e

structure AppUuid where
  text : String
  wellFormed : (text ≠ "" ∧ ∀ c ∈ text.toList, c.isDigit = true) ∨
    (32 ≤ text.toList.length ∧ ∀ c ∈ text.toList, isUuidChar c = true)

theorem AppUuid.isUuidChar_of_mem (uuid : AppUuid) {c : Char} (hc : c ∈ uuid.text.toList) :
    isUuidChar c = true := by
  rcases uuid.wellFormed with h | h
  · exact isUuidChar_of_isDigit (h.2 c hc)
  · exact h.2 c hc

def Numeric (text : String) : Prop := ∀ c ∈ text.toList, c.isDigit = true

instance (text : String) : Decidable (Numeric text) :=
  decidable_of_iff (text.toList.all Char.isDigit = true) List.all_eq_true

theorem AppUuid.ne_empty (uuid : AppUuid) : uuid.text.toList ≠ [] := by
  rcases uuid.wellFormed with h | h
  · exact fun he => h.1 (String.toList_eq_nil_iff.mp he)
  · intro he
    simp [he] at h

theorem generateDockerName_span (p : Char → Bool) (hu : p '_' = false) {owner : String}
    (howner : ∀ c ∈ owner.toList, p c = true) (name : String) :
    (generateDockerName owner name).toList.takeWhile p = owner.toList ∧
      (generateDockerName owner name).toList.dropWhile p = '_'::name.toList := by
  have hl : (generateDockerName owner name).toList = owner.toList++ '_' :: name.toList := by
    simp [generateDockerName]
  rw [hl, List.takeWhile_append_of_pos howner, List.dropWhile_append_of_pos howner]
  simp [hu]

theorem capturedName_of_not_numeric (uuid : AppUuid) (h : ¬Numeric uuid.text) (name : String) :
    capturedName ((generateDockerName uuid.text name).toList.dropWhile Char.isDigit) = none := by
  have hl : (generateDockerName uuid.text name).toList = uuid.text.toList++ '_' :: name.toList := by
    simp [generateDockerName]
  have hne : uuid.text.toList.dropWhile Char.isDigit ≠ [] := by
    intro hnil
    exact h (List.dropWhile_eq_nil_iff.mp hnil)
  rw [hl, List.dropWhile_append, if_neg (by simpa using hne)]
  cases hd : uuid.text.toList.dropWhile Char.isDigit with
  | nil => exact absurd hd hne
  | cons c cs =>
    have hmem : c ∈ uuid.text.toList := by
      apply List.dropWhile_subset Char.isDigit
      rw [hd]
      exact List.mem_cons_self
    have hc : c ≠ '_' := by
      intro he
      have huuid := uuid.isUuidChar_of_mem hmem
      rw [he] at huuid
      exact absurd huuid (by decide)
    simp [capturedName, hc]

theorem deconstruct_generated (uuid : AppUuid) (name : String) (labelled : Option ℤ) :
    deconstructDockerName (generateDockerName uuid.text name) labelled =
      (capturedName ('_'::name.toList)).map (fun captured =>
        if Numeric uuid.text then
          match labelled with
          | some id => ⟨captured,some id,some uuid.text⟩
          | none => ⟨captured,some (Nat.ofDigitChars 10 uuid.text.toList 0),none⟩
        else ⟨captured,none,some uuid.text⟩) := by
  have huuid := generateDockerName_span isUuidChar (by decide)
    (fun c hc => uuid.isUuidChar_of_mem hc) name
  unfold deconstructDockerName
  by_cases hnum : Numeric uuid.text
  · have hdigits := generateDockerName_span Char.isDigit (by decide) hnum name
    have hne : uuid.text.toList.isEmpty = false := by simpa using uuid.ne_empty
    simp only [hdigits.1, hdigits.2, huuid.1, huuid.2, hne, hnum, if_true]
    cases hc : capturedName ('_'::name.toList) with
    | none => simp
    | some captured => cases labelled <;> simp
  · have hlen : ¬uuid.text.toList.length < 32 := by
      rcases uuid.wellFormed with h | h
      · exact absurd h.2 hnum
      · omega
    simp only [capturedName_of_not_numeric uuid hnum, huuid.1, huuid.2, hlen, ite_self, if_false,
      hnum]
    cases hc : capturedName ('_'::name.toList) with
    | none => simp
    | some captured => simp

def Plain (name : String) : Prop := name ≠ "" ∧ ∀ c ∈ name.toList, isBlank c = false

instance (name : String) : Decidable (Plain name) :=
  decidable_of_iff (name ≠ "" ∧ name.toList.all (fun c => !isBlank c) = true)
    (by simp [Plain])

theorem capturedName_eq_iff (name : String) :
    capturedName ('_'::name.toList) = some name ↔ Plain name := by
  have htake : name.toList.takeWhile (fun c => !isBlank c) = name.toList ↔
      ∀ c ∈ name.toList, isBlank c = false := by
    rw [List.takeWhile_eq_self_iff]
    simp
  unfold capturedName Plain
  simp only
  constructor
  · intro h
    split at h
    · cases h
    · rename_i hne
      have hcs := congrArg String.toList (Option.some.inj h)
      rw [String.toList_ofList] at hcs
      refine ⟨?_,htake.mp hcs⟩
      intro he
      rw [he] at hne
      exact hne rfl
  · rintro ⟨hne,hall⟩
    have hlist : name.toList.isEmpty = false := by
      simpa [String.toList_eq_nil_iff] using hne
    rw [htake.mpr hall, hlist, if_neg (by decide), String.ofList_toList]

theorem get?_mergeObjects (target source : StringMap) (k : String) :
    (mergeObjects target source).get? k =
      if k = "__proto__" then target.get? k else (source.get? k <|> target.get? k) := by
  unfold mergeObjects
  rw [OrderedMap.get?_assignAll _ _ (source.delete "__proto__").nodup]
  show ((source.delete "__proto__").get? k <|> target.get? k) = _
  rw [OrderedMap.get?_delete]
  split
  · rfl
  · rfl

theorem get?_empty_set (k v j : String) :
    ((OrderedMap.empty : StringMap).set k v).get? j = if j = k then some v else none := by
  rw [OrderedMap.get?_set]
  rfl

/-- The labels come back unless one of them is the label that is taken away
again or the name that is not assigned. -/
theorem labels_same_iff (labels : StringMap) :
    sameEntries labels ((mergeObjects (OrderedMap.empty.set managedLabel "true") labels).delete
        managedLabel) = true ↔
      labels.get? managedLabel = none ∧ labels.get? "__proto__" = none := by
  have hget : ∀ k, ((mergeObjects (OrderedMap.empty.set managedLabel "true") labels).delete
      managedLabel).get? k =
        if k = managedLabel ∨ k = "__proto__" then none else labels.get? k := by
    intro k
    rw [OrderedMap.get?_delete, get?_mergeObjects, get?_empty_set]
    by_cases hm : k = managedLabel
    · simp [hm]
    · by_cases hp : k = "__proto__"
      · simp [hp]
      · cases labels.get? k <;> simp [hm, hp]
  rw [sameEntries_iff]
  constructor
  · intro h
    have hm := h managedLabel
    have hp := h "__proto__"
    rw [hget] at hm hp
    exact ⟨by simpa using hm,by simpa using hp⟩
  · rintro ⟨hm,hp⟩ k
    rw [hget]
    split
    · rename_i hk
      rcases hk with rfl | rfl
      · exact hm
      · exact hp
    · rfl

theorem sameEntry_self (a : IpamEntry) : sameEntry a a = true := by
  unfold sameEntry sameAddresses
  cases a.auxAddress with
  | none => simp
  | some m => simp [sameEntries_self]

theorem sameConfig_self (config : List IpamEntry) : sameConfig config config = true := by
  induction config with
  | nil => rfl
  | cons a config ih => simp [sameConfig, sameEntry_self, ih]

/-- The addresses come back unless none were requested and Docker chose
some. -/
theorem ipam_same_iff (generated requested : List IpamEntry) :
    sameConfig (requested.map present)
        ((if (requested.map present).map present = [] then generated
          else (requested.map present).map present).map present) = true ↔
      requested ≠ [] ∨ generated = [] := by
  have hid : (requested.map present).map present = requested.map present := by
    rw [List.map_map]
    apply List.map_congr_left
    intro conf _
    exact present_present conf
  rw [hid]
  cases requested with
  | nil =>
    cases generated with
    | nil => simp [sameConfig]
    | cons a rest => simp [sameConfig]
  | cons a rest =>
    rw [if_neg (by simp), hid]
    simp [sameConfig_self]

/-- Of what Docker tells, only the addresses and the labels can differ from
the network it was created from. -/
theorem isEqualConfig_created (generated : List IpamEntry) {this found : Network}
    (h : found.config = readConfig (inspected generated (toDockerConfig this))) :
    isEqualConfig this found =
      (sameConfig this.config.ipam.config found.config.ipam.config &&
        sameEntries this.config.labels found.config.labels) := by
  have hdriver : found.config.driver =
      if this.config.configOnly then none else this.config.driver := by rw [h]; rfl
  have hipamDriver : found.config.ipam.driver = this.config.ipam.driver := by rw [h]; rfl
  have hipamOptions : found.config.ipam.options = this.config.ipam.options := by rw [h]; rfl
  have henable : found.config.enableIPv6 = this.config.enableIPv6 := by rw [h]; rfl
  have hinternal : found.config.internal = this.config.internal := by rw [h]; rfl
  have hoptions : found.config.options = this.config.options := by rw [h]; rfl
  have honly : found.config.configOnly = this.config.configOnly := by rw [h]; rfl
  -- no addresses are told of a network with requested ones only
  have hempty : found.config.ipam.config.length = 0 → this.config.ipam.config = [] := by
    intro hlen
    have hconfig : found.config.ipam.config =
        (if this.config.ipam.config.map present = [] then generated
          else this.config.ipam.config.map present).map present := by rw [h]; rfl
    rw [hconfig, List.length_map] at hlen
    split at hlen
    · rename_i hnil
      exact List.map_eq_nil_iff.mp hnil
    · simpa using hlen
  unfold isEqualConfig deepEqual
  cases hc : this.config.configOnly with
  | true =>
    simp [hipamDriver, hipamOptions, henable, hinternal, hoptions, honly, hc, sameEntries_self]
  | false =>
    by_cases hlen : found.config.ipam.config.length = 0
    · simp [hdriver, hipamDriver, hipamOptions, henable, hinternal, hoptions, honly, hc, hlen,
        hempty hlen, sameEntries_self]
    · simp [hdriver, hipamDriver, hipamOptions, henable, hinternal, hoptions, honly, hc, hlen,
        sameEntries_self]

section Created
variable (generated : List IpamEntry) (name : String) (appId : ℕ) (uuid : AppUuid)
  (network : ComposeNetworkConfig)

def wanted : Network := fromComposeObject name appId uuid.text network

def createdNetwork : NetworkInspectInfo :=
  inspected generated (toDockerConfig (wanted name appId uuid network))

theorem wanted_label (k : String) (hk : k ≠ ipamLabel) :
    (wanted name appId uuid network).config.labels.get? k =
      ((composeLabels network).get? k <|> if k = appIdLabel then some appId.repr else none) := by
  have hbase : ((OrderedMap.empty.set appIdLabel appId.repr).assignAll
      (composeLabels network).entries).get? k =
        ((composeLabels network).get? k <|> if k = appIdLabel then some appId.repr else none) := by
    rw [OrderedMap.get?_assignAll _ _ (composeLabels network).nodup, get?_empty_set]
    rfl
  unfold wanted fromComposeObject
  simp only
  split
  · rw [OrderedMap.get?_set, if_neg hk, hbase]
  · exact hbase

theorem wanted_other (k : String) (hk : k ≠ ipamLabel) (ha : k ≠ appIdLabel) :
    (wanted name appId uuid network).config.labels.get? k = (composeLabels network).get? k := by
  rw [wanted_label _ _ _ _ _ hk, if_neg ha]
  cases (composeLabels network).get? k <;> rfl

theorem created_name : (createdNetwork generated name appId uuid network).name =
    generateDockerName uuid.text name := rfl

/-- The text the app id is read from: the definition's own label, or the one
the agent adds. -/
def appIdText : String := ((composeLabels network).get? appIdLabel).getD appId.repr

theorem created_label : ((createdNetwork generated name appId uuid network).labels.getD
    OrderedMap.empty).get? appIdLabel = some (appIdText appId network) := by
  show (mergeObjects _ (wanted name appId uuid network).config.labels).get? appIdLabel = _
  rw [get?_mergeObjects, if_neg (by decide), wanted_label _ _ _ _ _ (by decide), if_pos rfl,
    appIdText]
  cases (composeLabels network).get? appIdLabel <;> rfl

/-- The id read back is the app's own. Where the label is no number, the
digits in front of the name are taken for the id. -/
def OwnAppId : Prop :=
  match parseDecimal (appIdText appId network) with
  | some id => id = (appId : ℤ)
  | none => Numeric uuid.text ∧ appId ≠ 0 ∧ Nat.ofDigitChars 10 uuid.text.toList 0 = appId

instance : Decidable (OwnAppId appId uuid network) := by
  unfold OwnAppId
  split <;> infer_instance

theorem read_back_iff {info : NetworkInspectInfo}
    (hname : info.name = generateDockerName uuid.text name)
    (hlabel : (info.labels.getD OrderedMap.empty).get? appIdLabel =
      some (appIdText appId network)) :
    (∃ found, fromDockerNetwork info = .ok found ∧ found.name = name ∧ found.appId = appId) ↔
      Plain name ∧ OwnAppId appId uuid network := by
  unfold fromDockerNetwork
  simp only [hlabel, hname, Option.bind_some, deconstruct_generated]
  cases hc : capturedName ('_'::name.toList) with
  | none =>
    have hplain : ¬Plain name := by
      rw [← capturedName_eq_iff, hc]
      exact Option.some_ne_none name ∘ Eq.symm
    simp [hplain]
  | some captured =>
    have hplain : Plain name ↔ captured = name := by
      rw [← capturedName_eq_iff, hc, Option.some.injEq]
    rw [hplain]
    unfold OwnAppId
    cases hl : parseDecimal (appIdText appId network) with
    | some id => by_cases hnum : Numeric uuid.text <;> simp [hnum]
    | none =>
      by_cases hnum : Numeric uuid.text
      · by_cases hzero : Nat.ofDigitChars 10 uuid.text.toList 0 = 0
        · have hne : ¬(appId ≠ 0 ∧ Nat.ofDigitChars 10 uuid.text.toList 0 = appId) := by
            rintro ⟨hpos,heq⟩
            exact hpos (by rw [← heq, hzero])
          simp [hnum, hzero]
          omega
        · simp [hnum, hzero]
          omega
      · simp [hnum]

theorem config_of_read {info : NetworkInspectInfo} {found : Network}
    (h : fromDockerNetwork info = .ok found) : found.config = readConfig info := by
  unfold fromDockerNetwork at h
  simp only at h
  split at h
  · cases h
  · split at h
    · cases h
    · injection h with h
      rw [← h]

def OwnLabels : Prop :=
  (composeLabels network).get? managedLabel = none ∧
    (composeLabels network).get? "__proto__" = none

instance : Decidable (OwnLabels network) := by
  unfold OwnLabels
  infer_instance

/-- No label of the definition is lost on the way, and addresses were
requested or Docker has none to add. -/
theorem equal_created_iff {found : Network}
    (h : fromDockerNetwork (createdNetwork generated name appId uuid network) = .ok found) :
    isEqualConfig (wanted name appId uuid network) found = true ↔
      OwnLabels network ∧ (requestedIpam network ≠ [] ∨ generated = []) := by
  have hlabels := labels_same_iff (wanted name appId uuid network).config.labels
  rw [wanted_other _ _ _ _ _ (by decide) (by decide),
    wanted_other _ _ _ _ _ (by decide) (by decide)] at hlabels
  have hipam := ipam_same_iff generated (requestedIpam network)
  rw [isEqualConfig_created generated (config_of_read h), config_of_read h, Bool.and_eq_true,
    and_comm]
  exact and_congr hlabels hipam

def Idempotent (docker : Docker) (wanted : Network) : Prop :=
  ∃ docker', create generated docker wanted = .ok docker' ∧
    (∃ found, get docker' (dockerName wanted) = .ok found ∧
      found.name = wanted.name ∧ found.appId = wanted.appId) ∧
    create generated docker' wanted = .ok docker'

/-- A plain name, an app id that can be read back, labels that come back, and
addresses that were requested. -/
structure ComesBack : Prop where
  plain : Plain name
  appId : OwnAppId appId uuid network
  labels : OwnLabels network
  ipam : requestedIpam network ≠ [] ∨ generated = []

theorem get_created {docker : Docker} {wanted : Network}
    (hfree : ∀ n ∈ docker, n.name ≠ dockerName wanted) :
    get (createNetwork generated docker (toDockerConfig wanted)) (dockerName wanted) =
      fromDockerNetwork (inspected generated (toDockerConfig wanted)) := by
  have hnone : docker.find? (fun n => n.name = dockerName wanted) = none := by
    rw [List.find?_eq_none]
    simpa using hfree
  have hname : (inspected generated (toDockerConfig wanted)).name = dockerName wanted := rfl
  unfold get createNetwork
  rw [List.find?_append, hnone]
  simp [hname]

theorem create_free {docker : Docker} {wanted : Network}
    (hfree : ∀ n ∈ docker, n.name ≠ dockerName wanted) :
    create generated docker wanted =
      .ok (createNetwork generated docker (toDockerConfig wanted)) := by
  have hnone : docker.find? (fun n => n.name = dockerName wanted) = none := by
    rw [List.find?_eq_none]
    simpa using hfree
  unfold create get
  rw [hnone]

theorem createNetwork_ne (docker : Docker) (o : NetworkCreateOptions) :
    createNetwork generated docker o ≠ docker := by
  simp [createNetwork]

/-- The second creation leaves Docker alone just when the network is found
equal. -/
theorem create_again_iff {docker : Docker} {wanted : Network} :
    create generated docker wanted = .ok docker ↔
      ∃ found, get docker (dockerName wanted) = .ok found ∧ isEqualConfig wanted found = true := by
  unfold create
  cases hg : get docker (dockerName wanted) with
  | ok found => by_cases he : isEqualConfig wanted found = true <;> simp [he]
  | error e => cases e <;> simp [createNetwork_ne]

theorem create_idempotent_iff (docker : Docker)
    (hfree : ∀ n ∈ docker, n.name ≠ generateDockerName uuid.text name) :
    Idempotent generated docker (fromComposeObject name appId uuid.text network) ↔
      ComesBack generated name appId uuid network := by
  have hget : get (createNetwork generated docker
      (toDockerConfig (wanted name appId uuid network))) (dockerName (wanted name appId uuid
        network)) = fromDockerNetwork (createdNetwork generated name appId uuid network) :=
    get_created generated hfree
  have hread := read_back_iff name appId uuid network
    (created_name generated name appId uuid network)
    (created_label generated name appId uuid network)
  constructor
  · rintro ⟨docker',hcreate,⟨found,hfound,hname,hid⟩,hagain⟩
    rw [create_free generated hfree] at hcreate
    obtain rfl := Except.ok.inj hcreate
    have hback : fromDockerNetwork (createdNetwork generated name appId uuid network) =
        .ok found := hget.symm.trans hfound
    obtain ⟨found',hfound',hequal⟩ := (create_again_iff generated).mp hagain
    obtain rfl : found = found' := Except.ok.inj (hfound.symm.trans hfound')
    have hown := hread.mp ⟨found,hback,hname,hid⟩
    have hsame := (equal_created_iff generated name appId uuid network hback).mp hequal
    exact ⟨hown.1,hown.2,hsame.1,hsame.2⟩
  · intro h
    obtain ⟨found,hback,hname,hid⟩ := hread.mpr ⟨h.plain,h.appId⟩
    have hequal := (equal_created_iff generated name appId uuid network hback).mpr
      ⟨h.labels,h.ipam⟩
    exact ⟨_,create_free generated hfree,⟨found,hget.trans hback,hname,hid⟩,
      (create_again_iff generated).mpr ⟨found,hget.trans hback,hequal⟩⟩

end Created

def shopUuid : AppUuid where
  text := "6fc5bb36d2c54ddcb4a9b0d90e1b0b9a"
  wellFormed := Or.inr ⟨by decide,List.all_eq_true.mp (by decide)⟩

def dockerBridge : IpamEntry where
  subnet := some "172.18.0.0/16"
  gateway := some "172.18.0.1"

theorem network_with_subnet :
    Idempotent [dockerBridge] []
      (fromComposeObject "back" 7 shopUuid.text
        { ipam := some { config := some [{ subnet := some "10.1.0.0/24",
                                           gateway := some "10.1.0.1" }] } }) := by
  apply (create_idempotent_iff [dockerBridge] "back" 7 shopUuid _ [] (by simp)).mpr
  exact ⟨by decide +kernel,by decide +kernel,by decide +kernel,by decide +kernel⟩

/-- A network without any options, the usual case: Docker chose its
addresses, and the second creation is refused. -/
theorem plain_network_rejected :
    create [dockerBridge] (createNetwork [dockerBridge] []
        (toDockerConfig (fromComposeObject "back" 7 shopUuid.text {})))
      (fromComposeObject "back" 7 shopUuid.text {}) =
        .error (.resourceRecreationAttempt "network" "back") ∧
      ¬Idempotent [dockerBridge] [] (fromComposeObject "back" 7 shopUuid.text {}) := by
  have hrejected : create [dockerBridge] (createNetwork [dockerBridge] []
        (toDockerConfig (fromComposeObject "back" 7 shopUuid.text {})))
      (fromComposeObject "back" 7 shopUuid.text {}) =
        .error (.resourceRecreationAttempt "network" "back") := by rfl
  refine ⟨hrejected,?_⟩
  rintro ⟨docker',hcreate,-,hagain⟩
  rw [create_free [dockerBridge] (by simp)] at hcreate
  obtain rfl := Except.ok.inj hcreate
  rw [hrejected] at hagain
  cases hagain

end Iotistica.DockerNetworks
