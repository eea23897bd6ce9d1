import Iotistica.JsNumerals
import Mathlib.Data.Rat.Defs

/-!
# From device entries to readings

An entry holds messages with readings, readings, or one value. Every reading
gets a name, a quality out of five, and an extra payload in which the name of
its device stands as `device_name`. Payloads are read as far as the code looks
at them; a member of another type counts as absent where the code tests its
type.
-/

set_option autoImplicit false

namespace Iotistica.Readings
open Iotistica.JsText Iotistica.JsNumerals

/-- `deviceName` stands for the open members of the payload; the time of
ingestion is in milliseconds. -/
structure ReadingExtra where
  endpoint_uuid : Option String
  device_uuid : Option String
  device_name : Option String
  deviceName : Option String
  ingested_at : ℤ
  deriving DecidableEq

structure ReadingInsert where
  agent_uuid : String
  metric_name : String
  value : Option ℚ
  quality : Option String
  unit : Option String
  protocol : String
  extra : ReadingExtra
  time : ℤ
  anomaly_score : Option ℚ
  anomaly_threshold : Option ℚ
  baseline_samples : Option ℚ
  detectionMethodsJson : Option String
  deriving DecidableEq

structure IdentityFields where
  endpoint_uuid : Option String
  endpointUuid : Option String
  device_uuid : Option String
  deviceUuid : Option String
  asset_uuid : Option String
  deviceName : Option String
  device_name : Option String
  deriving DecidableEq

def noIdentity : IdentityFields := ⟨none,none,none,none,none,none,none⟩

inductive RawQuality where
  | text (s : String)
  | number (q : ℚ)
  | flag (b : Bool)
  /-- Null or undefined. -/
  | absent
  | other
  deriving DecidableEq

inductive Timestamp where
  | text (s : String)
  | millis (q : ℚ)
  deriving DecidableEq

inductive RawValue where
  | number (q : ℚ)
  /-- Null or undefined. -/
  | absent
  | other
  deriving DecidableEq

def RawValue.number? : RawValue → Option ℚ
  | .number q => some q
  | _ => none

structure RawReading where
  identity : IdentityFields
  nodeType : Option String
  metric : Option String
  nodeName : Option String
  name : Option String
  value : RawValue
  rawValue : RawValue
  quality : RawQuality
  unit : Option String
  timestamp : Option Timestamp
  anomaly_score : Option ℚ
  anomaly_threshold : Option ℚ
  baseline_samples : Option ℚ
  detection_methods : Option String
  deriving DecidableEq

/-- `readings` is none where it is not an array; an element is none where it
is null. -/
structure RawMessage where
  identity : IdentityFields
  timestamp : Option Timestamp
  readings : Option (List (Option RawReading))
  deriving DecidableEq

inductive EntryData where
  | messages (identity : IdentityFields) (messages : List (Option RawMessage))
  | readings (identity : IdentityFields) (readings : List (Option RawReading))
  | single (reading : RawReading)
  | null
  /-- A scalar or an array; only a number has a value. -/
  | bare (value : Option ℚ)
  deriving DecidableEq

structure DeviceDataEntry where
  deviceUuid : String
  deviceName : String
  timestamp : Timestamp
  data : EntryData
  metadata : Option IdentityFields
  deriving DecidableEq

def trim (s : String) : String :=
  String.ofList (((s.toList.dropWhile isBlank).reverse.dropWhile isBlank).reverse)

def nonEmpty (s : String) : Option String := if s = "" then none else some s

def isHex (n : ℕ) (s : String) : Bool := decide (s.length = n) && s.toList.all hexDigit

def uuidRegex (s : String) : Bool :=
  match split s '-' with
  | [a,b,c,d,e] =>
    isHex 8 a && isHex 4 b && isHex 4 c && isHex 4 d && isHex 12 e &&
      (c.toList.head?.any (fun x => x ∈ "12345".toList)) &&
      (d.toList.head?.any (fun x => x ∈ "89abAB".toList))
  | _ => false

def pickUuid (value : Option String) : Option String :=
  value.bind (fun v =>
    let trimmed := trim v
    if trimmed = "" ∨ toLowerCase trimmed = "undefined" ∨ toLowerCase trimmed = "null" then none
    else if uuidRegex trimmed then some trimmed else none)

structure DeviceIdentity where
  endpointUuid : Option String
  deviceUuid : Option String
  deviceName : Option String

def extractDeviceIdentity (reading : IdentityFields) : DeviceIdentity where
  endpointUuid := (pickUuid reading.endpoint_uuid).or (pickUuid reading.endpointUuid)
  deviceUuid :=
    ((pickUuid reading.device_uuid).or (pickUuid reading.deviceUuid)).or
      (pickUuid reading.asset_uuid)
  deviceName := (reading.deviceName.or reading.device_name).bind (fun raw => nonEmpty (trim raw))

def EntryData.identity : EntryData → IdentityFields
  | .messages identity _ => identity
  | .readings identity _ => identity
  | .single reading => reading.identity
  | .null => noIdentity
  | .bare _ => noIdentity

def resolveEntryDeviceName (entry : DeviceDataEntry) : String :=
  (((nonEmpty (trim entry.deviceName)).or (extractDeviceIdentity entry.data.identity).deviceName).or
    (entry.metadata.bind (fun m => (extractDeviceIdentity m).deviceName))).getD "unknown"

def statusBits (q : ℚ) : ℤ :=
  (BitVec.ofInt 32 (q.num.tdiv q.den) &&& 0xC0000000#32).toInt

def normalizeQuality : RawQuality → String
  | .text s =>
    let q := trim (toLowerCase s)
    if q ∈ ["good","bad","uncertain","stale","unknown"] then q
    else if includes q "good" ∨ q = "ok" ∨ q = "valid" then "good"
    else if includes q "uncertain" ∨ q = "questionable" then "uncertain"
    else if includes q "stale" ∨ q = "old" ∨ q = "timeout" then "stale"
    else if includes q "bad" ∨ q = "error" ∨ q = "invalid" ∨ q = "fail" then "bad"
    else "unknown"
  | .number q =>
    if q = 0 ∨ q = 1 then "good"
    else if statusBits q = 0 then "good"
    else if statusBits q = 0x40000000 then "uncertain"
    else if statusBits q = 0x80000000 then "bad"
    else if q = 0x40940000 ∨ q = 0x409B0000 then "stale"
    else if 0 < q then "unknown" else "bad"
  | .flag b => if b then "good" else "bad"
  | .absent => "unknown"
  | .other => "unknown"

def buildExtraPayload (payload : Option IdentityFields) (ingestedAt : ℤ)
    (identityContext : Option IdentityFields) : ReadingExtra :=
  let ctxId := identityContext.map extractDeviceIdentity
  let payloadId := payload.map extractDeviceIdentity
  { endpoint_uuid := (payloadId.bind (·.endpointUuid)).or (ctxId.bind (·.endpointUuid))
    device_uuid := (payloadId.bind (·.deviceUuid)).or (ctxId.bind (·.deviceUuid))
    device_name := (payloadId.bind (·.deviceName)).or (ctxId.bind (·.deviceName))
    deviceName := none
    ingested_at := ingestedAt }

/-- `||` on times: the empty text and zero are falsy. -/
def Timestamp.truthy : Option Timestamp → Option Timestamp
  | some (.text s) => if s = "" then none else some (.text s)
  | some (.millis q) => if q = 0 then none else some (.millis q)
  | none => none

section
variable (date : Timestamp → ℤ)

def normalizeReading (reading : RawReading) (entry : DeviceDataEntry) (protocol : String)
    (ingestedAt : ℤ) (messageTimestamp : Option Timestamp)
    (messageContext : Option IdentityFields) : Option ReadingInsert :=
  if reading.nodeType = some "metadata" then none
  else some {
    agent_uuid := entry.deviceUuid
    metric_name := orElse reading.metric (orElse reading.nodeName
      (orElse reading.name (resolveEntryDeviceName entry)))
    value := reading.value.number?
    quality := some (normalizeQuality reading.quality)
    unit := reading.unit.bind nonEmpty
    protocol := protocol
    extra := buildExtraPayload (some reading.identity) ingestedAt messageContext
    time := date (((Timestamp.truthy reading.timestamp).or
      (Timestamp.truthy messageTimestamp)).getD entry.timestamp)
    anomaly_score := reading.anomaly_score
    anomaly_threshold := reading.anomaly_threshold
    baseline_samples := reading.baseline_samples
    detectionMethodsJson := reading.detection_methods }

/-- A null among the readings throws. -/
def normalizeAll (entry : DeviceDataEntry) (protocol : String) (ingestedAt : ℤ)
    (messageTimestamp : Option Timestamp) (messageContext : Option IdentityFields) :
    List (Option RawReading) → Option (List ReadingInsert)
  | [] => some []
  | none::_ => none
  | some reading::rest =>
    (normalizeAll entry protocol ingestedAt messageTimestamp messageContext rest).map
      (fun readings => (normalizeReading date reading entry protocol ingestedAt messageTimestamp
        messageContext).toList++readings)

def expandFormat1 (entry : DeviceDataEntry) (protocol : String) (ingestedAt : ℤ) :
    List (Option RawMessage) → Option (List ReadingInsert)
  | [] => some []
  | none::_ => none
  | some message::rest =>
    match message.readings with
    | none => expandFormat1 entry protocol ingestedAt rest
    | some readings =>
      (normalizeAll date entry protocol ingestedAt message.timestamp (some message.identity)
        readings).bind (fun now =>
          (expandFormat1 entry protocol ingestedAt rest).map (fun later => now++later))

def bareReading (entry : DeviceDataEntry) (protocol : String) (ingestedAt : ℤ)
    (value : Option ℚ) : ReadingInsert where
  agent_uuid := entry.deviceUuid
  metric_name := resolveEntryDeviceName entry
  value := value
  quality := some (normalizeQuality .absent)
  unit := none
  protocol := protocol
  extra := buildExtraPayload (some noIdentity) ingestedAt none
  time := date entry.timestamp
  anomaly_score := none
  anomaly_threshold := none
  baseline_samples := none
  detectionMethodsJson := none

/-- A metadata node that stands alone comes back as a reading of the last
form: the early return leaves it to the code below. -/
def metadataReading (entry : DeviceDataEntry) (protocol : String) (ingestedAt : ℤ)
    (reading : RawReading) : ReadingInsert where
  agent_uuid := entry.deviceUuid
  metric_name := orElse reading.metric (orElse reading.nodeName
    (orElse reading.name (resolveEntryDeviceName entry)))
  value := (if reading.value = .absent then reading.rawValue else reading.value).number?
  quality := some (normalizeQuality reading.quality)
  unit := reading.unit.bind nonEmpty
  protocol := protocol
  extra := buildExtraPayload (some reading.identity) ingestedAt none
  time := date entry.timestamp
  anomaly_score := none
  anomaly_threshold := none
  baseline_samples := none
  detectionMethodsJson := none

def expandMessages (entry : DeviceDataEntry) (protocol : String) (ingestedAt : ℤ) :
    Option (List ReadingInsert) :=
  match entry.data with
  | .messages _ messages => expandFormat1 date entry protocol ingestedAt messages
  | .readings identity readings =>
    normalizeAll date entry protocol ingestedAt none (some identity) readings
  | .single reading =>
    match normalizeReading date reading entry protocol ingestedAt none (some reading.identity) with
    | some normalized => some [normalized]
    | none => some [metadataReading date entry protocol ingestedAt reading]
  | .null => none
  | .bare value => some [bareReading date entry protocol ingestedAt value]

end

/-- The device name is under `device_name` only, and no text is empty. -/
structure Normalized (r : ReadingInsert) : Prop where
  deviceName : r.extra.deviceName = none
  device_name : r.extra.device_name ≠ some ""
  quality : ∃ q, r.quality = some q ∧ q ≠ ""
  unit : r.unit ≠ some ""

theorem nonEmpty_ne (s : String) : nonEmpty s ≠ some "" := by
  unfold nonEmpty
  split
  · simp
  · rename_i h
    simpa using h

theorem bind_nonEmpty_ne (o : Option String) (f : String → String) :
    o.bind (fun s => nonEmpty (f s)) ≠ some "" := by
  cases o with
  | none => simp
  | some s => exact nonEmpty_ne _

theorem deviceName_ne (f : IdentityFields) : (extractDeviceIdentity f).deviceName ≠ some "" :=
  bind_nonEmpty_ne _ trim

theorem buildExtraPayload_device_name (payload : Option IdentityFields) (ingestedAt : ℤ)
    (context : Option IdentityFields) :
    (buildExtraPayload payload ingestedAt context).device_name ≠ some "" := by
  have hid : ∀ o : Option IdentityFields,
      (o.map extractDeviceIdentity).bind (·.deviceName) ≠ some "" := by
    intro o
    cases o with
    | none => simp
    | some f => exact deviceName_ne f
  show ((payload.map extractDeviceIdentity).bind (·.deviceName)).or
    ((context.map extractDeviceIdentity).bind (·.deviceName)) ≠ some ""
  cases hp : (payload.map extractDeviceIdentity).bind (·.deviceName) with
  | none => exact hid context
  | some s =>
    have h := hid payload
    rw [hp] at h
    exact h

theorem normalizeQuality_ne (q : RawQuality) : normalizeQuality q ≠ "" := by
  cases q with
  | text s =>
    unfold normalizeQuality
    simp only
    split_ifs with h
    · intro he
      rw [he] at h
      revert h
      decide
    all_goals decide
  | number q =>
    unfold normalizeQuality
    simp only
    split_ifs <;> decide
  | flag b => cases b <;> decide
  | absent => decide
  | other => decide

section
variable (date : Timestamp → ℤ)

theorem normalizeAll_forall {entry : DeviceDataEntry} {protocol : String} {ingestedAt : ℤ}
    {P : ReadingInsert → Prop}
    (hreading : ∀ reading time context r,
      normalizeReading date reading entry protocol ingestedAt time context = some r → P r)
    {messageTimestamp : Option Timestamp} {context : Option IdentityFields}
    {raw : List (Option RawReading)} {rs : List ReadingInsert}
    (h : normalizeAll date entry protocol ingestedAt messageTimestamp context raw = some rs) :
    ∀ r ∈ rs, P r := by
  induction raw generalizing rs with
  | nil =>
    cases h
    simp
  | cons x raw ih =>
    cases x with
    | none => cases h
    | some reading =>
      obtain ⟨later,hl,rfl⟩ := Option.map_eq_some_iff.mp h
      intro r hr
      rcases List.mem_append.mp hr with hr | hr
      · exact hreading _ _ _ r (Option.mem_toList.mp hr)
      · exact ih hl r hr

theorem expandFormat1_forall {entry : DeviceDataEntry} {protocol : String} {ingestedAt : ℤ}
    {P : ReadingInsert → Prop}
    (hreading : ∀ reading time context r,
      normalizeReading date reading entry protocol ingestedAt time context = some r → P r)
    {messages : List (Option RawMessage)} {rs : List ReadingInsert}
    (h : expandFormat1 date entry protocol ingestedAt messages = some rs) : ∀ r ∈ rs, P r := by
  induction messages generalizing rs with
  | nil =>
    cases h
    simp
  | cons x messages ih =>
    cases x with
    | none => cases h
    | some message =>
      unfold expandFormat1 at h
      split at h
      · exact ih h
      · obtain ⟨now,hn,h⟩ := Option.bind_eq_some_iff.mp h
        obtain ⟨later,hl,rfl⟩ := Option.map_eq_some_iff.mp h
        intro r hr
        rcases List.mem_append.mp hr with hr | hr
        · exact normalizeAll_forall date hreading hn r hr
        · exact ih hl r hr

theorem expandMessages_forall {entry : DeviceDataEntry} {protocol : String} {ingestedAt : ℤ}
    {P : ReadingInsert → Prop}
    (hreading : ∀ reading time context r,
      normalizeReading date reading entry protocol ingestedAt time context = some r → P r)
    (hmetadata : ∀ reading, P (metadataReading date entry protocol ingestedAt reading))
    (hbare : ∀ value, P (bareReading date entry protocol ingestedAt value))
    {rs : List ReadingInsert} (h : expandMessages date entry protocol ingestedAt = some rs) :
    ∀ r ∈ rs, P r := by
  unfold expandMessages at h
  split at h
  · exact expandFormat1_forall date hreading h
  · exact normalizeAll_forall date hreading h
  · split at h
    · rename_i hn
      cases h
      simpa using hreading _ _ _ _ hn
    · cases h
      simpa using hmetadata _
  · cases h
  · cases h
    simpa using hbare _

theorem expandMessages_normalized {entry : DeviceDataEntry} {protocol : String} {ingestedAt : ℤ}
    {rs : List ReadingInsert} (h : expandMessages date entry protocol ingestedAt = some rs) :
    ∀ r ∈ rs, Normalized r := by
  refine expandMessages_forall date ?_ ?_ ?_ h
  · intro reading time context r hr
    unfold normalizeReading at hr
    split at hr
    · cases hr
    · cases hr
      exact ⟨rfl,buildExtraPayload_device_name _ _ _,⟨_,rfl,normalizeQuality_ne _⟩,
        bind_nonEmpty_ne _ id⟩
  · exact fun reading => ⟨rfl,buildExtraPayload_device_name _ _ _,⟨_,rfl,normalizeQuality_ne _⟩,
      bind_nonEmpty_ne _ id⟩
  · exact fun value => ⟨rfl,buildExtraPayload_device_name _ _ _,⟨_,rfl,normalizeQuality_ne _⟩,
      by simp [bareReading]⟩

theorem expandMessages_agent {entry : DeviceDataEntry} {protocol : String} {ingestedAt : ℤ}
    {rs : List ReadingInsert} (h : expandMessages date entry protocol ingestedAt = some rs) :
    ∀ r ∈ rs, r.agent_uuid = entry.deviceUuid := by
  refine expandMessages_forall date ?_ (fun _ => rfl) (fun _ => rfl) h
  intro reading time context r hr
  unfold normalizeReading at hr
  split at hr
  · cases hr
  · cases hr
    rfl

end

end Iotistica.Readings
