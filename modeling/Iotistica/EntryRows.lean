import Iotistica.CopyReadings
import Iotistica.ReadingsNormalizer
import Mathlib.Algebra.Field.Rat
import Mathlib.Algebra.Order.Field.Rat

/-!
# From any entry to rows

Entries, messages and readings are any JSON values here. What is read of a
null throws, what is read of another scalar or of an array is undefined. A
date is made of whatever the timestamp is; an object whose own `toString`
hides the inherited one cannot become a text and throws. A log line about a
metadata node or a malformed entry shortens the uuid of the device, which
throws too if it is no string.
-/

set_option autoImplicit false

namespace Iotistica.EntryRows
open Iotistica.JsonText Iotistica.CopyReadings
open Iotistica.Readings (IdentityFields extractDeviceIdentity RawQuality normalizeQuality nonEmpty trim)

/-- A member of a value, or undefined; reading one of null throws. -/
def property (v : Value) (key : String) : Option (Option Value) :=
  match v with
  | .null => none
  | v => some (member v key)

def ofValue : Value → Field
  | .null => .null
  | .bool b => .bool b
  | .num d => .number (.finite d)
  | .str s => .string s
  | .arr items => .object (.arr items)
  | .obj members => .object (.obj members)

def ofMember : Option Value → Field
  | none => .undefined
  | some v => ofValue v

def stringMember (v : Value) (key : String) : Option String :=
  match member v key with
  | some (.str s) => some s
  | _ => none

/-- The operator `||` on values. -/
def firstTruthy : List (Option Value) → Option Value
  | [] => none
  | some v::rest => if truthy v then some v else firstTruthy rest
  | none::rest => firstTruthy rest

mutual
/-- The text of a value; none where the conversion throws. -/
def toText : Value → Option String
  | .null => some "null"
  | .bool b => some (if b then "true" else "false")
  | .num d => some (String.ofList (numberText d))
  | .str s => some s
  | .arr items => (itemTexts items).map (fun texts => ",".intercalate texts)
  | .obj members => if (members.lookup "toString").isSome then none else some "[object Object]"

def itemTexts : List Value → Option (List String)
  | [] => some []
  | .null::rest => (itemTexts rest).map (fun texts => ""::texts)
  | v::rest => (toText v).bind (fun text => (itemTexts rest).map (fun texts => text::texts))
end

def fieldString : Field → Option String
  | .undefined => some "undefined"
  | .null => some "null"
  | .number n => some (String.ofList (numberString n))
  | .bool b => some (if b then "true" else "false")
  | .string s => some s
  | .date none => some "Invalid Date"
  | .date (some d) => some (String.ofList (toISOString d))
  | .object v => toText v

def timeClip (d : Decimal) : Option DateValue :=
  let size := if 0 ≤ d.exponent then d.mantissa*10^d.exponent.toNat
    else d.mantissa/10^(-d.exponent).toNat
  if h : size ≤ 8640000000000000 then
    some ⟨if d.negative then -(size : ℤ) else size,by split <;> omega⟩
  else none

/-- The argument of `new Date`; none where its conversion throws. -/
def newDate (parse : String → Option DateValue) : Field → Option (Option DateValue)
  | .undefined => some none
  | .null => some (timeClip Decimal.zero)
  | .number (.finite d) => some (timeClip d)
  | .number _ => some none
  | .bool b => some (timeClip (if b then Decimal.ofNat 1 (by decide) else Decimal.zero))
  | .string s => some (parse s)
  | .date d => some d
  | .object v => (toText v).map parse

def identityOf (v : Value) : IdentityFields where
  endpoint_uuid := stringMember v "endpoint_uuid"
  endpointUuid := stringMember v "endpointUuid"
  device_uuid := stringMember v "device_uuid"
  deviceUuid := stringMember v "deviceUuid"
  asset_uuid := stringMember v "asset_uuid"
  deviceName := stringMember v "deviceName"
  device_name := stringMember v "device_name"

def deviceNameOf (v : Option Value) : Option String :=
  v.bind (fun x => (extractDeviceIdentity (identityOf x)).deviceName)

def resolveEntryDeviceName (entry : Value) : String :=
  ((((stringMember entry "deviceName").bind (fun s => nonEmpty (trim s))).or
    (deviceNameOf (member entry "data"))).or (deviceNameOf (member entry "metadata"))).getD "unknown"

def nullable (s : Option String) : Value :=
  match s with
  | none => .null
  | some s => .str s

/-- A falsy payload has no members to read. -/
def buildExtraPayload (payload : Option Value) (ingestedAt : DateValue)
    (identityContext : Option Value) : Value :=
  let ctxId := identityContext.map (fun v => extractDeviceIdentity (identityOf v))
  let payloadId := payload.map (fun v => extractDeviceIdentity (identityOf v))
  .obj [
    ("endpoint_uuid",nullable ((payloadId.bind (·.endpointUuid)).or (ctxId.bind (·.endpointUuid)))),
    ("device_uuid",nullable ((payloadId.bind (·.deviceUuid)).or (ctxId.bind (·.deviceUuid)))),
    ("device_name",nullable ((payloadId.bind (·.deviceName)).or (ctxId.bind (·.deviceName)))),
    ("ingested_at",.str (String.ofList (toISOString ingestedAt)))]

def KNOWN_PROTOCOLS : List String := ["modbus","opcua","snmp","can","mqtt","bacnet","system"]

def normalizeProtocolCandidate (v : Option Value) : Option String :=
  match v with
  | some (.str s) =>
    (nonEmpty (trim s)).bind (fun t =>
      let normalized := JsText.toLowerCase t
      if normalized ∈ KNOWN_PROTOCOLS then some normalized else none)
  | _ => none

mutual
def extractProtocolFromPayload : Value → Option String
  | .obj members =>
    (normalizeProtocolCandidate (members.lookup "protocol")).or
      ((protocolUnder "messages" members).or (protocolUnder "readings" members))
  | _ => none

def protocolUnder (key : String) : List (String × Value) → Option String
  | [] => none
  | (name,v)::rest => if key = name then protocolAmong v else protocolUnder key rest

def protocolAmong : Value → Option String
  | .arr items => firstProtocol items
  | _ => none

def firstProtocol : List Value → Option String
  | [] => none
  | v::rest => (extractProtocolFromPayload v).or (firstProtocol rest)
end

def detectProtocol (entry : Value) : Option String :=
  (property entry "metadata").map (fun metadata =>
    let name := JsText.toLowerCase (resolveEntryDeviceName entry)
    ((normalizeProtocolCandidate (metadata.bind (fun m => member m "protocol"))).or
      ((member entry "data").bind extractProtocolFromPayload)).getD
      (if name = "modbus" ∨ JsText.startsWith name "modbus_" then "modbus"
      else if name = "opcua" ∨ JsText.startsWith name "opcua_" then "opcua"
      else if name = "snmp" ∨ JsText.startsWith name "snmp_" then "snmp"
      else if name = "can" ∨ JsText.startsWith name "can_" then "can"
      else "mqtt"))

def decimalRat (d : Decimal) : ℚ :=
  (if d.negative then -1 else 1)*d.mantissa*(10 : ℚ)^d.exponent

def rawQuality : Option Value → RawQuality
  | some (.str s) => .text s
  | some (.num d) => .number (decimalRat d)
  | some (.bool b) => .flag b
  | some .null => .absent
  | none => .absent
  | some _ => .other

/-- A member that is no number counts as `absent`. -/
def numberMember (v : Value) (key : String) (absent : Field) : Field :=
  match member v key with
  | some (.num d) => .number (.finite d)
  | _ => absent

def shortId (entry : Value) : Option Unit :=
  match member entry "deviceUuid" with
  | none => some ()
  | some .null => some ()
  | some (.str _) => some ()
  | some _ => none

def metricName (reading : Value) (resolvedDeviceName : String) : Field :=
  match firstTruthy [member reading "metric",member reading "nodeName",member reading "name"] with
  | some v => ofValue v
  | none => .string resolvedDeviceName

def unitOf (reading : Value) : Field :=
  match firstTruthy [member reading "unit"] with
  | some v => ofValue v
  | none => .null

/-- The last two members of `extractAnomalyFields`. -/
def detectionMethods (reading : Value) : Option Value := firstTruthy [member reading "detection_methods"]

/-- The first truthy timestamp, or that of the entry as it is. -/
def usedTimestamp (reading entry : Value) (messageTimestamp : Option Value) : Option Value :=
  (firstTruthy [member reading "timestamp",messageTimestamp]).or (member entry "timestamp")

def isMetadata (reading : Value) : Bool :=
  match member reading "nodeType" with
  | some (.str s) => s = "metadata"
  | _ => false

section
variable (parse : String → Option DateValue)

/-- What the row of a reading is; a reading with a date that throws has none. -/
def readingRow (reading entry : Value) (protocol : String) (ingestedAt : DateValue)
    (messageTimestamp messageContext : Option Value) : Option ReadingInsert :=
  let extra := buildExtraPayload (some reading) ingestedAt messageContext
  (newDate parse (ofMember (usedTimestamp reading entry messageTimestamp))).map (fun time =>
    { agent_uuid := ofMember (member entry "deviceUuid")
      metric_name := metricName reading (resolveEntryDeviceName entry)
      value := numberMember reading "value" .null
      quality := .string (normalizeQuality (rawQuality (member reading "quality")))
      unit := unitOf reading
      protocol := .string protocol
      extra := .object extra
      extraJson := .string (stringify extra)
      time := .date time
      anomaly_score := numberMember reading "anomaly_score" .undefined
      anomaly_threshold := numberMember reading "anomaly_threshold" .undefined
      baseline_samples := numberMember reading "baseline_samples" .undefined
      detection_methods := ofMember (detectionMethods reading)
      detectionMethodsJson := ofMember ((detectionMethods reading).map (fun v => .str (stringify v))) })

/-- None where it throws; a metadata node has no row. -/
def normalizeReading (reading entry : Value) (protocol : String) (ingestedAt : DateValue)
    (messageTimestamp messageContext : Option Value) : Option (Option ReadingInsert) :=
  (property reading "nodeType").bind (fun _ =>
    if isMetadata reading then (shortId entry).map (fun _ => none)
    else (readingRow parse reading entry protocol ingestedAt messageTimestamp messageContext).map some)

/-- The rows of readings one after another; the first that throws ends it. -/
def normalizeAll (entry : Value) (protocol : String) (ingestedAt : DateValue)
    (messageTimestamp messageContext : Option Value) : List Value → Option (List ReadingInsert)
  | [] => some []
  | reading::rest =>
    (normalizeReading parse reading entry protocol ingestedAt messageTimestamp messageContext).bind
      (fun row => (normalizeAll entry protocol ingestedAt messageTimestamp messageContext rest).map
        (fun rows => row.toList++rows))

def expandFormat1 (entry : Value) (protocol : String) (ingestedAt : DateValue) :
    List Value → Option (List ReadingInsert)
  | [] => some []
  | message::rest =>
    (property message "readings").bind (fun readings =>
      (match readings with
        | some (.arr items) =>
          normalizeAll parse entry protocol ingestedAt (member message "timestamp") (some message) items
        | _ => some []).bind
      (fun rows => (expandFormat1 entry protocol ingestedAt rest).map (fun later => rows++later)))

def expandFormat2 (entry : Value) (protocol : String) (ingestedAt : DateValue) (data : Value)
    (readings : List Value) : Option (List ReadingInsert) :=
  normalizeAll parse entry protocol ingestedAt none (some data) readings

/-- The operator `??` on two members, with null at last. -/
def firstDefined (a b : Option Value) : Value :=
  match a, b with
  | some .null, some v => v
  | none, some v => v
  | some v, _ => v
  | none, none => .null

def onlyNumber (v : Option Value) : Field :=
  match v with
  | some (.num d) => .number (.finite d)
  | _ => .null

/-- The value of data that is no object is the data itself; that of null
throws. -/
def bareValue : Option Value → Option Field
  | some .null => none
  | some (.obj members) =>
    some (onlyNumber (some (firstDefined (members.lookup "value") (members.lookup "rawValue"))))
  | some (.arr _) => some .null
  | v => some (onlyNumber v)

def bareRow (entry : Value) (protocol : String) (ingestedAt : DateValue) (data : Option Value) :
    Option ReadingInsert :=
  let extra := buildExtraPayload data ingestedAt none
  (bareValue data).bind (fun value =>
    (newDate parse (ofMember (member entry "timestamp"))).map (fun time =>
      { agent_uuid := ofMember (member entry "deviceUuid")
        metric_name := metricName (data.getD .null) (resolveEntryDeviceName entry)
        value := value
        quality := .string (normalizeQuality (rawQuality (data.bind (fun v => member v "quality"))))
        unit := unitOf (data.getD .null)
        protocol := .string protocol
        extra := .object extra
        extraJson := .string (stringify extra)
        time := .date time
        anomaly_score := .undefined
        anomaly_threshold := .undefined
        baseline_samples := .undefined
        detection_methods := .undefined
        detectionMethodsJson := .undefined }))

def expandFormat3 (entry : Value) (protocol : String) (ingestedAt : DateValue) (data : Option Value) :
    Option (List ReadingInsert) :=
  (match data with
    | some (.obj members) =>
      normalizeReading parse (.obj members) entry protocol ingestedAt none (some (.obj members))
    | _ => some none).bind
  (fun normalized =>
    match normalized with
    | some row => some [row]
    | none => (bareRow parse entry protocol ingestedAt data).map (fun row => [row]))

def expandMessages (entry : Value) (protocol : String) (ingestedAt : DateValue) :
    Option (List ReadingInsert) :=
  (property entry "data").bind (fun data =>
    match data.bind (fun v => member v "messages") with
    | some (.arr messages) => expandFormat1 parse entry protocol ingestedAt messages
    | _ =>
      match data, data.bind (fun v => member v "readings") with
      | some v, some (.arr readings) => expandFormat2 parse entry protocol ingestedAt v readings
      | _, _ => expandFormat3 parse entry protocol ingestedAt data)

end

end Iotistica.EntryRows
