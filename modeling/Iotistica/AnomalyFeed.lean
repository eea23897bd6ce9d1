import Mathlib.Algebra.Order.Field.Rat
import Iotistica.DriftSchema

/-!
# Feeding the anomaly service

A batch of parsed messages is walked, and every number in it goes to the
anomaly service under a key of the endpoint, the device and the field. Within
a batch a key is dispatched once. A message is a tree, so that the guard
against circular references never stops the walk. `round` gives the double
nearest to a number and `text` is the text of a value in a template.
-/

set_option autoImplicit false

namespace Iotistica.AnomalyFeed
open Iotistica Iotistica.DriftSchema

def digitsValue (base : ℕ) (digit : Char → ℕ) (cs : List Char) : ℕ :=
  cs.foldl (fun n c => base*n+digit c) 0

def decimalDigit (c : Char) : ℕ := c.toNat-48

def hexDigit (c : Char) : ℕ :=
  if c.isDigit then c.toNat-48 else if c.isLower then c.toNat-87 else c.toNat-55

def isHexDigit (c : Char) : Bool :=
  c.isDigit || ('a' ≤ c && c ≤ 'f') || ('A' ≤ c && c ≤ 'F')

def splitSign : List Char → Bool × List Char
  | '-'::cs => (true,cs)
  | '+'::cs => (false,cs)
  | cs => (false,cs)

def readExponent : List Char → Option ℤ
  | [] => some 0
  | e::cs =>
    if e = 'e' ∨ e = 'E' then
      let digits := (splitSign cs).2
      if digits ≠ [] ∧ digits.all Char.isDigit then
        let n : ℤ := digitsValue 10 decimalDigit digits
        some (if (splitSign cs).1 then -n else n)
      else none
    else none

def scale (digits : List Char) (exponent : ℤ) : ℚ :=
  digitsValue 10 decimalDigit digits*(10 : ℚ)^exponent

def readDecimal (cs : List Char) : Option ℚ :=
  let whole := cs.takeWhile Char.isDigit
  match cs.dropWhile Char.isDigit with
  | '.'::rest =>
    let fraction := rest.takeWhile Char.isDigit
    if whole = [] ∧ fraction = [] then none
    else (readExponent (rest.dropWhile Char.isDigit)).map
      (fun e => scale (whole++fraction) (e-fraction.length))
  | rest => if whole = [] then none else (readExponent rest).map (scale whole)

def readRadix (base : ℕ) (isDigit : Char → Bool) (cs : List Char) : Option ℚ :=
  if cs ≠ [] ∧ cs.all isDigit then some (digitsValue base hexDigit cs) else none

/-- `Number` of a trimmed text that is not empty, before it is rounded; what
is not a number or infinite has no value. -/
def numberOf (cs : List Char) : Option ℚ :=
  match cs with
  | '0' :: 'x' :: digits => readRadix 16 isHexDigit digits
  | '0' :: 'X' :: digits => readRadix 16 isHexDigit digits
  | '0' :: 'o' :: digits => readRadix 8 (fun c => '0' ≤ c && c ≤ '7') digits
  | '0' :: 'O' :: digits => readRadix 8 (fun c => '0' ≤ c && c ≤ '7') digits
  | '0' :: 'b' :: digits => readRadix 2 (fun c => '0' ≤ c && c ≤ '1') digits
  | '0' :: 'B' :: digits => readRadix 2 (fun c => '0' ≤ c && c ≤ '1') digits
  | _ =>
    let negative := (splitSign cs).1
    (readDecimal (splitSign cs).2).map (fun q => if negative then -q else q)

def overflow : ℚ := 2^1024-2^970

def finite (q : ℚ) : Bool := decide (|q| < overflow)

inductive Protocol where
  | modbus
  | opcua
  | bacnet
  | mqtt
  | system

structure DataPoint where
  metric : String
  source : String
  protocol : Option Protocol
  rawDeviceState : Option Json
  value : ℚ
  unit : Json
  timestamp : ℤ
  quality : String
  deviceId : Option String
  tags : List (String × Json)

structure Feed where
  round : ℚ → ℚ
  text : Json → String
  deviceUuid : String
  protocol : Option Protocol

def maxRecursionDepth : ℕ := 6

def truthy : Json → Bool
  | .null => false
  | .bool b => b
  | .num q => q ≠ 0
  | .str s => s ≠ ""
  | .arr _ => true
  | .obj _ => true

/-- `a || b` -/
def either (a b : Option Json) : Option Json :=
  match a with
  | some v => if truthy v then some v else b
  | none => b

/-- `a ?? b` -/
def unlessNullish (a b : Option Json) : Option Json :=
  match a with
  | none => b
  | some .null => b
  | some v => some v

def entriesOf : Json → List (String × Json)
  | .obj entries => entries
  | _ => []

def trimmed (s : String) : String := String.ofList (trim s.toList)

variable (f : Feed)

def toFiniteNumber : Json → Option ℚ
  | .num q => some q
  | .str s =>
    if trim s.toList = [] then none
    else (numberOf (trim s.toList)).bind (fun q => if finite q then some (f.round q) else none)
  | _ => none

def buildMetricKey (deviceIdentifier : Option Json) (deviceName fieldName : String) : String :=
  let fallback := if deviceName = "" then "unknown" else deviceName
  let identifier := match deviceIdentifier with
    | some (.str s) => if trimmed s = "" then fallback else trimmed s
    | _ => fallback
  f.deviceUuid++"_"++identifier++"_"++fieldName

def resolveDeviceId : List (Option Json) → Option String
  | [] => none
  | some (.str s)::candidates => if trimmed s = "" then resolveDeviceId candidates else some (trimmed s)
  | some (.num q)::_ => some (f.text (.num q))
  | _::candidates => resolveDeviceId candidates

def stateKeys : List String :=
  ["deviceState","device_state","operationalState","operational_state","state","status","mode",
    "runState","run_state","isRunning","running","fault","error","alarm","health"]

def extractStateField (entries : List (String × Json)) : Option Json :=
  stateKeys.findSome? (fun key => entries.lookup key)

def envelopes : List String := ["data","payload","reading","readings","status"]

mutual

def extractRawDeviceState : Json → Option Json
  | .obj entries =>
    (extractStateField entries).or
      (envelopes.findSome? (fun key => ((memberStates entries).lookup key).join))
  | _ => none

def memberStates : List (String × Json) → List (String × Option Json)
  | [] => []
  | (key,.arr items)::entries => (key,itemState items)::memberStates entries
  | (key,value)::entries => (key,extractRawDeviceState value)::memberStates entries

def itemState : List Json → Option Json
  | [] => none
  | item::items => (extractRawDeviceState item).or (itemState items)

end

def endpointId (deviceName : String) : String := "endpoint:"++deviceName

def uuidTag (payloadDeviceUuid : Option Json) : List (String × Json) :=
  match payloadDeviceUuid with
  | some v => if truthy v then [("deviceUuid",v)] else []
  | none => []

def goodQuality (quality : Option Json) : String :=
  match either quality none with
  | none => "GOOD"
  | some (.str s) => if s = "GOOD" ∨ s = "Good" then "GOOD" else "BAD"
  | some _ => "BAD"

def readingPoint (entries : List (String × Json)) (readingDeviceName fieldName : Json)
    (parentDeviceName : String) (timestampMs : ℤ) : List DataPoint :=
  let payloadDeviceUuid := either (entries.lookup "device_uuid") (entries.lookup "deviceUuid")
  let resolved := resolveDeviceId f [entries.lookup "deviceId",entries.lookup "device_id"]
  match (entries.lookup "value").bind (toFiniteNumber f) with
  | none => []
  | some value =>
    [{ metric := buildMetricKey f (either payloadDeviceUuid (some readingDeviceName))
        parentDeviceName (f.text fieldName)
       source := "endpoint"
       protocol := f.protocol
       rawDeviceState := unlessNullish (entries.lookup "deviceState")
        (unlessNullish (entries.lookup "state")
          (unlessNullish (entries.lookup "status") (extractRawDeviceState (.obj entries))))
       value := value
       unit := (either (entries.lookup "unit") none).getD (.str "")
       timestamp := timestampMs
       quality := goodQuality (entries.lookup "quality")
       deviceId := some (resolved.getD (endpointId parentDeviceName))
       tags := [("endpointId",.str parentDeviceName)]++uuidTag payloadDeviceUuid++
        [("deviceName",readingDeviceName),("fieldName",fieldName)] }]

def isReadingObject (entries : List (String × Json)) : Bool :=
  (either (entries.lookup "deviceName") none).isSome &&
    (either (either (entries.lookup "metric") (entries.lookup "name")) none).isSome &&
    (entries.lookup "value").isSome

def dispatchReadingObject (entries : List (String × Json)) (parentDeviceName : String)
    (timestampMs : ℤ) : List DataPoint :=
  readingPoint f entries ((entries.lookup "deviceName").getD .null)
    ((either (entries.lookup "metric") (entries.lookup "name")).getD .null) parentDeviceName
    timestampMs

def dispatchReading (reading : Json) (parentDeviceName : String) (timestampMs : ℤ) :
    List DataPoint :=
  match reading with
  | .obj entries =>
    match either (entries.lookup "metric")
        (either (entries.lookup "registerName") (either (entries.lookup "name") none)) with
    | none => []
    | some fieldName =>
      readingPoint f entries
        ((either (entries.lookup "deviceName") (some (.str parentDeviceName))).getD .null)
        fieldName parentDeviceName timestampMs
  | _ => []

def dispatchReadingsArray (readings : List Json) (parentDeviceName : String) (timestampMs : ℤ) :
    List DataPoint :=
  readings.flatMap (fun reading => dispatchReading f reading parentDeviceName timestampMs)

def dispatchDirectNumeric (value : ℚ) (deviceName : String) (timestampMs : ℤ) (scope : String) :
    DataPoint :=
  let fieldName := if scope = "" then "value" else scope
  { metric := buildMetricKey f none deviceName fieldName
    source := "endpoint"
    protocol := f.protocol
    rawDeviceState := none
    value := value
    unit := .str ""
    timestamp := timestampMs
    quality := "GOOD"
    deviceId := if deviceName = "" then none else some (endpointId deviceName)
    tags := [("deviceName",.str deviceName),("endpointId",.str deviceName),
      ("field",.str fieldName)] }

def textField (entries : List (String × Json)) (key : String) : Option String :=
  match entries.lookup key with
  | some (.str s) => if s = "" then none else some s
  | _ => none

def payloadDeviceUuid (data : Json) : Option String :=
  (textField (entriesOf data) "device_uuid").or (textField (entriesOf data) "deviceUuid")

def stringOnly : Option Json → Option Json
  | some (.str s) => some (.str s)
  | _ => none

def metricName (scope key : String) : String := if scope = "" then key else scope++"_"++key

def numericPoint (data : Json) (deviceName : String) (timestampMs : ℤ) (scope key : String)
    (num : ℚ) : DataPoint :=
  let uuid := (payloadDeviceUuid data).map Json.str
  let resolved := resolveDeviceId f [stringOnly ((entriesOf data).lookup "deviceId"),
    stringOnly ((entriesOf data).lookup "device_id")]
  { metric := buildMetricKey f uuid deviceName (metricName scope key)
    source := "endpoint"
    protocol := f.protocol
    rawDeviceState := extractRawDeviceState data
    value := num
    unit := .str ""
    timestamp := timestampMs
    quality := "GOOD"
    deviceId := some (resolved.getD (endpointId deviceName))
    tags := [("deviceName",.str deviceName),("endpointId",.str deviceName)]++uuidTag uuid++
      [("field",.str (metricName scope key))] }

def isContainer : Json → Bool
  | .arr _ => true
  | .obj _ => true
  | _ => false

mutual

/-- The points handed to `dispatchToAnomaly`, in order. Each level passes its
own key down as the prefix of the next. -/
def extractNumericFields (data : Json) (deviceName : String) (timestampMs : ℤ) (scope : String)
    (depth : ℕ) : List DataPoint :=
  if maxRecursionDepth < depth then []
  else
    match data with
    | .num q => [dispatchDirectNumeric f q deviceName timestampMs scope]
    | .obj entries =>
      if isReadingObject entries then dispatchReadingObject f entries deviceName timestampMs
      else walkEntries (.obj entries) entries deviceName timestampMs scope depth
    | .arr items =>
      if scope = "readings" then dispatchReadingsArray f items deviceName timestampMs
      else walkItems (.arr items) items 0 deviceName timestampMs scope depth
    | _ => []

def walkEntries (data : Json) (entries : List (String × Json)) (deviceName : String)
    (timestampMs : ℤ) (scope : String) (depth : ℕ) : List DataPoint :=
  match entries with
  | [] => []
  | (key,value)::entries =>
    (match toFiniteNumber f value with
      | some num => [numericPoint f data deviceName timestampMs scope key num]
      | none =>
        if isContainer value then extractNumericFields value deviceName timestampMs key (depth+1)
        else [])++
      walkEntries data entries deviceName timestampMs scope depth

def walkItems (data : Json) (items : List Json) (index : ℕ) (deviceName : String)
    (timestampMs : ℤ) (scope : String) (depth : ℕ) : List DataPoint :=
  match items with
  | [] => []
  | value::items =>
    (match toFiniteNumber f value with
      | some num => [numericPoint f data deviceName timestampMs scope index.repr num]
      | none =>
        if isContainer value then
          extractNumericFields value deviceName timestampMs index.repr (depth+1)
        else [])++
      walkItems data items (index+1) deviceName timestampMs scope depth

end

structure Batch where
  batchProcessedMetrics : List String
  calls : List DataPoint

def dedupKey (point : DataPoint) : String := point.metric++":"++toString point.timestamp

def dispatchToAnomaly (b : Batch) (point : DataPoint) : Batch :=
  if dedupKey point ∈ b.batchProcessedMetrics then b
  else ⟨b.batchProcessedMetrics++[dedupKey point],b.calls++[point]⟩

/-- The calls of the service's `processDataPoint`. -/
def processBatch (messages : List Json) (deviceName : String) (timestampMs : ℤ) :
    List DataPoint :=
  ((messages.flatMap (fun data => extractNumericFields f data deviceName timestampMs "" 0)).foldl
    dispatchToAnomaly ⟨[],[]⟩).calls

end Iotistica.AnomalyFeed
