import Iotistica.JsonText

/-!
# The format of the device stream

The producer writes two kinds of entries as fields of a stream message: a
batch as one JSON text and a compressed entry as its metadata. A worker takes
the fields apart, once for the messages it reads and once for the stale ones
it claims, and resolves an entry to device data. zlib and the texts of the
runtime's own errors are parameters.
-/

set_option autoImplicit false

namespace Iotistica.StreamFormat
open Iotistica.ByteText Iotistica.JsonText

abbrev Bytes := List UInt8

structure DeviceDataEntry where
  deviceUuid : String
  deviceName : String
  timestamp : String
  data : Value
  metadata : Option Members
  data_proper : Proper data
  metadata_proper : ∀ m ∈ metadata, Proper (.obj m)

def DeviceDataEntry.toValue (e : DeviceDataEntry) : Value :=
  .obj ([("deviceUuid",.str e.deviceUuid),("deviceName",.str e.deviceName),
    ("timestamp",.str e.timestamp),("data",e.data)]++
      (e.metadata.map (fun m => ("metadata",Value.obj m))).toList)

structure CompressedDeviceEntry where
  deviceUuid : String
  deviceName : String
  batchId : String
  compressedPayload : Bytes
  contentEncoding : String
  contentType : String

inductive AddOutcome where
  | redis
  | disk
  | dropped
  deriving DecidableEq

/-- The fields that reach the stream; `ready` is the state of the connection
and `wrote` the outcome of the pipeline. -/
def addCompressed (ready wrote : Bool) (entry : CompressedDeviceEntry) : Option (List String) :=
  if ready && wrote then
    some ["compressed","1","deviceUuid",entry.deviceUuid,"deviceName",entry.deviceName,
      "batchId",entry.batchId,"encoding",entry.contentEncoding,"contentType",entry.contentType,
      "payloadPointer",entry.deviceUuid++"/"++entry.batchId,
      "payloadSize",entry.compressedPayload.length.repr]
  else none

def add (ready wrote : Bool) (deviceData : List DeviceDataEntry) :
    Option (List String) × AddOutcome :=
  if deviceData.isEmpty then (none,.redis)
  else if ready && wrote then
    (some ["data",stringify (.arr (deviceData.map DeviceDataEntry.toValue))],.redis)
  else (none,.dropped)

structure ParsedStreamFields where
  compressed : Bool
  payloadRaw : Option String
  payloadBase64 : Option String
  payloadPointer : Option String
  deviceUuid : Option String
  deviceName : Option String
  batchId : Option String
  encoding : Option String
  contentType : Option String
  data : Option String
  source : Option String
  deriving DecidableEq

def noFields : ParsedStreamFields :=
  ⟨false,none,none,none,none,none,none,none,none,none,none⟩

def nonEmpty (s : Option String) : Option String := s.filter (fun t => t ≠ "")

def setField (p : ParsedStreamFields) (key : String) (value : Option String) :
    ParsedStreamFields :=
  match key with
  | "compressed" => { p with compressed := value = some "1" }
  | "payload" => { p with payloadRaw := value }
  | "payload_b64" => { p with payloadBase64 := value }
  | "payloadPointer" => { p with payloadPointer := value }
  | "deviceUuid" => { p with deviceUuid := value }
  | "deviceName" => { p with deviceName := value }
  | "batchId" => { p with batchId := value }
  | "encoding" => { p with encoding := value }
  | "contentType" => { p with contentType := value }
  | "data" => { p with data := value }
  | "source" => { p with source := nonEmpty value }
  | _ => p

/-- A last name without a value has the value undefined. -/
def setFields (p : ParsedStreamFields) : List String → ParsedStreamFields
  | key :: value :: r => setFields (setField p key (some value)) r
  | [key] => setField p key none
  | [] => p

def parseStreamFields (fields : List String) : ParsedStreamFields := setFields noFields fields

def decodeCompressedPayload (p : ParsedStreamFields) : Option Bytes :=
  match nonEmpty p.payloadBase64 with
  | some text => some (readBase64 text.toList)
  | none => (nonEmpty p.payloadRaw).map (fun text => readHexBytes text.toList)

inductive EntryData where
  | raw (rawData : String) (deviceUuid deviceName : Option String)
  | compressed (deviceUuid deviceName batchId : Option String) (compressedPayload : Bytes)
      (contentEncoding contentType : Option String)
  /-- Device data as it is; no reader builds it. -/
  | plain (data : Value)

structure RedisDeviceEntry where
  id : String
  data : EntryData
  source : Option String

def createUnknownUncompressedEntry (id : String) : RedisDeviceEntry :=
  ⟨id,.raw "" (some "unknown") (some "unknown"),none⟩

structure ParseError where
  entry : RedisDeviceEntry
  reason : String

def pointerReason (p : ParsedStreamFields) (missing : String) : String :=
  match nonEmpty p.payloadPointer with
  | some pointer => "Compressed payload pointer is not resolvable by this worker: "++pointer
  | none => missing

def withoutPayload (id : String) (p : ParsedStreamFields) : RedisDeviceEntry :=
  ⟨id,.compressed (some (p.deviceUuid.getD "unknown")) (some (p.deviceName.getD "unknown"))
    (some (p.batchId.getD "")) [] (some (p.encoding.getD "")) (some (p.contentType.getD "")),none⟩

/-- One message of a reader that writes `origin` behind its reasons. -/
def parseMessage (origin : String) (message : String × List String) :
    Except ParseError RedisDeviceEntry :=
  let id := message.1
  let p := parseStreamFields message.2
  if p.compressed then
    match (decodeCompressedPayload p).filter (fun payload => !payload.isEmpty) with
    | none => .error ⟨withoutPayload id p,pointerReason p ("Missing compressed payload field"++origin)⟩
    | some payload =>
      .ok ⟨id,.compressed p.deviceUuid p.deviceName p.batchId payload p.encoding p.contentType,
        p.source⟩
  else
    match nonEmpty p.data with
    | none =>
      .error ⟨createUnknownUncompressedEntry id,
        "Missing data field in uncompressed stream entry"++origin⟩
    | some data => .ok ⟨id,.raw data (some "unknown") (some "unknown"),p.source⟩

def parsed : Except ParseError RedisDeviceEntry → Option RedisDeviceEntry
  | .ok entry => some entry
  | .error _ => none

def failed : Except ParseError RedisDeviceEntry → Option ParseError
  | .ok _ => none
  | .error e => some e

def readMessages (origin : String) (messages : List (String × List String)) :
    List RedisDeviceEntry × List ParseError :=
  (messages.filterMap (fun m => parsed (parseMessage origin m)),
    messages.filterMap (fun m => failed (parseMessage origin m)))

def parseStreamMessages (messages : List (String × List String)) :
    List RedisDeviceEntry × List ParseError := readMessages "" messages

def claimStaleMessages (result : Option (List (String × List String))) :
    List RedisDeviceEntry × List ParseError :=
  readMessages " (stale PEL claim)" (result.getD [])

inductive Compression where
  | br
  | gzip
  | deflate
  deriving DecidableEq

def compressionOf (contentEncoding : Option String) : Option Compression :=
  match contentEncoding with
  | some "br" => some .br
  | some "gzip" => some .gzip
  | some "deflate" => some .deflate
  | _ => none

/-- The functions of the runtime that are not in the source. -/
structure Runtime where
  compress : Compression → Bytes → Bytes
  decompress : Compression → Bytes → Except String Bytes
  decompress_compress : ∀ c bytes, decompress c (compress c bytes) = .ok bytes
  /-- Text of bytes that are not UTF-8. -/
  malformed : Bytes → String
  syntaxError : String → String
  typeError : String

def utf8 (s : String) : Bytes := s.toByteArray.data.toList

def toStringUtf8 (rt : Runtime) (bytes : Bytes) : String :=
  (String.fromUTF8? ⟨bytes.toArray⟩).getD (rt.malformed bytes)

def textMember (v : Value) (key : String) : Option String :=
  match member v key with
  | some (.str s) => nonEmpty (some s)
  | _ => none

def truthyMember (v : Value) (key : String) : Option Value := (member v key).filter truthy

/-- `reading.data ?? reading`. -/
def readingData (reading : Value) : Value :=
  match member reading "data" with
  | none => reading
  | some .null => reading
  | some data => data

def resolvedDeviceName (reading : Value) (deviceName : Option String) : Option String :=
  (textMember reading "deviceName").orElse fun _ => (textMember reading "device_name").orElse
    fun _ => (textMember reading "protocol").orElse fun _ => deviceName

/-- Members that are undefined are not there. -/
def entryOf (fallbackTimestamp : String) (deviceUuid deviceName : Option String)
    (reading : Value) : Value :=
  .obj ([("deviceUuid",(truthyMember reading "deviceUuid").orElse fun _ => deviceUuid.map .str),
    ("deviceName",(resolvedDeviceName reading deviceName).map .str),
    ("timestamp",(truthyMember reading "timestamp").orElse fun _ => some (.str fallbackTimestamp)),
    ("data",some (readingData reading)),
    ("metadata",member reading "metadata")].filterMap fun m => m.2.map fun v => (m.1,v))

def elements : Value → List Value
  | .arr items => items
  | v => [v]

def isNull : Value → Bool
  | .null => true
  | _ => false

def decompressAndParseDevices (rt : Runtime) (now : String) (compressedPayload : Bytes)
    (contentEncoding deviceUuid deviceName : Option String) : Except String (List Value) := do
  let decompressed ← match compressionOf contentEncoding with
    | some c => rt.decompress c compressedPayload
    | none => .ok compressedPayload
  let rawJson := toStringUtf8 rt decompressed
  match parse rawJson with
  | none => .error (rt.syntaxError rawJson)
  | some document =>
    -- the members of null cannot be read
    if (elements document).any isNull then .error rt.typeError
    else .ok ((elements document).map (entryOf now deviceUuid deviceName))

def rawPrefix (rawData : String) : String :=
  String.ofList (ofUnits ((JsSort.utf16 rawData).take 200))

def resolveEntryData (rt : Runtime) (now : String) (entry : RedisDeviceEntry) :
    Except String (List Value) :=
  match entry.data with
  | .raw rawData _ _ =>
    match parse rawData with
    | some v => .ok (elements v)
    | none =>
      .error ("JSON parse failed: "++rt.syntaxError rawData++" (raw prefix: "++rawPrefix rawData++")")
  | .plain data => .ok (elements data)
  | .compressed deviceUuid deviceName _ compressedPayload contentEncoding _ =>
    if compressedPayload.isEmpty then .error "Empty or missing compressed payload"
    else
      match decompressAndParseDevices rt now compressedPayload contentEncoding deviceUuid
        deviceName with
      | .ok data => .ok data
      | .error e => .error ("Decompression failed: "++e)

end Iotistica.StreamFormat
