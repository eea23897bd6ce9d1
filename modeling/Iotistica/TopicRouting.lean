import Iotistica.StreamFormat
import Iotistica.TopicCodec

/-!
# From a topic to its handler

The agent writes its tenant and its uuid into every topic. The cloud service
subscribes to patterns of such topics, takes each topic apart and hands the
message on by its type. A job message gets a topic of an older form before
its handler takes that one apart again. The packed format of payloads and the
store of seen messages are parameters.
-/

set_option autoImplicit false

namespace Iotistica.TopicRouting
open Iotistica.JsText Iotistica.JsonText Iotistica.ByteText Iotistica.Topics
open Iotistica.StreamFormat (Bytes Runtime toStringUtf8 nonEmpty isNull)

structure Level where
  text : String
  plain : '/' ∉ text.toList

structure AgentUuid where
  text : String
  valid : isUuid text = true

def topicOf (c : Caches) (tenantId agentUuid : String) (segments : List String) :
    String × Caches :=
  let tenant := encodeIfUuid c tenantId
  let agent := encodeIfUuid tenant.2 agentUuid
  (join ("i" :: tenant.1 :: "a" :: agent.1 :: segments) '/',agent.2)

def agentTopic : Caches → String → String → List String → String × Caches := topicOf

def mqttDevicePattern : Caches → String → String → List String → String × Caches := topicOf

structure ParsedMqttTopic where
  tenantId : String
  agentUuid : String
  messageType : String
  subTopic : Option String
  rest : List String
  deriving DecidableEq

def decodeId (valid : String → Bool) (decode : Caches → String → Option String × Caches)
    (c : Caches) (id : String) : String × Caches :=
  if valid id then (((decode c id).1).getD id,(decode c id).2) else (id,c)

def parseMqttTopic (c : Caches) (topic : String) : Option ParsedMqttTopic × Caches :=
  match split topic '/' with
  | p :: tenantId :: q :: agentUuid :: messageType :: rest =>
    if p ≠ "i" ∨ q ≠ "a" then (none,c)
    else
      let tenant := decodeId isEncodedHexId decodeHexId c tenantId
      let agent := decodeId isEncodedUuid decodeUuid tenant.2 agentUuid
      -- the rest begins with the sub-topic
      (some ⟨tenant.1,agent.1,toLowerCase messageType,rest.head?,rest⟩,agent.2)
  | _ => (none,c)

structure Config where
  tenantId : Level
  useKeyCompaction : Bool
  subscribeToAll : Bool

def topics (cfg : Config) : List String :=
  ["endpoints","state","agent","events","jobs"]++(if cfg.useKeyCompaction then ["meta"] else [])

def patternsOf (type : String) : List (List String) :=
  match type with
  | "endpoints" => [["endpoints","+"]]
  | "state" => [["state"]]
  | "agent" => [["agent","+"]]
  | "logs" => [["logs","+"]]
  | "metrics" => [["metrics"]]
  | "status" => [["status"]]
  | "events" => [["events","+"]]
  | "meta" => [["meta","+"]]
  | "jobs" => [["jobs","+","update"],["jobs","start-next"]]
  | _ => []

def subscriptions (cfg : Config) (c : Caches) : List String :=
  if cfg.subscribeToAll then
    ((topics cfg).flatMap patternsOf).map fun segments =>
      (mqttDevicePattern c cfg.tenantId.text "+" segments).1
  else []

def levelsMatch : List String → List String → Bool
  | [],ts => ts.isEmpty
  | p :: ps,ts =>
    if p = "#" ∧ ps = [] then true
    else
      match ts with
      | t :: ts => (p = "+" || p = t) && levelsMatch ps ts
      | [] => false

def delivered (cfg : Config) (c : Caches) (topic : String) : Bool :=
  (subscriptions cfg c).any fun pattern => levelsMatch (split pattern '/') (split topic '/')

/-- What the source calls and does not contain. -/
structure Services where
  runtime : Runtime
  Packed : Type
  unpack : Bytes → Option Packed
  packedMsgId : Packed → Option Packed
  packedText : Packed → String
  isDuplicateMessage : Value ⊕ Packed → Bool

inductive Data (P : Type) where
  | json (v : Value)
  | packed (p : P)
  /-- The payload as it came. -/
  | buffer (bytes : Bytes)

def isDeflated (bytes : Bytes) : Bool :=
  match bytes with
  | first :: second :: _ => first = 0x78 && [0x01,0x5e,0x9c,0xda].contains second
  | _ => false

def isPacked (bytes : Bytes) : Bool :=
  match bytes with
  | first :: _ => (0x80 ≤ first && first ≤ 0x9f) || first = 0xdc || first = 0xdd
  | [] => false

def inflated (sv : Services) (message : Bytes) : Bytes :=
  if isDeflated message then
    match sv.runtime.decompress .deflate message with
    | .ok bytes => bytes
    | .error _ => message
  else message

def readJson (sv : Services) (message buffer : Bytes) : Data sv.Packed :=
  match parse (toStringUtf8 sv.runtime buffer) with
  | some v => .json v
  | none => .buffer message

def deserializePayload (sv : Services) (message : Bytes) : Data sv.Packed :=
  let buffer := inflated sv message
  match if isPacked buffer then sv.unpack buffer else none with
  | some p => .packed p
  | none => readJson sv message buffer

def seenBefore (sv : Services) (data : Data sv.Packed) : Bool :=
  match data with
  | .json v => (((member v "msgId").filter truthy).map fun id =>
      sv.isDuplicateMessage (.inl id)).getD false
  | .packed p => ((sv.packedMsgId p).map fun id => sv.isDuplicateMessage (.inr id)).getD false
  | .buffer _ => false

def bufferValue (bytes : Bytes) : Value :=
  .obj [("type",.str "Buffer"),
    ("data",.arr (bytes.map fun b => .num (JsonText.reduce false b.toNat 0)))]

def dataText (sv : Services) (data : Data sv.Packed) : String :=
  match data with
  | .json v => stringify v
  | .packed p => sv.packedText p
  | .buffer bytes => stringify (bufferValue bytes)

structure JobUpdatePayload where
  deviceUuid : Option String
  jobId : Option String
  status : String
  statusDetails : Option Value
  expectedVersion : Option Decimal
  executionNumber : Option Decimal
  clientToken : Option String

inductive Call (P : Type) where
  | handleJobUpdate (update : JobUpdatePayload)
  /-- The query for the next job of a device, and the answer to it. -/
  | startNext (deviceUuid : Option String)
  | applyDelta (deviceUuid : String) (delta : Data P)
  | storeDictionary (deviceUuid : String) (dict : Data P)

def stringMember (v : Value) (key : String) : Option String :=
  match member v key with
  | some (.str s) => some s
  | _ => none

def numberMember (v : Value) (key : String) : Option Decimal :=
  match member v key with
  | some (.num d) => some d
  | _ => none

def recordMember (v : Value) (key : String) : Option Value :=
  match member v key with
  | some (.obj ms) => some (.obj ms)
  | _ => none

def handleJobUpdateMessage {P : Type} (topic : String) (message : Value) : List (Call P) :=
  let parts := split topic '/'
  -- the members of null cannot be read
  if isNull message then []
  else
    [.handleJobUpdate ⟨parts[2]?,parts[4]?,(stringMember message "status").getD "UNKNOWN",
      recordMember message "statusDetails",numberMember message "expectedVersion",
      numberMember message "executionNumber",stringMember message "clientToken"⟩]

def handleStartNextRequest {P : Type} (topic : String) : List (Call P) :=
  [.startNext (split topic '/')[2]?]

def handleJobMessage {P : Type} (topic payload : String) : List (Call P) :=
  match parse payload with
  | none => []
  | some message =>
    if endsWith topic "/update" then handleJobUpdateMessage topic message
    else if endsWith topic "/start-next" then handleStartNextRequest topic
    else []

def jobsTopic (tenantId deviceUuid : String) (subTopic : Option String) (rest : List String) :
    String :=
  join (["iot",tenantId,"agent",deviceUuid,"jobs"]++(nonEmpty subTopic).toList++rest) '/'

def handleJobsMessage (cfg : Config) (sv : Services) (deviceUuid : String)
    (subTopic : Option String) (data : Data sv.Packed) (rest : List String) :
    List (Call sv.Packed) :=
  handleJobMessage (jobsTopic cfg.tenantId.text deviceUuid subTopic rest) (dataText sv data)

def handleMetaMessage {P : Type} (cfg : Config) (deviceUuid : String) (subTopic : Option String)
    (data : Data P) (rest : List String) : List (Call P) :=
  if !cfg.useKeyCompaction then []
  else if subTopic = some "dictionary" ∧ rest[0]? = some "delta" then [.applyDelta deviceUuid data]
  else if subTopic = some "dictionary" then [.storeDictionary deviceUuid data]
  else []

def dispatch (cfg : Config) (sv : Services) (p : ParsedMqttTopic) (data : Data sv.Packed) :
    List (Call sv.Packed) :=
  match p.messageType with
  | "jobs" => handleJobsMessage cfg sv p.agentUuid p.subTopic data p.rest
  | "meta" => handleMetaMessage cfg p.agentUuid p.subTopic data p.rest
  | _ => []

def handleMessage (cfg : Config) (sv : Services) (c : Caches) (topic : String)
    (payload : Bytes) : List (Call sv.Packed) × Caches :=
  match parseMqttTopic c topic with
  | (none,c) => ([],c)
  | (some p,c) =>
    let data := deserializePayload sv payload
    if p.messageType ≠ "endpoints" ∧ seenBefore sv data then ([],c)
    else (dispatch cfg sv p data,c)

def receive (cfg : Config) (sv : Services) (c : Caches) (topic : String) (payload : Bytes) :
    List (Call sv.Packed) :=
  if delivered cfg c topic then (handleMessage cfg sv c topic payload).1 else []

end Iotistica.TopicRouting
