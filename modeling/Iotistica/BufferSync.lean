import Iotistica.BufferLocking

/-!
# The buffer sync service

`flushBuffer` publishes claimed batches until the queue is drained, the
connection is lost or the cycle cap is reached; `handlePublish` stores a
message that cannot be published now. What a run learns from outside (the
connection, the clock, the lock ids it draws and the fate of each publish)
is given by one `Cycle` for each pass of the loop. The JSON rewriting of a
payload before it is published has no effect on the store and is part of
that fate.
-/

set_option autoImplicit false

namespace Iotistica.BufferSync
open Iotistica.KeyedTable Iotistica.JsText Iotistica.BufferStore

inductive PublishMode where
  | direct
  | bufferOnly
  | recovering
  deriving DecidableEq, Repr

inductive DropPolicy where
  | oldest
  | newest
  | error
  deriving DecidableEq, Repr

structure BufferSyncConfig where
  enabled : Bool
  flushBatchSize : ℤ
  maxRetries : ℕ
  maxBufferRecords : ℤ
  dropPolicy : DropPolicy
  maxFlushPerCycle : ℕ
  bufferEvenWhenOnline : Bool
  scopeEndpointName : Option String
  scopeExcludePrefix : Option String
  deriving DecidableEq, Repr

def BufferSyncConfig.scope (cfg : BufferSyncConfig) : Scope where
  exact := cfg.scopeEndpointName
  excludePrefix := cfg.scopeExcludePrefix

/-- One pass of the flush loop as seen from outside. `publish` gives the
error message of a failed publish, `clock` the time at which the record of
an id is marked as failed. -/
structure Cycle where
  connected : Bool
  now : ℤ
  lockId : String
  publish : MessageBufferRecord → Option String
  clock : ℕ → ℤ

inductive Fate where
  | sent
  | dropped
  | failed (error : String)
  deriving DecidableEq, Repr

def fate (maxRetries : ℕ) (c : Cycle) (r : MessageBufferRecord) : Fate :=
  match c.publish r with
  | none => .sent
  | some error => if maxRetries ≤ r.retryCount then .dropped else .failed error

def successfulIds (maxRetries : ℕ) (c : Cycle) (records : List MessageBufferRecord) : List ℕ :=
  (records.filter (fun r => fate maxRetries c r == .sent)).map MessageBufferRecord.id

def droppedIds (maxRetries : ℕ) (c : Cycle) (records : List MessageBufferRecord) : List ℕ :=
  (records.filter (fun r => fate maxRetries c r == .dropped)).map MessageBufferRecord.id

def failedIds (maxRetries : ℕ) (c : Cycle) (records : List MessageBufferRecord) : List ℕ :=
  (records.filter (fun r => fate maxRetries c r != .sent && fate maxRetries c r != .dropped)).map
    MessageBufferRecord.id

def calculateNextRetryAt (currentRetryCount : ℕ) (now : ℤ) : ℤ :=
  let nextAttempt := currentRetryCount+1
  now+(if nextAttempt ≤ 1 then 5000 else if nextAttempt = 2 then 30000 else 300000)

def markFailed (maxRetries : ℕ) (c : Cycle) (s : Store) (r : MessageBufferRecord) : Store :=
  match fate maxRetries c r with
  | .failed error => markRetryFailed s r.id error
      (some (calculateNextRetryAt r.retryCount (c.clock r.id))) (c.clock r.id)
  | _ => s

/-- The three passes after the publishes: delete what was sent, drop what
has no retry left, and put the rest back in the queue. -/
def settle (maxRetries : ℕ) (c : Cycle) (s : Store) (records : List MessageBufferRecord) : Store :=
  let flushed := (deleteByIds s (successfulIds maxRetries c records)).1
  let dropped := (dropByIds flushed (droppedIds maxRetries c records)).1
  records.foldl (markFailed maxRetries c) dropped

structure Batch where
  cycle : Cycle
  records : List MessageBufferRecord

inductive Exit where
  | skipped
  | drained
  | disconnected
  | capped
  | cutOff
  deriving DecidableEq, Repr

structure Flush where
  store : Store
  batches : List Batch
  exit : Exit

def flushLoop (cfg : BufferSyncConfig) (cycles : ℕ → Cycle) : ℕ → ℕ → ℕ → Store → Flush
  | 0, _, _, s => ⟨s,[],.cutOff⟩
  | fuel+1, k, totalHandled, s =>
    let c := cycles k
    if !c.connected then ⟨s,[],.disconnected⟩
    else if cfg.maxFlushPerCycle ≤ totalHandled then ⟨s,[],.capped⟩
    else
      let out := dequeueReady s cfg.flushBatchSize c.now defaultLockTimeoutMs
        (some cfg.maxRetries) cfg.scope c.lockId
      if out.2.isEmpty then ⟨out.1,[],.drained⟩
      else
        let rest := flushLoop cfg cycles fuel (k+1) (totalHandled+out.2.length)
          (settle cfg.maxRetries c out.1 out.2)
        { rest with batches := ⟨c,out.2⟩::rest.batches }

def flushBuffer (cfg : BufferSyncConfig) (connected : Bool) (mode : PublishMode)
    (cycles : ℕ → Cycle) (s : Store) : Flush :=
  if !connected then ⟨s,[],.skipped⟩
  else if mode ≠ .direct then ⟨s,[],.skipped⟩
  else flushLoop cfg cycles (cfg.maxFlushPerCycle+1) 0 0 s

def splitSlash : List Char → List (List Char)
  | [] => [[]]
  | '/'::cs => []::splitSlash cs
  | c::cs =>
    match splitSlash cs with
    | [] => [[c]]
    | part::parts => (c::part)::parts

def extractEndpointName (topic : String) : String :=
  match ((splitSlash topic.toList).filter (fun part => !part.isEmpty)).getLast? with
  | none => "unknown"
  | some part => String.ofList part

/-- A publish call: the text of the payload, the length of its bytes and
the message id that its JSON carries, with the state of the client. -/
structure Publish where
  topic : String
  payloadText : String
  payloadBytes : ℕ
  msgId : Option String
  qos : Option ℕ
  connected : Bool
  mode : PublishMode
  now : ℤ
  deriving DecidableEq, Repr

inductive Handled where
  | passedOn
  | buffered
  | rejected
  | threw (message : String)
  deriving DecidableEq, Repr

def shouldBuffer (cfg : BufferSyncConfig) (p : Publish) : Bool :=
  !p.connected || cfg.bufferEvenWhenOnline || p.mode != .direct

def underPressure (cfg : BufferSyncConfig) (s : Store) (payloadBytes : ℕ) : Bool :=
  let admission := canAcceptMessage s payloadBytes
  !admission.canAccept || decide (cfg.maxBufferRecords < admission.projectedCount)

def rejectUnderPressure (cfg : BufferSyncConfig) (s : Store) (p : Publish) : Store × Handled :=
  let admission := canAcceptMessage s p.payloadBytes
  match cfg.dropPolicy with
  | .error => (incrementDropped s 1,.threw
      s!"Message buffer rejected non-critical message under pressure ({admission.projectedCount}/{min cfg.maxBufferRecords admission.maxRecords} records, {admission.projectedBytes}/{admission.maxBytes} bytes)")
  | .newest | .oldest => (incrementDropped s 1,.rejected)

/-- Frees space for a critical message; `buffered` stands for success. -/
def applyBackpressurePolicy (cfg : BufferSyncConfig) (s : Store) (currentCount : ℕ) :
    Store × Handled :=
  match cfg.dropPolicy with
  | .oldest =>
    let needed := (currentCount-cfg.maxBufferRecords)+1
    let out := deleteOldest s (max needed 100) true
    if 0 < out.2 then (out.1,.buffered) else (incrementDropped out.1 1,.rejected)
  | .newest => (incrementDropped s 1,.rejected)
  | .error => (incrementDropped s 1,.threw
      s!"Message buffer is full ({currentCount}/{cfg.maxBufferRecords})")

def handleAdmissionPressure (cfg : BufferSyncConfig) (s : Store) (p : Publish) : Store × Handled :=
  if !isCriticalTopic p.topic then rejectUnderPressure cfg s p
  else
    let freed := applyBackpressurePolicy cfg s (canAcceptMessage s p.payloadBytes).currentCount
    if freed.2 = .buffered then
      if underPressure cfg freed.1 p.payloadBytes then (incrementDropped freed.1 1,.rejected)
      else freed
    else freed

def publishRecord (cfg : BufferSyncConfig) (p : Publish) : NewRecord where
  endpointName := cfg.scopeEndpointName.getD (extractEndpointName p.topic)
  topic := p.topic
  qos := p.qos.getD 0
  payload := p.payloadText
  msgId := p.msgId
  isCritical := some (if isCriticalTopic p.topic then 1 else 0)

def enqueuePublish (cfg : BufferSyncConfig) (s : Store) (p : Publish) : Store :=
  (enqueue s (publishRecord cfg p) p.now).1

def handlePublish (cfg : BufferSyncConfig) (s : Store) (p : Publish) : Store × Handled :=
  if !cfg.enabled then (s,.passedOn)
  else if !shouldBuffer cfg p then (s,.passedOn)
  else if underPressure cfg s p.payloadBytes then
    let admitted := handleAdmissionPressure cfg s p
    if admitted.2 = .buffered then (enqueuePublish cfg admitted.1 p,.buffered) else admitted
  else (enqueuePublish cfg s p,.buffered)

end Iotistica.BufferSync
