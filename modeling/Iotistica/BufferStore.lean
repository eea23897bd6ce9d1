import Iotistica.JsonText
import Iotistica.KeyedTable
import Mathlib.Algebra.GroupWithZero.Nat

/-!
# The message buffer table

The rows of `message_buffer` and the counters of `message_buffer_metadata`
form one store. Timestamps are milliseconds; a NULL column is `none`, and a
comparison with NULL never selects a row. The clock, the lock ids drawn
from it and the outcome of nothing else enter an operation as arguments.
The TTL cache in front of `ttl_hours` is left out, since no operation here
writes that key.
-/

set_option autoImplicit false

namespace Iotistica.BufferStore
open Iotistica.KeyedTable Iotistica.JsText

inductive Status where
  | queued
  | sending
  deriving DecidableEq, Repr

structure MessageBufferRecord where
  id : ℕ
  endpointName : String
  topic : String
  qos : ℕ
  payload : String
  msgId : Option String
  isCritical : ℕ
  status : Status
  lockId : Option String
  lockedAt : Option ℤ
  payloadBytes : ℕ
  retryCount : ℕ
  lastRetryAt : Option ℤ
  nextRetryAt : Option ℤ
  lastError : Option String
  createdAt : ℤ
  expiresAt : ℤ
  deriving DecidableEq, Repr

/-- The arguments of an insertion: the record without the columns that
`insertRecord` fills in itself. -/
structure NewRecord where
  endpointName : String
  topic : String
  qos : ℕ
  payload : String
  msgId : Option String
  isCritical : Option ℕ
  deriving DecidableEq, Repr

structure Metadata where
  maxRecords : ℤ
  maxBytes : ℤ
  ttlHours : ℤ
  lastCleanupAt : ℤ
  totalBuffered : ℕ
  totalFlushed : ℕ
  totalDropped : ℕ
  deriving DecidableEq, Repr

def defaultMetadata : Metadata where
  maxRecords := 10000
  maxBytes := 52428800
  ttlHours := 72
  lastCleanupAt := 0
  totalBuffered := 0
  totalFlushed := 0
  totalDropped := 0

abbrev Rows := Table MessageBufferRecord MessageBufferRecord.id

structure Store where
  table : Rows
  metadata : Metadata

def idDeleteChunkSize : ℕ := 500
def defaultLockTimeoutMs : ℤ := 15*60*1000

def emptyStore (m : Metadata) : Store where
  table := Table.empty
  metadata := { m with totalBuffered := 0, totalFlushed := 0, totalDropped := 0 }

def Store.addBuffered (s : Store) (n : ℕ) : Store :=
  { s with metadata := { s.metadata with totalBuffered := s.metadata.totalBuffered+n } }

def Store.addFlushed (s : Store) (n : ℕ) : Store :=
  { s with metadata := { s.metadata with totalFlushed := s.metadata.totalFlushed+n } }

def Store.addDropped (s : Store) (n : ℕ) : Store :=
  { s with metadata := { s.metadata with totalDropped := s.metadata.totalDropped+n } }

def before (stamp : Option ℤ) (t : ℤ) : Bool :=
  match stamp with
  | none => false
  | some a => decide (a < t)

def after (stamp : Option ℤ) (t : ℤ) : Bool :=
  match stamp with
  | none => false
  | some a => decide (t < a)

def isCriticalTopic (topic : String) : Bool :=
  startsWith topic "alerts/" || startsWith topic "events/"

def isCriticalRecord (r : MessageBufferRecord) : Bool :=
  r.isCritical == 1 || isCriticalTopic r.topic

def queuedUnlocked (r : MessageBufferRecord) : Bool :=
  r.status == .queued && r.lockId.isNone

def bytesOf (rs : List MessageBufferRecord) : ℕ := (rs.map MessageBufferRecord.payloadBytes).sum

def idIn (ids : List ℕ) (r : MessageBufferRecord) : Bool := ids.contains r.id

def chunk (ids : List ℕ) (k : ℕ) : List ℕ :=
  (ids.drop (idDeleteChunkSize*k)).take idDeleteChunkSize

def chunks (ids : List ℕ) : List (List ℕ) :=
  (List.range ((ids.length+(idDeleteChunkSize-1))/idDeleteChunkSize)).map (chunk ids)

def deleteChunks : List (List ℕ) → Rows → Rows × ℕ
  | [], t => (t,0)
  | c::cs, t =>
    let rest := deleteChunks cs (t.delete (idIn c))
    (rest.1,t.changes (idIn c)+rest.2)

def deleteIdsInChunks (t : Rows) (ids : List ℕ) : Rows × ℕ := deleteChunks (chunks ids) t

def getQueuedOldest (t : Rows) (limit : ℕ) : List MessageBufferRecord :=
  t.selectOldest MessageBufferRecord.createdAt queuedUnlocked limit

/-- The ids of the first `excess` records that are not critical. -/
def pickByCount : ℕ → List MessageBufferRecord → List ℕ
  | 0, _ => []
  | _, [] => []
  | n+1, r::rs => if isCriticalRecord r then pickByCount (n+1) rs else r.id::pickByCount n rs

/-- The ids of the first records that are not critical, until `bytes` is
down to the limit, together with the bytes they free. -/
def pickByBytes (bytes maxBytes : ℤ) : List MessageBufferRecord → ℕ → List ℕ × ℕ
  | [], removed => ([],removed)
  | r::rs, removed =>
    if bytes-removed ≤ maxBytes then ([],removed)
    else if isCriticalRecord r then pickByBytes bytes maxBytes rs removed
    else
      let rest := pickByBytes bytes maxBytes rs (removed+r.payloadBytes)
      (r.id::rest.1,rest.2)

def excessIds (maxRecords : ℤ) (t : Rows) : List ℕ :=
  let excess := (t.rows.length-maxRecords).toNat
  pickByCount excess (getQueuedOldest t (max (excess*3) (max excess 100)))

def enforceRecords (maxRecords : ℤ) : ℕ → Rows → Rows × ℕ
  | 0, t => (t,0)
  | fuel+1, t =>
    if maxRecords < t.rows.length then
      let oldestIds := excessIds maxRecords t
      if oldestIds.isEmpty then (t,0)
      else
        let deleted := deleteIdsInChunks t oldestIds
        let rest := enforceRecords maxRecords fuel deleted.1
        (rest.1,deleted.2+rest.2)
    else (t,0)

def ceilDiv (a b : ℕ) : ℕ := (a+(b-1))/b

def overflowIds (maxBytes : ℤ) (count bytes : ℕ) (t : Rows) : List ℕ × ℕ :=
  let average := if 0 < count then max 1 (ceilDiv bytes count) else 1
  let needed := max 1 (ceilDiv (bytes-maxBytes).toNat average)
  pickByBytes bytes maxBytes (getQueuedOldest t (max (needed*3) 100)) 0

def enforceBytes (maxBytes : ℤ) : ℕ → ℕ → ℕ → Rows → Rows × ℕ
  | 0, _, _, t => (t,0)
  | fuel+1, count, bytes, t =>
    if maxBytes < bytes then
      let picked := overflowIds maxBytes count bytes t
      if picked.1.isEmpty then (t,0)
      else
        let deleted := deleteIdsInChunks t picked.1
        let rest := enforceBytes maxBytes fuel (count-picked.1.length) (bytes-picked.2) deleted.1
        (rest.1,deleted.2+rest.2)
    else (t,0)

/-- Every pass of either loop deletes a row, so a pass more than the table
has rows is never reached. -/
def enforceQuotas (s : Store) : Store :=
  let records := enforceRecords s.metadata.maxRecords (s.table.rows.length+1) s.table
  let t := records.1
  let bytes := enforceBytes s.metadata.maxBytes (t.rows.length+1) t.rows.length (bytesOf t.rows) t
  { s with table := bytes.1 }.addDropped (records.2+bytes.2)

def newRow (ttlHours : ℤ) (record : NewRecord) (status : Status) (lockId : Option String)
    (lockedAt : Option ℤ) (now : ℤ) (id : ℕ) : MessageBufferRecord where
  id := id
  endpointName := record.endpointName
  topic := record.topic
  qos := record.qos
  payload := record.payload
  msgId := record.msgId
  isCritical := record.isCritical.getD 0
  status := status
  lockId := lockId
  lockedAt := lockedAt
  payloadBytes := record.payload.utf8ByteSize
  retryCount := 0
  lastRetryAt := none
  nextRetryAt := none
  lastError := none
  createdAt := now
  expiresAt := now+ttlHours*3600000

theorem newRow_id (ttlHours : ℤ) (record : NewRecord) (status : Status) (lockId : Option String)
    (lockedAt : Option ℤ) (now : ℤ) (id : ℕ) :
    (newRow ttlHours record status lockId lockedAt now id).id = id := rfl

def insertRecord (s : Store) (record : NewRecord) (status : Status) (lockId : Option String)
    (lockedAt : Option ℤ) (now : ℤ) : Store × ℕ :=
  let t := s.table.insert (newRow s.metadata.ttlHours record status lockId lockedAt now)
    (newRow_id _ _ _ _ _ _)
  (enforceQuotas ({ s with table := t }.addBuffered 1),s.table.next)

def enqueue (s : Store) (record : NewRecord) (now : ℤ) : Store × ℕ :=
  insertRecord s record .queued none none now

def enqueueClaimed (s : Store) (record : NewRecord) (lockId : String) (lockedAt now : ℤ) :
    Store × ℕ :=
  insertRecord s record .sending (some lockId) (some lockedAt) now

structure Scope where
  exact : Option String
  excludePrefix : Option String
  deriving DecidableEq, Repr

/-- An empty prefix is falsy and excludes nothing. -/
def scopeExcludePattern (scope : Scope) : Option String :=
  match scope.excludePrefix with
  | none => none
  | some pre => if pre = "" then none else some (pre++"%")

def inScope (scope : Scope) (endpointName : String) : Bool :=
  (match scope.exact with
    | none => true
    | some e => endpointName == e) &&
  (match scopeExcludePattern scope with
    | none => true
    | some pattern => !like endpointName pattern)

def claimable (lockCutoff : ℤ) (r : MessageBufferRecord) : Bool :=
  queuedUnlocked r || (r.status == .sending && before r.lockedAt lockCutoff)

def ready (now lockCutoff : ℤ) (maxRetries : Option ℕ) (scope : Scope)
    (r : MessageBufferRecord) : Bool :=
  claimable lockCutoff r &&
  !after r.nextRetryAt now &&
  (match maxRetries with
    | none => true
    | some m => decide (r.retryCount < m)) &&
  decide (now < r.expiresAt) &&
  inScope scope r.endpointName

def lockRow (lockId : String) (now : ℤ) (r : MessageBufferRecord) : MessageBufferRecord :=
  { r with status := .sending, lockId := some lockId, lockedAt := some now }

theorem lockRow_id (lockId : String) (now : ℤ) (r : MessageBufferRecord) :
    (lockRow lockId now r).id = r.id := rfl

def lockedBy (lockId : String) (r : MessageBufferRecord) : Bool :=
  r.lockId == some lockId && r.status == .sending

def dequeueReady (s : Store) (limit : ℤ) (now lockTimeoutMs : ℤ) (maxRetries : Option ℕ)
    (scope : Scope) (lockId : String) : Store × List MessageBufferRecord :=
  if limit ≤ 0 then (s,[])
  else
    let cutoff := now-lockTimeoutMs
    let candidates := s.table.selectOldest MessageBufferRecord.createdAt
      (ready now cutoff maxRetries scope) limit.toNat
    if candidates.isEmpty then (s,[])
    else
      let ids := candidates.map MessageBufferRecord.id
      let target := fun r => idIn ids r &&
        claimable cutoff r
      if s.table.changes target = 0 then (s,[])
      else
        let t := s.table.update target (lockRow lockId now) (lockRow_id lockId now)
        ({ s with table := t },
          (t.select (lockedBy lockId)).insertionSort (fun a b => a.createdAt ≤ b.createdAt))

structure BufferAdmissionDecision where
  canAccept : Bool
  currentCount : ℕ
  currentBytes : ℕ
  maxRecords : ℤ
  maxBytes : ℤ
  projectedCount : ℕ
  projectedBytes : ℕ
  exceedsCount : Bool
  exceedsBytes : Bool
  deriving DecidableEq, Repr

def canAcceptMessage (s : Store) (payloadBytes : ℕ) : BufferAdmissionDecision :=
  let count := s.table.rows.length
  let bytes := bytesOf s.table.rows
  let exceedsCount := decide (s.metadata.maxRecords < ((count+1 : ℕ) : ℤ))
  let exceedsBytes := decide (s.metadata.maxBytes < ((bytes+payloadBytes : ℕ) : ℤ))
  { canAccept := !exceedsCount && !exceedsBytes
    currentCount := count
    currentBytes := bytes
    maxRecords := s.metadata.maxRecords
    maxBytes := s.metadata.maxBytes
    projectedCount := count+1
    projectedBytes := bytes+payloadBytes
    exceedsCount := exceedsCount
    exceedsBytes := exceedsBytes }

def deleteByIds (s : Store) (ids : List ℕ) : Store × ℕ :=
  let deleted := deleteIdsInChunks s.table ids
  ({ s with table := deleted.1 }.addFlushed deleted.2,deleted.2)

def failRow (error : String) (nextRetryAt : Option ℤ) (now : ℤ) (r : MessageBufferRecord) :
    MessageBufferRecord :=
  { r with
    retryCount := r.retryCount+1
    lastRetryAt := some now
    lastError := some (String.ofList (JsonText.ofUnits ((JsSort.utf16 error).take 500)))
    nextRetryAt := nextRetryAt
    status := .queued
    lockId := none
    lockedAt := none }

theorem failRow_id (error : String) (nextRetryAt : Option ℤ) (now : ℤ) (r : MessageBufferRecord) :
    (failRow error nextRetryAt now r).id = r.id := rfl

def markRetryFailed (s : Store) (id : ℕ) (error : String) (nextRetryAt : Option ℤ) (now : ℤ) :
    Store :=
  let t := s.table.update (fun r => r.id == id) (failRow error nextRetryAt now)
    (failRow_id error nextRetryAt now)
  { s with table := t }

def pickOldest (limit : ℕ) (preserveCriticalTopics : Bool) (oldest : List MessageBufferRecord) :
    List ℕ :=
  if preserveCriticalTopics then pickByCount limit oldest
  else (oldest.take limit).map MessageBufferRecord.id

def deleteOldest (s : Store) (limit : ℤ) (preserveCriticalTopics : Bool) : Store × ℕ :=
  if limit ≤ 0 then (s,0)
  else
    let n := limit.toNat
    let ids := pickOldest n preserveCriticalTopics (getQueuedOldest s.table (max (n*3) n))
    if ids.isEmpty then (s,0)
    else
      let deleted := s.table.changes (idIn ids)
      ({ s with table := s.table.delete (idIn ids) }.addDropped deleted,deleted)

def dropByIds (s : Store) (ids : List ℕ) : Store × ℕ :=
  let deleted := deleteIdsInChunks s.table ids
  ({ s with table := deleted.1 }.addDropped deleted.2,deleted.2)

def incrementDropped (s : Store) (amount : ℤ) : Store :=
  if amount ≤ 0 then s else s.addDropped amount.toNat

def recoverRow (r : MessageBufferRecord) : MessageBufferRecord :=
  { r with status := .queued, lockId := none, lockedAt := none }

theorem recoverRow_id (r : MessageBufferRecord) : (recoverRow r).id = r.id := rfl

def sanitizeRow (r : MessageBufferRecord) : MessageBufferRecord :=
  { r with
    nextRetryAt := none
    lastError := some (r.lastError.getD ""++" | retry_at_sanitized") }

theorem sanitizeRow_id (r : MessageBufferRecord) : (sanitizeRow r).id = r.id := rfl

def expired (maxRetries : Option ℕ) (now : ℤ) (r : MessageBufferRecord) : Bool :=
  decide (r.expiresAt < now) ||
  (match maxRetries with
    | none => false
    | some m => decide (m ≤ r.retryCount))

def cleanupExpired (s : Store) (maxRetries : Option ℕ) (lockTimeoutMs now : ℤ) : Store × ℕ :=
  let recovered := s.table.update
    (fun r => r.status == .sending && before r.lockedAt (now-lockTimeoutMs))
    recoverRow recoverRow_id
  let sanitized := recovered.update
    (fun r => r.status == .queued && after r.nextRetryAt (now+30*24*60*60*1000))
    sanitizeRow sanitizeRow_id
  let deleted := sanitized.changes (expired maxRetries now)
  let cleaned := { s with table := sanitized.delete (expired maxRetries now) }
  if 0 < deleted then
    let counted := cleaned.addDropped deleted
    ({ counted with metadata := { counted.metadata with lastCleanupAt := now } },deleted)
  else (cleaned,deleted)

end Iotistica.BufferStore
