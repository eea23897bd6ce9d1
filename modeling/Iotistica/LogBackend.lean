import Iotistica.JsNumerals
import Iotistica.JsSort
import Iotistica.OrderedMap
import Iotistica.GuardedRun

/-!
# The cloud log backend over its spool

A batch id ends in the time of its creation and in a counter of the
process, and the spool reads these two numbers back from the text. One flush
runs at a time; between its awaits other log calls, the write timer of the
spool and the clock go on. What the flush learns from outside comes with an
event. File operations succeed, and a crash falls between two of them. The
history at the end of the state is kept for the statements only.
-/

set_option autoImplicit false

namespace Iotistica.CloudLog
open Iotistica.JsText Iotistica.JsSort
open Iotistica

inductive LogLevel where
  | debug
  | info
  | warn
  | error
  deriving DecidableEq

def LogLevel.text : LogLevel → String
  | .debug => "debug"
  | .info => "info"
  | .warn => "warn"
  | .error => "error"

inductive SourceType where
  | container
  | system
  | manager
  deriving DecidableEq

/-- The fields the sampler reads. The level is required by the type and
still looked for in the text where a caller leaves it out. -/
structure LogMessage where
  message : String
  level : Option LogLevel
  source : Option SourceType
  serviceName : Option String
  isSystem : Bool
  deriving DecidableEq

def detectLogLevel (log : LogMessage) : LogLevel :=
  match log.level with
  | some level => level
  | none =>
    let msg := toLowerCase log.message
    if ["[error]","[crit]","[alert]","[emerg]","error","fatal","critical"].any (includes msg) then
      .error
    else if ["[warn]","warning"].any (includes msg) then .warn
    else if ["[debug]","debug","trace"].any (includes msg) then .debug
    else .info

def isCriticalLog (log : LogMessage) : Bool :=
  let level := log.level.getD (detectLogLevel log)
  if level = .error ∨ level = .warn then true
  else if toLowerCase (orElse log.serviceName "") = "agent" then true
  else if log.isSystem then true
  else decide (log.source = some .system ∨ log.source = some .manager)

/-- `drawn` is the outcome of the deterministic sampling at the rate the
branch asks for. -/
def shouldSample (log : LogMessage) (circuitBreakerOpen drawn : Bool) : Bool :=
  if isCriticalLog log then true
  else if circuitBreakerOpen then
    match detectLogLevel log with
    | .error => true
    | .warn => true
    | .info => drawn
    | .debug => false
  else drawn

def textLength (s : String) : ℕ := (utf16 s).length

def estimateLogSize (log : LogMessage) : ℕ :=
  let messageLen := textLength log.message
  let serviceLen := (log.serviceName.map textLength).getD 0
  let levelLen := (log.level.map (textLength ∘ LogLevel.text)).getD 0
  let fixedOverhead := 220
  fixedOverhead+messageLen+serviceLen+levelLen

structure LogBatch where
  batchId : String
  logs : List LogMessage
  attempts : ℕ
  deriving DecidableEq

def batchIdText (deviceUuid : String) (timestamp counter : ℕ) : String :=
  deviceUuid++"-"++timestamp.repr++"-"++counter.repr

/-- Two runs of digits, each after a dash, at the end of the text; the
match is read from the end. -/
def parseBatchId (id : String) : Option (ℕ × ℕ) :=
  let chars := id.toList.reverse
  let counter := chars.takeWhile Char.isDigit
  match chars.dropWhile Char.isDigit with
  | '-'::rest =>
    let timestamp := rest.takeWhile Char.isDigit
    match rest.dropWhile Char.isDigit with
    | '-'::_ =>
      if counter = [] ∨ timestamp = [] then none
      else some (Nat.ofDigitChars 10 timestamp.reverse 0,Nat.ofDigitChars 10 counter.reverse 0)
    | _ => none
  | _ => none

/-- `localeCompare` is the collation of the runtime, asked for ids of
another form only. -/
def compareBatchIds (localeCompare : String → String → ℤ) (a b : String) : ℤ :=
  match parseBatchId a, parseBatchId b with
  | some pa, some pb =>
    if pa.1 ≠ pb.1 then (pa.1 : ℤ)-pb.1 else (pa.2 : ℤ)-pb.2
  | _, _ => localeCompare a b

theorem takeWhile_reverse_digits {ds cs : List Char} (hd : ∀ c ∈ ds, c.isDigit = true) :
    (ds.reverse++ '-'::cs).takeWhile Char.isDigit = ds.reverse := by
  rw [List.takeWhile_append_of_pos (by simpa using hd)]
  simp

theorem dropWhile_reverse_digits {ds cs : List Char} (hd : ∀ c ∈ ds, c.isDigit = true) :
    (ds.reverse++ '-'::cs).dropWhile Char.isDigit = '-'::cs := by
  rw [List.dropWhile_append_of_pos (by simpa using hd)]
  simp

theorem repr_toList_ne_nil (n : ℕ) : n.repr.toList ≠ [] := by
  rw [Nat.toList_repr]
  exact Nat.toDigits_ne_nil

theorem ofDigitChars_repr (n : ℕ) : Nat.ofDigitChars 10 n.repr.toList 0 = n := by
  rw [Nat.toList_repr]
  exact Nat.ofDigitChars_ten_toDigits

theorem parseBatchId_batchIdText (deviceUuid : String) (timestamp counter : ℕ) :
    parseBatchId (batchIdText deviceUuid timestamp counter) = some (timestamp,counter) := by
  have hl : (batchIdText deviceUuid timestamp counter).toList.reverse
      = counter.repr.toList.reverse
        ++ '-'::(timestamp.repr.toList.reverse++ '-'::deviceUuid.toList.reverse) := by
    simp [batchIdText]
  have hc : ∀ c ∈ counter.repr.toList, c.isDigit = true :=
    fun c h => JsNumerals.isDigit_of_mem_repr h
  have ht : ∀ c ∈ timestamp.repr.toList, c.isDigit = true :=
    fun c h => JsNumerals.isDigit_of_mem_repr h
  unfold parseBatchId
  simp only [hl, takeWhile_reverse_digits hc, dropWhile_reverse_digits hc,
    takeWhile_reverse_digits ht, dropWhile_reverse_digits ht, List.reverse_eq_nil_iff,
    repr_toList_ne_nil, or_self, if_false, List.reverse_reverse, ofDigitChars_repr]

theorem compareBatchIds_batchIdText (localeCompare : String → String → ℤ) (deviceUuid : String)
    (t n t' n' : ℕ) :
    compareBatchIds localeCompare (batchIdText deviceUuid t n) (batchIdText deviceUuid t' n') ≤ 0
      ↔ t < t' ∨ (t = t' ∧ n ≤ n') := by
  unfold compareBatchIds
  simp only [parseBatchId_batchIdText]
  split <;> omega

theorem batchIdText_injective {deviceUuid : String} {t n t' n' : ℕ}
    (h : batchIdText deviceUuid t n = batchIdText deviceUuid t' n') : t = t' ∧ n = n' := by
  have hp := parseBatchId_batchIdText deviceUuid t n
  rw [h, parseBatchId_batchIdText] at hp
  simp only [Option.some.injEq, Prod.mk.injEq] at hp
  exact ⟨hp.1.symm,hp.2.symm⟩

example : parseBatchId "ab-cd-17-3" = some (17,3) := by decide +kernel

structure Config where
  deviceUuid : String
  bufferSize : ℕ
  spool : Bool
  jsonLength : LogMessage → ℕ
  localeCompare : String → String → ℤ

/-- The last file is the active one. `chunks` are the lines that wait for
the next append. -/
structure Spool where
  files : List (List LogBatch)
  chunks : List LogBatch
  lastAckBatchId : Option String

inductive Phase where
  | idle
  | writing (batches : List LogBatch)
  | sending (logBatch : LogBatch) (attempt : ℕ) (rest : List LogBatch)
  | advancing (logBatch : LogBatch) (rest : List LogBatch)
  | settling
  | clearing (file : ℕ)
  | pruning (lastAckBatchId : String) (file : ℕ)
  deriving DecidableEq

/-- Batches with a matching acknowledgement, batches given up after their
retries, and batches a prune, a clear or a replay left out. -/
structure History where
  acked : List LogBatch
  dropped : List LogBatch
  removed : List LogBatch

structure Backend where
  buffer : List LogMessage
  bufferBytes : ℕ
  sampledLogCount : ℕ
  pendingBatches : OrderedMap String LogBatch
  nextBatchId : ℕ
  retryFailures : ℕ
  consecutiveFailures : ℕ
  circuitBreakerOpen : Bool
  circuitBreakerOpenedAt : ℕ
  totalLogsDropped : ℕ
  phase : Phase
  now : ℕ
  spool : Spool
  history : History

def CIRCUIT_BREAKER_THRESHOLD : ℕ := 10

def CIRCUIT_BREAKER_RESET_MS : ℕ := 60000

def MAX_OFFLINE_BUFFER_BYTES : ℕ := 10*1024*1024

def maxAttempts : ℕ := 5

def boot (now : ℕ) (spool : Spool) (history : History) : Backend where
  buffer := []
  bufferBytes := 0
  sampledLogCount := 0
  pendingBatches := OrderedMap.empty
  nextBatchId := 0
  retryFailures := 0
  consecutiveFailures := 0
  circuitBreakerOpen := false
  circuitBreakerOpenedAt := 0
  totalLogsDropped := 0
  phase := .idle
  now := now
  spool := spool
  history := history

def fresh (now : ℕ) : Backend := boot now ⟨[[]],[],none⟩ ⟨[],[],[]⟩

/-- The oldest rotated segments go first, then the oldest lines of the
active file. -/
structure Cap where
  segments : ℕ
  lines : ℕ

def enforceCap (cap : Cap) (files : List (List LogBatch)) : List (List LogBatch) :=
  files.dropLast.drop cap.segments++[(files.getLastD []).drop cap.lines]

def appendActive (files : List (List LogBatch)) (batches : List LogBatch) :
    List (List LogBatch) :=
  files.dropLast++[files.getLastD []++batches]

/-- One append of all waiting lines, a rotation when the active file has
grown too large, then the size cap. -/
def Spool.flushWriteBuffer (sp : Spool) (rotated : Bool) (cap : Cap) : Spool :=
  if sp.chunks.isEmpty then sp
  else
    let files := appendActive sp.files sp.chunks
    let files := if rotated then files++[[]] else files
    { sp with files := enforceCap cap files, chunks := [] }

def Spool.write (sp : Spool) (batches : List LogBatch) : Spool :=
  { sp with chunks := sp.chunks++batches }

def isBatchAcked (cfg : Config) (batchId : String) (lastAckBatchId : Option String) : Bool :=
  match lastAckBatchId with
  | none => false
  | some last => decide (compareBatchIds cfg.localeCompare batchId last ≤ 0)

def Spool.updateAckCursor (cfg : Config) (sp : Spool) (batchId : String) : Spool :=
  match sp.lastAckBatchId with
  | none => { sp with lastAckBatchId := some batchId }
  | some last =>
    if compareBatchIds cfg.localeCompare batchId last > 0 then
      { sp with lastAckBatchId := some batchId }
    else sp

structure Plan where
  maxBatchSize : ℕ
  maxBatchBytes : ℕ
  delays : List ℕ

structure Cutter where
  logBatches : List LogBatch
  currentBatch : List LogMessage
  currentBatchBytes : ℕ
  nextBatchId : ℕ
  now : ℕ
  delays : List ℕ

def Cutter.cut (cfg : Config) (c : Cutter) : Cutter :=
  let timestamp := c.now+c.delays.headD 0
  { logBatches := c.logBatches
      ++ [⟨batchIdText cfg.deviceUuid timestamp c.nextBatchId,c.currentBatch,0⟩]
    currentBatch := []
    currentBatchBytes := 0
    nextBatchId := c.nextBatchId+1
    now := timestamp
    delays := c.delays.tail }

def Cutter.push (cfg : Config) (plan : Plan) (c : Cutter) (log : LogMessage) : Cutter :=
  let logSize := cfg.jsonLength log+1
  let wouldExceedSize := c.currentBatchBytes+logSize > plan.maxBatchBytes
  let wouldExceedCount := c.currentBatch.length ≥ plan.maxBatchSize
  let c := if (wouldExceedSize ∨ wouldExceedCount) ∧ c.currentBatch.length > 0 then c.cut cfg
    else c
  { c with
    currentBatch := c.currentBatch++[log]
    currentBatchBytes := c.currentBatchBytes+logSize }

def Cutter.finish (cfg : Config) (c : Cutter) : Cutter :=
  if c.currentBatch.length > 0 then c.cut cfg else c

def cutBuffer (cfg : Config) (plan : Plan) (s : Backend) : Cutter :=
  (s.buffer.foldl (Cutter.push cfg plan) ⟨[],[],0,s.nextBatchId,s.now,plan.delays⟩).finish cfg

/-- The batch object is the one the map holds, so its count of attempts is
seen there too. -/
def countAttempt (batchId : String) (b : LogBatch) : LogBatch :=
  if b.batchId = batchId then { b with attempts := b.attempts+1 } else b

def sendNext (cfg : Config) (s : Backend) : List LogBatch → Backend
  | [] => { s with phase := if cfg.spool then .settling else .idle }
  | b::rest =>
    { s with
      pendingBatches := s.pendingBatches.mapValues (countAttempt b.batchId)
      phase := .sending { b with attempts := b.attempts+1 } 1 rest }

def shed (s : Backend) : Backend :=
  let kept := s.buffer.filter isCriticalLog
  let dropped := s.buffer.filter (fun log => !isCriticalLog log)
  { s with
    totalLogsDropped := s.totalLogsDropped+dropped.length
    buffer := kept
    bufferBytes := kept.foldl (fun bytes log => bytes+estimateLogSize log) 0 }

def closeBreaker (s : Backend) : Backend :=
  if s.circuitBreakerOpen then { s with circuitBreakerOpen := false, consecutiveFailures := 0 }
  else s

/-- New batches are the ones sent; older ones wait for a flush without new
logs. -/
def sendBuffer (cfg : Config) (plan : Plan) (s : Backend) : Backend :=
  let c := cutBuffer cfg plan s
  let s := { s with nextBatchId := c.nextBatchId, now := c.now }
  if c.logBatches.isEmpty then sendNext cfg s (s.pendingBatches.entries.map Prod.snd)
  else
    let s := { s with
      pendingBatches := s.pendingBatches.assignAll (c.logBatches.map (fun b => (b.batchId,b)))
      buffer := []
      bufferBytes := 0 }
    if cfg.spool then
      { s with spool := s.spool.write c.logBatches, phase := .writing c.logBatches }
    else sendNext cfg s c.logBatches

def flush (cfg : Config) (plan : Plan) (s : Backend) : Backend :=
  match s.phase with
  | .idle =>
    if s.buffer.isEmpty && s.pendingBatches.size == 0 then s
    else if s.circuitBreakerOpen && decide (s.now-s.circuitBreakerOpenedAt < CIRCUIT_BREAKER_RESET_MS)
    then shed s
    else sendBuffer cfg plan (closeBreaker s)
  | _ => s

def log (cfg : Config) (s : Backend) (logMessage : LogMessage) (drawn : Bool) (plan : Plan) :
    Backend :=
  if !shouldSample logMessage s.circuitBreakerOpen drawn then s
  else
    let s := { s with sampledLogCount := s.sampledLogCount+1 }
    if s.circuitBreakerOpen && decide (s.bufferBytes > MAX_OFFLINE_BUFFER_BYTES)
        && !isCriticalLog logMessage then s
    else
      let s := { s with
        buffer := s.buffer++[logMessage]
        bufferBytes := s.bufferBytes+estimateLogSize logMessage }
      if s.bufferBytes > cfg.bufferSize then flush cfg plan s else s

/-- What a request came to: a body with or without an id, a `null` body, or
an error the retry policy classifies. -/
inductive Reply where
  | ack (batchId : Option String)
  | noBody
  | failed (retryable : Bool)
  deriving DecidableEq

def onFailure (s : Backend) : Backend :=
  let failures := s.consecutiveFailures+1
  if failures ≥ CIRCUIT_BREAKER_THRESHOLD ∧ ¬s.circuitBreakerOpen then
    { s with
      consecutiveFailures := failures
      circuitBreakerOpen := true
      circuitBreakerOpenedAt := s.now }
  else { s with consecutiveFailures := failures }

def drop (s : Backend) (b : LogBatch) : Backend :=
  { s with
    totalLogsDropped := s.totalLogsDropped+b.logs.length
    pendingBatches := s.pendingBatches.delete b.batchId
    history := { s.history with dropped := s.history.dropped++[b] } }

def failBatch (cfg : Config) (s : Backend) (b : LogBatch) (rest : List LogBatch) : Backend :=
  if s.retryFailures ≥ maxAttempts ∨ b.attempts ≥ 10 then sendNext cfg (drop s b) rest
  else sendNext cfg s rest

def acknowledge (s : Backend) (b : LogBatch) : Backend :=
  { s with
    pendingBatches := s.pendingBatches.delete b.batchId
    history := { s.history with acked := s.history.acked++[b] } }

def succeed (cfg : Config) (s : Backend) (rest : List LogBatch) : Backend :=
  sendNext cfg
    { s with consecutiveFailures := 0, circuitBreakerOpen := false, retryFailures := 0 } rest

def receive (cfg : Config) (s : Backend) (b : LogBatch) (attempt : ℕ) (rest : List LogBatch) :
    Reply → Backend
  | .ack batchId =>
    let s := { s with retryFailures := 0 }
    if batchId ≠ some b.batchId then sendNext cfg s rest
    else if cfg.spool then { acknowledge s b with phase := .advancing b rest }
    else succeed cfg (acknowledge s b) rest
  | .noBody => failBatch cfg { s with retryFailures := 0 } b rest
  | .failed retryable =>
    let s := { s with retryFailures := s.retryFailures+1 }
    if !retryable || decide (attempt ≥ maxAttempts) then failBatch cfg (onFailure s) b rest
    else { s with phase := .sending b (attempt+1) rest }

def settle (s : Backend) (rotated : Bool) (cap : Cap) : Backend :=
  let s := { s with spool := s.spool.flushWriteBuffer rotated cap }
  if s.pendingBatches.size = 0 then { s with phase := .clearing 0 }
  else
    match s.spool.lastAckBatchId with
    | none => { s with phase := .idle }
    | some last => { s with phase := .pruning last 0 }

def removeFrom (s : Backend) (file : ℕ) (gone : LogBatch → Bool) : Backend :=
  let batches := s.spool.files.getD file []
  { s with
    spool := { s.spool with files := s.spool.files.set file (batches.filter (fun b => !gone b)) }
    history := { s.history with removed := s.history.removed++batches.filter gone } }

def sweep (cfg : Config) (s : Backend) : Backend :=
  match s.phase with
  | .clearing file =>
    if file < s.spool.files.length then
      { removeFrom s file (fun _ => true) with phase := .clearing (file+1) }
    else { s with phase := .idle }
  | .pruning last file =>
    if file < s.spool.files.length then
      { removeFrom s file (fun b => isBatchAcked cfg b.batchId (some last)) with
        phase := .pruning last (file+1) }
    else { s with phase := .idle }
  | _ => s

inductive Work where
  | tick (ms : ℕ)
  | log (logMessage : LogMessage) (drawn : Bool) (plan : Plan)
  | flush (plan : Plan)
  | written
  | reply (reply : Reply)
  | cursorSaved
  | writeOut (rotated : Bool) (cap : Cap)
  | settle (rotated : Bool) (cap : Cap)
  | sweep

def work (cfg : Config) (s : Backend) : Work → Backend
  | .tick ms => { s with now := s.now+ms }
  | .log logMessage drawn plan => log cfg s logMessage drawn plan
  | .flush plan => flush cfg plan s
  | .written =>
    match s.phase with
    | .writing batches => sendNext cfg s batches
    | _ => s
  | .reply reply =>
    match s.phase with
    | .sending b attempt rest => receive cfg s b attempt rest reply
    | _ => s
  | .cursorSaved =>
    match s.phase with
    | .advancing b rest =>
      succeed cfg { s with spool := s.spool.updateAckCursor cfg b.batchId } rest
    | _ => s
  | .writeOut rotated cap => { s with spool := s.spool.flushWriteBuffer rotated cap }
  | .settle rotated cap =>
    match s.phase with
    | .settling => settle s rotated cap
    | _ => s
  | .sweep => sweep cfg s

/-- The process dies and starts again: memory is lost, the files and the
cursor are read back. At least a millisecond goes by. -/
def restart (cfg : Config) (s : Backend) (downtime : ℕ) (cap : Cap) : Backend :=
  if cfg.spool then
    let spool : Spool := ⟨enforceCap cap s.spool.files,[],s.spool.lastAckBatchId⟩
    let lines := spool.files.flatten
    let acked := fun b : LogBatch => isBatchAcked cfg b.batchId spool.lastAckBatchId
    let s' := boot (s.now+downtime+1) spool
      { s.history with removed := s.history.removed++lines.filter acked }
    { s' with
      pendingBatches := s'.pendingBatches.assignAll
        ((lines.filter (fun b => !acked b)).map (fun b => (b.batchId,b))) }
  else boot (s.now+downtime+1) s.spool s.history

inductive Event where
  | work (w : Work)
  | restart (downtime : ℕ) (cap : Cap)

def step (cfg : Config) (s : Backend) : Event → Backend
  | .work w => work cfg s w
  | .restart downtime cap => restart cfg s downtime cap

end Iotistica.CloudLog
