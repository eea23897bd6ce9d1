import Mathlib.Data.Int.Notation
import Mathlib.Data.List.Basic
import Mathlib.Logic.Function.Basic

/-!
# The workers of the ingestion service

Any number of worker loops read entries from one stream, decode them, hand
the data to the database or the spool and acknowledge the entries. A worker
stands where it awaits; what it awaits comes back as an event, in any order
among the workers. Deliveries are free: an entry may come again, to any
worker, as a stale claim or after a restart. Entries stand for themselves by
their ids, and what an entry decodes to comes with the event, as decoding may
fail or differ from one time to the next.
-/

set_option autoImplicit false

namespace Iotistica.Ingestion

inductive CircuitState where
  | closed
  | opened
  | halfOpen
  deriving DecidableEq

structure RedisCircuitBreaker where
  state : CircuitState
  failureCount : ℕ
  successCount : ℕ
  lastFailureTime : ℤ
  deriving DecidableEq

def failureThreshold : ℕ := 5
def successThreshold : ℕ := 3
def timeoutMs : ℤ := 30000

namespace RedisCircuitBreaker

def fresh : RedisCircuitBreaker := ⟨.closed,0,0,0⟩

def recordSuccess (b : RedisCircuitBreaker) : RedisCircuitBreaker :=
  if b.state = .halfOpen then
    if successThreshold ≤ b.successCount+1 then
      { b with failureCount := 0, state := .closed, successCount := 0 }
    else { b with failureCount := 0, successCount := b.successCount+1 }
  else { b with failureCount := 0 }

def recordFailure (b : RedisCircuitBreaker) (now : ℤ) : RedisCircuitBreaker :=
  { b with
    successCount := 0
    failureCount := b.failureCount+1
    lastFailureTime := now
    state :=
      if b.state = .closed ∧ failureThreshold ≤ b.failureCount+1 then .opened
      else if b.state = .halfOpen then .opened
      else b.state }

def shouldAllowRequest (b : RedisCircuitBreaker) (now : ℤ) : Bool × RedisCircuitBreaker :=
  match b.state with
  | .closed => (true,b)
  | .opened =>
    if timeoutMs ≤ now-b.lastFailureTime then (true,{ b with state := .halfOpen, failureCount := 0 })
    else (false,b)
  | .halfOpen => (true,b)

end RedisCircuitBreaker

structure RecentMessageTracker where
  maxSize : ℕ
  queue : List String
  deriving DecidableEq

namespace RecentMessageTracker

def fresh : RecentMessageTracker := ⟨50000,[]⟩

def has (t : RecentMessageTracker) (id : String) : Bool := decide (id ∈ t.queue)

def mark (t : RecentMessageTracker) (id : String) : RecentMessageTracker :=
  if t.has id then t
  else if t.maxSize < (t.queue++[id]).length then { t with queue := (t.queue++[id]).tail }
  else { t with queue := t.queue++[id] }

def markAll (t : RecentMessageTracker) (ids : List String) : RecentMessageTracker :=
  ids.foldl mark t

end RecentMessageTracker

variable {D : Type}

inductive Slot (D : Type) where
  | pending
  /-- Its decoding failed and its dead letter is awaited. -/
  | failed
  | done (data : Option (List D))

inductive AfterAck (D : Type) where
  | exit
  | empty (pendingAck : List String)
  | spooledOpen (alreadySeenIds pendingAck : List String)
  | inserted (alreadySeenIds pendingAck : List String) (allData : List D)
  | spooledFailed (alreadySeenIds pendingAck : List String)
  /-- The failures of the batch are handled next. -/
  | failing (pendingAck : List String)

inductive Place where
  /-- The spool, as the circuit is open. -/
  | spoolOpen
  | insert
  /-- The spool, as the insert failed. -/
  | spoolFailed
  deriving DecidableEq

inductive Phase (D : Type) where
  | idle
  /-- Messages without a readable payload go to the dead letters first. -/
  | parsed (parseErrors entries : List String)
  | resolving (alreadySeenIds : List String) (chunk : List (String × Slot D)) (rest : List String)
      (pendingAck : List String) (allData : List D)
  | storing (place : Place) (alreadySeenIds pendingAck : List String) (allData : List D)
  | acking (ids : List String) (after : AfterAck D)
  /-- The failure count of the first entry is awaited. -/
  | counting (entries : List String)
  | deadLettering (id : String) (entries : List String)

structure Config where
  dbSpoolEnabled : Bool
  maxRetries : ℕ

structure State (D : Type) where
  workers : ℕ → Phase D
  messageTracker : RecentMessageTracker
  dbCircuitBreaker : RedisCircuitBreaker
  /-- The spool directory is there and can be written. -/
  spoolReady : Bool
  now : ℤ
  acked : List String
  /-- The arguments of successful inserts and spool writes. -/
  stored : List (List D)
  decoded : List (String × List D)
  deadLetters : List String

def initial (now : ℤ) : State D where
  workers _ := .idle
  messageTracker := .fresh
  dbCircuitBreaker := .fresh
  spoolReady := false
  now := now
  acked := []
  stored := []
  decoded := []
  deadLetters := []

def goto (s : State D) (w : ℕ) (phase : Phase D) : State D :=
  { s with workers := Function.update s.workers w phase }

def handleBatchFailures (s : State D) (w : ℕ) (entries : List String) : State D :=
  goto s w (if entries = [] then .idle else .counting entries)

def markAll (s : State D) (ids : List String) : State D :=
  { s with messageTracker := s.messageTracker.markAll ids }

def ackReturned (s : State D) (w : ℕ) : AfterAck D → State D
  | .exit => goto s w .idle
  | .empty pendingAck => goto (markAll s pendingAck) w .idle
  | .spooledOpen _ pendingAck => goto (markAll s pendingAck) w .idle
  | .inserted _ pendingAck _ => goto (markAll s pendingAck) w .idle
  | .spooledFailed _ pendingAck => goto (markAll s pendingAck) w .idle
  | .failing pendingAck => handleBatchFailures s w pendingAck

def xackBatch (s : State D) (w : ℕ) (ids : List String) (after : AfterAck D) : State D :=
  if ids = [] then ackReturned s w after else goto s w (.acking ids after)

def insertFailed (cfg : Config) (s : State D) (w : ℕ) (alreadySeenIds pendingAck : List String)
    (allData : List D) : State D :=
  let s := { s with dbCircuitBreaker := s.dbCircuitBreaker.recordFailure s.now }
  if cfg.dbSpoolEnabled && s.spoolReady then
    goto s w (.storing .spoolFailed alreadySeenIds pendingAck allData)
  else xackBatch s w alreadySeenIds (.failing pendingAck)

/-- An exception of the acknowledgement goes to the handler around it, or out
of the batch where there is none. -/
def ackThrew (cfg : Config) (s : State D) (w : ℕ) : AfterAck D → State D
  | .exit => goto s w .idle
  | .empty _ => goto s w .idle
  | .spooledOpen alreadySeenIds _ => xackBatch s w alreadySeenIds .exit
  | .inserted alreadySeenIds pendingAck allData =>
    insertFailed cfg s w alreadySeenIds pendingAck allData
  | .spooledFailed alreadySeenIds pendingAck => xackBatch s w alreadySeenIds (.failing pendingAck)
  | .failing _ => goto s w .idle

def storeReturned (s : State D) (w : ℕ) (place : Place) (alreadySeenIds pendingAck : List String)
    (allData : List D) : State D :=
  let s := { s with stored := s.stored++[allData] }
  match place with
  | .spoolOpen => xackBatch s w (alreadySeenIds++pendingAck) (.spooledOpen alreadySeenIds pendingAck)
  | .insert =>
    let s := { s with dbCircuitBreaker := s.dbCircuitBreaker.recordSuccess }
    xackBatch s w (alreadySeenIds++pendingAck) (.inserted alreadySeenIds pendingAck allData)
  | .spoolFailed =>
    xackBatch s w (alreadySeenIds++pendingAck) (.spooledFailed alreadySeenIds pendingAck)

def storeThrew (cfg : Config) (s : State D) (w : ℕ) (place : Place)
    (alreadySeenIds pendingAck : List String) (allData : List D) : State D :=
  match place with
  | .spoolOpen => xackBatch s w alreadySeenIds .exit
  | .insert => insertFailed cfg s w alreadySeenIds pendingAck allData
  | .spoolFailed => xackBatch s w alreadySeenIds (.failing pendingAck)

def resolved (cfg : Config) (s : State D) (w : ℕ) (alreadySeenIds pendingAck : List String)
    (allData : List D) : State D :=
  if allData.isEmpty then xackBatch s w (alreadySeenIds++pendingAck) (.empty pendingAck)
  else if cfg.dbSpoolEnabled then
    let (allowed,breaker) := s.dbCircuitBreaker.shouldAllowRequest s.now
    goto { s with dbCircuitBreaker := breaker } w
      (.storing (if allowed then .insert else .spoolOpen) alreadySeenIds pendingAck allData)
  else goto s w (.storing .insert alreadySeenIds pendingAck allData)

def RESOLVE_ENTRY_CONCURRENCY : ℕ := 8

def resolveFreshEntries (cfg : Config) (s : State D) (w : ℕ) (alreadySeenIds : List String)
    (rest pendingAck : List String) (allData : List D) : State D :=
  if rest = [] then resolved cfg s w alreadySeenIds pendingAck allData
  else
    goto s w (.resolving alreadySeenIds
      ((rest.take RESOLVE_ENTRY_CONCURRENCY).map (fun id => (id,.pending)))
      (rest.drop RESOLVE_ENTRY_CONCURRENCY) pendingAck allData)

def processBatch (cfg : Config) (s : State D) (w : ℕ) (entries : List String) : State D :=
  let alreadySeenIds := entries.filter s.messageTracker.has
  let fresh := entries.filter (fun id => !s.messageTracker.has id)
  if fresh = [] then xackBatch s w alreadySeenIds .exit
  else resolveFreshEntries cfg s w alreadySeenIds fresh [] []

def received (cfg : Config) (s : State D) (w : ℕ) (parseErrors entries : List String) : State D :=
  if parseErrors = [] then
    if entries = [] then goto s w .idle else processBatch cfg s w entries
  else goto s w (.parsed parseErrors entries)

def Slot.isDone : Slot D → Bool
  | .done _ => true
  | _ => false

def resolvedEntries (chunk : List (String × Slot D)) : List (String × List D) :=
  chunk.filterMap (fun e =>
    match e.2 with
    | .done (some data) => some (e.1,data)
    | _ => none)

def slotDone (cfg : Config) (s : State D) (w : ℕ) (alreadySeenIds : List String)
    (chunk : List (String × Slot D)) (rest pendingAck : List String) (allData : List D) : State D :=
  if chunk.all (fun e => e.2.isDone) then
    resolveFreshEntries cfg s w alreadySeenIds rest
      (pendingAck++(resolvedEntries chunk).map Prod.fst)
      (allData++((resolvedEntries chunk).map Prod.snd).flatten)
  else goto s w (.resolving alreadySeenIds chunk rest pendingAck allData)

/-- One script stores the dead letter and acknowledges the entry; if it fails
it does neither. -/
def moveToDLQ (s : State D) (id : String) (stored : Bool) : State D :=
  if stored then { s with deadLetters := s.deadLetters++[id], acked := s.acked++[id] } else s

inductive Event (D : Type) where
  | delivered (w : ℕ) (parseErrors entries : List String)
  /-- The rest of a stale claim is left alone. -/
  | claimAborted (w : ℕ)
  /-- The `i`-th entry of a chunk is decoded, or its decoding failed. -/
  | decoded (w i : ℕ) (data : Option (List D))
  /-- `i` is the entry of the chunk, where there is one. -/
  | deadLettered (w i : ℕ) (stored : Bool)
  | storeDone (w : ℕ) (ok : Bool)
  /-- The command may be carried out and its reply lost, or fail in silence. -/
  | ackDone (w : ℕ) (applied thrown : Bool)
  | counted (w : ℕ) (attempts : Option ℕ)
  | spoolInitialized
  /-- The insert of a replayed batch went through or failed. -/
  | replayed (ok : Bool)
  | tick (ms : ℕ)
  | restart

def decodeDone (cfg : Config) (s : State D) (w i : ℕ) (data : Option (List D)) : State D :=
  match s.workers w with
  | .resolving seen chunk rest pendingAck allData =>
    match chunk[i]?, data with
    | some (id,.pending), some data =>
      slotDone cfg { s with decoded := s.decoded++[(id,data)] } w seen
        (chunk.set i (id,.done (some data))) rest pendingAck allData
    | some (id,.pending), none =>
      goto s w (.resolving seen (chunk.set i (id,.failed)) rest pendingAck allData)
    | _, _ => s
  | _ => s

def deadLetterDone (cfg : Config) (s : State D) (w i : ℕ) (stored : Bool) : State D :=
  match s.workers w with
  | .parsed (id::parseErrors) entries => received cfg (moveToDLQ s id stored) w parseErrors entries
  | .resolving seen chunk rest pendingAck allData =>
    match chunk[i]? with
    | some (id,.failed) =>
      slotDone cfg (moveToDLQ s id stored) w seen (chunk.set i (id,.done none)) rest pendingAck allData
    | _ => s
  | .deadLettering id entries => handleBatchFailures (moveToDLQ s id stored) w entries
  | _ => s

def step (cfg : Config) (s : State D) : Event D → State D
  | .delivered w parseErrors entries =>
    match s.workers w with
    | .idle => received cfg s w parseErrors entries
    | _ => s
  | .claimAborted w =>
    match s.workers w with
    | .parsed _ _ => goto s w .idle
    | _ => s
  | .decoded w i data => decodeDone cfg s w i data
  | .deadLettered w i stored => deadLetterDone cfg s w i stored
  | .storeDone w ok =>
    match s.workers w with
    | .storing place seen pendingAck allData =>
      if ok then storeReturned s w place seen pendingAck allData
      else storeThrew cfg s w place seen pendingAck allData
    | _ => s
  | .ackDone w applied thrown =>
    match s.workers w with
    | .acking ids after =>
      let s := if applied then { s with acked := s.acked++ids } else s
      if thrown then ackThrew cfg s w after else ackReturned s w after
    | _ => s
  | .counted w attempts =>
    match s.workers w with
    | .counting (id::entries) =>
      if attempts.any (fun n => decide (cfg.maxRetries ≤ n)) then goto s w (.deadLettering id entries)
      else handleBatchFailures s w entries
    | _ => s
  | .spoolInitialized => { s with spoolReady := true }
  | .replayed ok =>
    { s with
      dbCircuitBreaker :=
        if ok then s.dbCircuitBreaker.recordSuccess else s.dbCircuitBreaker.recordFailure s.now }
  | .tick ms => { s with now := s.now+ms }
  | .restart =>
    { s with
      workers := fun _ => .idle
      messageTracker := .fresh
      dbCircuitBreaker := .fresh
      spoolReady := false }

end Iotistica.Ingestion
