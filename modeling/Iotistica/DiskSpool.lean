import Iotistica.IngestionWorker
import Iotistica.OrderedMap
import Mathlib.Data.List.MinMax

/-!
# The disk spool and its replayer

Batches are appended to numbered files, and a tick of the replayer takes the
oldest file: it reads it, removes it and hands its batches over one by one.
Calls of `spoolToDisk` and ticks run beside each other, each standing at what
it awaits; the file operations succeed, a call that fails throws, and the
process may crash in between. The spool looks at a circuit breaker of its own
module, the consumer records its outcomes at another one.
-/

set_option autoImplicit false

namespace Iotistica.DiskSpool
open Iotistica Iotistica.Ingestion

structure Batch where
  serial : ℕ
  size : ℕ
  deriving DecidableEq

inductive Call where
  | none
  /-- The size of the spool directory is awaited. -/
  | measuring (size : ℕ)
  | listingOldest (size : ℕ)
  | removingOldest (size file : ℕ)
  /-- The batch is appended, and it may be in the file already. -/
  | appending (size file : ℕ) (landed : Bool)
  deriving DecidableEq

inductive Tick where
  | idle
  | listing
  | reading (file : ℕ)
  | removing (file : ℕ) (lines : List Batch)
  /-- The first batch is awaited from the consumer. -/
  | handing (lines : List Batch)
  deriving DecidableEq

structure State where
  files : OrderedMap ℕ (List Batch)
  currentFile : Option ℕ
  currentSize : ℕ
  fileIndex : ℕ
  /-- The breaker that the replayer looks at. -/
  spoolBreaker : RedisCircuitBreaker
  /-- The breaker that the consumer updates. -/
  dbCircuitBreaker : RedisCircuitBreaker
  calls : ℕ → Call
  issued : ℕ
  ticks : ℕ → Tick
  fired : ℕ
  now : ℤ
  /-- The batches whose call resolved. -/
  resolved : List Batch
  accepted : List Batch
  /-- The batches of files deleted by the size limit. -/
  evicted : List Batch
  /-- The state of the consumer's breaker at each replay. -/
  replays : List CircuitState

def initial (now : ℤ) : State where
  files := .empty
  currentFile := none
  currentSize := 0
  fileIndex := 0
  spoolBreaker := .fresh
  dbCircuitBreaker := .fresh
  calls _ := .none
  issued := 0
  ticks _ := .idle
  fired := 0
  now := now
  resolved := []
  accepted := []
  evicted := []
  replays := []

def content (files : OrderedMap ℕ (List Batch)) (file : ℕ) : List Batch := (files.get? file).getD []

def oldest (files : OrderedMap ℕ (List Batch)) : Option ℕ := files.keys.min?

def setCall (s : State) (c : ℕ) (call : Call) : State :=
  { s with calls := Function.update s.calls c call }

def setTick (s : State) (t : ℕ) (tick : Tick) : State :=
  { s with ticks := Function.update s.ticks t tick }

def startAppend (s : State) (c size : ℕ) : State :=
  match s.currentFile with
  | some file =>
    if 10*1024*1024 < s.currentSize then
      setCall { s with
        fileIndex := s.fileIndex+1
        currentFile := some (s.fileIndex+1)
        currentSize := 0 } c (.appending size (s.fileIndex+1) false)
    else setCall s c (.appending size file false)
  | none =>
    setCall { s with
      fileIndex := s.fileIndex+1
      currentFile := some (s.fileIndex+1)
      currentSize := 0 } c (.appending size (s.fileIndex+1) false)

def measured (maxSizeMb : ℕ) (s : State) (c total : ℕ) : State :=
  match s.calls c with
  | .measuring size =>
    if maxSizeMb*1024*1024 < total+size then setCall s c (.listingOldest size)
    else startAppend s c size
  | _ => s

def listedOldest (s : State) (c : ℕ) : State :=
  match s.calls c with
  | .listingOldest size =>
    match oldest s.files with
    | some file => setCall s c (.removingOldest size file)
    | none => startAppend s c size
  | _ => s

def removedOldest (s : State) (c : ℕ) : State :=
  match s.calls c with
  | .removingOldest size file =>
    startAppend { s with
      files := s.files.delete file
      evicted := s.evicted++content s.files file } c size
  | _ => s

def landed (s : State) (c : ℕ) : State :=
  match s.calls c with
  | .appending size file false =>
    setCall { s with files := s.files.set file (content s.files file++[⟨c,size⟩]) } c
      (.appending size file true)
  | _ => s

def spoolResolved (s : State) (c : ℕ) : State :=
  match s.calls c with
  | .appending size _ true =>
    setCall { s with
      currentSize := s.currentSize+size
      resolved := s.resolved++[⟨c,size⟩] } c .none
  | _ => s

def tick (s : State) : State :=
  if s.spoolBreaker.state = .closed then
    setTick { s with fired := s.fired+1, replays := s.replays++[s.dbCircuitBreaker.state] } s.fired
      .listing
  else { s with fired := s.fired+1 }

def tickListed (s : State) (t : ℕ) : State :=
  match s.ticks t with
  | .listing =>
    match oldest s.files with
    | some file => setTick s t (.reading file)
    | none => setTick s t .idle
  | _ => s

def tickRead (s : State) (t : ℕ) : State :=
  match s.ticks t with
  | .reading file =>
    match s.files.get? file with
    | some lines => setTick s t (.removing file lines)
    | none => setTick s t .idle
  | _ => s

/-- The file goes before its batches are handed over. If it is gone by now
the tick ends with an error. -/
def tickRemoved (s : State) (t : ℕ) : State :=
  match s.ticks t with
  | .removing file lines =>
    if file ∈ s.files.keys then
      setTick { s with
        files := s.files.delete file
        currentFile := if s.currentFile = some file then none else s.currentFile } t (.handing lines)
    else setTick s t .idle
  | _ => s

/-- The consumer inserts the batch and records the outcome; a failure is
logged and the next batch taken. -/
def handed (s : State) (t : ℕ) (ok : Bool) : State :=
  match s.ticks t with
  | .handing (b::lines) =>
    if ok then
      setTick { s with
        accepted := s.accepted++[b]
        dbCircuitBreaker := s.dbCircuitBreaker.recordSuccess } t (.handing lines)
    else
      setTick { s with dbCircuitBreaker := s.dbCircuitBreaker.recordFailure s.now } t (.handing lines)
  | _ => s

inductive Event where
  | spoolToDisk (size : ℕ)
  | measured (c total : ℕ)
  | listedOldest (c : ℕ)
  | removedOldest (c : ℕ)
  | landed (c : ℕ)
  | spoolResolved (c : ℕ)
  /-- The call throws. -/
  | spoolFailed (c : ℕ)
  | tick
  | tickListed (t : ℕ)
  | tickRead (t : ℕ)
  | tickRemoved (t : ℕ)
  | handed (t : ℕ) (ok : Bool)
  /-- A worker records an insert of its own, or asks the breaker. -/
  | recorded (ok : Bool)
  | asked
  | time (ms : ℕ)
  | crash

def step (maxSizeMb : ℕ) (s : State) : Event → State
  | .spoolToDisk size => setCall { s with issued := s.issued+1 } s.issued (.measuring size)
  | .measured c total => measured maxSizeMb s c total
  | .listedOldest c => listedOldest s c
  | .removedOldest c => removedOldest s c
  | .landed c => landed s c
  | .spoolResolved c => spoolResolved s c
  | .spoolFailed c => setCall s c .none
  | .tick => tick s
  | .tickListed t => tickListed s t
  | .tickRead t => tickRead s t
  | .tickRemoved t => tickRemoved s t
  | .handed t ok => handed s t ok
  | .recorded ok =>
    { s with
      dbCircuitBreaker :=
        if ok then s.dbCircuitBreaker.recordSuccess else s.dbCircuitBreaker.recordFailure s.now }
  | .asked => { s with dbCircuitBreaker := (s.dbCircuitBreaker.shouldAllowRequest s.now).2 }
  | .time ms => { s with now := s.now+ms }
  | .crash =>
    { s with
      currentFile := none
      currentSize := 0
      fileIndex := s.files.keys.foldl max 0
      spoolBreaker := .fresh
      dbCircuitBreaker := .fresh
      calls := fun _ => .none
      ticks := fun _ => .idle }

end Iotistica.DiskSpool
