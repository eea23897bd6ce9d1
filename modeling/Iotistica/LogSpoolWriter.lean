import Iotistica.OrderedMap
import Iotistica.GuardedRun

/-!
# Write coalescing of the log spool

Batches wait in a buffer until a timer fires or 64 KB are reached; one
flush at a time appends the buffer to the active file. Callers that meet a
running flush wait for its promise and return. A line stands for one batch
passed to `write`: its number in the order of the calls and the length of
its text. The size cap evicts nothing here; a rotation renames the active
file to a name made of the time.

The last three fields of the state are kept for the statements only.
-/

set_option autoImplicit false

namespace Iotistica.LogSpool
open Iotistica

structure Line where
  seq : ℕ
  size : ℕ
  deriving DecidableEq

/-- What awaits a flush. `stop` remembers how many batches had been written
when it was called. -/
inductive Caller where
  | write
  | background
  | stop (before : ℕ)
  deriving DecidableEq

/-- The await at which the flush stands; `done` is a settled promise whose
owner has not run yet. -/
inductive Stage where
  | stat
  | append
  | rename
  | cap
  | done (failed : Bool)
  deriving DecidableEq

structure Running where
  payload : List Line
  payloadBytes : ℕ
  stage : Stage
  owner : Caller
  waiting : List Caller
  deriving DecidableEq

structure Writer where
  spoolWriteChunks : List (List Line)
  spoolWriteBufferBytes : ℕ
  spoolWriteTimer : Bool
  spoolWriteFlushPromise : Option Running
  /-- Callers whose promise has settled, with whether that flush failed. -/
  ready : List (Caller × Bool)
  spoolActiveBytes : ℕ
  spoolActiveSizeKnown : Bool
  rotated : OrderedMap ℕ (List Line)
  active : List Line
  issued : ℕ
  torn : Bool
  stopped : List (ℕ × List Line)
  deriving DecidableEq

def SPOOL_WRITE_FLUSH_BYTES : ℕ := 64*1024

def created : Writer where
  spoolWriteChunks := []
  spoolWriteBufferBytes := 0
  spoolWriteTimer := false
  spoolWriteFlushPromise := none
  ready := []
  spoolActiveBytes := 0
  spoolActiveSizeKnown := false
  rotated := OrderedMap.empty
  active := []
  issued := 0
  torn := false
  stopped := []

def Writer.files (s : Writer) : List Line := s.rotated.entries.flatMap Prod.snd++s.active

def numbered : ℕ → List ℕ → List Line
  | _, [] => []
  | n, size::sizes => ⟨n,size⟩::numbered (n+1) sizes

def textBytes : List Line → ℕ
  | [] => 0
  | line::lines => line.size+1+textBytes lines

def chunkBytes (lines : List Line) : ℕ := max 1 (textBytes lines)

/-- A call returns. What `stop` finds on disk is recorded if no error came
up while it waited and no append had been torn. -/
def returned (s : Writer) (caller : Caller) (failed : Bool) : Writer :=
  match caller with
  | .stop before =>
    if !failed && !s.torn then { s with stopped := s.stopped++[(before,s.files)] } else s
  | _ => s

def joinFlush (s : Writer) (f : Running) (caller : Caller) : Writer :=
  { s with spoolWriteFlushPromise := some { f with waiting := f.waiting++[caller] } }

def startFlush (s : Writer) (caller : Caller) : Writer :=
  { s with
    spoolWriteTimer := false
    spoolWriteChunks := []
    spoolWriteBufferBytes := 0
    spoolWriteFlushPromise := some
      { payload := s.spoolWriteChunks.flatten
        payloadBytes := s.spoolWriteBufferBytes
        stage := if s.spoolActiveSizeKnown then .append else .stat
        owner := caller
        waiting := [] } }

def flushWriteBuffer (s : Writer) (caller : Caller) : Writer :=
  match s.spoolWriteFlushPromise with
  | some f => joinFlush s f caller
  | none =>
    if s.spoolWriteBufferBytes = 0 then returned { s with spoolWriteTimer := false } caller false
    else startFlush s caller

def write (s : Writer) (sizes : List ℕ) : Writer :=
  let batchLines := numbered s.issued sizes
  let s := { s with
    issued := s.issued+sizes.length
    spoolWriteChunks := s.spoolWriteChunks++[batchLines]
    spoolWriteBufferBytes := s.spoolWriteBufferBytes+chunkBytes batchLines }
  if s.spoolWriteBufferBytes ≥ SPOOL_WRITE_FLUSH_BYTES then flushWriteBuffer s .write
  else { s with spoolWriteTimer := true }

def timerFired (s : Writer) : Writer :=
  if s.spoolWriteTimer then flushWriteBuffer { s with spoolWriteTimer := false } .background
  else s

def stop (s : Writer) : Writer :=
  flushWriteBuffer { s with spoolWriteTimer := false } (.stop s.issued)

def atStage (s : Writer) (f : Running) (stage : Stage) : Writer :=
  { s with spoolWriteFlushPromise := some { f with stage := stage } }

def statDone (s : Writer) (f : Running) : Writer :=
  atStage { s with spoolActiveBytes := textBytes s.active, spoolActiveSizeKnown := true } f .append

def appendDone (maxSpoolSize : ℕ) (s : Writer) (f : Running) : Writer :=
  let s := { s with
    active := s.active++f.payload
    spoolActiveBytes := s.spoolActiveBytes+f.payloadBytes }
  atStage s f (if s.spoolActiveBytes > maxSpoolSize then .rename else .cap)

def renameDone (s : Writer) (f : Running) (now : ℕ) : Writer :=
  atStage { s with
    rotated := s.rotated.set now s.active
    active := []
    spoolActiveBytes := 0
    spoolActiveSizeKnown := true } f .cap

/-- The payload goes back to the front of the queue. `written` lines of a
failed append may be on disk already. -/
def ioFailed (s : Writer) (f : Running) (written : ℕ) : Writer :=
  atStage { s with
    active := s.active++f.payload.take written
    torn := s.torn || decide (0 < written)
    spoolWriteChunks := f.payload::s.spoolWriteChunks
    spoolWriteBufferBytes := s.spoolWriteBufferBytes+f.payloadBytes } f (.done true)

inductive Event where
  | write (sizes : List ℕ)
  | timerFired
  | flushWriteBuffer
  | stop
  | statDone
  | appendDone
  | renameDone (now : ℕ)
  | renameFailed
  | capDone
  | ioFailed (written : ℕ)
  | ownerReturns
  | waiterReturns
  deriving DecidableEq

def io (maxSpoolSize : ℕ) (s : Writer) (f : Running) : Event → Writer
  | .statDone => if f.stage = .stat then statDone s f else s
  | .appendDone => if f.stage = .append then appendDone maxSpoolSize s f else s
  | .renameDone now => if f.stage = .rename then renameDone s f now else s
  | .renameFailed => if f.stage = .rename then atStage s f .cap else s
  | .capDone => if f.stage = .cap then atStage s f (.done false) else s
  | .ioFailed written =>
    if f.stage = .stat then ioFailed s f 0
    else if f.stage = .append then ioFailed s f written
    else s
  | .ownerReturns =>
    match f.stage with
    | .done failed =>
      returned { s with
        spoolWriteFlushPromise := none
        ready := s.ready++f.waiting.map (fun caller => (caller,failed)) } f.owner failed
    | _ => s
  | _ => s

def step (maxSpoolSize : ℕ) (s : Writer) : Event → Writer
  | .write sizes => write s sizes
  | .timerFired => timerFired s
  | .flushWriteBuffer => flushWriteBuffer s .background
  | .stop => stop s
  | .waiterReturns =>
    match s.ready with
    | [] => s
    | (caller,failed)::rest => returned { s with ready := rest } caller failed
  | e =>
    match s.spoolWriteFlushPromise with
    | none => s
    | some f => io maxSpoolSize s f e

end Iotistica.LogSpool
