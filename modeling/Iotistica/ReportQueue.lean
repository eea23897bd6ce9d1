import Iotistica.OfflineFlush
import Mathlib.Logic.Function.Basic

/-!
# Flushing the queue of state reports

The transport takes a report out of the queue before it sends it and puts
it back under a new creation time when the send may be retried. The process
may crash at any await; then the queue is read back from its table.

A report is known by the row of its first enqueueing. What became of each
report, and when it was first enqueued, is kept for the statements only.
-/

set_option autoImplicit false

namespace Iotistica.ReportQueue
open Iotistica Iotistica.OfflineQueue Iotistica.GuardedRun

variable {T : Type}

def ttlMs : ℕ := 2*60*60*1000

def reportQueue (codec : Codec T) : Config T := ⟨"state-reports",1000,some ttlMs,codec⟩

/-- Where the flush is suspended. `prunedAt` is the time of the prune at
its start. -/
inductive Phase (T : Type) where
  | idle
  | taken (report : Entry T) (i sentInBatch : ℕ) (prunedAt : ℤ)
  | sending (report : Entry T) (i sentInBatch : ℕ) (prunedAt : ℤ)
  | requeued (sentInBatch : ℕ) (prunedAt : ℤ)
  | pausing (prunedAt : ℤ)
  deriving DecidableEq

def Phase.held : Phase T → Option (Entry T)
  | .taken report _ _ _ => some report
  | .sending report _ _ _ => some report
  | _ => none

def Phase.prunedAt : Phase T → Option ℤ
  | .idle => none
  | .taken _ _ _ t => some t
  | .sending _ _ _ t => some t
  | .requeued _ t => some t
  | .pausing t => some t

structure State (T : Type) where
  queue : Queue T
  now : ℤ
  phase : Phase T
  report : ℕ → ℕ
  first : ℕ → ℤ
  enqueued : List ℕ
  sent : List ℕ
  rejected : List ℕ
  expired : List ℕ
  evicted : List ℕ

def BATCH_SIZE : ℕ := 10

def expiring (cfg : Config T) (s : State T) : List ℕ :=
  ((getRowsOrdered cfg s.queue.table).filter (fun row => decide (row.createdAt < s.now-ttlMs))).map
    (fun row => s.report row.id)

def evicting (cfg : Config T) (s : State T) (q : Queue T) : List ℕ :=
  if q.inMemoryQueue.length+1 > cfg.maxSize then
    ((getRowsOrdered cfg q.table).head?.map (fun row => s.report row.id)).toList
  else []

def put (cfg : Config T) (s : State T) (item : T) (report : ℕ) (first : ℤ) : State T :=
  let pruned := pruneExpired cfg s.queue none s.now
  { s with
    queue := push cfg pruned item s.now
    report := Function.update s.report pruned.table.next report
    first := Function.update s.first pruned.table.next first
    expired := s.expired++expiring cfg s
    evicted := s.evicted++evicting cfg s pruned }

def endBatch (s : State T) (sentInBatch : ℕ) (prunedAt : ℤ) : State T :=
  { s with
    phase := if sentInBatch = 0 ∨ s.queue.inMemoryQueue.isEmpty then .idle else .pausing prunedAt }

def takeNext (cfg : Config T) (s : State T) (i sentInBatch : ℕ) (prunedAt : ℤ) : State T :=
  if i < BATCH_SIZE then
    match dequeue cfg s.queue with
    | (none,_) => endBatch s sentInBatch prunedAt
    | (some report,q) => { s with queue := q, phase := .taken report i sentInBatch prunedAt }
  else endBatch s sentInBatch prunedAt

def flushOfflineQueue (cfg : Config T) (s : State T) : State T :=
  match s.phase with
  | .idle =>
    if s.queue.inMemoryQueue.isEmpty then s
    else
      let s := { s with
        queue := pruneExpired cfg s.queue none s.now
        expired := s.expired++expiring cfg s }
      if s.queue.inMemoryQueue.isEmpty then s else takeNext cfg s 0 0 s.now
  | _ => s

inductive Outcome where
  | sent
  | retryable
  | nonRetryable
  deriving DecidableEq

def settle (cfg : Config T) (s : State T) (report : Entry T) (i sentInBatch : ℕ) (prunedAt : ℤ) :
    Outcome → State T
  | .sent => takeNext cfg { s with sent := s.sent++[s.report report.row] } (i+1) (sentInBatch+1) prunedAt
  | .nonRetryable =>
    endBatch { s with rejected := s.rejected++[s.report report.row] } sentInBatch prunedAt
  | .retryable =>
    { put cfg s report.item (s.report report.row) (s.first report.row) with
      phase := .requeued sentInBatch prunedAt }

inductive Event (T : Type) where
  | tick (ms : ℕ)
  | enqueue (item : T)
  | flush
  | proceed
  | settle (outcome : Outcome)
  | crash (downtime : ℕ)
  deriving DecidableEq

def step (cfg : Config T) (s : State T) : Event T → State T
  | .tick ms => { s with now := s.now+ms }
  | .enqueue item =>
    { put cfg s item s.queue.table.next s.now with enqueued := s.enqueued++[s.queue.table.next] }
  | .flush => flushOfflineQueue cfg s
  | .proceed =>
    match s.phase with
    | .taken report i sentInBatch prunedAt =>
      { s with phase := .sending report i sentInBatch prunedAt }
    | .requeued sentInBatch prunedAt => endBatch s sentInBatch prunedAt
    | .pausing prunedAt => takeNext cfg s 0 0 prunedAt
    | _ => s
  | .settle outcome =>
    match s.phase with
    | .sending report i sentInBatch prunedAt => settle cfg s report i sentInBatch prunedAt outcome
    | _ => s
  | .crash downtime =>
    { s with
      queue := loadFromDisk cfg s.queue.table
      now := s.now+downtime
      phase := .idle }

def opened (cfg : Config T) (table : Store) (now : ℤ) : State T where
  queue := loadFromDisk cfg table
  now := now
  phase := .idle
  report := id
  first := fun r =>
    (((getRowsOrdered cfg table).find? (fun row => row.id == r)).map
      OfflineQueueRecord.createdAt).getD 0
  enqueued := (getRowsOrdered cfg table).map OfflineQueueRecord.id
  sent := []
  rejected := []
  expired := []
  evicted := []

end Iotistica.ReportQueue
