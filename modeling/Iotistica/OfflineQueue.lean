import Iotistica.KeyedTable
import Iotistica.GuardedRun
import Iotistica.JsNumerals

/-!
# Offline queue

The queue is a list in memory and a set of rows of a shared table, edited
in separate statements. Each call runs to its end between two awaits, so
what another call sees are the states between the operations below. A flush
goes over a copy of the list and is suspended while an item is sent. Rows are
read in the order of their creation, so the head of the list is the oldest
row. An entry in memory carries the id of the row that holds the same item;
the code does not, and no operation reads it.
-/

set_option autoImplicit false

namespace Iotistica.OfflineQueue
open Iotistica.KeyedTable
open Iotistica.GuardedRun

/-- Items are JSON values, without `undefined` or `NaN` in them. -/
structure Codec (T : Type) where
  stringify : T → String
  parse : String → Option T
  parse_stringify : ∀ item, parse (stringify item) = some item

structure Config (T : Type) where
  queueName : String
  maxSize : ℕ
  ttlMs : Option ℕ
  codec : Codec T

structure OfflineQueueRecord where
  id : ℕ
  queueName : String
  payload : String
  createdAt : ℤ
  attempts : ℕ
  deriving DecidableEq

abbrev Store := Table OfflineQueueRecord OfflineQueueRecord.id

structure Entry (T : Type) where
  row : ℕ
  item : T
  deriving DecidableEq

structure Queue (T : Type) where
  table : Store
  inMemoryQueue : List (Entry T)

variable {T : Type}

def ofQueue (cfg : Config T) (row : OfflineQueueRecord) : Bool := row.queueName == cfg.queueName

def getRowsOrdered (cfg : Config T) (table : Store) : List OfflineQueueRecord :=
  table.selectOrdered OfflineQueueRecord.createdAt (ofQueue cfg)

def getOldest (cfg : Config T) (table : Store) : Option ℕ :=
  (getRowsOrdered cfg table).head?.map OfflineQueueRecord.id

def deleteById (table : Store) (id : ℕ) : Store := table.delete (fun row => row.id == id)

def insert (cfg : Config T) (table : Store) (item : T) (createdAt : ℤ) : Store :=
  table.insert (fun id => ⟨id,cfg.queueName,cfg.codec.stringify item,createdAt,0⟩) (fun _ => rfl)

def updateAttempts (table : Store) (id attempts : ℕ) : Store :=
  table.update (fun row => row.id == id) (fun row => { row with attempts := attempts })
    (fun _ => rfl)

def olderThan (cfg : Config T) (cutoff : ℤ) (row : OfflineQueueRecord) : Bool :=
  ofQueue cfg row && decide (row.createdAt < cutoff)

def removeOldestFromDisk (cfg : Config T) (table : Store) : Store :=
  match getOldest cfg table with
  | some id => deleteById table id
  | none => table

def parseRows (cfg : Config T) (rows : List OfflineQueueRecord) : List (Entry T) :=
  (rows.mapM (fun row => (cfg.codec.parse row.payload).map (Entry.mk row.id))).getD []

def loadFromDisk (cfg : Config T) (table : Store) : Queue T :=
  ⟨table,parseRows cfg (getRowsOrdered cfg table)⟩

def pruneExpired (cfg : Config T) (q : Queue T) (ttlMs : Option ℕ) (now : ℤ) : Queue T :=
  match ttlMs <|> cfg.ttlMs with
  | none => q
  | some ttl =>
    let table := q.table.delete (olderThan cfg (now-ttl))
    if q.table.changes (olderThan cfg (now-ttl)) > 0 then loadFromDisk cfg table
    else { q with table := table }

/-- The list grows first and the oldest item goes from both places before
the new row is written. -/
def push (cfg : Config T) (q : Queue T) (item : T) (now : ℤ) : Queue T :=
  let memory := q.inMemoryQueue++[⟨q.table.next,item⟩]
  if memory.length > cfg.maxSize then
    ⟨insert cfg (removeOldestFromDisk cfg q.table) item now,memory.tail⟩
  else ⟨insert cfg q.table item now,memory⟩

def enqueue (cfg : Config T) (q : Queue T) (item : T) (now : ℤ) : Queue T :=
  push cfg (pruneExpired cfg q none now) item now

def removeFirst (cfg : Config T) (q : Queue T) : Queue T :=
  ⟨removeOldestFromDisk cfg q.table,q.inMemoryQueue.tail⟩

def dequeue (cfg : Config T) (q : Queue T) : Option (Entry T) × Queue T :=
  match q.inMemoryQueue with
  | [] => (none,q)
  | entry::_ => (some entry,removeFirst cfg q)

def clear (cfg : Config T) (q : Queue T) : Queue T := ⟨q.table.delete (ofQueue cfg),[]⟩

def incrementAttempts (cfg : Config T) (q : Queue T) (index : ℕ) : Queue T :=
  match (getRowsOrdered cfg q.table)[index]? with
  | some row => { q with table := updateAttempts q.table row.id (row.attempts+1) }
  | none => q

def getAttempts (cfg : Config T) (q : Queue T) (index : ℕ) : ℕ :=
  ((getRowsOrdered cfg q.table)[index]?.map OfflineQueueRecord.attempts).getD 0

structure FlushOptions where
  maxRetries : ℕ
  continueOnError : Bool
  deriving DecidableEq

/-- Where the flush is suspended: in `sendFn`, after a removal, after the
attempt was counted, after the count was read. -/
inductive Flush (T : Type) where
  | idle
  | sending (i : ℕ) (items : List (Entry T)) (opts : FlushOptions)
  | removed (i : ℕ) (items : List (Entry T)) (opts : FlushOptions)
  | counted (i : ℕ) (items : List (Entry T)) (opts : FlushOptions)
  | judged (i : ℕ) (items : List (Entry T)) (opts : FlushOptions) (attempts : ℕ)

/-- `sent` and `failures` list the rows of items `sendFn` succeeded and
failed with; they are kept for the statements only. -/
structure State (T : Type) where
  queue : Queue T
  now : ℤ
  flush : Flush T
  sent : List ℕ
  failures : List ℕ

def sendFrom (s : State T) (i : ℕ) (items : List (Entry T)) (opts : FlushOptions) : State T :=
  { s with flush := if i < items.length then .sending i items opts else .idle }

def rowAt (items : List (Entry T)) (i : ℕ) : List ℕ := (items[i]?.map Entry.row).toList

def settle (cfg : Config T) (s : State T) (i : ℕ) (items : List (Entry T)) (opts : FlushOptions) :
    Bool → State T
  | true =>
    { s with
      queue := removeFirst cfg s.queue
      flush := .removed i items opts
      sent := s.sent++rowAt items i }
  | false =>
    { s with
      queue := incrementAttempts cfg s.queue i
      flush := .counted i items opts
      failures := s.failures++rowAt items i }

def proceed (cfg : Config T) (s : State T) : State T :=
  match s.flush with
  | .removed i items opts => sendFrom s (i+1) items opts
  | .counted i items opts =>
    if opts.continueOnError then
      { s with flush := .judged i items opts (getAttempts cfg s.queue i) }
    else { s with flush := .idle }
  | .judged i items opts attempts =>
    if attempts ≥ opts.maxRetries then
      { s with queue := removeFirst cfg s.queue, flush := .removed i items opts }
    else { s with flush := .idle }
  | _ => s

inductive Event (T : Type) where
  | tick (ms : ℕ)
  | enqueue (item : T)
  | dequeue
  | pruneExpired (ttlMs : Option ℕ)
  | clear
  | flush (opts : FlushOptions)
  | settle (ok : Bool)
  | proceed

def step (cfg : Config T) (s : State T) : Event T → State T
  | .tick ms => { s with now := s.now+ms }
  | .enqueue item => { s with queue := enqueue cfg s.queue item s.now }
  | .dequeue => { s with queue := (dequeue cfg s.queue).2 }
  | .pruneExpired ttlMs => { s with queue := pruneExpired cfg s.queue ttlMs s.now }
  | .clear => { s with queue := clear cfg s.queue }
  | .flush opts =>
    match s.flush with
    | .idle => sendFrom s 0 s.queue.inMemoryQueue opts
    | _ => s
  | .settle ok =>
    match s.flush with
    | .sending i items opts => settle cfg s i items opts ok
    | _ => s
  | .proceed => proceed cfg s

/-- After `init`. Attempts counted in an earlier process are failures of
their rows. -/
def loaded (cfg : Config T) (table : Store) (now : ℤ) : State T where
  queue := loadFromDisk cfg table
  now := now
  flush := .idle
  sent := []
  failures := (getRowsOrdered cfg table).flatMap (fun row => List.replicate row.attempts row.id)

/-- A table this code can have left: payloads parse and no row of the queue
was created after the present time. -/
structure Readable (cfg : Config T) (table : Store) (now : ℤ) : Prop where
  parses : ∀ row ∈ getRowsOrdered cfg table, (cfg.codec.parse row.payload).isSome
  past : ∀ row ∈ getRowsOrdered cfg table, row.createdAt ≤ now

theorem nodup_rows (cfg : Config T) (table : Store) :
    ((getRowsOrdered cfg table).map OfflineQueueRecord.id).Nodup :=
  Table.nodup_selectOrdered table _ _

theorem ofQueue_of_mem {cfg : Config T} {table : Store} {row : OfflineQueueRecord}
    (h : row ∈ getRowsOrdered cfg table) : ofQueue cfg row = true :=
  ((Table.mem_selectOrdered table _ _ row).mp h).2

theorem rows_removeOldest (cfg : Config T) (table : Store) :
    getRowsOrdered cfg (removeOldestFromDisk cfg table) = (getRowsOrdered cfg table).tail := by
  unfold removeOldestFromDisk getOldest
  have hn := nodup_rows cfg table
  cases hrows : getRowsOrdered cfg table with
  | nil => simpa using hrows
  | cons row rows =>
    rw [hrows, List.map_cons, List.nodup_cons] at hn
    simp only [List.head?_cons, Option.map_some, List.tail_cons]
    unfold getRowsOrdered deleteById at *
    rw [Table.selectOrdered_delete, hrows, List.filter_cons]
    simp only [beq_self_eq_true, Bool.not_true, Bool.false_eq_true, if_false]
    apply List.filter_eq_self.mpr
    intro r hr
    have hne : r.id ≠ row.id := by
      intro he
      apply hn.1
      rw [← he]
      exact List.mem_map_of_mem hr
    simpa using hne

theorem next_removeOldest (cfg : Config T) (table : Store) :
    (removeOldestFromDisk cfg table).next = table.next := by
  unfold removeOldestFromDisk
  split <;> rfl

def newRow (cfg : Config T) (table : Store) (item : T) (createdAt : ℤ) : OfflineQueueRecord :=
  ⟨table.next,cfg.queueName,cfg.codec.stringify item,createdAt,0⟩

theorem rows_insert (cfg : Config T) (table : Store) (item : T) (createdAt : ℤ)
    (h : ∀ row ∈ getRowsOrdered cfg table, row.createdAt ≤ createdAt) :
    getRowsOrdered cfg (insert cfg table item createdAt)
      = getRowsOrdered cfg table++[newRow cfg table item createdAt] := by
  apply Table.selectOrdered_insert
  · simp [ofQueue]
  · intro r hr hq
    exact h r ((Table.mem_selectOrdered table _ _ r).mpr ⟨hr,hq⟩)

theorem rows_deleteOlder (cfg : Config T) (table : Store) (cutoff : ℤ) :
    getRowsOrdered cfg (table.delete (olderThan cfg cutoff))
      = (getRowsOrdered cfg table).filter (fun row => !decide (row.createdAt < cutoff)) := by
  unfold getRowsOrdered
  rw [Table.selectOrdered_delete]
  apply List.filter_congr
  intro r hr
  rw [olderThan, ofQueue_of_mem hr, Bool.true_and]

theorem rows_clear (cfg : Config T) (table : Store) :
    getRowsOrdered cfg (table.delete (ofQueue cfg)) = [] := by
  unfold getRowsOrdered
  rw [Table.selectOrdered_delete]
  apply List.filter_eq_nil_iff.mpr
  intro r hr
  simp [ofQueue_of_mem hr]

theorem rows_updateAttempts (cfg : Config T) (table : Store) (id attempts : ℕ) :
    getRowsOrdered cfg (updateAttempts table id attempts)
      = (getRowsOrdered cfg table).map
        (fun row => if row.id == id then { row with attempts := attempts } else row) := by
  apply Table.selectOrdered_update
  · exact fun _ => rfl
  · exact fun _ => rfl

def ofRow (cfg : Config T) (row : OfflineQueueRecord) : ℕ × Option T :=
  (row.id,cfg.codec.parse row.payload)

def ofEntry (entry : Entry T) : ℕ × Option T := (entry.row,some entry.item)

def Mirrors (cfg : Config T) (q : Queue T) : Prop :=
  (getRowsOrdered cfg q.table).map (ofRow cfg) = q.inMemoryQueue.map ofEntry

theorem parseRows_of_mirror {cfg : Config T} (rows : List OfflineQueueRecord) :
    ∀ {entries : List (Entry T)}, rows.map (ofRow cfg) = entries.map ofEntry →
      rows.mapM (fun row => (cfg.codec.parse row.payload).map (Entry.mk row.id)) = some entries := by
  induction rows with
  | nil =>
    intro entries h
    cases entries with
    | nil => rfl
    | cons e es => simp at h
  | cons row rows ih =>
    intro entries h
    cases entries with
    | nil => simp at h
    | cons e es =>
      rw [List.map_cons, List.map_cons, List.cons.injEq] at h
      have hid : row.id = e.row := congrArg Prod.fst h.1
      have hitem : cfg.codec.parse row.payload = some e.item := congrArg Prod.snd h.1
      rw [List.mapM_cons, hitem, ih h.2, hid]
      rfl

theorem loadFromDisk_eq {cfg : Config T} {q : Queue T} (h : Mirrors cfg q) :
    loadFromDisk cfg q.table = q := by
  unfold loadFromDisk parseRows
  rw [parseRows_of_mirror _ h]
  rfl

theorem loadFromDisk_mirrors (cfg : Config T) (table : Store)
    (h : ∀ row ∈ getRowsOrdered cfg table, (cfg.codec.parse row.payload).isSome) :
    Mirrors cfg (loadFromDisk cfg table) := by
  have hentries : ∀ rows : List OfflineQueueRecord,
      (∀ row ∈ rows, (cfg.codec.parse row.payload).isSome) →
      ∃ entries : List (Entry T), rows.map (ofRow cfg) = entries.map ofEntry := by
    intro rows
    induction rows with
    | nil => exact fun _ => ⟨[],rfl⟩
    | cons row rows ih =>
      intro hp
      obtain ⟨es,hes⟩ := ih (fun r hr => hp r (List.mem_cons_of_mem _ hr))
      obtain ⟨item,hitem⟩ := Option.isSome_iff_exists.mp (hp row List.mem_cons_self)
      exact ⟨⟨row.id,item⟩::es,by simp [hes, ofRow, ofEntry, hitem]⟩
  obtain ⟨entries,he⟩ := hentries _ h
  have hload : (loadFromDisk cfg table).inMemoryQueue = entries := by
    unfold loadFromDisk parseRows
    rw [parseRows_of_mirror _ he]
    rfl
  unfold Mirrors
  rw [hload]
  exact he

theorem Mirrors.length {cfg : Config T} {q : Queue T} (h : Mirrors cfg q) :
    (getRowsOrdered cfg q.table).length = q.inMemoryQueue.length := by
  simpa using congrArg List.length h

theorem Mirrors.rows {cfg : Config T} {q : Queue T} (h : Mirrors cfg q) :
    (getRowsOrdered cfg q.table).map OfflineQueueRecord.id = q.inMemoryQueue.map Entry.row := by
  have hfst := congrArg (List.map Prod.fst) h
  simpa [List.map_map, Function.comp_def, ofRow, ofEntry] using hfst

structure Sound (cfg : Config T) (q : Queue T) (now : ℤ) : Prop where
  mirrors : Mirrors cfg q
  past : ∀ row ∈ getRowsOrdered cfg q.table, row.createdAt ≤ now

theorem Sound.later {cfg : Config T} {q : Queue T} {now : ℤ} (h : Sound cfg q now) (ms : ℕ) :
    Sound cfg q (now+ms) := by
  refine ⟨h.mirrors,?_⟩
  intro row hrow
  have hpast := h.past row hrow
  omega

theorem Sound.removeFirst {cfg : Config T} {q : Queue T} {now : ℤ} (h : Sound cfg q now) :
    Sound cfg (removeFirst cfg q) now := by
  have hrows := rows_removeOldest cfg q.table
  constructor
  · have hm := h.mirrors
    unfold Mirrors OfflineQueue.removeFirst at *
    simp only at *
    rw [hrows, List.map_tail, hm, List.map_tail]
  · intro row hrow
    rw [show (OfflineQueue.removeFirst cfg q).table = removeOldestFromDisk cfg q.table from rfl,
      hrows] at hrow
    exact h.past row (List.mem_of_mem_tail hrow)

theorem dequeue_queue (cfg : Config T) (q : Queue T) (h : Mirrors cfg q) :
    (dequeue cfg q).2 = removeFirst cfg q := by
  unfold dequeue
  split
  · rename_i hnil
    have hrows : getRowsOrdered cfg q.table = [] := by
      have hl := h.length
      rw [hnil] at hl
      exact List.eq_nil_of_length_eq_zero hl
    unfold removeFirst removeOldestFromDisk getOldest
    rw [hrows, hnil]
    simp only [List.head?_nil, Option.map_none, List.tail_nil]
    rw [← hnil]
  · rfl

theorem Sound.pruneExpired {cfg : Config T} {q : Queue T} {now : ℤ} (h : Sound cfg q now)
    (ttlMs : Option ℕ) : Sound cfg (pruneExpired cfg q ttlMs now) now := by
  have hparses : ∀ row ∈ getRowsOrdered cfg q.table, (cfg.codec.parse row.payload).isSome := by
    intro row hrow
    have hmem : ofRow cfg row ∈ q.inMemoryQueue.map ofEntry := by
      rw [← h.mirrors]
      exact List.mem_map_of_mem hrow
    obtain ⟨entry,-,he⟩ := List.mem_map.mp hmem
    have hitem : some entry.item = cfg.codec.parse row.payload := congrArg Prod.snd he
    rw [← hitem]
    rfl
  unfold OfflineQueue.pruneExpired
  split
  · exact h
  · rename_i ttl httl
    have hrows := rows_deleteOlder cfg q.table (now-ttl)
    have hsub : ∀ row ∈ getRowsOrdered cfg (q.table.delete (olderThan cfg (now-ttl))),
        row ∈ getRowsOrdered cfg q.table := by
      intro row hrow
      rw [hrows] at hrow
      exact List.mem_of_mem_filter hrow
    simp only
    split
    · refine ⟨loadFromDisk_mirrors cfg _ (fun row hrow => hparses row (hsub row hrow)),?_⟩
      exact fun row hrow => h.past row (hsub row hrow)
    · rename_i hnone
      refine ⟨?_,fun row hrow => h.past row (hsub row hrow)⟩
      have hkeep : (getRowsOrdered cfg q.table).filter
          (fun row => !decide (row.createdAt < now-ttl)) = getRowsOrdered cfg q.table := by
        apply List.filter_eq_self.mpr
        intro row hrow
        have hzero : q.table.rows.countP (olderThan cfg (now-ttl)) = 0 :=
          Nat.eq_zero_of_not_pos hnone
        have hr := List.countP_eq_zero.mp hzero row
          ((Table.mem_selectOrdered q.table _ _ row).mp hrow).1
        rw [olderThan, ofQueue_of_mem hrow, Bool.true_and] at hr
        simpa using hr
      unfold Mirrors
      rw [hrows, hkeep]
      exact h.mirrors

theorem Sound.insert {cfg : Config T} {q : Queue T} {now : ℤ} (h : Sound cfg q now) (item : T) :
    Sound cfg ⟨insert cfg q.table item now,q.inMemoryQueue++[⟨q.table.next,item⟩]⟩ now := by
  have hrows := rows_insert cfg q.table item now h.past
  constructor
  · unfold Mirrors
    simp only
    rw [hrows, List.map_append, List.map_append, h.mirrors]
    simp [newRow, ofRow, ofEntry, cfg.codec.parse_stringify]
  · intro row hrow
    simp only [hrows] at hrow
    rcases List.mem_append.mp hrow with hrow | hrow
    · exact h.past row hrow
    · obtain rfl := List.mem_singleton.mp hrow
      exact le_rfl

theorem push_eq {cfg : Config T} (hsize : 1 ≤ cfg.maxSize) (q : Queue T) (item : T) (now : ℤ) :
    push cfg q item now =
      let q' := if q.inMemoryQueue.length+1 > cfg.maxSize then removeFirst cfg q else q
      ⟨insert cfg q'.table item now,q'.inMemoryQueue++[⟨q'.table.next,item⟩]⟩ := by
  unfold push
  simp only [List.length_append, List.length_singleton]
  split
  · rename_i hfull
    have hne : q.inMemoryQueue ≠ [] := by
      intro hnil
      rw [hnil, List.length_nil] at hfull
      omega
    simp only [removeFirst, next_removeOldest, List.tail_append_of_ne_nil hne]
  · rfl

theorem Sound.push {cfg : Config T} (hsize : 1 ≤ cfg.maxSize) {q : Queue T} {now : ℤ}
    (h : Sound cfg q now) (item : T) : Sound cfg (push cfg q item now) now := by
  rw [push_eq hsize]
  simp only
  split
  · exact h.removeFirst.insert item
  · exact h.insert item

theorem Sound.clear {cfg : Config T} {q : Queue T} {now : ℤ} : Sound cfg (clear cfg q) now := by
  have hrows := rows_clear cfg q.table
  constructor
  · unfold Mirrors OfflineQueue.clear
    simp only [hrows]
    rfl
  · intro row hrow
    rw [show (OfflineQueue.clear cfg q).table = q.table.delete (ofQueue cfg) from rfl, hrows] at hrow
    cases hrow

theorem incrementAttempts_memory (cfg : Config T) (q : Queue T) (index : ℕ) :
    (incrementAttempts cfg q index).inMemoryQueue = q.inMemoryQueue := by
  unfold incrementAttempts
  split <;> rfl

theorem Sound.incrementAttempts {cfg : Config T} {q : Queue T} {now : ℤ} (h : Sound cfg q now)
    (index : ℕ) : Sound cfg (incrementAttempts cfg q index) now := by
  unfold OfflineQueue.incrementAttempts
  split
  · rename_i row hrow
    have hrows := rows_updateAttempts cfg q.table row.id (row.attempts+1)
    constructor
    · unfold Mirrors
      simp only
      rw [hrows, List.map_map, ← h.mirrors]
      apply List.map_congr_left
      intro r _
      simp only [Function.comp]
      split <;> rfl
    · intro r hr
      simp only [hrows] at hr
      obtain ⟨r',hr',rfl⟩ := List.mem_map.mp hr
      split
      · exact h.past r' hr'
      · exact h.past r' hr'
  · exact h

theorem pruneExpired_length {cfg : Config T} {q : Queue T} {now : ℤ} (h : Sound cfg q now)
    (ttlMs : Option ℕ) :
    (pruneExpired cfg q ttlMs now).inMemoryQueue.length ≤ q.inMemoryQueue.length := by
  have hs := (h.pruneExpired ttlMs).mirrors.length
  have ht := h.mirrors.length
  have hle : (getRowsOrdered cfg (pruneExpired cfg q ttlMs now).table).length
      ≤ (getRowsOrdered cfg q.table).length := by
    unfold pruneExpired
    split
    · exact le_rfl
    · have hrows : ∀ ttl : ℕ, (getRowsOrdered cfg (q.table.delete (olderThan cfg (now-ttl)))).length
          ≤ (getRowsOrdered cfg q.table).length := by
        intro ttl
        rw [rows_deleteOlder]
        exact List.length_filter_le _ _
      simp only
      split
      · exact hrows _
      · exact hrows _
  omega

theorem push_length {cfg : Config T} (hsize : 1 ≤ cfg.maxSize) {q : Queue T} (item : T) (now : ℤ)
    (h : q.inMemoryQueue.length ≤ cfg.maxSize) :
    (push cfg q item now).inMemoryQueue.length ≤ cfg.maxSize := by
  rw [push_eq hsize]
  simp only
  split
  · simp only [removeFirst, List.length_append, List.length_tail, List.length_singleton]
    omega
  · simp only [List.length_append, List.length_singleton]
    omega

structure InStep (cfg : Config T) (s : State T) : Prop where
  sound : Sound cfg s.queue s.now
  size : s.queue.inMemoryQueue.length ≤ cfg.maxSize

theorem InStep.removeFirst {cfg : Config T} {s : State T} (h : InStep cfg s) (flush : Flush T)
    (sent failures : List ℕ) :
    InStep cfg ⟨OfflineQueue.removeFirst cfg s.queue,s.now,flush,sent,failures⟩ := by
  refine ⟨h.sound.removeFirst,?_⟩
  have hs := h.size
  simp only [OfflineQueue.removeFirst, List.length_tail]
  omega

theorem settle_inStep {cfg : Config T} {s : State T} (i : ℕ) (items : List (Entry T))
    (opts : FlushOptions) (ok : Bool) (h : InStep cfg s) :
    InStep cfg (settle cfg s i items opts ok) := by
  cases ok with
  | true => exact h.removeFirst _ _ _
  | false =>
    refine ⟨h.sound.incrementAttempts i,?_⟩
    show (incrementAttempts cfg s.queue i).inMemoryQueue.length ≤ cfg.maxSize
    rw [incrementAttempts_memory]
    exact h.size

theorem proceed_inStep {cfg : Config T} {s : State T} (h : InStep cfg s) :
    InStep cfg (proceed cfg s) := by
  unfold proceed
  split
  · exact ⟨h.sound,h.size⟩
  · split <;> exact ⟨h.sound,h.size⟩
  · split
    · exact h.removeFirst _ _ _
    · exact ⟨h.sound,h.size⟩
  · exact h

theorem step_inStep {cfg : Config T} (hsize : 1 ≤ cfg.maxSize) (s : State T) (e : Event T)
    (h : InStep cfg s) : InStep cfg (step cfg s e) := by
  cases e with
  | tick ms => exact ⟨h.sound.later ms,h.size⟩
  | enqueue item =>
    refine ⟨(h.sound.pruneExpired none).push hsize item,?_⟩
    exact push_length hsize item s.now ((pruneExpired_length h.sound none).trans h.size)
  | dequeue =>
    simp only [step, dequeue_queue cfg s.queue h.sound.mirrors]
    exact h.removeFirst _ _ _
  | pruneExpired ttlMs =>
    exact ⟨h.sound.pruneExpired ttlMs,(pruneExpired_length h.sound ttlMs).trans h.size⟩
  | clear => exact ⟨Sound.clear,Nat.zero_le _⟩
  | flush opts =>
    simp only [step]
    split
    · exact ⟨h.sound,h.size⟩
    · exact h
  | settle ok =>
    simp only [step]
    split
    · exact settle_inStep _ _ _ ok h
    · exact h
  | proceed => exact proceed_inStep h

theorem loaded_sound {cfg : Config T} {table : Store} {now : ℤ} (h : Readable cfg table now) :
    Sound cfg (loaded cfg table now).queue now :=
  ⟨loadFromDisk_mirrors cfg table h.parses,h.past⟩

/-- After any run from a loaded queue the list in memory is the parsed
payloads of the rows in their order, within the cap, and loading the table
again gives the same list. -/
theorem memory_mirrors_table (cfg : Config T) (hsize : 1 ≤ cfg.maxSize) (table : Store) (now : ℤ)
    (hread : Readable cfg table now) (hload : (getRowsOrdered cfg table).length ≤ cfg.maxSize)
    (es : List (Event T)) :
    let s := run (step cfg) es (loaded cfg table now)
    s.queue.inMemoryQueue.map (fun entry => some entry.item)
        = (getRowsOrdered cfg s.queue.table).map (fun row => cfg.codec.parse row.payload) ∧
      s.queue.inMemoryQueue.length ≤ cfg.maxSize ∧
      (loaded cfg s.queue.table s.now).queue.inMemoryQueue = s.queue.inMemoryQueue := by
  have hstart : InStep cfg (loaded cfg table now) := by
    have hs := loaded_sound hread
    exact ⟨hs,hs.mirrors.length ▸ hload⟩
  have hend : InStep cfg (run (step cfg) es (loaded cfg table now)) :=
    run_invariant (fun s e _ hi => step_inStep hsize s e hi) es _
      (meets_any (step cfg) es _) hstart
  refine ⟨?_,hend.size,?_⟩
  · have hsnd := congrArg (List.map Prod.snd) hend.sound.mirrors
    rw [List.map_map, List.map_map] at hsnd
    exact hsnd.symm
  · show (loadFromDisk cfg _).inMemoryQueue = _
    rw [loadFromDisk_eq hend.sound.mirrors]

def numberCodec : Codec ℕ where
  stringify := Nat.repr
  parse := fun text => (JsNumerals.parseInt text).map Int.toNat
  parse_stringify := fun item => by rw [JsNumerals.parseInt_repr]; rfl

def numberQueue : Config ℕ := ⟨"q",2,some 100,numberCodec⟩

/-- Two rows of the queue, one of them with an earlier attempt, and a row
of another queue between them. -/
def numberTable : Store :=
  updateAttempts
    (insert numberQueue (insert { numberQueue with queueName := "other" }
      (insert numberQueue Table.empty 7 1) 8 2) 9 3) 1 1

theorem numberTable_readable : Readable numberQueue numberTable 5 := by
  constructor <;> decide +kernel

def numberRun : List (Event ℕ) :=
  [.flush ⟨3,true⟩,.tick 4,.enqueue 11,.settle true,.proceed,.dequeue,.enqueue 12,.pruneExpired none]

theorem memory_mirrors_table_numberRun :
    let s := run (step numberQueue) numberRun (loaded numberQueue numberTable 5)
    s.queue.inMemoryQueue.map (fun entry => some entry.item)
        = (getRowsOrdered numberQueue s.queue.table).map
          (fun row => numberQueue.codec.parse row.payload) ∧
      s.queue.inMemoryQueue.length ≤ numberQueue.maxSize ∧
      (loaded numberQueue s.queue.table s.now).queue.inMemoryQueue = s.queue.inMemoryQueue :=
  memory_mirrors_table numberQueue (by decide) numberTable 5 numberTable_readable
    (by decide +kernel) numberRun

end Iotistica.OfflineQueue
