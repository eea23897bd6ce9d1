import Iotistica.CopyFormat
import Iotistica.JsSort
import Iotistica.Newest
import Iotistica.ReadingsNormalizer
import Iotistica.Slices

/-!
# Storing readings

A list of readings goes to the database through COPY, in batches that are
committed one by one, or through INSERT, in chunks of the sorted list. Both
leave a reading alone whose key is stored already. The database reads a field
as the type of its column and refuses the statement where it cannot; COPY
writes to a staging table first, in which the columns of type `real` are
double precision. The newest reading of each series goes to a table of its
own: from INSERT at once, after COPY through a buffer that a flusher writes
later.
-/

set_option autoImplicit false

namespace Iotistica.Readings
open Iotistica.JsText Iotistica.Newest Iotistica.Slices
open Iotistica.CopyFormat (NulFree)

def lowerUuid (s : String) : Bool :=
  decide (s.toList.length = 36) && s.toList.zipIdx.all (fun e =>
    if e.2 ∈ [8,13,18,23] then e.1 = '-' else e.1.isDigit || ('a' ≤ e.1 && e.1 ≤ 'f'))

/-- How values travel to the database and what its columns read, and the
comparison of strings that the runtime takes from its locale. -/
structure Wire where
  toISOString : ℤ → String
  /-- A date as a query parameter. -/
  dateParam : ℤ → String
  readTimestamp : String → Option ℤ
  readUuid : String → Option String
  number : ℚ → String
  readDouble : String → Option ℚ
  readReal : String → Option ℚ
  /-- The cast from double precision to `real`. -/
  toReal : ℚ → Option ℚ
  readInteger : String → Option ℤ
  stringify : ReadingExtra → String
  readJsonb : String → Option String
  localeCompare : String → String → ℤ
  read_iso : ∀ t, readTimestamp (toISOString t) = some t
  read_param : ∀ t, readTimestamp (dateParam t) = some t
  read_lower : ∀ s, lowerUuid s = true → readUuid s = some s
  /-- Hexadecimal digits, hyphens and braces are all a uuid is read from. -/
  uuid_chars : ∀ s u, readUuid s = some u →
    ∀ c ∈ s.toList, JsNumerals.hexDigit c = true ∨ c ∈ ['-', '{', '}']
  compare_self : ∀ s, localeCompare s s = 0
  compare_swap : ∀ s t, localeCompare s t < 0 ↔ 0 < localeCompare t s
  compare_trans : ∀ s t u, localeCompare s t ≤ 0 → localeCompare t u ≤ 0 → localeCompare s u ≤ 0
  /-- No two texts of uuids compare as equal. -/
  compare_uuid : ∀ s t u v, readUuid s = some u → readUuid t = some v → localeCompare s t = 0 → s = t

def plainTime (t : ℤ) : String :=
  if t = 0 then "1970-01-01T00:00:00.000Z" else JsNumerals.intText t

def readPlainTime (s : String) : Option ℤ :=
  if s = "1970-01-01T00:00:00.000Z" then some 0 else JsNumerals.parseInt s

theorem readPlainTime_plainTime (t : ℤ) : readPlainTime (plainTime t) = some t := by
  unfold readPlainTime plainTime
  by_cases h : t = 0
  · rw [if_pos h, if_pos rfl, h]
  · have hne : JsNumerals.intText t ≠ "1970-01-01T00:00:00.000Z" := by
      intro he
      apply JsNumerals.not_mem_intText t (show Char.isDigit 'T' = false by decide) (by decide)
      rw [he]
      decide
    rw [if_neg h, if_neg hne, JsNumerals.parseInt_intText]

theorem lowerUuid_chars {s : String} (h : lowerUuid s = true) :
    ∀ c ∈ s.toList, JsNumerals.hexDigit c = true ∨ c ∈ ['-', '{', '}'] := by
  intro c hc
  obtain ⟨i,hi⟩ := List.mem_iff_getElem?.mp hc
  have hall := List.all_eq_true.mp (Bool.and_eq_true_iff.mp h).2 (c,i)
    (List.mem_zipIdx_iff_getElem?.mpr hi)
  simp only at hall
  split at hall
  · right
    have hdash : c = '-' := by simpa using hall
    simp [hdash]
  · left
    unfold JsNumerals.hexDigit
    rw [hall, Bool.true_or]

def plainCompare (s t : String) : ℤ :=
  if s = t then 0 else if JsSort.unitsLe s t then -1 else 1

theorem plainCompare_nonpos (s t : String) : plainCompare s t ≤ 0 ↔ JsSort.unitsLe s t := by
  unfold plainCompare
  by_cases h : s = t
  · subst h
    simpa using (Std.Total.total (r := JsSort.unitsLe) s s).elim id id
  · rw [if_neg h]
    by_cases hle : JsSort.unitsLe s t <;> simp [hle]

theorem plainCompare_swap (s t : String) : plainCompare s t < 0 ↔ 0 < plainCompare t s := by
  unfold plainCompare
  by_cases h : s = t
  · subst h
    simp
  · rw [if_neg h, if_neg (Ne.symm h)]
    rcases Std.Total.total (r := JsSort.unitsLe) s t with hst | hts
    · have hts : ¬JsSort.unitsLe t s := fun hts => h (Std.Antisymm.antisymm s t hst hts)
      simp [hst, hts]
    · have hst : ¬JsSort.unitsLe s t := fun hst => h (Std.Antisymm.antisymm s t hst hts)
      simp [hst, hts]

theorem plainCompare_trans (s t u : String) (h : plainCompare s t ≤ 0)
    (h' : plainCompare t u ≤ 0) : plainCompare s u ≤ 0 := by
  rw [plainCompare_nonpos] at h h' ⊢
  exact le_trans (α := List ℕ) h h'

def plainWire : Wire where
  toISOString := plainTime
  dateParam := plainTime
  readTimestamp := readPlainTime
  readUuid s := if lowerUuid s then some s else none
  number q := if q.den = 1 then JsNumerals.intText q.num
    else JsNumerals.intText q.num++"/"++q.den.repr
  readDouble s := (JsNumerals.parseInt s).map (fun n => (n : ℚ))
  readReal s := (JsNumerals.parseInt s).map (fun n => (n : ℚ))
  toReal := some
  readInteger := JsNumerals.parseInt
  readJsonb := some
  stringify e := "\x7b\"endpoint_uuid\":"++(e.endpoint_uuid.getD "null")++
    ",\"device_uuid\":"++(e.device_uuid.getD "null")++
    ",\"device_name\":"++((e.device_name.map (fun s => "\""++s++"\"")).getD "null")++
    ",\"ingested_at\":\""++plainTime e.ingested_at++"\"\x7d"
  localeCompare := plainCompare
  read_iso := readPlainTime_plainTime
  read_param := readPlainTime_plainTime
  read_lower s h := if_pos h
  uuid_chars s u h := by
    split at h
    · rename_i hs
      exact lowerUuid_chars hs
    · cases h
  compare_self s := if_pos rfl
  compare_swap := plainCompare_swap
  compare_trans := plainCompare_trans
  compare_uuid s t u v _ _ h := by
    by_contra hne
    unfold plainCompare at h
    rw [if_neg hne] at h
    split at h <;> cases h

structure ReadingKey where
  agent_uuid : String
  metric_name : String
  time : ℤ
  deriving DecidableEq

structure SeriesKey where
  agent_uuid : String
  device_name : String
  metric_name : String
  deriving DecidableEq

structure LatestRow where
  value : Option ℚ
  quality : String
  unit : Option String
  protocol : String
  time : ℤ
  deriving DecidableEq

/-- The columns of a reading after its key. -/
structure Cells where
  value : Option ℚ
  quality : Option String
  unit : Option String
  protocol : String
  extra : Option String
  anomaly_score : Option ℚ
  anomaly_threshold : Option ℚ
  baseline_samples : Option ℤ
  detection_methods : Option String
  deriving DecidableEq, Inhabited

structure Db where
  readings : ReadingKey → Option Cells
  readings_latest : SeriesKey → Option LatestRow

/-- `ON CONFLICT … DO NOTHING`. -/
def insertAbsent (table : ReadingKey → Option Cells) (rows : List (ReadingKey × Cells)) :
    ReadingKey → Option Cells :=
  rows.foldl (fun t row => if (t row.1).isSome then t else Function.update t row.1 (some row.2))
    table

def upsertLatest (db : Db) (rows : List (SeriesKey × LatestRow)) : Option Db :=
  if (rows.map Prod.fst).Nodup then
    some { db with readings_latest := upsertNewest LatestRow.time db.readings_latest rows }
  else none

/-- By agent, then by metric, then by the difference of the times. -/
def compareKeys (localeCompare : String → String → ℤ) (agent agent' metric metric' : String)
    (times : ℤ) : ℤ :=
  if localeCompare agent agent' ≠ 0 then localeCompare agent agent'
  else if localeCompare metric metric' ≠ 0 then localeCompare metric metric'
  else times

def MAX_ROWS_PER_BULK_INSERT : ℕ := 500

inductive BulkInsertMode where
  | copy
  | insert
  | realtime
  deriving DecidableEq

structure BulkConfig where
  mode : BulkInsertMode
  realtimeRowsPerInsert : ℕ
  copyMinRows : ℕ
  realtimeMaxRows : ℕ

inductive Route where
  | copy
  | values (maxRowsPerInsert : ℕ)

/-- The way that `bulkInsert` takes for a number of readings. -/
def BulkConfig.route (cfg : BulkConfig) (rows : ℕ) : Route :=
  if cfg.mode = .realtime ∨ (cfg.mode = .copy ∧ rows ≤ cfg.realtimeMaxRows) then
    .values cfg.realtimeRowsPerInsert
  else if cfg.mode = .copy ∧ cfg.copyMinRows ≤ rows then .copy
  else .values MAX_ROWS_PER_BULK_INSERT

section
variable (w : Wire)

def restColumns (r : ReadingInsert) : List (Option String) :=
  [r.value.map w.number,some (r.quality.getD "good"),r.unit,some r.protocol,
    some (w.stringify r.extra),r.anomaly_score.map w.number,r.anomaly_threshold.map w.number,
    r.baseline_samples.map w.number,r.detectionMethodsJson]

def columns (timeText : ℤ → String) (r : ReadingInsert) : List (Option String) :=
  some (timeText r.time)::some r.agent_uuid::some r.metric_name::restColumns w r

inductive Statement where
  | copy
  | values
  deriving DecidableEq

def Statement.timeText : Statement → ℤ → String
  | .copy => w.toISOString
  | .values => w.dateParam

/-- COPY stages the number as double precision and casts it from there. -/
def Statement.readReal : Statement → String → Option ℚ
  | .copy, s => (w.readDouble s).bind w.toReal
  | .values, s => w.readReal s

def readField {α : Type} (read : String → Option α) : Option String → Option (Option α)
  | none => some none
  | some s => (read s).map some

def readCells (statement : Statement) : List (Option String) → Option Cells
  | [value,quality,unit,some protocol,extra,score,threshold,samples,methods] => do
    let value ← readField w.readDouble value
    let extra ← readField w.readJsonb extra
    let score ← readField (statement.readReal w) score
    let threshold ← readField (statement.readReal w) threshold
    let samples ← readField w.readInteger samples
    let methods ← readField w.readJsonb methods
    return ⟨value,quality,unit,protocol,extra,score,threshold,samples,methods⟩
  | _ => none

/-- Text with a null character is refused, whatever the column. -/
def readRow (statement : Statement) (row : List (Option String)) : Option (ReadingKey × Cells) :=
  if ∀ field ∈ row, NulFree field then
    match row with
    | some time::some agent::some metric::rest => do
      let t ← w.readTimestamp time
      let u ← w.readUuid agent
      let cells ← readCells w statement rest
      return (⟨u,metric,t⟩,cells)
    | _ => none
  else none

/-- One row that is refused refuses them all. -/
def insertReadings (statement : Statement) (db : Db) (rows : List (List (Option String))) :
    Option Db :=
  (rows.mapM (readRow w statement)).map
    (fun rows => { db with readings := insertAbsent db.readings rows })

def seriesRow (deviceName : ReadingInsert → String) (row : ReadingInsert → LatestRow)
    (r : ReadingInsert) : Option (SeriesKey × LatestRow) :=
  (w.readUuid r.agent_uuid).map (fun u => (⟨u,deviceName r,r.metric_name⟩,row r))

def upsertRows (deviceName : ReadingInsert → String) (row : ReadingInsert → LatestRow) (db : Db)
    (readings : List ReadingInsert) : Option Db :=
  (readings.mapM (seriesRow w deviceName row)).bind (upsertLatest db)

abbrev LatestBuffer := OrderedMap String ReadingInsert

def bufferedDevice (r : ReadingInsert) : String := r.extra.deviceName.getD "unknown"

def seriesText (r : ReadingInsert) (deviceName : String) : String :=
  r.agent_uuid++"\t"++deviceName++"\t"++r.metric_name

def bufferKey (r : ReadingInsert) : String := seriesText r (bufferedDevice r)

def bufferLatest (buffer : LatestBuffer) (readings : List ReadingInsert) : LatestBuffer :=
  collect bufferKey (fun existing r => decide (existing.time ≤ r.time)) buffer readings

def bufferedRow (r : ReadingInsert) : LatestRow :=
  ⟨r.value,r.quality.getD "good",r.unit,r.protocol,r.time⟩

def CHUNK : ℕ := 500

def flushRows (snapshot : LatestBuffer) : List ReadingInsert :=
  (snapshot.entries.map Prod.snd).insertionSort
    (fun a b => JsSort.unitsLe (bufferKey a) (bufferKey b))

def flushChunk (db : Db) (chunk : List ReadingInsert) : Option Db :=
  upsertRows w bufferedDevice bufferedRow db chunk

structure State where
  db : Db
  latestBuffer : LatestBuffer

def flush (s : State) : Option State :=
  ((slices CHUNK (flushRows s.latestBuffer)).foldlM (flushChunk w) s.db).map
    (fun db => ⟨db,OrderedMap.empty⟩)

def COPY_STAGE_ROWS_PER_BATCH : ℕ := 5000

def toCopyLine (r : ReadingInsert) : List Char := CopyText.copyLine (columns w w.toISOString r)

def copyBatch (s : State) (batch : List ReadingInsert) : Option State :=
  ((CopyFormat.readCopy (batch.flatMap (toCopyLine w))).bind (insertReadings w .copy s.db)).map
    (fun db => ⟨db,bufferLatest s.latestBuffer batch⟩)

/-- Batches are committed one by one until one fails; `failsAt` counts the
batches before one that fails for a reason of its own. -/
def copyBatches : Option ℕ → State → List (List ReadingInsert) → State × Bool
  | _, s, [] => (s,true)
  | some 0, s, _::_ => (s,false)
  | failsAt, s, batch::batches =>
    match copyBatch w s batch with
    | none => (s,false)
    | some s' => copyBatches (failsAt.map (fun n => n-1)) s' batches

def bulkInsertViaCopy (failsAt : Option ℕ) (s : State) (readings : List ReadingInsert) :
    State × Bool :=
  copyBatches w failsAt s (slices COPY_STAGE_ROWS_PER_BATCH readings)

def comparePrimary (a b : ReadingInsert) : ℤ :=
  compareKeys w.localeCompare a.agent_uuid b.agent_uuid a.metric_name b.metric_name (a.time-b.time)

def sortReadings (readings : List ReadingInsert) : List ReadingInsert :=
  readings.insertionSort (fun a b => comparePrimary w a b ≤ 0)

def latestDevice (r : ReadingInsert) : String :=
  orElse r.extra.deviceName (orElse r.extra.device_name "unknown")

def latestRow (r : ReadingInsert) : LatestRow :=
  ⟨r.value,orElse r.quality "good",r.unit.bind nonEmpty,r.protocol,r.time⟩

def compareSeries (a b : ReadingInsert) : ℤ :=
  if w.localeCompare a.agent_uuid b.agent_uuid ≠ 0 then w.localeCompare a.agent_uuid b.agent_uuid
  else if w.localeCompare (latestDevice a) (latestDevice b) ≠ 0 then
    w.localeCompare (latestDevice a) (latestDevice b)
  else w.localeCompare a.metric_name b.metric_name

def latestOf (batch : List ReadingInsert) : LatestBuffer :=
  collect (fun r => seriesText r (latestDevice r))
    (fun existing r => decide (existing.time < r.time)) OrderedMap.empty batch

def upsertReadingsLatest (db : Db) (batch : List ReadingInsert) : Option Db :=
  upsertRows w latestDevice latestRow db
    (((latestOf batch).entries.map Prod.snd).insertionSort (fun a b => compareSeries w a b ≤ 0))

def insertChunk (db : Db) (batch : List ReadingInsert) : Option Db :=
  (insertReadings w .values db (batch.map (columns w w.dateParam))).bind
    (fun db => upsertReadingsLatest w db batch)

def bulkInsertViaValues (maxRowsPerInsert : ℕ) (s : State) (readings : List ReadingInsert) :
    Option State :=
  ((slices maxRowsPerInsert (sortReadings w readings)).foldlM (insertChunk w) s.db).map
    (fun db => { s with db })

def copyOrValues (failsAt : Option ℕ) (s : State) (readings : List ReadingInsert) : Option State :=
  match bulkInsertViaCopy w failsAt s readings with
  | (s',true) => some s'
  | (s',false) => bulkInsertViaValues w MAX_ROWS_PER_BULK_INSERT s' readings

def bulkInsert (cfg : BulkConfig) (failsAt : Option ℕ) (s : State)
    (readings : List ReadingInsert) : Option State :=
  if readings = [] then some s
  else
    match cfg.route readings.length with
    | .copy => copyOrValues w failsAt s readings
    | .values maxRowsPerInsert => bulkInsertViaValues w maxRowsPerInsert s readings

inductive Path where
  | copy
  | values (rows : ℕ)
  | copyFails (committed : ℕ)

def Path.run : Path → State → List ReadingInsert → Option State
  | .copy, s, readings => copyOrValues w none s readings
  | .values rows, s, readings => bulkInsertViaValues w rows s readings
  | .copyFails committed, s, readings => copyOrValues w (some committed) s readings

def Path.valid : Path → Bool
  | .values rows => decide (0 < rows)
  | _ => true

theorem route_values {cfg : BulkConfig} (hcfg : 0 < cfg.realtimeRowsPerInsert) {n rows : ℕ}
    (h : cfg.route n = .values rows) : 0 < rows := by
  unfold BulkConfig.route at h
  split_ifs at h
  · cases h
    exact hcfg
  · cases h
    decide

theorem route_copy {cfg : BulkConfig} {n : ℕ} (h : cfg.route n = .copy) :
    cfg.mode = .copy ∧ cfg.realtimeMaxRows < n ∧ cfg.copyMinRows ≤ n := by
  unfold BulkConfig.route at h
  split_ifs at h with hreal hcopy
  refine ⟨hcopy.1,?_,hcopy.2⟩
  by_contra hle
  exact hreal (Or.inr ⟨hcopy.1,not_lt.mp hle⟩)

theorem bulkInsert_path {cfg : BulkConfig} (hcfg : 0 < cfg.realtimeRowsPerInsert)
    (failsAt : Option ℕ) (s : State) {readings : List ReadingInsert} (hne : readings ≠ []) :
    ∃ path : Path, path.valid = true ∧
      bulkInsert w cfg failsAt s readings = path.run w s readings := by
  unfold bulkInsert
  rw [if_neg hne]
  split
  · cases failsAt with
    | none => exact ⟨.copy,rfl,rfl⟩
    | some committed => exact ⟨.copyFails committed,rfl,rfl⟩
  · rename_i rows hroute
    exact ⟨.values rows,by simpa [Path.valid] using route_values hcfg hroute,rfl⟩

end

end Iotistica.Readings
