import Iotistica.ReadingsStore

/-!
# What the writes leave in the tables

A key of the readings table holds what it held, or the first reading that was
sent under it; a series holds the newest of its row and the rows sent, each
statement in its turn.
-/

set_option autoImplicit false

namespace Iotistica.Readings
open Iotistica.JsText Iotistica.Newest Iotistica.Slices

theorem insertAbsent_apply (table : ReadingKey → Option Cells)
    (rows : List (ReadingKey × Cells)) (k : ReadingKey) :
    insertAbsent table rows k =
      (table k).or ((rows.filter (fun row => row.1 = k)).head?.map Prod.snd) := by
  induction rows generalizing table with
  | nil => simp [insertAbsent]
  | cons row rows ih =>
    unfold insertAbsent at ih ⊢
    rw [List.foldl_cons, ih]
    by_cases hk : row.1 = k
    · subst hk
      cases h : table row.1 with
      | none => simp
      | some cells => simp [h]
    · rw [List.filter_cons_of_neg (by simpa using hk)]
      congr 1
      split
      · rfl
      · rw [Function.update_of_ne (Ne.symm hk)]

theorem insertAbsent_append (table : ReadingKey → Option Cells)
    (rows rows' : List (ReadingKey × Cells)) :
    insertAbsent table (rows++rows') = insertAbsent (insertAbsent table rows) rows' :=
  List.foldl_append

section
variable (w : Wire)

def readingKey (r : ReadingInsert) : ReadingKey :=
  ⟨(w.readUuid r.agent_uuid).getD "",r.metric_name,r.time⟩

def accepts (statement : Statement) (r : ReadingInsert) : Bool :=
  (readRow w statement (columns w (statement.timeText w) r)).isSome

def restCells (statement : Statement) (r : ReadingInsert) : Cells :=
  ((readRow w statement (columns w (statement.timeText w) r)).map Prod.snd).getD default

def storedRow (statement : Statement) (r : ReadingInsert) : ReadingKey × Cells :=
  (readingKey w r,restCells w statement r)

def Valid (readings : List ReadingInsert) : Prop :=
  ∀ r ∈ readings, (w.readUuid r.agent_uuid).isSome

def Canonical (readings : List ReadingInsert) : Prop :=
  ∀ r ∈ readings, w.readUuid r.agent_uuid = some r.agent_uuid

theorem canonical_of_lower {readings : List ReadingInsert}
    (h : ∀ r ∈ readings, lowerUuid r.agent_uuid = true) : Canonical w readings :=
  fun r hr => w.read_lower _ (h r hr)

theorem Canonical.subset {readings readings' : List ReadingInsert} (h : Canonical w readings)
    (hsub : readings' ⊆ readings) : Canonical w readings' := fun r hr => h r (hsub hr)

theorem Canonical.valid {readings : List ReadingInsert} (h : Canonical w readings) :
    Valid w readings := by
  intro r hr
  rw [h r hr]
  rfl

theorem Canonical.readingKey {readings : List ReadingInsert} (h : Canonical w readings)
    {r : ReadingInsert} (hr : r ∈ readings) :
    readingKey w r = ⟨r.agent_uuid,r.metric_name,r.time⟩ := by
  rw [Readings.readingKey, h r hr]
  rfl

theorem mapM_some {α β : Type} (f : α → Option β) (g : α → β) :
    ∀ {xs : List α}, (∀ x ∈ xs, f x = some (g x)) → xs.mapM f = some (xs.map g)
  | [], _ => rfl
  | x::xs, h => by
    rw [List.mapM_cons, h x List.mem_cons_self,
      mapM_some f g (fun y hy => h y (List.mem_cons_of_mem _ hy))]
    rfl

theorem mapM_none {α β : Type} (f : α → Option β) :
    ∀ {xs : List α}, (∃ x ∈ xs, f x = none) → xs.mapM f = none
  | [], h => by simp at h
  | x::xs, h => by
    rw [List.mapM_cons]
    cases hx : f x with
    | none => rfl
    | some y =>
      have htail : ∃ z ∈ xs, f z = none := by
        obtain ⟨z,hz,hnone⟩ := h
        rcases List.mem_cons.mp hz with rfl | hz
        · rw [hx] at hnone
          cases hnone
        · exact ⟨z,hz,hnone⟩
      rw [mapM_none f htail]
      rfl

theorem read_time (statement : Statement) (t : ℤ) :
    w.readTimestamp (statement.timeText w t) = some t := by
  cases statement
  · exact w.read_iso t
  · exact w.read_param t

theorem readRow_parts {statement : Statement} {r : ReadingInsert} {row : ReadingKey × Cells}
    (h : readRow w statement (columns w (statement.timeText w) r) = some row) :
    ∃ u, w.readUuid r.agent_uuid = some u ∧ row.1 = ⟨u,r.metric_name,r.time⟩ ∧
      readCells w statement (restColumns w r) = some row.2 := by
  unfold readRow columns at h
  split at h
  · simp only [read_time, Option.bind_eq_bind, Option.bind_some] at h
    obtain ⟨u,hu,h⟩ := Option.bind_eq_some_iff.mp h
    obtain ⟨cells,hcells,h⟩ := Option.bind_eq_some_iff.mp h
    cases h
    exact ⟨u,hu,rfl,hcells⟩
  · cases h

theorem accepts_agent {statement : Statement} {r : ReadingInsert}
    (h : accepts w statement r = true) : (w.readUuid r.agent_uuid).isSome := by
  obtain ⟨row,hrow⟩ := Option.isSome_iff_exists.mp h
  obtain ⟨u,hu,-⟩ := readRow_parts w hrow
  rw [hu]
  rfl

theorem readRow_columns {statement : Statement} {r : ReadingInsert}
    (h : accepts w statement r = true) :
    readRow w statement (columns w (statement.timeText w) r) = some (storedRow w statement r) := by
  obtain ⟨row,hrow⟩ := Option.isSome_iff_exists.mp h
  obtain ⟨u,hu,hkey,-⟩ := readRow_parts w hrow
  rw [hrow, storedRow, readingKey, restCells, hrow, hu, Option.getD_some, ← hkey]
  rfl

theorem readCells_columns {statement : Statement} {r : ReadingInsert}
    (h : accepts w statement r = true) :
    readCells w statement (restColumns w r) = some (restCells w statement r) := by
  obtain ⟨u,hu,-,hcells⟩ := readRow_parts w (readRow_columns w h)
  exact hcells

/-- Staging the score and the threshold as double precision changes neither. -/
def RealsAlike (r : ReadingInsert) : Prop :=
  ∀ q, r.anomaly_score = some q ∨ r.anomaly_threshold = some q →
    (w.readDouble (w.number q)).bind w.toReal = w.readReal (w.number q)

theorem readField_alike {old : Option ℚ}
    (h : readField (Statement.readReal w .copy) (old.map w.number) =
      readField (Statement.readReal w .values) (old.map w.number)) {q : ℚ} (hq : old = some q) :
    (w.readDouble (w.number q)).bind w.toReal = w.readReal (w.number q) := by
  subst hq
  exact Option.map_injective (Option.some_injective ℚ) h

theorem readCells_reals {statement : Statement} {r : ReadingInsert} {cells : Cells}
    (h : readCells w statement (restColumns w r) = some cells) :
    readField (statement.readReal w) (r.anomaly_score.map w.number) = some cells.anomaly_score ∧
      readField (statement.readReal w) (r.anomaly_threshold.map w.number) =
        some cells.anomaly_threshold := by
  simp only [readCells, restColumns, Option.bind_eq_bind] at h
  obtain ⟨value,-,h⟩ := Option.bind_eq_some_iff.mp h
  obtain ⟨extra,-,h⟩ := Option.bind_eq_some_iff.mp h
  obtain ⟨score,hscore,h⟩ := Option.bind_eq_some_iff.mp h
  obtain ⟨threshold,hthreshold,h⟩ := Option.bind_eq_some_iff.mp h
  obtain ⟨samples,-,h⟩ := Option.bind_eq_some_iff.mp h
  obtain ⟨methods,-,h⟩ := Option.bind_eq_some_iff.mp h
  cases h
  exact ⟨hscore,hthreshold⟩

theorem readCells_copy {r : ReadingInsert} (h : RealsAlike w r) :
    readCells w .copy (restColumns w r) = readCells w .values (restColumns w r) := by
  have hfield : ∀ old : Option ℚ,
      (∀ q, old = some q → r.anomaly_score = some q ∨ r.anomaly_threshold = some q) →
      readField (Statement.readReal w .copy) (old.map w.number) =
        readField (Statement.readReal w .values) (old.map w.number) := by
    intro old hold
    cases old with
    | none => rfl
    | some q => exact congrArg (Option.map some) (h q (hold q rfl))
  simp only [readCells, restColumns, hfield r.anomaly_score (fun q hq => Or.inl hq),
    hfield r.anomaly_threshold (fun q hq => Or.inr hq)]

theorem restCells_alike_iff {r : ReadingInsert} (hcopy : accepts w .copy r = true)
    (hvalues : accepts w .values r = true) :
    restCells w .copy r = restCells w .values r ↔ RealsAlike w r := by
  have hc := readCells_columns w hcopy
  have hv := readCells_columns w hvalues
  constructor
  · intro hsame q hq
    have hc' := readCells_reals w hc
    have hv' := readCells_reals w hv
    rw [hsame] at hc'
    rcases hq with hq | hq
    · exact readField_alike w (hc'.1.trans hv'.1.symm) hq
    · exact readField_alike w (hc'.2.trans hv'.2.symm) hq
  · intro halike
    rw [readCells_copy w halike, hv] at hc
    exact (Option.some.inj hc).symm

theorem insertReadings_columns {statement : Statement} (db : Db) {batch : List ReadingInsert}
    (h : ∀ r ∈ batch, accepts w statement r = true) :
    insertReadings w statement db (batch.map (columns w (statement.timeText w))) =
      some { db with readings := insertAbsent db.readings (batch.map (storedRow w statement)) } := by
  have hrows : batch.mapM (readRow w statement∘columns w (statement.timeText w)) =
      some (batch.map (storedRow w statement)) :=
    mapM_some _ _ (fun r hr => readRow_columns w (h r hr))
  rw [insertReadings, List.mapM_map, hrows, Option.map_some]

theorem insertReadings_refused {statement : Statement} (db : Db) {batch : List ReadingInsert}
    (h : ∃ r ∈ batch, accepts w statement r = false) :
    insertReadings w statement db (batch.map (columns w (statement.timeText w))) = none := by
  rw [insertReadings, List.mapM_map, mapM_none]
  · rfl
  · obtain ⟨r,hr,hno⟩ := h
    exact ⟨r,hr,Option.not_isSome_iff_eq_none.mp (by simpa [accepts] using hno)⟩

theorem accepts_of_insert {statement : Statement} {db db' : Db} {batch : List ReadingInsert}
    (h : insertReadings w statement db (batch.map (columns w (statement.timeText w))) = some db') :
    ∀ r ∈ batch, accepts w statement r = true := by
  intro r hr
  by_contra hno
  rw [insertReadings_refused w db ⟨r,hr,by simpa using hno⟩] at h
  cases h

def SeriesKey.text (k : SeriesKey) : String :=
  k.agent_uuid++"\t"++k.device_name++"\t"++k.metric_name

def seriesKey (deviceName : ReadingInsert → String) (r : ReadingInsert) : SeriesKey :=
  ⟨r.agent_uuid,deviceName r,r.metric_name⟩

/-- What the database keys a row of the series by: it reads the uuid. -/
def storedSeries (deviceName : ReadingInsert → String) (r : ReadingInsert) : SeriesKey :=
  ⟨(w.readUuid r.agent_uuid).getD "",deviceName r,r.metric_name⟩

theorem upsertRows_valid {deviceName : ReadingInsert → String} (row : ReadingInsert → LatestRow)
    (db : Db) {readings : List ReadingInsert} (h : Valid w readings) :
    upsertRows w deviceName row db readings =
      upsertLatest db (readings.map (fun r => (storedSeries w deviceName r,row r))) := by
  have hrows : readings.mapM (seriesRow w deviceName row) =
      some (readings.map (fun r => (storedSeries w deviceName r,row r))) := by
    apply mapM_some
    intro r hr
    obtain ⟨u,hu⟩ := Option.isSome_iff_exists.mp (h r hr)
    rw [seriesRow, storedSeries, hu]
    rfl
  rw [upsertRows, hrows, Option.bind_some]

theorem upsertRows_eq {deviceName : ReadingInsert → String} (row : ReadingInsert → LatestRow)
    (db : Db) {readings : List ReadingInsert} (h : Canonical w readings)
    (hnodup : (readings.map (seriesKey deviceName)).Nodup) :
    upsertRows w deviceName row db readings = some { db with
      readings_latest := upsertNewest LatestRow.time db.readings_latest
        (readings.map (fun r => (seriesKey deviceName r,row r))) } := by
  have hrows : readings.map (fun r => (storedSeries w deviceName r,row r)) =
      readings.map (fun r => (seriesKey deviceName r,row r)) := by
    apply List.map_congr_left
    intro r hr
    rw [storedSeries, h r hr]
    rfl
  have hkeys : ((readings.map (fun r => (seriesKey deviceName r,row r))).map Prod.fst).Nodup := by
    rwa [List.map_map]
  rw [upsertRows_valid w row db (h.valid w), hrows, upsertLatest, if_pos hkeys]

theorem upsert_readings_apply {deviceName : ReadingInsert → String} {row : ReadingInsert → LatestRow}
    (hrow : ∀ r, (row r).time = r.time) (table : SeriesKey → Option LatestRow)
    (readings : List ReadingInsert) (k : SeriesKey) :
    upsertNewest LatestRow.time table (readings.map (fun r => (seriesKey deviceName r,row r))) k =
      offer LatestRow.time (table k)
        ((lastNewest ReadingInsert.time
          (readings.filter (fun r => seriesKey deviceName r = k))).map row) := by
  have htime : (fun r => (row r).time) = ReadingInsert.time := funext hrow
  have hrows : ((readings.map (fun r => (seriesKey deviceName r,row r))).filter
      (fun e => e.1 = k)).map Prod.snd =
      (readings.filter (fun r => seriesKey deviceName r = k)).map row := by
    rw [List.filter_map, List.map_map]
    rfl
  rw [upsertNewest_apply, hrows, foldl_keepLast_eq, lastNewest_map, htime]

theorem not_tab_of_read {s u : String} (h : w.readUuid s = some u) : '\t' ∉ s.toList := by
  intro hm
  rcases w.uuid_chars s u h _ hm with hc | hc
  · revert hc
    decide
  · revert hc
    decide

theorem toList_seriesText (r : ReadingInsert) (d : String) :
    (seriesText r d).toList = r.agent_uuid.toList++ '\t'::(d.toList++ '\t'::r.metric_name.toList) := by
  simp [seriesText]

/-- Agents and device names without a tab can be read off the text of a
series. -/
theorem seriesText_inj {r r' : ReadingInsert} {d d' : String} (hr : '\t' ∉ r.agent_uuid.toList)
    (hr' : '\t' ∉ r'.agent_uuid.toList) (hd : '\t' ∉ d.toList) (hd' : '\t' ∉ d'.toList) :
    seriesText r d = seriesText r' d' ↔
      r.agent_uuid = r'.agent_uuid ∧ d = d' ∧ r.metric_name = r'.metric_name := by
  constructor
  · intro h
    have hl := congrArg String.toList h
    rw [toList_seriesText, toList_seriesText] at hl
    have houter := append_sep_inj hr hr' hl
    have hinner := append_sep_inj hd hd' houter.2
    exact ⟨String.toList_injective houter.1,String.toList_injective hinner.1,
      String.toList_injective hinner.2⟩
  · rintro ⟨ha,hd,hm⟩
    rw [seriesText, seriesText, ha, hd, hm]

def Plain (deviceName : ReadingInsert → String) (readings : List ReadingInsert) : Prop :=
  ∀ r ∈ readings, '\t' ∉ (deviceName r).toList

variable {w} {deviceName : ReadingInsert → String} {m : LatestBuffer}

def KeyedBy (deviceName : ReadingInsert → String) (m : LatestBuffer) : Prop :=
  ∀ e ∈ m.entries, seriesText e.2 (deviceName e.2) = e.1

theorem nodup_series (hm : KeyedBy deviceName m) :
    ((m.entries.map Prod.snd).map (seriesKey deviceName)).Nodup := by
  apply List.Nodup.of_map SeriesKey.text
  have hkeys : ((m.entries.map Prod.snd).map (seriesKey deviceName)).map SeriesKey.text =
      m.entries.map Prod.fst := by
    rw [List.map_map, List.map_map]
    exact List.map_congr_left (fun e he => hm e he)
  rw [hkeys]
  exact m.nodup

theorem filter_series (hm : KeyedBy deviceName m) {readings : List ReadingInsert}
    (hvalues : ∀ e ∈ m.entries, e.2 ∈ readings) (hc : Canonical w readings)
    (hp : Plain deviceName readings) {r : ReadingInsert} (hr : r ∈ readings) :
    (m.entries.map Prod.snd).filter (fun x => seriesKey deviceName x = seriesKey deviceName r) =
      (m.get? (seriesText r (deviceName r))).toList := by
  rw [← filter_values (fun x => seriesText x (deviceName x)) hm]
  apply List.filter_congr
  intro x hx
  obtain ⟨e,he,rfl⟩ := List.mem_map.mp hx
  have hmem := hvalues e he
  have hiff := seriesText_inj (not_tab_of_read w (hc _ hmem)) (not_tab_of_read w (hc _ hr))
    (hp _ hmem) (hp _ hr)
  rw [decide_eq_decide, hiff]
  simp [seriesKey]

theorem filter_text {readings : List ReadingInsert} (hc : Canonical w readings)
    (hp : Plain deviceName readings) {r : ReadingInsert} (hr : r ∈ readings) :
    readings.filter (fun x => seriesText x (deviceName x) = seriesText r (deviceName r)) =
      readings.filter (fun x => seriesKey deviceName x = seriesKey deviceName r) := by
  apply List.filter_congr
  intro x hx
  have hiff := seriesText_inj (not_tab_of_read w (hc _ hx)) (not_tab_of_read w (hc _ hr))
    (hp _ hx) (hp _ hr)
  rw [decide_eq_decide, hiff]
  simp [seriesKey]

/-- Where a map holds for the text of each series what `pick` takes of its
readings, so do its values for each series. -/
theorem filter_series_pick (pick : List ReadingInsert → Option ReadingInsert)
    (hnil : pick [] = none) (hm : KeyedBy deviceName m) {readings : List ReadingInsert}
    (hvalues : ∀ e ∈ m.entries, e.2 ∈ readings) (hc : Canonical w readings)
    (hp : Plain deviceName readings)
    (hpick : ∀ r, m.get? (seriesText r (deviceName r)) =
      pick (readings.filter (fun x => seriesText x (deviceName x) = seriesText r (deviceName r))))
    (k : SeriesKey) :
    (m.entries.map Prod.snd).filter (fun x => seriesKey deviceName x = k) =
      (pick (readings.filter (fun x => seriesKey deviceName x = k))).toList := by
  by_cases hk : ∃ r ∈ readings, seriesKey deviceName r = k
  · obtain ⟨r,hr,rfl⟩ := hk
    rw [filter_series hm hvalues hc hp hr, hpick, filter_text hc hp hr]
  · have hout : ∀ r ∈ readings, ¬seriesKey deviceName r = k := fun r hr he => hk ⟨r,hr,he⟩
    have hleft : (m.entries.map Prod.snd).filter (fun x => seriesKey deviceName x = k) = [] := by
      rw [List.filter_eq_nil_iff]
      intro x hx
      obtain ⟨e,he,rfl⟩ := List.mem_map.mp hx
      simpa using hout _ (hvalues e he)
    have hright : readings.filter (fun x => seriesKey deviceName x = k) = [] := by
      rw [List.filter_eq_nil_iff]
      intro x hx
      simpa using hout x hx
    rw [hleft, hright, hnil]
    rfl

/-- The values of a map for a series: at most the one under its text, unless it
belongs to another series with this text. -/
theorem filter_series_text (hm : KeyedBy deviceName m) (k : SeriesKey) :
    (m.entries.map Prod.snd).filter (fun x => seriesKey deviceName x = k) =
      ((m.get? k.text).filter (fun x => seriesKey deviceName x = k)).toList := by
  have htext := filter_values (fun x => seriesText x (deviceName x)) hm k.text
  have hboth : (m.entries.map Prod.snd).filter (fun x => seriesKey deviceName x = k) =
      ((m.entries.map Prod.snd).filter (fun x => seriesText x (deviceName x) = k.text)).filter
        (fun x => seriesKey deviceName x = k) := by
    rw [List.filter_filter]
    apply List.filter_congr
    intro x _
    by_cases hx : seriesKey deviceName x = k
    · have hxt : seriesText x (deviceName x) = k.text := by
        rw [← hx]
        rfl
      simp [hx, hxt]
    · simp [hx]
  rw [hboth, htext]
  cases m.get? k.text with
  | none => rfl
  | some x => by_cases hx : seriesKey deviceName x = k <;> simp [hx, Option.filter]

/-- What a chunk sends for a series: the first newest reading under its text,
if it belongs to the series. -/
def winner (chunk : List ReadingInsert) (k : SeriesKey) : Option ReadingInsert :=
  (firstNewest ReadingInsert.time
    (chunk.filter (fun r => (seriesKey latestDevice r).text = k.text))).filter
      (fun r => seriesKey latestDevice r = k)

theorem winner_mem {chunk : List ReadingInsert} {k : SeriesKey} {r : ReadingInsert}
    (h : winner chunk k = some r) : r ∈ chunk ∧ seriesKey latestDevice r = k := by
  obtain ⟨hfirst,hk⟩ := Option.filter_eq_some_iff.mp h
  exact ⟨(List.mem_filter.mp (firstNewest_mem ReadingInsert.time hfirst)).1,by simpa using hk⟩

theorem mem_latestOf {chunk : List ReadingInsert} {r : ReadingInsert}
    (h : r ∈ (latestOf chunk).entries.map Prod.snd) : r ∈ chunk := by
  obtain ⟨e,he,rfl⟩ := List.mem_map.mp h
  exact (mem_collect _ _ he).resolve_left List.not_mem_nil

theorem upsertReadingsLatest_eq (db : Db) {batch : List ReadingInsert} (hc : Canonical w batch) :
    ∃ db', upsertReadingsLatest w db batch = some db' ∧ db'.readings = db.readings ∧
      ∀ k, db'.readings_latest k = offer LatestRow.time (db.readings_latest k)
        ((winner batch k).map latestRow) := by
  have hm : KeyedBy latestDevice (latestOf batch) :=
    collect_keyed _ _ (fun e he => absurd he List.not_mem_nil) batch
  have hperm := List.perm_insertionSort (fun a b => compareSeries w a b ≤ 0)
    ((latestOf batch).entries.map Prod.snd)
  have hc' : Canonical w (((latestOf batch).entries.map Prod.snd).insertionSort
      (fun a b => compareSeries w a b ≤ 0)) := by
    intro r hr
    exact hc _ (mem_latestOf (hperm.mem_iff.mp hr))
  have hnodup := ((hperm.map (seriesKey latestDevice)).nodup_iff).mpr (nodup_series hm)
  refine ⟨_,upsertRows_eq w latestRow db hc' hnodup,rfl,?_⟩
  intro k
  have hget : (latestOf batch).get? k.text = firstNewest ReadingInsert.time
      (batch.filter (fun r => (seriesKey latestDevice r).text = k.text)) :=
    get?_collect_first _ _ _ _ _
  have hfilter := filter_series_text hm k
  rw [hget] at hfilter
  have hone : ∀ o : Option ReadingInsert, ∀ xs : List ReadingInsert, xs.Perm o.toList →
      lastNewest ReadingInsert.time xs = o := by
    intro o xs hxs
    cases o with
    | none =>
      rw [List.perm_nil.mp hxs]
      rfl
    | some r =>
      rw [List.perm_singleton.mp hxs]
      rfl
  refine (upsert_readings_apply (fun r => rfl) _ _ _).trans ?_
  rw [hone _ _ ((hperm.filter _).trans (List.Perm.of_eq hfilter))]
  rfl

theorem insertChunk_eq (db : Db) {batch : List ReadingInsert}
    (ha : ∀ r ∈ batch, accepts w .values r = true) (hc : Canonical w batch) :
    ∃ db', insertChunk w db batch = some db' ∧
      db'.readings = insertAbsent db.readings (batch.map (storedRow w .values)) ∧
      ∀ k, db'.readings_latest k = offer LatestRow.time (db.readings_latest k)
        ((winner batch k).map latestRow) := by
  obtain ⟨db',hdb,hr,hl⟩ := upsertReadingsLatest_eq
    { db with readings := insertAbsent db.readings (batch.map (storedRow w .values)) } hc
  refine ⟨db',?_,hr,hl⟩
  have hinsert := insertReadings_columns w db ha
  rw [insertChunk, show w.dateParam = Statement.timeText w .values from rfl, hinsert]
  exact hdb

/-- Chunk after chunk: the readings in their order, and of each series what
the chunks send. -/
theorem insertChunks_eq (db : Db) (cs : List (List ReadingInsert))
    (ha : ∀ r ∈ cs.flatten, accepts w .values r = true) (hc : Canonical w cs.flatten) :
    ∃ db', cs.foldlM (insertChunk w) db = some db' ∧
      db'.readings = insertAbsent db.readings (cs.flatten.map (storedRow w .values)) ∧
      ∀ k, db'.readings_latest k = ((cs.filterMap (fun c => winner c k)).map latestRow).foldl
        (keepLast LatestRow.time) (db.readings_latest k) := by
  induction cs generalizing db with
  | nil => exact ⟨db,rfl,rfl,fun k => rfl⟩
  | cons c cs ih =>
    rw [List.flatten_cons] at ha hc
    obtain ⟨db₁,h₁,hr₁,hl₁⟩ := insertChunk_eq db
      (fun r hr => ha r (List.mem_append_left _ hr))
      (hc.subset w (List.subset_append_left c cs.flatten))
    obtain ⟨db₂,h₂,hr₂,hl₂⟩ := ih db₁ (fun r hr => ha r (List.mem_append_right _ hr))
      (hc.subset w (List.subset_append_right c cs.flatten))
    refine ⟨db₂,?_,?_,?_⟩
    · rw [List.foldlM_cons, h₁]
      exact h₂
    · rw [hr₂, hr₁, List.flatten_cons, List.map_append, insertAbsent_append]
    · intro k
      rw [hl₂, hl₁, List.filterMap_cons]
      cases winner c k <;> rfl

/-- Chunks that are inserted leave their rows in order, whatever becomes of the
series. -/
theorem insertChunks_readings {cs : List (List ReadingInsert)} {db db' : Db}
    (h : cs.foldlM (insertChunk w) db = some db') :
    (∀ r ∈ cs.flatten, accepts w .values r = true) ∧
      db'.readings = insertAbsent db.readings (cs.flatten.map (storedRow w .values)) := by
  induction cs generalizing db with
  | nil =>
    cases h
    exact ⟨by simp,rfl⟩
  | cons c cs ih =>
    rw [List.foldlM_cons] at h
    obtain ⟨db₁,h₁,h₂⟩ := Option.bind_eq_some_iff.mp h
    obtain ⟨mid,hmid,h₁⟩ := Option.bind_eq_some_iff.mp h₁
    have ha : ∀ r ∈ c, accepts w .values r = true := accepts_of_insert w hmid
    have hrows : mid.readings = insertAbsent db.readings (c.map (storedRow w .values)) :=
      congrArg Db.readings (Option.some.inj (hmid.symm.trans (insertReadings_columns w db ha)))
    have hkeep : db₁.readings = mid.readings := by
      obtain ⟨rows,-,hrows⟩ := Option.bind_eq_some_iff.mp h₁
      unfold upsertLatest at hrows
      split at hrows
      · rw [← Option.some.inj hrows]
      · cases hrows
    obtain ⟨ha',hreadings⟩ := ih h₂
    refine ⟨?_,?_⟩
    · rw [List.flatten_cons]
      exact fun r hr => (List.mem_append.mp hr).elim (ha r) (ha' r)
    · rw [hreadings, hkeep, hrows, List.flatten_cons, List.map_append, insertAbsent_append]

/-- For the database the series of a chunk are as many as for the code: none
of them comes with two spellings of its uuid. -/
def Unmixed (w : Wire) (chunk : List ReadingInsert) : Prop :=
  (((latestOf chunk).entries.map Prod.snd).map (storedSeries w latestDevice)).Nodup

theorem unmixed_of_agent {chunk : List ReadingInsert} {agent : String}
    (h : ∀ r ∈ chunk, r.agent_uuid = agent) : Unmixed w chunk := by
  apply List.Nodup.of_map (fun k : SeriesKey => (⟨agent,k.device_name,k.metric_name⟩ : SeriesKey))
  rw [List.map_map]
  have hkeys : ((latestOf chunk).entries.map Prod.snd).map
      ((fun k : SeriesKey => (⟨agent,k.device_name,k.metric_name⟩ : SeriesKey))∘
        storedSeries w latestDevice) =
      ((latestOf chunk).entries.map Prod.snd).map (seriesKey latestDevice) := by
    apply List.map_congr_left
    intro r hr
    rw [Function.comp_apply, storedSeries, seriesKey, h r (mem_latestOf hr)]
  rw [hkeys]
  exact nodup_series (collect_keyed _ _ (fun e he => absurd he List.not_mem_nil) chunk)

theorem exists_insertChunk_iff (db : Db) {chunk : List ReadingInsert}
    (ha : ∀ r ∈ chunk, accepts w .values r = true) :
    (∃ db', insertChunk w db chunk = some db') ↔ Unmixed w chunk := by
  have hinsert := insertReadings_columns w db ha
  have hperm := List.perm_insertionSort (fun a b => compareSeries w a b ≤ 0)
    ((latestOf chunk).entries.map Prod.snd)
  have hvalid : Valid w (((latestOf chunk).entries.map Prod.snd).insertionSort
      (fun a b => compareSeries w a b ≤ 0)) :=
    fun r hr => accepts_agent w (ha r (mem_latestOf (hperm.mem_iff.mp hr)))
  rw [insertChunk, show w.dateParam = Statement.timeText w .values from rfl, hinsert,
    Option.bind_some, upsertReadingsLatest, upsertRows_valid w latestRow _ hvalid, upsertLatest,
    List.map_map, Unmixed, ← (hperm.map (storedSeries w latestDevice)).nodup_iff]
  split
  · next hnodup => exact iff_of_true ⟨_,rfl⟩ hnodup
  · next hnodup => exact iff_of_false nofun hnodup

theorem exists_insertChunks_iff (db : Db) {cs : List (List ReadingInsert)}
    (ha : ∀ r ∈ cs.flatten, accepts w .values r = true) :
    (∃ db', cs.foldlM (insertChunk w) db = some db') ↔ ∀ c ∈ cs, Unmixed w c := by
  induction cs generalizing db with
  | nil => simp
  | cons c cs ih =>
    rw [List.flatten_cons] at ha
    have hc := exists_insertChunk_iff db (fun r hr => ha r (List.mem_append_left _ hr))
    have hcs := fun db => ih db (fun r hr => ha r (List.mem_append_right _ hr))
    rw [List.forall_mem_cons, ← hc]
    constructor
    · rintro ⟨db',h⟩
      rw [List.foldlM_cons] at h
      obtain ⟨db₁,h₁,h₂⟩ := Option.bind_eq_some_iff.mp h
      exact ⟨⟨db₁,h₁⟩,(hcs db₁).mp ⟨db',h₂⟩⟩
    · rintro ⟨⟨db₁,h₁⟩,hrest⟩
      obtain ⟨db',h₂⟩ := (hcs db₁).mpr hrest
      refine ⟨db',?_⟩
      rw [List.foldlM_cons, h₁]
      exact h₂

theorem flush_eq (s : State) {readings : List ReadingInsert}
    (hm : KeyedBy bufferedDevice s.latestBuffer)
    (hvalues : ∀ e ∈ s.latestBuffer.entries, e.2 ∈ readings) (hc : Canonical w readings) :
    flush w s = some ⟨{ s.db with
      readings_latest := upsertNewest LatestRow.time s.db.readings_latest
        ((flushRows s.latestBuffer).map (fun r => (seriesKey bufferedDevice r,bufferedRow r))) },
      OrderedMap.empty⟩ := by
  have hperm : (flushRows s.latestBuffer).Perm (s.latestBuffer.entries.map Prod.snd) :=
    List.perm_insertionSort _ _
  have hall : ∀ (cs : List (List ReadingInsert)) (db : Db), Canonical w cs.flatten →
      (cs.flatten.map (seriesKey bufferedDevice)).Nodup →
      cs.foldlM (flushChunk w) db = some { db with
        readings_latest := upsertNewest LatestRow.time db.readings_latest
          (cs.flatten.map (fun r => (seriesKey bufferedDevice r,bufferedRow r))) } := by
    intro cs
    induction cs with
    | nil => exact fun db _ _ => rfl
    | cons c cs ih =>
      intro db hc hn
      rw [List.flatten_cons] at hc hn
      rw [List.map_append, List.nodup_append'] at hn
      rw [List.foldlM_cons, flushChunk, upsertRows_eq w bufferedRow db
        (hc.subset w (List.subset_append_left c cs.flatten)) hn.1]
      show cs.foldlM (flushChunk w) _ = _
      rw [ih _ (hc.subset w (List.subset_append_right c cs.flatten)) hn.2.1, List.flatten_cons,
        List.map_append]
      congr 2
      exact (List.foldl_append).symm
  have hflat := flatten_slices (n := CHUNK) (by decide) (flushRows s.latestBuffer)
  have hcanon : Canonical w (flushRows s.latestBuffer) := by
    intro r hr
    obtain ⟨e,he,rfl⟩ := List.mem_map.mp (hperm.mem_iff.mp hr)
    exact hc _ (hvalues e he)
  have hnodup : ((flushRows s.latestBuffer).map (seriesKey bufferedDevice)).Nodup :=
    ((hperm.map (seriesKey bufferedDevice)).nodup_iff).mpr (nodup_series hm)
  unfold flush
  rw [hall (slices CHUNK (flushRows s.latestBuffer)) s.db (by rwa [hflat]) (by rwa [hflat]), hflat]
  rfl

end

end Iotistica.Readings
