import Iotistica.ReadingsWrites

/-!
# The paths of a bulk insert

Every path leaves the first reading that was sent under a key, as the
statement reads it: COPY for the batches that it commits, INSERT for the rest.
In the table of latest values INSERT offers a series the winners of its
chunks, and the flusher the newest reading of the batches that COPY committed,
for which it looks under another member for the name of the device.
-/

set_option autoImplicit false

namespace Iotistica.Readings
open Iotistica.JsText Iotistica.Newest Iotistica.Slices
open Iotistica.CopyFormat (NulFree readCopy_copyLines readCopy_nul)

variable {w : Wire} {readings : List ReadingInsert}

def firstOf (w : Wire) (readings : List ReadingInsert) (k : ReadingKey) : Option ReadingInsert :=
  (readings.filter (fun r => readingKey w r = k)).head?

theorem firstOf_mem {k : ReadingKey} {r : ReadingInsert} (h : firstOf w readings k = some r) :
    r ∈ readings := (List.mem_filter.mp (List.mem_of_head? h)).1

theorem firstOf_initial {rs : List ReadingInsert} (hpre : rs <+: readings) {k : ReadingKey}
    {r : ReadingInsert} (h : firstOf w rs k = some r) : firstOf w readings k = some r := by
  obtain ⟨rest,rfl⟩ := hpre
  have hne : rs.filter (fun r => readingKey w r = k) ≠ [] := by
    intro hnil
    rw [firstOf, hnil] at h
    cases h
  rw [firstOf, List.filter_append, List.head?_append_of_ne_nil _ hne]
  exact h

theorem firstOf_of_mem {rs : List ReadingInsert} (hpre : rs <+: readings) {k : ReadingKey}
    {r : ReadingInsert} (h : firstOf w readings k = some r) (hr : r ∈ rs) :
    firstOf w rs k = some r := by
  have hk := (List.mem_filter.mp (List.mem_of_head? h)).2
  obtain ⟨x,hx⟩ : ∃ x, firstOf w rs k = some x := by
    rw [firstOf, ← Option.isSome_iff_exists, List.isSome_head?]
    exact List.ne_nil_of_mem (List.mem_filter.mpr ⟨hr,hk⟩)
  rw [hx, ← firstOf_initial hpre hx, h]

theorem insertAbsent_stored (statement : Statement) (table : ReadingKey → Option Cells)
    (readings : List ReadingInsert) (k : ReadingKey) :
    insertAbsent table (readings.map (storedRow w statement)) k =
      (table k).or ((firstOf w readings k).map (restCells w statement)) := by
  have hkey : (readings.map (storedRow w statement)).filter (fun row => row.1 = k) =
      (readings.filter (fun r => readingKey w r = k)).map (storedRow w statement) := by
    rw [List.filter_map]
    rfl
  rw [insertAbsent_apply, hkey, List.head?_map, Option.map_map]
  rfl

def copied (w : Wire) (s : State) (readings : List ReadingInsert) : State where
  db := { s.db with readings := insertAbsent s.db.readings (readings.map (storedRow w .copy)) }
  latestBuffer := bufferLatest s.latestBuffer readings

theorem copied_readings (s : State) (rs : List ReadingInsert) (k : ReadingKey) :
    (copied w s rs).db.readings k =
      (s.db.readings k).or ((firstOf w rs k).map (restCells w .copy)) :=
  insertAbsent_stored .copy s.db.readings rs k

theorem copied_append (s : State) (rs rs' : List ReadingInsert) :
    copied w s (rs++rs') = copied w (copied w s rs) rs' := by
  unfold copied bufferLatest
  rw [List.map_append, insertAbsent_append, collect_append]

theorem copyLines (batch : List ReadingInsert) : batch.flatMap (toCopyLine w) =
    (batch.map (columns w (Statement.timeText w .copy))).flatMap CopyText.copyLine := by
  rw [List.flatMap_map]
  rfl

theorem nulFree_columns {statement : Statement} {r : ReadingInsert}
    (h : accepts w statement r = true) :
    ∀ f ∈ columns w (statement.timeText w) r, NulFree f := by
  by_contra hno
  unfold accepts readRow at h
  rw [if_neg hno] at h
  cases h

theorem copyBatch_eq (s : State) {batch : List ReadingInsert}
    (ha : ∀ r ∈ batch, accepts w .copy r = true) : copyBatch w s batch = some (copied w s batch) := by
  rw [copyBatch, copyLines, readCopy_copyLines, Option.bind_some, insertReadings_columns w s.db ha]
  · rfl
  · intro row hrow
    obtain ⟨r,-,rfl⟩ := List.mem_map.mp hrow
    exact List.cons_ne_nil _ _
  · intro row hrow
    obtain ⟨r,hr,rfl⟩ := List.mem_map.mp hrow
    exact nulFree_columns (ha r hr)

theorem copyBatch_refused (s : State) {batch : List ReadingInsert}
    (h : ∃ r ∈ batch, accepts w .copy r = false) : copyBatch w s batch = none := by
  rw [copyBatch, copyLines]
  by_cases hnul : ∃ row ∈ batch.map (columns w (Statement.timeText w .copy)), ∃ f ∈ row, ¬NulFree f
  · rw [readCopy_nul hnul]
    rfl
  · rw [readCopy_copyLines, Option.bind_some, insertReadings_refused w s.db h]
    · rfl
    · intro row hrow
      obtain ⟨r,-,rfl⟩ := List.mem_map.mp hrow
      exact List.cons_ne_nil _ _
    · intro row hrow f hf
      by_contra hno
      exact hnul ⟨row,hrow,f,hf,hno⟩

/-- How many batches COPY commits before one that has a row which is refused,
or that fails for a reason of its own. -/
def committedBatches (w : Wire) (failsAt : Option ℕ) (batches : List (List ReadingInsert)) : ℕ :=
  failsAt.elim (batches.takeWhile (fun b => b.all (accepts w .copy))).length
    (min (batches.takeWhile (fun b => b.all (accepts w .copy))).length)

theorem copyBatches_eq (failsAt : Option ℕ) (s : State) (batches : List (List ReadingInsert)) :
    copyBatches w failsAt s batches =
      (copied w s (batches.take (committedBatches w failsAt batches)).flatten,
        decide (committedBatches w failsAt batches = batches.length)) := by
  induction batches generalizing failsAt s with
  | nil => cases failsAt <;> rfl
  | cons b bs ih =>
    by_cases hzero : failsAt = some 0
    · subst hzero
      have hcount : committedBatches w (some 0) (b::bs) = 0 := Nat.min_zero _
      rw [hcount]
      rfl
    · have hstep : copyBatches w failsAt s (b::bs) = (copyBatch w s b).elim (s,false)
          (fun s' => copyBatches w (failsAt.map (fun n => n-1)) s' bs) := by
        rw [copyBatches]
        · cases copyBatch w s b <;> rfl
        · exact hzero
      rw [hstep]
      cases hall : b.all (accepts w .copy) with
      | true =>
        have hcount : committedBatches w failsAt (b::bs) =
            committedBatches w (failsAt.map (fun n => n-1)) bs+1 := by
          unfold committedBatches
          rw [List.takeWhile_cons, if_pos hall]
          rcases failsAt with _ | _ | j
          · rfl
          · exact absurd rfl hzero
          · simp
        rw [copyBatch_eq s (List.all_eq_true.mp hall), hcount, List.take_succ_cons,
          List.flatten_cons, copied_append, Option.elim_some]
        simp only [ih, List.length_cons, Nat.add_right_cancel_iff]
      | false =>
        have hcount : committedBatches w failsAt (b::bs) = 0 := by
          unfold committedBatches
          rw [List.takeWhile_cons, if_neg (by simp [hall])]
          cases failsAt <;> simp
        have hrefused : ∃ r ∈ b, accepts w .copy r = false := by simpa using hall
        rw [copyBatch_refused s hrefused, hcount]
        rfl

def committed (w : Wire) (failsAt : Option ℕ) (readings : List ReadingInsert) : ℕ :=
  committedBatches w failsAt (slices COPY_STAGE_ROWS_PER_BATCH readings)

/-- The readings that COPY stores before it gives up. -/
def staged (w : Wire) (failsAt : Option ℕ) (readings : List ReadingInsert) : List ReadingInsert :=
  readings.take (COPY_STAGE_ROWS_PER_BATCH*committed w failsAt readings)

theorem staged_initial (failsAt : Option ℕ) : staged w failsAt readings <+: readings :=
  List.take_prefix _ _

theorem committed_le (failsAt : Option ℕ) :
    committed w failsAt readings ≤ committed w none readings := by
  cases failsAt with
  | none => exact le_rfl
  | some j => exact Nat.min_le_left _ _

theorem staged_initial_none (failsAt : Option ℕ) :
    staged w failsAt readings <+: staged w none readings :=
  List.take_prefix_take_left (Nat.mul_le_mul_left _ (committed_le failsAt))

theorem committed_le_length (failsAt : Option ℕ) :
    committed w failsAt readings ≤ (slices COPY_STAGE_ROWS_PER_BATCH readings).length :=
  le_trans (committed_le failsAt) (List.takeWhile_prefix _).length_le

theorem committed_some {j : ℕ} (h : j ≤ committed w none readings) :
    committed w (some j) readings = j := Nat.min_eq_right h

theorem staged_none_of_accepts (h : ∀ r ∈ readings, accepts w .copy r = true) :
    ¬COPY_STAGE_ROWS_PER_BATCH*committed w none readings < readings.length := by
  have hpos : 0 < COPY_STAGE_ROWS_PER_BATCH := by decide
  have hall : ∀ b ∈ slices COPY_STAGE_ROWS_PER_BATCH readings, b.all (accepts w .copy) = true := by
    intro b hb
    rw [List.all_eq_true]
    intro r hr
    apply h
    rw [← flatten_slices hpos readings]
    exact List.mem_flatten.mpr ⟨b,hb,hr⟩
  have hcount : committed w none readings = (slices COPY_STAGE_ROWS_PER_BATCH readings).length := by
    show (List.takeWhile _ _).length = _
    rw [List.takeWhile_eq_self_iff.mpr hall]
  rw [hcount, ← lt_length_slices hpos]
  exact lt_irrefl _

theorem accepts_staged {failsAt : Option ℕ} {r : ReadingInsert}
    (hr : r ∈ staged w failsAt readings) : accepts w .copy r = true := by
  have hpos : 0 < COPY_STAGE_ROWS_PER_BATCH := by decide
  have hmem := (staged_initial_none failsAt).subset hr
  rw [staged, ← flatten_take_slices hpos] at hmem
  obtain ⟨b,hb,hrb⟩ := List.mem_flatten.mp hmem
  have htake : (slices COPY_STAGE_ROWS_PER_BATCH readings).take (committed w none readings) =
      (slices COPY_STAGE_ROWS_PER_BATCH readings).takeWhile (fun b => b.all (accepts w .copy)) :=
    (List.prefix_iff_eq_take.mp (List.takeWhile_prefix _)).symm
  rw [htake] at hb
  have hall := List.mem_takeWhile_imp (p := fun c : List ReadingInsert => c.all (accepts w .copy)) hb
  exact List.all_eq_true.mp hall r hrb

theorem accepts_of_staged {failsAt : Option ℕ}
    (h : ¬COPY_STAGE_ROWS_PER_BATCH*committed w failsAt readings < readings.length) :
    ∀ r ∈ readings, accepts w .copy r = true := by
  have hall : staged w failsAt readings = readings := List.take_of_length_le (not_lt.mp h)
  intro r hr
  rw [← hall] at hr
  exact accepts_staged hr

theorem copyOrValues_eq (failsAt : Option ℕ) (s : State) (readings : List ReadingInsert) :
    copyOrValues w failsAt s readings =
      if COPY_STAGE_ROWS_PER_BATCH*committed w failsAt readings < readings.length then
        bulkInsertViaValues w MAX_ROWS_PER_BULK_INSERT (copied w s (staged w failsAt readings)) readings
      else some (copied w s readings) := by
  have hpos : 0 < COPY_STAGE_ROWS_PER_BATCH := by decide
  have hiff := lt_length_slices hpos (committed w failsAt readings) readings
  have hrun : bulkInsertViaCopy w failsAt s readings = (copied w s (staged w failsAt readings),
      decide (committed w failsAt readings =
        (slices COPY_STAGE_ROWS_PER_BATCH readings).length)) := by
    rw [bulkInsertViaCopy, copyBatches_eq, flatten_take_slices hpos]
    rfl
  rw [copyOrValues, hrun]
  by_cases h : COPY_STAGE_ROWS_PER_BATCH*committed w failsAt readings < readings.length
  · rw [if_pos h, decide_eq_false (Nat.ne_of_lt (hiff.mpr h))]
  · have hall : staged w failsAt readings = readings := List.take_of_length_le (not_lt.mp h)
    rw [if_neg h, hall, decide_eq_true]
    exact le_antisymm (committed_le_length failsAt) (not_lt.mp (fun hlt => h (hiff.mp hlt)))

theorem filter_sort {p : ReadingInsert → Bool}
    (hequal : (readings.filter p).Pairwise (fun a b => comparePrimary w a b ≤ 0)) :
    (sortReadings w readings).filter p = readings.filter p := by
  have hsub := (List.sublist_insertionSort hequal List.filter_sublist).filter p
  rw [List.filter_filter] at hsub
  simp only [Bool.and_self] at hsub
  have hlen := ((List.perm_insertionSort (fun a b => comparePrimary w a b ≤ 0) readings).filter
    p).length_eq
  exact (hsub.eq_of_length hlen.symm).symm

theorem comparePrimary_same {a b : ReadingInsert} (hagent : a.agent_uuid = b.agent_uuid)
    (hmetric : a.metric_name = b.metric_name) (htime : a.time = b.time) :
    comparePrimary w a b ≤ 0 := by
  rw [comparePrimary, compareKeys, hagent, hmetric, htime]
  simp [w.compare_self]

theorem firstOf_sorted (hc : Canonical w readings) (k : ReadingKey) :
    firstOf w (sortReadings w readings) k = firstOf w readings k := by
  rw [firstOf, filter_sort]
  · rfl
  · apply List.pairwise_of_forall_mem_list
    intro a ha b hb
    have hab : readingKey w a = readingKey w b := by
      have ha' : readingKey w a = k := by simpa using (List.mem_filter.mp ha).2
      have hb' : readingKey w b = k := by simpa using (List.mem_filter.mp hb).2
      rw [ha', hb']
    rw [hc.readingKey w (List.mem_filter.mp ha).1, hc.readingKey w (List.mem_filter.mp hb).1] at hab
    simp only [ReadingKey.mk.injEq] at hab
    exact comparePrimary_same hab.1 hab.2.1 hab.2.2

def chunkWinners (w : Wire) (rows : ℕ) (readings : List ReadingInsert) (k : SeriesKey) :
    List ReadingInsert :=
  (slices rows (sortReadings w readings)).filterMap (fun c => winner c k)

theorem viaValues_eq {rows : ℕ} (hrows : 0 < rows) (s : State)
    (ha : ∀ r ∈ readings, accepts w .values r = true) (hc : Canonical w readings) :
    ∃ s', bulkInsertViaValues w rows s readings = some s' ∧
      s'.latestBuffer = s.latestBuffer ∧
      s'.db.readings = insertAbsent s.db.readings (readings.map (storedRow w .values)) ∧
      ∀ k, s'.db.readings_latest k = offer LatestRow.time (s.db.readings_latest k)
        ((lastNewest ReadingInsert.time (chunkWinners w rows readings k)).map latestRow) := by
  have hmem : ∀ r, r ∈ sortReadings w readings ↔ r ∈ readings := fun r =>
    (List.perm_insertionSort _ readings).mem_iff
  have hflat := flatten_slices hrows (sortReadings w readings)
  obtain ⟨db',hdb,hr,hl⟩ := insertChunks_eq (w := w) s.db (slices rows (sortReadings w readings))
    (by rw [hflat]; exact fun r hr => ha r ((hmem r).mp hr))
    (by rw [hflat]; exact fun r hr => hc r ((hmem r).mp hr))
  refine ⟨⟨db',s.latestBuffer⟩,?_,rfl,?_,?_⟩
  · rw [bulkInsertViaValues, hdb]
    rfl
  · funext k
    show db'.readings k = _
    rw [hr, hflat, insertAbsent_stored, insertAbsent_stored, firstOf_sorted hc]
  · intro k
    show db'.readings_latest k = _
    rw [hl, foldl_keepLast_eq, lastNewest_map]
    rfl

theorem viaValues_accepts {rows : ℕ} (hrows : 0 < rows) {s s' : State}
    (h : bulkInsertViaValues w rows s readings = some s') :
    ∀ r ∈ readings, accepts w .values r = true := by
  obtain ⟨db,hdb,-⟩ := Option.map_eq_some_iff.mp h
  intro r hr
  apply (insertChunks_readings hdb).1
  rw [flatten_slices hrows]
  exact (List.perm_insertionSort _ readings).mem_iff.mpr hr

theorem flush_buffered (db : Db) (hc : Canonical w readings) (hp : Plain bufferedDevice readings) :
    ∃ s', flush w ⟨db,bufferLatest OrderedMap.empty readings⟩ = some s' ∧
      s'.db.readings = db.readings ∧
      ∀ k, s'.db.readings_latest k = offer LatestRow.time (db.readings_latest k)
        ((lastNewest ReadingInsert.time
          (readings.filter (fun r => seriesKey bufferedDevice r = k))).map bufferedRow) := by
  have hm : KeyedBy bufferedDevice (bufferLatest OrderedMap.empty readings) :=
    collect_keyed _ _ (fun e he => absurd he List.not_mem_nil) readings
  have hvalues : ∀ e ∈ (bufferLatest OrderedMap.empty readings).entries, e.2 ∈ readings := by
    intro e he
    rcases mem_collect _ _ he with h | h
    · exact absurd h List.not_mem_nil
    · exact h
  refine ⟨_,flush_eq _ hm hvalues hc,rfl,?_⟩
  intro k
  refine (upsert_readings_apply (fun r => rfl) _ _ _).trans ?_
  have hfilter := filter_series_pick (lastNewest ReadingInsert.time) rfl hm hvalues hc hp
    (fun r => get?_collect_last _ _ _ _ _) k
  have hperm := (List.perm_insertionSort
    (fun a b => JsSort.unitsLe (bufferKey a) (bufferKey b))
    ((bufferLatest OrderedMap.empty readings).entries.map Prod.snd)).filter
      (fun r => decide (seriesKey bufferedDevice r = k))
  rw [hfilter] at hperm
  congr 2
  cases ho : lastNewest ReadingInsert.time
      (readings.filter (fun r => seriesKey bufferedDevice r = k)) with
  | none =>
    rw [ho] at hperm
    have hnil : (flushRows (bufferLatest OrderedMap.empty readings)).filter
        (fun r => seriesKey bufferedDevice r = k) = [] := List.perm_nil.mp hperm
    rw [hnil]
    rfl
  | some r =>
    rw [ho] at hperm
    have hone : (flushRows (bufferLatest OrderedMap.empty readings)).filter
        (fun r => seriesKey bufferedDevice r = k) = [r] := List.perm_singleton.mp hperm
    rw [hone]
    rfl

theorem flush_empty (db : Db) : flush w ⟨db,OrderedMap.empty⟩ = some ⟨db,OrderedMap.empty⟩ := by
  have hnone : slices CHUNK (flushRows OrderedMap.empty) = [] := by
    have hrows : flushRows OrderedMap.empty = [] := rfl
    rw [hrows]
    simp [slices, CHUNK]
  rw [flush, hnone]
  rfl

def outcome (w : Wire) (path : Path) (db : Db) (readings : List ReadingInsert) : Option Db :=
  ((path.run w ⟨db,OrderedMap.empty⟩ readings).bind (flush w)).map State.db

/-- The outcome of COPY, with the fallback where it comes to that. -/
def copyOutcome (w : Wire) (failsAt : Option ℕ) (db : Db) (readings : List ReadingInsert) :
    Option Db :=
  ((copyOrValues w failsAt ⟨db,OrderedMap.empty⟩ readings).bind (flush w)).map State.db

theorem outcome_values {rows : ℕ} (hrows : 0 < rows) (db : Db)
    (ha : ∀ r ∈ readings, accepts w .values r = true) (hc : Canonical w readings) :
    outcome w (.values rows) db readings =
      some ⟨insertAbsent db.readings (readings.map (storedRow w .values)),
        fun k => offer LatestRow.time (db.readings_latest k)
          ((lastNewest ReadingInsert.time (chunkWinners w rows readings k)).map latestRow)⟩ := by
  obtain ⟨s',hs,hb,hr,hl⟩ := viaValues_eq hrows ⟨db,OrderedMap.empty⟩ ha hc
  obtain ⟨db',buffer⟩ := s'
  have hb' : buffer = OrderedMap.empty := hb
  have hrun : (Path.values rows).run w ⟨db,OrderedMap.empty⟩ readings = some ⟨db',buffer⟩ := hs
  rw [outcome, hrun, Option.bind_some, hb', flush_empty, Option.map_some]
  congr 1
  exact congrArg₂ Db.mk hr (funext hl)

theorem copyOutcome_whole {failsAt : Option ℕ}
    (hall : ¬COPY_STAGE_ROWS_PER_BATCH*committed w failsAt readings < readings.length) (db : Db)
    (hc : Canonical w readings) (hp : Plain bufferedDevice readings) :
    copyOutcome w failsAt db readings =
      some ⟨insertAbsent db.readings (readings.map (storedRow w .copy)),
        fun k => offer LatestRow.time (db.readings_latest k)
          ((lastNewest ReadingInsert.time
            (readings.filter (fun r => seriesKey bufferedDevice r = k))).map bufferedRow)⟩ := by
  obtain ⟨s',hs,hr,hl⟩ := flush_buffered
    { db with readings := insertAbsent db.readings (readings.map (storedRow w .copy)) } hc hp
  rw [copyOutcome, copyOrValues_eq, if_neg hall, Option.bind_some, copied, hs, Option.map_some]
  congr 1
  exact congrArg₂ Db.mk hr (funext hl)

theorem copyOutcome_fallback {failsAt : Option ℕ}
    (hpart : COPY_STAGE_ROWS_PER_BATCH*committed w failsAt readings < readings.length) (db : Db)
    (ha : ∀ r ∈ readings, accepts w .values r = true) (hc : Canonical w readings)
    (hp : Plain bufferedDevice readings) :
    copyOutcome w failsAt db readings =
      some ⟨insertAbsent (insertAbsent db.readings
          ((staged w failsAt readings).map (storedRow w .copy))) (readings.map (storedRow w .values)),
        fun k => offer LatestRow.time
          (offer LatestRow.time (db.readings_latest k) ((lastNewest ReadingInsert.time
            (chunkWinners w MAX_ROWS_PER_BULK_INSERT readings k)).map latestRow))
          ((lastNewest ReadingInsert.time ((staged w failsAt readings).filter
            (fun r => seriesKey bufferedDevice r = k))).map bufferedRow)⟩ := by
  have hsub : staged w failsAt readings ⊆ readings := (staged_initial failsAt).subset
  obtain ⟨s',hs,hb,hr,hl⟩ := viaValues_eq (show 0 < MAX_ROWS_PER_BULK_INSERT by decide)
    (copied w ⟨db,OrderedMap.empty⟩ (staged w failsAt readings)) ha hc
  obtain ⟨db',buffer⟩ := s'
  have hb' : buffer = bufferLatest OrderedMap.empty (staged w failsAt readings) := hb
  obtain ⟨s'',hs'',hr'',hl''⟩ := flush_buffered db' (hc.subset w hsub) (fun r hr => hp r (hsub hr))
  rw [copyOutcome, copyOrValues_eq, if_pos hpart, hs, Option.bind_some, hb', hs'', Option.map_some]
  congr 1
  refine congrArg₂ Db.mk ?_ ?_
  · rw [hr'']
    exact hr
  · funext k
    rw [hl'']
    exact congrArg (fun o => offer LatestRow.time o _) (hl k)

def newestIn (readings : List ReadingInsert) (k : SeriesKey) : Option ReadingInsert :=
  lastNewest ReadingInsert.time (readings.filter (fun r => seriesKey latestDevice r = k))

theorem newestIn_mem {k : SeriesKey} {r : ReadingInsert} (h : newestIn readings k = some r) :
    r ∈ readings ∧ seriesKey latestDevice r = k := by
  have hmem := List.mem_filter.mp (lastNewest_mem ReadingInsert.time h)
  exact ⟨hmem.1,by simpa using hmem.2⟩

theorem exists_newestIn {k : SeriesKey} {r : ReadingInsert} (hr : r ∈ readings)
    (hk : seriesKey latestDevice r = k) : ∃ n, newestIn readings k = some n ∧ r.time ≤ n.time :=
  exists_lastNewest ReadingInsert.time (List.mem_filter.mpr ⟨hr,by simpa using hk⟩)

/-- Sorting leaves the last of the newest readings of a series where it is. -/
theorem newestIn_sorted (readings : List ReadingInsert) (k : SeriesKey) :
    newestIn (sortReadings w readings) k = newestIn readings k := by
  have hperm : ((sortReadings w readings).filter (fun r => seriesKey latestDevice r = k)).Perm
      (readings.filter (fun r => seriesKey latestDevice r = k)) :=
    (List.perm_insertionSort _ readings).filter _
  cases hn : newestIn readings k with
  | none =>
    have hnil : readings.filter (fun r => seriesKey latestDevice r = k) = [] := by
      rw [List.filter_eq_nil_iff]
      intro r hr hk
      obtain ⟨n,hsome,-⟩ := exists_newestIn hr (by simpa using hk)
      rw [hn] at hsome
      cases hsome
    rw [hnil] at hperm
    rw [newestIn, List.perm_nil.mp hperm]
    rfl
  | some n =>
    have hmax : ∀ r ∈ readings.filter (fun r => seriesKey latestDevice r = k), r.time ≤ n.time := by
      intro r hr
      obtain ⟨n',hn',hle⟩ := exists_lastNewest ReadingInsert.time hr
      have hsame : n' = n := Option.some.inj (hn'.symm.trans hn)
      rwa [← hsame]
    have hnmem : n ∈ readings.filter (fun r => seriesKey latestDevice r = k) :=
      lastNewest_mem ReadingInsert.time hn
    have htop : ((sortReadings w readings).filter (fun r => seriesKey latestDevice r = k)).filter
        (fun r => r.time = n.time) =
        (readings.filter (fun r => seriesKey latestDevice r = k)).filter
          (fun r => r.time = n.time) := by
      rw [List.filter_filter, List.filter_filter]
      apply filter_sort
      apply List.pairwise_of_forall_mem_list
      intro a ha b hb
      have ha' := (List.mem_filter.mp ha).2
      have hb' := (List.mem_filter.mp hb).2
      simp only [Bool.and_eq_true, decide_eq_true_eq] at ha' hb'
      have hkeys := ha'.2.trans hb'.2.symm
      simp only [seriesKey, SeriesKey.mk.injEq] at hkeys
      exact comparePrimary_same hkeys.1 hkeys.2.2 (ha'.1.trans hb'.1.symm)
    have hne : (readings.filter (fun r => seriesKey latestDevice r = k)).filter
        (fun r => r.time = n.time) ≠ [] :=
      List.ne_nil_of_mem (List.mem_filter.mpr ⟨hnmem,by simp⟩)
    rw [← hn, newestIn, newestIn, lastNewest_top ReadingInsert.time hmax hne,
      lastNewest_top ReadingInsert.time (fun r hr => hmax r (hperm.mem_iff.mp hr)) (by rwa [htop]),
      htop]

theorem winner_single (r : ReadingInsert) (k : SeriesKey) :
    winner [r] k = if seriesKey latestDevice r = k then some r else none := by
  by_cases hk : seriesKey latestDevice r = k
  · simp [winner, hk, firstNewest, keepFirst]
  · rw [if_neg hk, winner, Option.filter_eq_none_iff]
    intro x hx
    have hmem := (List.mem_filter.mp (firstNewest_mem ReadingInsert.time hx)).1
    rw [List.mem_singleton.mp hmem]
    simpa using hk

/-- Row by row INSERT keeps the newest reading of the list. -/
theorem chunkWinners_one (readings : List ReadingInsert) (k : SeriesKey) :
    lastNewest ReadingInsert.time (chunkWinners w 1 readings k) = newestIn readings k := by
  have hwinners : chunkWinners w 1 readings k =
      (sortReadings w readings).filter (fun r => seriesKey latestDevice r = k) := by
    rw [chunkWinners, slices_one, List.filterMap_map, ← List.filterMap_eq_filter]
    apply List.filterMap_congr
    intro r _
    rw [Function.comp_apply, winner_single]
    by_cases hk : seriesKey latestDevice r = k <;> simp [hk, Option.guard]
  rw [hwinners]
  exact newestIn_sorted readings k

end Iotistica.Readings
