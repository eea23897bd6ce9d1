import Iotistica.ReadingsPaths

/-!
# When the paths agree

For every content of the database the paths leave the same tables, and each
series its newest reading, exactly when the database takes the readings, what
COPY commits is read alike by INSERT, and neither the chunks of INSERT nor the
buffer of COPY leave another row for a series than its newest reading has.
-/

set_option autoImplicit false

namespace Iotistica.Readings
open Iotistica.JsText Iotistica.Newest Iotistica.Slices

/-- A reading that the normalizer made of some entry. -/
def Produced (date : Timestamp → ℤ) (r : ReadingInsert) : Prop :=
  ∃ entry protocol ingestedAt rs,
    expandMessages date entry protocol ingestedAt = some rs ∧ r ∈ rs

structure HoldsNewest (old : Option LatestRow) (rows : List LatestRow) (new : Option LatestRow) :
    Prop where
  source : new = old ∨ ∃ row ∈ rows, new = some row
  newest : ∀ row, old = some row ∨ row ∈ rows → ∃ n, new = some n ∧ row.time ≤ n.time

def PathsAgree (w : Wire) (readings : List ReadingInsert) : Prop :=
  ∀ db, ∃ db', (∀ path : Path, path.valid = true → outcome w path db readings = some db') ∧
    ∀ k, HoldsNewest (db.readings_latest k)
      ((readings.filter (fun r => seriesKey latestDevice r = k)).map latestRow)
      (db'.readings_latest k)

/-- INSERT takes every reading. COPY stages the reals of what it stores
without a loss, and where it takes all readings none of them names a device.
For each size of the chunks the winners of a series end in a row like that of
its newest reading; the flusher comes with such a row too, or with an older
one, for each number of batches that COPY commits before it gives up. -/
structure PathsMeet (w : Wire) (readings : List ReadingInsert) : Prop where
  accepted : ∀ r ∈ readings, accepts w .values r = true
  staged : ∀ k r, firstOf w (staged w none readings) k = some r → RealsAlike w r
  unnamed : (∀ r ∈ readings, accepts w .copy r = true) →
    ∀ r ∈ readings, latestDevice r = "unknown"
  chunks : ∀ k rows, 0 < rows →
    (lastNewest ReadingInsert.time (chunkWinners w rows readings k)).map latestRow =
      (newestIn readings k).map latestRow
  batches : ∀ k j b, j ≤ committed w none readings →
    COPY_STAGE_ROWS_PER_BATCH*j < readings.length →
    lastNewest ReadingInsert.time ((readings.take (COPY_STAGE_ROWS_PER_BATCH*j)).filter
      (fun r => seriesKey bufferedDevice r = k)) = some b →
    ∃ n, newestIn readings k = some n ∧ (b.time < n.time ∨ latestRow b = latestRow n)

variable {w : Wire} {readings : List ReadingInsert}

theorem produced_normalized {date : Timestamp → ℤ} {r : ReadingInsert} (h : Produced date r) :
    Normalized r := by
  obtain ⟨entry,protocol,ingestedAt,rs,hrs,hr⟩ := h
  exact expandMessages_normalized date hrs r hr

theorem bufferedDevice_normalized {r : ReadingInsert} (h : Normalized r) :
    bufferedDevice r = "unknown" := by
  rw [bufferedDevice, h.deviceName]
  rfl

theorem bufferedRow_normalized {r : ReadingInsert} (h : Normalized r) :
    bufferedRow r = latestRow r := by
  obtain ⟨q,hq,hne⟩ := h.quality
  have hunit : r.unit.bind nonEmpty = r.unit := by
    cases hu : r.unit with
    | none => rfl
    | some u =>
      have hu' : u ≠ "" := fun he => h.unit (by rw [hu, he])
      simp [nonEmpty, hu']
  rw [bufferedRow, latestRow, hq, hunit]
  simp [orElse, hne]

theorem plain_buffered (h : ∀ r ∈ readings, Normalized r) : Plain bufferedDevice readings := by
  intro r hr
  rw [bufferedDevice_normalized (h r hr)]
  decide

theorem filter_buffered {rs : List ReadingInsert} (hn : ∀ r ∈ rs, Normalized r)
    (hu : ∀ r ∈ rs, latestDevice r = "unknown") (k : SeriesKey) :
    rs.filter (fun r => seriesKey bufferedDevice r = k) =
      rs.filter (fun r => seriesKey latestDevice r = k) := by
  apply List.filter_congr
  intro r hr
  rw [seriesKey, seriesKey, bufferedDevice_normalized (hn r hr), hu r hr]

theorem map_bufferedRow {rs : List ReadingInsert} (hn : ∀ r ∈ rs, Normalized r) {o : Option ReadingInsert}
    (ho : ∀ r, o = some r → r ∈ rs) : o.map bufferedRow = o.map latestRow := by
  cases o with
  | none => rfl
  | some r =>
    rw [Option.map_some, Option.map_some, bufferedRow_normalized (hn r (ho r rfl))]

/-- What INSERT leaves row by row, and what all paths leave where they agree. -/
def settled (w : Wire) (db : Db) (readings : List ReadingInsert) : Db where
  readings := insertAbsent db.readings (readings.map (storedRow w .values))
  readings_latest k := offer LatestRow.time (db.readings_latest k)
    ((newestIn readings k).map latestRow)

/-- The readings that COPY stores are stored as INSERT would store them. -/
theorem insertAbsent_staged (hmeet : PathsMeet w readings) (failsAt : Option ℕ)
    (table : ReadingKey → Option Cells) (k : ReadingKey) :
    insertAbsent table ((staged w failsAt readings).map (storedRow w .copy)) k =
      (table k).or ((firstOf w (staged w failsAt readings) k).map (restCells w .values)) := by
  rw [insertAbsent_stored]
  congr 1
  cases hf : firstOf w (staged w failsAt readings) k with
  | none => rfl
  | some r =>
    have hr := firstOf_mem hf
    have halike := hmeet.staged k r (firstOf_initial (staged_initial_none failsAt) hf)
    rw [Option.map_some, Option.map_some, (restCells_alike_iff w (accepts_staged hr)
      (hmeet.accepted r ((staged_initial failsAt).subset hr))).mpr halike]

theorem copyOutcome_settled (db : Db) (hc : Canonical w readings)
    (hn : ∀ r ∈ readings, Normalized r) (hmeet : PathsMeet w readings) (failsAt : Option ℕ) :
    copyOutcome w failsAt db readings = some (settled w db readings) := by
  by_cases hpart : COPY_STAGE_ROWS_PER_BATCH*committed w failsAt readings < readings.length
  · rw [copyOutcome_fallback hpart db hmeet.accepted hc (plain_buffered hn)]
    congr 1
    refine congrArg₂ Db.mk ?_ ?_
    · funext k
      rw [insertAbsent_stored, insertAbsent_staged hmeet, insertAbsent_stored]
      cases table : db.readings k with
      | some cells => rfl
      | none =>
        cases hf : firstOf w (staged w failsAt readings) k with
        | none => rfl
        | some r => rw [firstOf_initial (staged_initial failsAt) hf, Option.map_some]; rfl
    · funext k
      rw [hmeet.chunks k MAX_ROWS_PER_BULK_INSERT (by decide)]
      cases hb : lastNewest ReadingInsert.time ((staged w failsAt readings).filter
          (fun r => seriesKey bufferedDevice r = k)) with
      | none => rfl
      | some b =>
        obtain ⟨n,hnew,hcase⟩ := hmeet.batches k _ b (committed_le failsAt) hpart hb
        have hbn := hn b ((staged_initial failsAt).subset
          (List.mem_filter.mp (lastNewest_mem ReadingInsert.time hb)).1)
        rw [Option.map_some, bufferedRow_normalized hbn, hnew, Option.map_some]
        rcases hcase with hold | hsame
        · exact offer_offer_older LatestRow.time _ hold
        · rw [hsame, offer_offer_self]
  · have hall : staged w failsAt readings = readings := List.take_of_length_le (not_lt.mp hpart)
    have hu := hmeet.unnamed (accepts_of_staged hpart)
    rw [copyOutcome_whole hpart db hc (plain_buffered hn)]
    congr 1
    refine congrArg₂ Db.mk ?_ ?_
    · funext k
      have hstored := insertAbsent_staged hmeet failsAt db.readings k
      rw [hall] at hstored
      rw [hstored, insertAbsent_stored]
    · funext k
      rw [filter_buffered hn hu, map_bufferedRow hn
        (fun r hr => (List.mem_filter.mp (lastNewest_mem ReadingInsert.time hr)).1)]
      rfl

theorem settled_newest (w : Wire) (db : Db) (readings : List ReadingInsert) (k : SeriesKey) :
    HoldsNewest (db.readings_latest k)
      ((readings.filter (fun r => seriesKey latestDevice r = k)).map latestRow)
      ((settled w db readings).readings_latest k) := by
  have heq : (settled w db readings).readings_latest k =
      ((readings.filter (fun r => seriesKey latestDevice r = k)).map latestRow).foldl
        (keepLast LatestRow.time) (db.readings_latest k) := by
    rw [foldl_keepLast_eq, lastNewest_map]
    rfl
  rw [heq]
  constructor
  · cases hr : ((readings.filter (fun r => seriesKey latestDevice r = k)).map latestRow).foldl
        (keepLast LatestRow.time) (db.readings_latest k) with
    | none =>
      left
      cases hold : db.readings_latest k with
      | none => rfl
      | some row =>
        obtain ⟨n,hn,-⟩ := foldl_keepLast_newest LatestRow.time (db.readings_latest k)
          ((readings.filter (fun r => seriesKey latestDevice r = k)).map latestRow) (Or.inl hold)
        rw [hr] at hn
        cases hn
    | some row =>
      rcases mem_of_foldl_keepLast LatestRow.time hr with h | h
      · exact Or.inl h.symm
      · exact Or.inr ⟨row,h,rfl⟩
  · exact fun row h => foldl_keepLast_newest LatestRow.time _ _ h

def emptyDb : Db := ⟨fun _ => none,fun _ => none⟩

theorem settled_of_agree (hc : Canonical w readings) (h : PathsAgree w readings) :
    (∀ r ∈ readings, accepts w .values r = true) ∧
      ∀ db path, path.valid = true → outcome w path db readings = some (settled w db readings) := by
  have ha : ∀ r ∈ readings, accepts w .values r = true := by
    obtain ⟨db',hpaths,-⟩ := h emptyDb
    obtain ⟨s,hs,-⟩ := Option.map_eq_some_iff.mp (hpaths (.values 1) (by decide))
    obtain ⟨s',hs',-⟩ := Option.bind_eq_some_iff.mp hs
    exact viaValues_accepts (by decide) hs'
  refine ⟨ha,?_⟩
  intro db path hvalid
  obtain ⟨db',hpaths,-⟩ := h db
  have hone := hpaths (.values 1) (by decide)
  rw [outcome_values (by decide) db ha hc] at hone
  rw [hpaths path hvalid, ← hone]
  congr 2
  funext k
  rw [chunkWinners_one]

theorem copyOutcome_first (ha : ∀ r ∈ readings, accepts w .values r = true)
    (hc : Canonical w readings) (hp : Plain bufferedDevice readings) {k : ReadingKey}
    {r : ReadingInsert} (hfirst : firstOf w (staged w none readings) k = some r) {db : Db}
    (hdb : copyOutcome w none emptyDb readings = some db) :
    db.readings k = some (restCells w .copy r) := by
  by_cases hpart : COPY_STAGE_ROWS_PER_BATCH*committed w none readings < readings.length
  · rw [copyOutcome_fallback hpart emptyDb ha hc hp] at hdb
    rw [← Option.some.inj hdb]
    dsimp only
    rw [insertAbsent_stored, insertAbsent_stored, hfirst]
    rfl
  · rw [copyOutcome_whole hpart emptyDb hc hp] at hdb
    rw [← Option.some.inj hdb]
    dsimp only
    rw [insertAbsent_stored, firstOf_initial (staged_initial none) hfirst]
    rfl

theorem meet_of_agree (hc : Canonical w readings) (hn : ∀ r ∈ readings, Normalized r)
    (h : PathsAgree w readings) : PathsMeet w readings := by
  obtain ⟨ha,hsettled⟩ := settled_of_agree hc h
  have hcopy : ∀ failsAt, copyOutcome w failsAt emptyDb readings =
      some (settled w emptyDb readings) := by
    intro failsAt
    cases failsAt with
    | none => exact hsettled emptyDb .copy rfl
    | some j => exact hsettled emptyDb (.copyFails j) rfl
  have hp := plain_buffered hn
  refine ⟨ha,?_,?_,?_,?_⟩
  · intro k r hfirst
    have hr := firstOf_mem hfirst
    have hwhole := firstOf_initial (staged_initial none) hfirst
    rw [← restCells_alike_iff w (accepts_staged hr) (ha r (firstOf_mem hwhole))]
    have hsame := copyOutcome_first ha hc hp hfirst (hcopy none)
    unfold settled at hsame
    dsimp only at hsame
    rw [insertAbsent_stored, hwhole] at hsame
    exact (Option.some.inj hsame).symm
  · intro haccept r hr
    have hwhole := hcopy none
    rw [copyOutcome_whole (staged_none_of_accepts haccept) emptyDb hc hp] at hwhole
    have hrow := congrArg (fun db : Db => db.readings_latest (seriesKey latestDevice r))
      (Option.some.inj hwhole)
    obtain ⟨n,hnew,-⟩ := exists_newestIn hr rfl
    by_contra hne
    have hnone : readings.filter
        (fun x => seriesKey bufferedDevice x = seriesKey latestDevice r) = [] := by
      rw [List.filter_eq_nil_iff]
      intro x hx
      simp only [decide_eq_true_eq, seriesKey, SeriesKey.mk.injEq,
        bufferedDevice_normalized (hn x hx)]
      exact fun he => hne he.2.1.symm
    simp only [settled, hnone, hnew] at hrow
    cases hrow
  · intro k rows hrows
    have hvalues := hsettled emptyDb (.values rows) (by simpa [Path.valid] using hrows)
    rw [outcome_values hrows emptyDb ha hc] at hvalues
    have hk := congrArg (fun db : Db => db.readings_latest k) (Option.some.inj hvalues)
    have hempty : emptyDb.readings_latest k = none := rfl
    simpa only [settled, hempty, offer_none] using hk
  · intro k j b hj hpart hb
    have hcount := committed_some hj
    have hfails := hcopy (some j)
    rw [copyOutcome_fallback (by rwa [hcount]) emptyDb ha hc hp] at hfails
    have hk := congrArg (fun db : Db => db.readings_latest k) (Option.some.inj hfails)
    have hempty : emptyDb.readings_latest k = none := rfl
    have hvalues := hsettled emptyDb (.values MAX_ROWS_PER_BULK_INSERT) (by decide)
    rw [outcome_values (by decide) emptyDb ha hc] at hvalues
    have hchunks := congrArg (fun db : Db => db.readings_latest k) (Option.some.inj hvalues)
    have hbn := hn b (List.mem_of_mem_take
      (List.mem_filter.mp (lastNewest_mem ReadingInsert.time hb)).1)
    simp only [settled, hempty, offer_none] at hk hchunks
    rw [hchunks, staged, hcount, hb, Option.map_some, bufferedRow_normalized hbn,
      offer_eq_self] at hk
    obtain ⟨row,hrow,hcase⟩ := hk
    obtain ⟨n,hnew,rfl⟩ := Option.map_eq_some_iff.mp hrow
    exact ⟨n,hnew,hcase⟩

theorem plain_latest (h : ∀ r ∈ readings, latestDevice r = "unknown") :
    Plain latestDevice readings := by
  intro r hr
  rw [h r hr]
  decide

/-- Without tabs a chunk with a reading of a series sends one that is as new. -/
theorem exists_winner (hc : Canonical w readings) (hu : ∀ r ∈ readings, latestDevice r = "unknown")
    {rows : ℕ} (hrows : 0 < rows) {k : SeriesKey} {r : ReadingInsert} (hr : r ∈ readings)
    (hk : seriesKey latestDevice r = k) :
    ∃ x ∈ chunkWinners w rows readings k, r.time ≤ x.time := by
  have hmem : r ∈ (slices rows (sortReadings w readings)).flatten := by
    rw [flatten_slices hrows]
    exact (List.perm_insertionSort _ readings).mem_iff.mpr hr
  obtain ⟨c,hslice,hrc⟩ := List.mem_flatten.mp hmem
  have hsub : c ⊆ readings := by
    intro x hx
    have hflat := List.mem_flatten.mpr ⟨c,hslice,hx⟩
    rw [flatten_slices hrows] at hflat
    exact (List.perm_insertionSort _ readings).mem_iff.mp hflat
  have htext := filter_text (hc.subset w hsub) (plain_latest (fun x hx => hu x (hsub hx))) hrc
  have hfilter : r ∈ c.filter (fun x => (seriesKey latestDevice x).text = k.text) :=
    List.mem_filter.mpr ⟨hrc,by simp [hk]⟩
  obtain ⟨x,hx,hle⟩ := exists_firstNewest ReadingInsert.time hfilter
  have hxk : seriesKey latestDevice x = k := by
    have hxmem : x ∈ c.filter (fun x => seriesText x (latestDevice x) =
        seriesText r (latestDevice r)) := by
      rw [← hk] at hx
      exact firstNewest_mem ReadingInsert.time hx
    rw [htext] at hxmem
    exact (by simpa using (List.mem_filter.mp hxmem).2 : _ = seriesKey latestDevice r).trans hk
  refine ⟨x,List.mem_filterMap.mpr ⟨c,hslice,?_⟩,hle⟩
  rw [winner, hx, Option.filter_some, if_pos (by simpa using hxk)]

theorem meet_of_alike (w : Wire) {readings : List ReadingInsert} (hc : Canonical w readings)
    (hn : ∀ r ∈ readings, Normalized r)
    (ha : ∀ r ∈ readings, accepts w .values r = true) (hreals : ∀ r ∈ readings, RealsAlike w r)
    (hu : ∀ r ∈ readings, latestDevice r = "unknown")
    (halike : ∀ r ∈ readings, ∀ r' ∈ readings, seriesKey latestDevice r = seriesKey latestDevice r' →
      r.time = r'.time → latestRow r = latestRow r') : PathsMeet w readings := by
  have hsame : ∀ {k b n}, b ∈ readings → seriesKey latestDevice b = k →
      newestIn readings k = some n → b.time < n.time ∨ latestRow b = latestRow n := by
    intro k b n hb hbk hnew
    obtain ⟨n',hnew',hle⟩ := exists_newestIn hb hbk
    rw [hnew] at hnew'
    cases hnew'
    obtain ⟨hnmem,hnk⟩ := newestIn_mem hnew
    exact (lt_or_eq_of_le hle).imp id (halike b hb n hnmem (hbk.trans hnk.symm))
  refine ⟨ha,fun k r hr => hreals r ((staged_initial none).subset (firstOf_mem hr)),
    fun _ => hu,?_,?_⟩
  · intro k rows hrows
    have hwins : ∀ x ∈ chunkWinners w rows readings k,
        x ∈ readings ∧ seriesKey latestDevice x = k := by
      intro x hx
      obtain ⟨c,hslice,hxc⟩ := List.mem_filterMap.mp hx
      have hflat := List.mem_flatten.mpr ⟨c,hslice,(winner_mem hxc).1⟩
      rw [flatten_slices hrows] at hflat
      exact ⟨(List.perm_insertionSort _ readings).mem_iff.mp hflat,(winner_mem hxc).2⟩
    cases hnew : newestIn readings k with
    | none =>
      cases hwin : lastNewest ReadingInsert.time (chunkWinners w rows readings k) with
      | none => rfl
      | some x =>
        have hx := hwins x (lastNewest_mem ReadingInsert.time hwin)
        obtain ⟨n,hsome,-⟩ := exists_newestIn hx.1 hx.2
        rw [hnew] at hsome
        cases hsome
    | some n =>
      obtain ⟨hnmem,hnk⟩ := newestIn_mem hnew
      obtain ⟨x,hx,hle⟩ := exists_winner hc hu hrows hnmem hnk
      obtain ⟨y,hy,hle'⟩ := exists_lastNewest ReadingInsert.time hx
      have hy' := hwins y (lastNewest_mem ReadingInsert.time hy)
      rw [hy, Option.map_some, Option.map_some]
      rcases hsame hy'.1 hy'.2 hnew with hlt | hrow
      · exact absurd hlt (not_lt.mpr (le_trans hle hle'))
      · rw [hrow]
  · intro k j b hj hpart hb
    have hmem := List.mem_filter.mp (lastNewest_mem ReadingInsert.time hb)
    have hbr := List.mem_of_mem_take hmem.1
    have hbk : seriesKey latestDevice b = k := by
      have hbuf : seriesKey bufferedDevice b = k := by simpa using hmem.2
      rwa [seriesKey, bufferedDevice_normalized (hn b hbr), ← hu b hbr] at hbuf
    obtain ⟨n,hnew,-⟩ := exists_newestIn hbr hbk
    exact ⟨n,hnew,hsame hbr hbk hnew⟩

def pressEntry (deviceName : Option String) : DeviceDataEntry where
  deviceUuid := "00000000-0000-4000-8000-000000000001"
  deviceName := "plc"
  timestamp := .text "1970-01-01T00:00:00.000Z"
  data := .readings noIdentity [some {
    identity := { noIdentity with deviceName }
    nodeType := none
    metric := some "temperature"
    nodeName := none
    name := none
    value := .number 20
    rawValue := .absent
    quality := .text "GOOD"
    unit := none
    timestamp := none
    anomaly_score := none
    anomaly_threshold := none
    baseline_samples := none
    detection_methods := none }]
  metadata := none

def pressReading (deviceName : Option String) : ReadingInsert where
  agent_uuid := "00000000-0000-4000-8000-000000000001"
  metric_name := "temperature"
  value := some 20
  quality := some "good"
  unit := none
  protocol := "modbus"
  extra := ⟨none,none,deviceName,none,0⟩
  time := 0
  anomaly_score := none
  anomaly_threshold := none
  baseline_samples := none
  detectionMethodsJson := none

theorem pressReading_produced {deviceName : Option String}
    (h : deviceName ∈ [none,some "press"]) : Produced (fun _ => 0) (pressReading deviceName) := by
  refine ⟨pressEntry deviceName,"modbus",0,[pressReading deviceName],?_,List.mem_singleton.mpr rfl⟩
  simp only [List.mem_cons, List.not_mem_nil, or_false] at h
  rcases h with rfl | rfl <;> decide +kernel

end Iotistica.Readings
