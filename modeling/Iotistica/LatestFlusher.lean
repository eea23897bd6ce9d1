import Iotistica.GuardedRun
import Iotistica.ReadingsWrites

/-!
# The flusher of the latest values

Readings arrive in a buffer that keeps the newest of each series. A run of the
flusher takes the buffer's content away, writes it in chunks, each awaited,
and merges it back if one of them fails; readings may arrive at any await.
Wherever it stands, the newest reading of a series is in the table, in the
buffer or in what is being written.
-/

set_option autoImplicit false

namespace Iotistica.Readings
open Iotistica.Newest Iotistica.Slices Iotistica.GuardedRun

/-- `alone` tells that nothing arrived since the run began. -/
structure Flushing where
  snapshot : LatestBuffer
  chunk : List ReadingInsert
  executed : Bool
  rest : List (List ReadingInsert)
  alone : Bool

/-- `arrived` and `settled` are for the statements only: all readings so far,
and that a run has succeeded with nothing arriving during it or since. -/
structure FlusherState where
  db : Db
  latestBuffer : LatestBuffer
  flushing : Option Flushing
  arrived : List ReadingInsert
  settled : Bool

def FlusherState.initial (db : Db) : FlusherState := ⟨db,OrderedMap.empty,none,[],false⟩

def reMerge (buffer snapshot : LatestBuffer) : LatestBuffer :=
  snapshot.entries.foldl (fun m e =>
    match m.get? e.1 with
    | none => m.set e.1 e.2
    | some existing => if decide (existing.time ≤ e.2.time) then m.set e.1 e.2 else m) buffer

inductive FlusherEvent where
  | bufferLatest (readings : List ReadingInsert)
  | flush
  /-- The database carries out the statement of the chunk. -/
  | executed
  | returned
  /-- The query rejects, whether or not it was carried out. -/
  | failed

def beginFlush (s : FlusherState) : FlusherState :=
  if s.flushing.isSome ∨ s.latestBuffer.entries = [] then s
  else
    match slices CHUNK (flushRows s.latestBuffer) with
    | [] => s
    | chunk::rest => { s with
        latestBuffer := OrderedMap.empty
        flushing := some ⟨s.latestBuffer,chunk,false,rest,true⟩ }

def chunkExecuted (w : Wire) (s : FlusherState) : FlusherState :=
  match s.flushing with
  | none => s
  | some f =>
    if f.executed then s
    else
      match flushChunk w s.db f.chunk with
      | none => s
      | some db => { s with db, flushing := some { f with executed := true } }

def chunkReturned (s : FlusherState) : FlusherState :=
  match s.flushing with
  | none => s
  | some f =>
    if f.executed then
      match f.rest with
      | [] => { s with flushing := none, settled := f.alone }
      | chunk::rest => { s with flushing := some { f with chunk, executed := false, rest } }
    else s

def chunkFailed (s : FlusherState) : FlusherState :=
  match s.flushing with
  | none => s
  | some f => { s with flushing := none, latestBuffer := reMerge s.latestBuffer f.snapshot }

def arrive (s : FlusherState) (readings : List ReadingInsert) : FlusherState :=
  { s with
    latestBuffer := bufferLatest s.latestBuffer readings
    flushing := s.flushing.map (fun f => { f with alone := false })
    arrived := s.arrived++readings
    settled := false }

def flusherStep (w : Wire) (s : FlusherState) : FlusherEvent → FlusherState
  | .bufferLatest readings => arrive s readings
  | .flush => beginFlush s
  | .executed => chunkExecuted w s
  | .returned => chunkReturned s
  | .failed => chunkFailed s

def FlusherEvent.arrivals : FlusherEvent → List ReadingInsert
  | .bufferLatest readings => readings
  | _ => []

def seriesOf (w : Wire) (r : ReadingInsert) : SeriesKey := storedSeries w bufferedDevice r

/-- Readings come to the buffer after their agents were read as uuids, and
with no device name that has a tab. -/
structure Bufferable (w : Wire) (r : ReadingInsert) : Prop where
  agent : (w.readUuid r.agent_uuid).isSome
  device : '\t' ∉ (bufferedDevice r).toList

/-- The newest of the row that was there and of the readings that arrived. -/
def newestRow (w : Wire) (db : Db) (arrived : List ReadingInsert) (k : SeriesKey) :
    Option LatestRow :=
  offer LatestRow.time (db.readings_latest k)
    ((lastNewest ReadingInsert.time (arrived.filter (fun r => seriesOf w r = k))).map bufferedRow)

/-- The newest row of a series is in the table, or its reading in the buffer or
in the snapshot that is being written. -/
def Held (w : Wire) (db : Db) (s : FlusherState) (k : SeriesKey) : Prop :=
  s.db.readings_latest k = newestRow w db s.arrived k ∨
  (∃ e ∈ s.latestBuffer.entries, seriesOf w e.2 = k ∧
    some (bufferedRow e.2) = newestRow w db s.arrived k) ∨
  ∃ f, s.flushing = some f ∧ ∃ e ∈ f.snapshot.entries, seriesOf w e.2 = k ∧
    some (bufferedRow e.2) = newestRow w db s.arrived k

variable {w : Wire}

/-- A row of the table after a chunk: the newest of what was there and the
chunk's readings of the series. -/
theorem flushChunk_row {db db' : Db} {chunk : List ReadingInsert} (hv : Valid w chunk)
    (h : flushChunk w db chunk = some db') (k : SeriesKey) :
    db'.readings_latest k = ((chunk.filter (fun r => seriesOf w r = k)).map bufferedRow).foldl
      (keepLast LatestRow.time) (db.readings_latest k) := by
  rw [flushChunk, upsertRows_valid w bufferedRow db hv] at h
  unfold upsertLatest at h
  split at h
  · rw [← Option.some.inj h]
    refine (upsertNewest_apply _ _ _ _).trans ?_
    rw [List.filter_map, List.map_map]
    rfl
  · cases h

def InTable (w : Wire) (db : Db) (r : ReadingInsert) : Prop :=
  ∃ row, db.readings_latest (seriesOf w r) = some row ∧
    (r.time < row.time ∨ row = bufferedRow r)

def InBuffer (w : Wire) (m : LatestBuffer) (r : ReadingInsert) : Prop :=
  ∃ e ∈ m.entries, seriesOf w e.2 = seriesOf w r ∧ r.time ≤ e.2.time

def Alike (w : Wire) (readings : List ReadingInsert) : Prop :=
  ∀ r ∈ readings, ∀ r' ∈ readings, seriesOf w r = seriesOf w r' → r.time = r'.time →
    bufferedRow r = bufferedRow r'

theorem inTable_of_newer {all : List ReadingInsert} (halike : Alike w all) {db : Db}
    {r x : ReadingInsert} (hr : r ∈ all) (hx : x ∈ all) (hs : seriesOf w x = seriesOf w r)
    (hle : r.time ≤ x.time) (h : InTable w db x) : InTable w db r := by
  obtain ⟨row,hrow,hnew⟩ := h
  rw [hs] at hrow
  refine ⟨row,hrow,?_⟩
  rcases hnew with hlt | rfl
  · exact Or.inl (lt_of_le_of_lt hle hlt)
  · rcases lt_or_eq_of_le hle with hlt | heq
    · exact Or.inl hlt
    · exact Or.inr (halike x hx r hr hs heq.symm)

theorem inTable_flushChunk {all : List ReadingInsert} (halike : Alike w all) {db db' : Db}
    {chunk : List ReadingInsert} (hv : Valid w chunk) (hsub : chunk ⊆ all)
    (h : flushChunk w db chunk = some db') {r : ReadingInsert} (hr : r ∈ all)
    (hin : InTable w db r ∨ r ∈ chunk) : InTable w db' r := by
  have hrow := flushChunk_row hv h (seriesOf w r)
  have hbound : ∃ row, db'.readings_latest (seriesOf w r) = some row ∧ r.time ≤ row.time := by
    rw [hrow]
    rcases hin with ⟨row,hold,hnew⟩ | hmem
    · obtain ⟨row',h',hle⟩ := foldl_keepLast_newest LatestRow.time
        (db.readings_latest (seriesOf w r)) ((chunk.filter
          (fun x => seriesOf w x = seriesOf w r)).map bufferedRow) (Or.inl hold)
      refine ⟨row',h',?_⟩
      rcases hnew with hlt | rfl
      · exact le_trans (le_of_lt hlt) hle
      · exact hle
    · exact foldl_keepLast_newest LatestRow.time (db.readings_latest (seriesOf w r))
        ((chunk.filter (fun x => seriesOf w x = seriesOf w r)).map bufferedRow)
        (Or.inr (List.mem_map_of_mem (List.mem_filter.mpr ⟨hmem,by simp⟩)))
  obtain ⟨row,hnow,hle⟩ := hbound
  refine ⟨row,hnow,?_⟩
  rcases lt_or_eq_of_le hle with hlt | heq
  · exact Or.inl hlt
  · right
    rw [hrow] at hnow
    -- a row of the very time of the reading is its own, from the chunk or before
    have hchunk : row ∈ (chunk.filter (fun x => seriesOf w x = seriesOf w r)).map bufferedRow →
        row = bufferedRow r := by
      intro hmem
      obtain ⟨x,hx,hxrow⟩ := List.mem_map.mp hmem
      have hxm := List.mem_filter.mp hx
      have htime : x.time = r.time := (congrArg LatestRow.time hxrow).trans heq.symm
      rw [← hxrow]
      exact halike x (hsub hxm.1) r hr (by simpa using hxm.2) htime
    rcases hin with ⟨row',hold,hnew⟩ | hmem
    · rcases mem_of_foldl_keepLast LatestRow.time hnow with hsame | hmem
      · rw [hold] at hsame
        rw [Option.some.inj hsame] at hnew
        exact hnew.resolve_left (by rw [heq]; exact lt_irrefl _)
      · exact hchunk hmem
    · have hrmem : bufferedRow r ∈
          (chunk.filter (fun x => seriesOf w x = seriesOf w r)).map bufferedRow :=
        List.mem_map_of_mem (List.mem_filter.mpr ⟨hmem,by simp⟩)
      rcases foldl_keepLast_mem_or_newer LatestRow.time hrmem hnow with hm | hlt
      · exact hchunk hm
      · exact absurd heq (ne_of_lt hlt)

theorem not_tab_of_isSome {s : String} (h : (w.readUuid s).isSome) : '\t' ∉ s.toList := by
  obtain ⟨u,hu⟩ := Option.isSome_iff_exists.mp h
  exact not_tab_of_read w hu

theorem inBuffer_bufferLatest {all : List ReadingInsert} (hall : ∀ r ∈ all, Bufferable w r)
    {m : LatestBuffer} (hm : KeyedBy bufferedDevice m) (hvalues : ∀ e ∈ m.entries, e.2 ∈ all)
    {readings : List ReadingInsert} (hsub : readings ⊆ all) {r : ReadingInsert} (hr : r ∈ all)
    (h : InBuffer w m r ∨ r ∈ readings) : InBuffer w (bufferLatest m readings) r := by
  have hkeyed : KeyedBy bufferedDevice (bufferLatest m readings) :=
    collect_keyed bufferKey _ hm readings
  have hmem : ∀ e ∈ (bufferLatest m readings).entries, e.2 ∈ all := by
    intro e he
    rcases mem_collect bufferKey _ he with hold | hnew
    · exact hvalues e hold
    · exact hsub hnew
  -- a reading that is offered under a key is outdone only by one of its series
  have hoffered : ∀ x ∈ all, r.time ≤ x.time → seriesOf w x = seriesOf w r →
      m.get? (bufferKey x) = some x ∨ x ∈ readings → InBuffer w (bufferLatest m readings) r := by
    intro x hx hle hs hfrom
    obtain ⟨y,hy,hxy⟩ := foldl_keepLast_newest ReadingInsert.time (m.get? (bufferKey x))
      (readings.filter (fun z => bufferKey z = bufferKey x)) (hfrom.imp id
        (fun hx => List.mem_filter.mpr ⟨hx,by simp⟩))
    have hget : (bufferLatest m readings).get? (bufferKey x) = some y :=
      (get?_collect_last ReadingInsert.time bufferKey m readings (bufferKey x)).trans hy
    have hentry : (bufferKey x,y) ∈ (bufferLatest m readings).entries :=
      (OrderedMap.get?_eq_some_iff _ _ _).mp hget
    have hyall : y ∈ all := hmem _ hentry
    have hkey : seriesText y (bufferedDevice y) = seriesText x (bufferedDevice x) :=
      hkeyed (bufferKey x,y) hentry
    have hparts := (seriesText_inj (not_tab_of_isSome (hall y hyall).agent)
      (not_tab_of_isSome (hall x hx).agent) (hall y hyall).device (hall x hx).device).mp hkey
    refine ⟨_,hentry,?_,le_trans hle hxy⟩
    rw [← hs, seriesOf, seriesOf, storedSeries, storedSeries, hparts.1, hparts.2.1, hparts.2.2]
  rcases h with ⟨e,he,hs,hle⟩ | hnew
  · refine hoffered e.2 (hvalues e he) hle hs (Or.inl ?_)
    have hget := OrderedMap.get?_of_mem he
    rwa [← hm e he] at hget
  · exact hoffered r hr le_rfl rfl (Or.inr hnew)

theorem reMerge_eq (buffer : LatestBuffer) {snapshot : LatestBuffer}
    (hm : KeyedBy bufferedDevice snapshot) :
    reMerge buffer snapshot = bufferLatest buffer (snapshot.entries.map Prod.snd) := by
  unfold reMerge bufferLatest collect
  rw [List.foldl_map]
  apply List.foldl_ext
  intro m e he
  have hk : bufferKey e.2 = e.1 := hm e he
  rw [hk]
  cases m.get? e.1 <;> rfl

theorem bufferLatest_values {all : List ReadingInsert} {m : LatestBuffer}
    (hvalues : ∀ e ∈ m.entries, e.2 ∈ all) {readings : List ReadingInsert} (hsub : readings ⊆ all) :
    ∀ e ∈ (bufferLatest m readings).entries, e.2 ∈ all := by
  intro e he
  rcases mem_collect bufferKey _ he with hold | hnew
  · exact hvalues e hold
  · exact hsub hnew

theorem inBuffer_mono {m : LatestBuffer} {r x : ReadingInsert} (h : InBuffer w m x)
    (hs : seriesOf w x = seriesOf w r) (hle : r.time ≤ x.time) : InBuffer w m r := by
  obtain ⟨e,he,hes,het⟩ := h
  exact ⟨e,he,hes.trans hs,le_trans hle het⟩

/-- What a run of the flusher has to hand: each reading of the snapshot is in
the table or still to be written. -/
structure FlushSound (w : Wire) (s : FlusherState) (f : Flushing) : Prop where
  keyed : KeyedBy bufferedDevice f.snapshot
  values : ∀ e ∈ f.snapshot.entries, e.2 ∈ s.arrived
  chunk : f.chunk ⊆ s.arrived
  rest : f.rest.flatten ⊆ s.arrived
  written : ∀ e ∈ f.snapshot.entries, InTable w s.db e.2 ∨
    (f.executed = false ∧ e.2 ∈ f.chunk) ∨ e.2 ∈ f.rest.flatten
  alone : f.alone = true → s.latestBuffer.entries = []

structure FlusherSound (w : Wire) (db : Db) (s : FlusherState) : Prop where
  keyed : KeyedBy bufferedDevice s.latestBuffer
  values : ∀ e ∈ s.latestBuffer.entries, e.2 ∈ s.arrived
  flushing : ∀ f, s.flushing = some f → FlushSound w s f
  rows : ∀ k row, s.db.readings_latest k = some row → db.readings_latest k = some row ∨
    ∃ r ∈ s.arrived, seriesOf w r = k ∧ row = bufferedRow r
  kept : ∀ k row, db.readings_latest k = some row →
    ∃ row', s.db.readings_latest k = some row' ∧ row.time ≤ row'.time
  covered : ∀ r ∈ s.arrived, InTable w s.db r ∨ InBuffer w s.latestBuffer r ∨
    ∃ f, s.flushing = some f ∧ InBuffer w f.snapshot r
  settled : s.settled = true → ∀ r ∈ s.arrived, InTable w s.db r

section
variable {all : List ReadingInsert} (hall : ∀ r ∈ all, Bufferable w r) (halike : Alike w all)
  {db : Db}
include hall

theorem arrive_sound {s : FlusherState} (h : FlusherSound w db s) {readings : List ReadingInsert}
    (hsub : s.arrived++readings ⊆ all) : FlusherSound w db (arrive s readings) := by
  have hold : s.arrived ⊆ all := fun r hr => hsub (List.mem_append_left _ hr)
  have hnew : readings ⊆ all := fun r hr => hsub (List.mem_append_right _ hr)
  have hbuffer : ∀ {r}, r ∈ all → InBuffer w s.latestBuffer r ∨ r ∈ readings →
      InBuffer w (bufferLatest s.latestBuffer readings) r := fun hr hin =>
    inBuffer_bufferLatest hall h.keyed (fun e he => hold (h.values e he)) hnew hr hin
  refine ⟨collect_keyed bufferKey _ h.keyed readings,?_,?_,?_,h.kept,?_,?_⟩
  · exact bufferLatest_values (fun e he => List.mem_append_left _ (h.values e he))
      (List.subset_append_right _ _)
  · intro f hf
    obtain ⟨f',hf',rfl⟩ := Option.map_eq_some_iff.mp hf
    have hs := h.flushing f' hf'
    exact ⟨hs.keyed,fun e he => List.mem_append_left _ (hs.values e he),
      fun r hr => List.mem_append_left _ (hs.chunk hr),
      fun r hr => List.mem_append_left _ (hs.rest hr),hs.written,fun ha => nomatch ha⟩
  · intro k row hrow
    refine (h.rows k row hrow).imp id ?_
    rintro ⟨r,hr,hk⟩
    exact ⟨r,List.mem_append_left _ hr,hk⟩
  · intro r hr
    rcases List.mem_append.mp hr with hr' | hr'
    · rcases h.covered r hr' with ht | hb | ⟨f,hf,hb⟩
      · exact Or.inl ht
      · exact Or.inr (Or.inl (hbuffer (hold hr') (Or.inl hb)))
      · exact Or.inr (Or.inr ⟨{ f with alone := false },by rw [arrive, hf]; rfl,hb⟩)
    · exact Or.inr (Or.inl (hbuffer (hnew hr') (Or.inr hr')))
  · exact fun hset => nomatch hset

omit hall in
theorem beginFlush_sound {s : FlusherState} (h : FlusherSound w db s) :
    FlusherSound w db (beginFlush s) := by
  unfold beginFlush
  split
  · exact h
  · rename_i hgo
    rw [not_or] at hgo
    have hperm : (flushRows s.latestBuffer).Perm (s.latestBuffer.entries.map Prod.snd) :=
      List.perm_insertionSort _ _
    have hflat := flatten_slices (show 0 < CHUNK by decide) (flushRows s.latestBuffer)
    split
    · exact h
    · rename_i chunk rest hslices
      rw [hslices, List.flatten_cons] at hflat
      have hrows : ∀ r, r ∈ chunk++rest.flatten ↔ ∃ e ∈ s.latestBuffer.entries, e.2 = r := by
        intro r
        rw [hflat, hperm.mem_iff, List.mem_map]
      have hsub : chunk++rest.flatten ⊆ s.arrived := by
        intro r hr
        obtain ⟨e,he,rfl⟩ := (hrows r).mp hr
        exact h.values e he
      refine ⟨fun e he => absurd he List.not_mem_nil,fun e he => absurd he List.not_mem_nil,?_,
        h.rows,h.kept,?_,h.settled⟩
      · intro f hf
        cases hf
        refine ⟨h.keyed,h.values,fun r hr => hsub (List.mem_append_left _ hr),
          fun r hr => hsub (List.mem_append_right _ hr),?_,fun _ => rfl⟩
        intro e he
        rcases List.mem_append.mp ((hrows e.2).mpr ⟨e,he,rfl⟩) with hc | hr
        · exact Or.inr (Or.inl ⟨rfl,hc⟩)
        · exact Or.inr (Or.inr hr)
      · intro r hr
        rcases h.covered r hr with ht | hb | ⟨f,hf,-⟩
        · exact Or.inl ht
        · exact Or.inr (Or.inr ⟨_,rfl,hb⟩)
        · rw [hf] at hgo
          exact absurd rfl hgo.1

include halike

theorem chunkExecuted_sound {s : FlusherState} (h : FlusherSound w db s) (hsub : s.arrived ⊆ all) :
    FlusherSound w db (chunkExecuted w s) := by
  unfold chunkExecuted
  split
  · exact h
  · rename_i f hf
    have hs := h.flushing f hf
    split
    · exact h
    · split
      · exact h
      · rename_i hex db' hdb
        have hv : Valid w f.chunk := fun r hr => (hall r (hsub (hs.chunk hr))).agent
        have hchunk : f.chunk ⊆ all := fun r hr => hsub (hs.chunk hr)
        have htable : ∀ r ∈ all, InTable w s.db r ∨ r ∈ f.chunk → InTable w db' r :=
          fun r hr hin => inTable_flushChunk halike hv hchunk hdb hr hin
        refine ⟨h.keyed,h.values,?_,?_,?_,?_,?_⟩
        · intro f' hf'
          cases hf'
          refine ⟨hs.keyed,hs.values,hs.chunk,hs.rest,?_,hs.alone⟩
          intro e he
          have heall := hsub (hs.values e he)
          rcases hs.written e he with ht | ⟨-,hc⟩ | hr
          · exact Or.inl (htable _ heall (Or.inl ht))
          · exact Or.inl (htable _ heall (Or.inr hc))
          · exact Or.inr (Or.inr hr)
        · intro k row hrow
          have hrow' : db'.readings_latest k = some row := hrow
          rw [flushChunk_row hv hdb] at hrow'
          rcases mem_of_foldl_keepLast LatestRow.time hrow' with hold | hmem
          · exact h.rows k row hold
          · obtain ⟨x,hx,rfl⟩ := List.mem_map.mp hmem
            have hxm := List.mem_filter.mp hx
            exact Or.inr ⟨x,hs.chunk hxm.1,by simpa using hxm.2,rfl⟩
        · intro k row hrow
          obtain ⟨row',hrow',hle⟩ := h.kept k row hrow
          obtain ⟨row'',hrow'',hle'⟩ := foldl_keepLast_newest LatestRow.time
            (s.db.readings_latest k)
            ((f.chunk.filter (fun r => seriesOf w r = k)).map bufferedRow) (Or.inl hrow')
          rw [← flushChunk_row hv hdb] at hrow''
          exact ⟨row'',hrow'',le_trans hle hle'⟩
        · intro r hr
          rcases h.covered r hr with ht | hb | ⟨f',hf',hb⟩
          · exact Or.inl (htable r (hsub hr) (Or.inl ht))
          · exact Or.inr (Or.inl hb)
          · rw [hf] at hf'
            cases hf'
            exact Or.inr (Or.inr ⟨_,rfl,hb⟩)
        · exact fun hset r hr => htable r (hsub hr) (Or.inl (h.settled hset r hr))

omit hall in
theorem chunkReturned_sound {s : FlusherState} (h : FlusherSound w db s) (hsub : s.arrived ⊆ all) :
    FlusherSound w db (chunkReturned s) := by
  unfold chunkReturned
  split
  · exact h
  · rename_i f hf
    have hs := h.flushing f hf
    split
    · rename_i hex
      split
      · rename_i hrest
        have hdone : ∀ r ∈ s.arrived, InBuffer w f.snapshot r → InTable w s.db r := by
          rintro r hr ⟨e,he,hes,het⟩
          rcases hs.written e he with ht | ⟨hno,-⟩ | hmem
          · exact inTable_of_newer halike (hsub hr) (hsub (hs.values e he)) hes het ht
          · rw [hex] at hno
            cases hno
          · rw [hrest] at hmem
            cases hmem
        have hcovered : ∀ r ∈ s.arrived, InTable w s.db r ∨ InBuffer w s.latestBuffer r := by
          intro r hr
          rcases h.covered r hr with ht | hb | ⟨f',hf',hb⟩
          · exact Or.inl ht
          · exact Or.inr hb
          · rw [hf] at hf'
            cases hf'
            exact Or.inl (hdone r hr hb)
        refine ⟨h.keyed,h.values,(fun f' hf' => nomatch hf'),h.rows,h.kept,?_,?_⟩
        · exact fun r hr => (hcovered r hr).imp id Or.inl
        · intro hset r hr
          rcases hcovered r hr with ht | ⟨e,he,-⟩
          · exact ht
          · rw [hs.alone hset] at he
            cases he
      · rename_i chunk rest hrest
        have hflat : f.rest.flatten = chunk++rest.flatten := by rw [hrest, List.flatten_cons]
        refine ⟨h.keyed,h.values,?_,h.rows,h.kept,?_,h.settled⟩
        · intro f' hf'
          cases hf'
          refine ⟨hs.keyed,hs.values,?_,?_,?_,hs.alone⟩
          · exact fun r hr => hs.rest (by rw [hflat]; exact List.mem_append_left _ hr)
          · exact fun r hr => hs.rest (by rw [hflat]; exact List.mem_append_right _ hr)
          · intro e he
            rcases hs.written e he with ht | ⟨hno,-⟩ | hmem
            · exact Or.inl ht
            · rw [hex] at hno
              cases hno
            · rw [hflat] at hmem
              rcases List.mem_append.mp hmem with hm | hm
              · exact Or.inr (Or.inl ⟨rfl,hm⟩)
              · exact Or.inr (Or.inr hm)
        · intro r hr
          rcases h.covered r hr with ht | hb | ⟨f',hf',hb⟩
          · exact Or.inl ht
          · exact Or.inr (Or.inl hb)
          · rw [hf] at hf'
            cases hf'
            exact Or.inr (Or.inr ⟨_,rfl,hb⟩)
    · exact h

omit halike in
theorem chunkFailed_sound {s : FlusherState} (h : FlusherSound w db s) (hsub : s.arrived ⊆ all) :
    FlusherSound w db (chunkFailed s) := by
  unfold chunkFailed
  split
  · exact h
  · rename_i f hf
    have hs := h.flushing f hf
    have hvalues : (f.snapshot.entries.map Prod.snd) ⊆ s.arrived := by
      intro r hr
      obtain ⟨e,he,rfl⟩ := List.mem_map.mp hr
      exact hs.values e he
    have hbuffer : ∀ r ∈ s.arrived, InBuffer w s.latestBuffer r ∨
        r ∈ f.snapshot.entries.map Prod.snd → InBuffer w (reMerge s.latestBuffer f.snapshot) r := by
      intro r hr hin
      rw [reMerge_eq _ hs.keyed]
      exact inBuffer_bufferLatest hall h.keyed (fun e he => hsub (h.values e he))
        (fun x hx => hsub (hvalues hx)) (hsub hr) hin
    refine ⟨?_,?_,(fun f' hf' => nomatch hf'),h.rows,h.kept,?_,h.settled⟩
    · show KeyedBy bufferedDevice (reMerge s.latestBuffer f.snapshot)
      rw [reMerge_eq _ hs.keyed]
      exact collect_keyed bufferKey _ h.keyed _
    · show ∀ e ∈ (reMerge s.latestBuffer f.snapshot).entries, e.2 ∈ s.arrived
      rw [reMerge_eq _ hs.keyed]
      exact bufferLatest_values h.values hvalues
    · intro r hr
      rcases h.covered r hr with ht | hb | ⟨f',hf',⟨e,he,hes,het⟩⟩
      · exact Or.inl ht
      · exact Or.inr (Or.inl (hbuffer r hr (Or.inl hb)))
      · rw [hf] at hf'
        cases hf'
        have hback := hbuffer e.2 (hs.values e he) (Or.inr (List.mem_map_of_mem he))
        exact Or.inr (Or.inl (inBuffer_mono hback hes het))

end

theorem arrived_step (w : Wire) (s : FlusherState) (e : FlusherEvent) :
    (flusherStep w s e).arrived = s.arrived++e.arrivals := by
  cases e with
  | bufferLatest readings => rfl
  | flush =>
    simp only [flusherStep, beginFlush, FlusherEvent.arrivals, List.append_nil]
    split
    · rfl
    · split <;> rfl
  | executed =>
    simp only [flusherStep, chunkExecuted, FlusherEvent.arrivals, List.append_nil]
    split
    · rfl
    · split
      · rfl
      · split <;> rfl
  | returned =>
    simp only [flusherStep, chunkReturned, FlusherEvent.arrivals, List.append_nil]
    split
    · rfl
    · split
      · split <;> rfl
      · rfl
  | failed =>
    simp only [flusherStep, chunkFailed, FlusherEvent.arrivals, List.append_nil]
    split <;> rfl

theorem flusherStep_sound {all : List ReadingInsert} (hall : ∀ r ∈ all, Bufferable w r)
    (halike : Alike w all) {db : Db} (s : FlusherState) (e : FlusherEvent)
    (h : FlusherSound w db s ∧ s.arrived ⊆ all) (he : e.arrivals ⊆ all) :
    FlusherSound w db (flusherStep w s e) ∧ (flusherStep w s e).arrived ⊆ all := by
  have hsub : s.arrived++e.arrivals ⊆ all := List.append_subset.mpr ⟨h.2,he⟩
  refine ⟨?_,by rw [arrived_step]; exact hsub⟩
  cases e with
  | bufferLatest readings => exact arrive_sound hall h.1 hsub
  | flush => exact beginFlush_sound h.1
  | executed => exact chunkExecuted_sound hall halike h.1 h.2
  | returned => exact chunkReturned_sound halike h.1 h.2
  | failed => exact chunkFailed_sound hall h.1 h.2

theorem initial_flusher_sound (w : Wire) (db : Db) : FlusherSound w db (.initial db) :=
  ⟨fun _ he => absurd he List.not_mem_nil,fun _ he => absurd he List.not_mem_nil,
    (fun _ hf => nomatch hf),fun _ _ h => Or.inl h,fun _ row h => ⟨row,h,le_rfl⟩,
    fun _ hr => absurd hr List.not_mem_nil,fun h => nomatch h⟩

theorem flusherStep_time (w : Wire) (s : FlusherState) (e : FlusherEvent) {k : SeriesKey}
    {row : LatestRow} (h : s.db.readings_latest k = some row) :
    ∃ row', (flusherStep w s e).db.readings_latest k = some row' ∧ row.time ≤ row'.time := by
  have hsame : ∀ {s' : FlusherState}, s'.db = s.db →
      ∃ row', s'.db.readings_latest k = some row' ∧ row.time ≤ row'.time := fun hdb =>
    ⟨row,by rw [hdb]; exact h,le_rfl⟩
  cases e with
  | bufferLatest readings => exact hsame rfl
  | flush =>
    apply hsame
    simp only [flusherStep, beginFlush]
    split
    · rfl
    · split <;> rfl
  | executed =>
    simp only [flusherStep, chunkExecuted]
    split
    · exact hsame rfl
    · split
      · exact hsame rfl
      · split
        · exact hsame rfl
        · rename_i db' hdb
          obtain ⟨rows,-,hrows⟩ := Option.bind_eq_some_iff.mp hdb
          unfold upsertLatest at hrows
          split at hrows
          · rw [← Option.some.inj hrows]
            show ∃ row', upsertNewest LatestRow.time s.db.readings_latest rows k = some row' ∧ _
            rw [upsertNewest_apply]
            exact foldl_keepLast_newest LatestRow.time _ _ (Or.inl h)
          · cases hrows
  | returned =>
    apply hsame
    simp only [flusherStep, chunkReturned]
    split
    · rfl
    · split
      · split <;> rfl
      · rfl
  | failed =>
    apply hsame
    simp only [flusherStep, chunkFailed]
    split <;> rfl

theorem run_time (w : Wire) (es : List FlusherEvent) {s : FlusherState} {k : SeriesKey}
    {row : LatestRow} (h : s.db.readings_latest k = some row) :
    ∃ row', (run (flusherStep w) es s).db.readings_latest k = some row' ∧ row.time ≤ row'.time := by
  induction es generalizing s row with
  | nil => exact ⟨row,h,le_rfl⟩
  | cons e es ih =>
    obtain ⟨row',h',hle⟩ := flusherStep_time w s e h
    obtain ⟨row'',h'',hle'⟩ := ih h'
    exact ⟨row'',h'',le_trans hle hle'⟩

theorem exists_newest {w : Wire} {arrived : List ReadingInsert} {r : ReadingInsert}
    (hr : r ∈ arrived) :
    ∃ n ∈ arrived, seriesOf w n = seriesOf w r ∧
      (∀ x ∈ arrived, seriesOf w x = seriesOf w r → x.time ≤ n.time) ∧
      lastNewest ReadingInsert.time
        (arrived.filter (fun x => seriesOf w x = seriesOf w r)) = some n := by
  obtain ⟨n,hn,-⟩ := foldl_keepLast_newest ReadingInsert.time none
    (arrived.filter (fun x => seriesOf w x = seriesOf w r))
    (Or.inr (List.mem_filter.mpr ⟨hr,by simp⟩))
  have hmem : n ∈ arrived.filter (fun x => seriesOf w x = seriesOf w r) := by
    rcases mem_of_foldl_keepLast ReadingInsert.time hn with h | h
    · cases h
    · exact h
  have hnm := List.mem_filter.mp hmem
  refine ⟨n,hnm.1,by simpa using hnm.2,?_,hn⟩
  intro x hx hs
  obtain ⟨n',hn',hle⟩ := foldl_keepLast_newest ReadingInsert.time none
    (arrived.filter (fun x => seriesOf w x = seriesOf w r))
    (Or.inr (List.mem_filter.mpr ⟨hx,by simpa using hs⟩))
  rw [hn] at hn'
  rwa [← Option.some.inj hn'] at hle

theorem table_newest {db : Db} {s : FlusherState} (h : FlusherSound w db s) {n : ReadingInsert}
    (hmax : ∀ x ∈ s.arrived, seriesOf w x = seriesOf w n → x.time ≤ n.time)
    (hlast : lastNewest ReadingInsert.time
      (s.arrived.filter (fun x => seriesOf w x = seriesOf w n)) = some n)
    (hin : InTable w s.db n ∨ ∃ old, db.readings_latest (seriesOf w n) = some old ∧
      n.time < old.time) :
    s.db.readings_latest (seriesOf w n) = newestRow w db s.arrived (seriesOf w n) := by
  have hnewest : newestRow w db s.arrived (seriesOf w n) =
      keepLast LatestRow.time (db.readings_latest (seriesOf w n)) (bufferedRow n) := by
    rw [newestRow, hlast]
    rfl
  -- a row newer than all readings was there before
  have holder : ∀ row, s.db.readings_latest (seriesOf w n) = some row → n.time < row.time →
      db.readings_latest (seriesOf w n) = some row := by
    intro row hrow hlt
    rcases h.rows _ _ hrow with hold | ⟨x,hx,hxs,rfl⟩
    · exact hold
    · exact absurd (hmax x hx hxs) (not_le.mpr hlt)
  rw [hnewest]
  cases hold : db.readings_latest (seriesOf w n) with
  | none =>
    rcases hin with ⟨row,hrow,hlt | rfl⟩ | ⟨old,hold',-⟩
    · rw [holder row hrow hlt] at hold
      cases hold
    · exact hrow
    · rw [hold] at hold'
      cases hold'
  | some old =>
    obtain ⟨row,hrow,hle⟩ := h.kept _ _ hold
    unfold keepLast
    simp only
    split
    · rename_i hon
      rcases hin with ⟨row',hrow',hnew⟩ | ⟨old',hold',hlt⟩
      · rcases hnew with hlt | rfl
        · have hthere := holder row' hrow' hlt
          rw [hold] at hthere
          rw [← Option.some.inj hthere] at hlt
          exact absurd hon (not_le.mpr hlt)
        · exact hrow'
      · rw [hold] at hold'
        rw [← Option.some.inj hold'] at hlt
        exact absurd hon (not_le.mpr hlt)
    · rename_i hon
      have hlt : n.time < row.time := lt_of_lt_of_le (not_le.mp hon) hle
      have hthere := holder row hrow hlt
      rw [hold] at hthere
      rw [hrow, ← Option.some.inj hthere]

theorem sound_held {db : Db} {s : FlusherState} (h : FlusherSound w db s)
    (halike : Alike w s.arrived) {r : ReadingInsert} (hr : r ∈ s.arrived) :
    Held w db s (seriesOf w r) := by
  obtain ⟨n,hn,hns,hmax,hlast⟩ := exists_newest (w := w) hr
  rw [← hns] at hmax hlast ⊢
  by_cases hold : ∃ old, db.readings_latest (seriesOf w n) = some old ∧ n.time < old.time
  · exact Or.inl (table_newest h hmax hlast (Or.inr hold))
  · have hnewest : newestRow w db s.arrived (seriesOf w n) = some (bufferedRow n) := by
      rw [newestRow, hlast]
      show keepLast LatestRow.time (db.readings_latest (seriesOf w n)) (bufferedRow n) = _
      cases hdb : db.readings_latest (seriesOf w n) with
      | none => rfl
      | some old =>
        have hle : old.time ≤ (bufferedRow n).time :=
          not_lt.mp (fun hlt => hold ⟨old,hdb,hlt⟩)
        rw [keepLast]
        exact if_pos hle
    have hitem : ∀ m : LatestBuffer, (∀ e ∈ m.entries, e.2 ∈ s.arrived) → InBuffer w m n →
        ∃ e ∈ m.entries, seriesOf w e.2 = seriesOf w n ∧
          some (bufferedRow e.2) = newestRow w db s.arrived (seriesOf w n) := by
      rintro m hm ⟨e,he,hes,het⟩
      refine ⟨e,he,hes,?_⟩
      rw [hnewest, halike e.2 (hm e he) n hn hes
        (le_antisymm (hmax e.2 (hm e he) hes) het)]
    rcases h.covered n hn with ht | hb | ⟨f,hf,hb⟩
    · exact Or.inl (table_newest h hmax hlast (Or.inl ht))
    · exact Or.inr (Or.inl (hitem _ h.values hb))
    · exact Or.inr (Or.inr ⟨f,hf,hitem _ (h.flushing f hf).values hb⟩)

theorem sound_settled {db : Db} {s : FlusherState} (h : FlusherSound w db s)
    (hset : s.settled = true) {r : ReadingInsert}
    (hr : r ∈ s.arrived) :
    s.db.readings_latest (seriesOf w r) = newestRow w db s.arrived (seriesOf w r) := by
  obtain ⟨n,hn,hns,hmax,hlast⟩ := exists_newest (w := w) hr
  rw [← hns] at hmax hlast ⊢
  exact table_newest h hmax hlast (Or.inl (h.settled hset n hn))

/-- In every state of every run the newest row of each series that arrived is
in the table, the buffer or the snapshot, it is in the table once a run of the
flusher has succeeded alone, and no row goes back in time. -/
theorem newest_never_lost (w : Wire) (db : Db) (es : List FlusherEvent)
    (hreadings : ∀ e ∈ es, ∀ r ∈ e.arrivals, Bufferable w r)
    (hdistinct : (es.flatMap FlusherEvent.arrivals).Pairwise
      (fun r r' => seriesOf w r = seriesOf w r' → r.time ≠ r'.time)) :
    (∀ r ∈ (run (flusherStep w) es (.initial db)).arrived,
      Held w db (run (flusherStep w) es (.initial db)) (seriesOf w r)) ∧
    ((run (flusherStep w) es (.initial db)).settled = true →
      ∀ r ∈ (run (flusherStep w) es (.initial db)).arrived,
        (run (flusherStep w) es (.initial db)).db.readings_latest (seriesOf w r) =
          newestRow w db (run (flusherStep w) es (.initial db)).arrived (seriesOf w r)) ∧
    ∀ pre, pre <+: es → ∀ k row,
      (run (flusherStep w) pre (.initial db)).db.readings_latest k = some row →
      ∃ row', (run (flusherStep w) es (.initial db)).db.readings_latest k = some row' ∧
        row.time ≤ row'.time := by
  have hall : ∀ r ∈ es.flatMap FlusherEvent.arrivals, Bufferable w r := by
    intro r hr
    obtain ⟨e,he,hre⟩ := List.mem_flatMap.mp hr
    exact hreadings e he r hre
  have halike : Alike w (es.flatMap FlusherEvent.arrivals) := by
    have hforward := hdistinct.imp (S := fun r r' : ReadingInsert => seriesOf w r = seriesOf w r' →
      r.time = r'.time → bufferedRow r = bufferedRow r') (fun h hs ht => absurd ht (h hs))
    have hbackward := hdistinct.imp (S := fun r r' : ReadingInsert => seriesOf w r' = seriesOf w r →
      r'.time = r.time → bufferedRow r' = bufferedRow r)
      (fun h hs ht => absurd ht.symm (h hs.symm))
    exact fun r hr r' hr' => List.Pairwise.forall_of_forall_of_flip (fun _ _ _ _ => rfl) hforward
      hbackward hr hr'
  have hsound : FlusherSound w db (run (flusherStep w) es (.initial db)) ∧
      (run (flusherStep w) es (.initial db)).arrived ⊆ es.flatMap FlusherEvent.arrivals := by
    have hmeets : Meets (flusherStep w)
        (fun _ e => e.arrivals ⊆ es.flatMap FlusherEvent.arrivals) es (.initial db) := by
      apply meets_of_split
      intro pre e post hes r hr
      exact List.mem_flatMap.mpr ⟨e,by rw [hes]; simp,hr⟩
    exact run_invariant (I := fun s => FlusherSound w db s ∧
      s.arrived ⊆ es.flatMap FlusherEvent.arrivals)
      (fun s e he h => flusherStep_sound hall halike s e h he) es (.initial db) hmeets
      ⟨initial_flusher_sound w db,fun _ hr => absurd hr List.not_mem_nil⟩
  have halike' : Alike w (run (flusherStep w) es (.initial db)).arrived :=
    fun r hr r' hr' => halike r (hsound.2 hr) r' (hsound.2 hr')
  refine ⟨fun r hr => sound_held hsound.1 halike' hr,
    fun hset r hr => sound_settled hsound.1 hset hr,?_⟩
  rintro pre ⟨rest,rfl⟩ k row hrow
  rw [run, List.foldl_append]
  exact run_time w rest hrow

def levelReading : ReadingInsert where
  agent_uuid := "00000000-0000-4000-8000-000000000001"
  metric_name := "level"
  value := some 7
  quality := some "good"
  unit := none
  protocol := "opcua"
  extra := ⟨none,none,some "tank",none,0⟩
  time := 1000
  anomaly_score := none
  anomaly_threshold := none
  baseline_samples := none
  detectionMethodsJson := none

def levelRun : List FlusherEvent :=
  [.bufferLatest [levelReading],.flush,.failed,.flush,.executed,.returned]

theorem newest_never_lost_level :
    Held plainWire ⟨fun _ => none,fun _ => none⟩
      (run (flusherStep plainWire) levelRun (.initial ⟨fun _ => none,fun _ => none⟩))
      (seriesOf plainWire levelReading) := by
  refine (newest_never_lost plainWire ⟨fun _ => none,fun _ => none⟩ levelRun ?_ ?_).1
    levelReading ?_
  · have hlevel : Bufferable plainWire levelReading := ⟨by decide +kernel,by decide +kernel⟩
    intro e he r hr
    have hmem : r ∈ levelRun.flatMap FlusherEvent.arrivals := List.mem_flatMap.mpr ⟨e,he,hr⟩
    have hone : levelRun.flatMap FlusherEvent.arrivals = [levelReading] := rfl
    rw [hone, List.mem_singleton] at hmem
    rw [hmem]
    exact hlevel
  · exact List.pairwise_singleton _ _
  · have hone : (run (flusherStep plainWire) levelRun
        (.initial ⟨fun _ => none,fun _ => none⟩)).arrived = [levelReading] := rfl
    rw [hone]
    exact List.mem_cons_self

end Iotistica.Readings
