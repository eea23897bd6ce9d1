import Iotistica.ReadingsPaths

/-!
# Readings in batches

A batch of entries is expanded, of readings with one key the last is kept, and
the rest goes to the database sorted. Which reading of a repeated key is
stored then depends on where the batches are cut: within a batch the last one
wins, across batches the first one. So does the statement that stores it, as
the size of a batch decides between COPY and INSERT. The time of ingestion,
which only stamps the extra payload, is the same for all batches here.
-/

set_option autoImplicit false

namespace Iotistica.Readings
open Iotistica.JsText Iotistica.Newest Iotistica.Slices

/-- What a run of the service has besides its batches: the driver, the dates
of timestamps, the protocols of entries and the time of ingestion. -/
structure ReadingInserter where
  wire : Wire
  date : Timestamp → ℤ
  detectProtocol : DeviceDataEntry → String
  ingestedAt : ℤ

section
variable (w : Wire) (ins : ReadingInserter)

def entryReadings (entry : DeviceDataEntry) : List ReadingInsert :=
  (expandMessages ins.date entry (ins.detectProtocol entry) ins.ingestedAt).getD []

def dedupKey (r : ReadingInsert) : String :=
  r.agent_uuid++":"++r.metric_name++":"++JsNumerals.intText r.time

def seen (allReadings : List ReadingInsert) : OrderedMap String ReadingInsert :=
  collect dedupKey (fun _ _ => true) OrderedMap.empty allReadings

def deduped (allReadings : List ReadingInsert) : List ReadingInsert :=
  sortReadings w ((seen allReadings).entries.map Prod.snd)

/-- What a batch sends. -/
def batchRows (data : List DeviceDataEntry) : List ReadingInsert :=
  deduped ins.wire (data.flatMap (entryReadings ins))

def insertBatch (cfg : BulkConfig) (failsAt : Option ℕ) (s : State) (data : List DeviceDataEntry) :
    Option State :=
  let allReadings := data.flatMap (entryReadings ins)
  if allReadings = [] then some s
  else bulkInsert ins.wire cfg failsAt s (deduped ins.wire allReadings)

def insertBatches (cfg : BulkConfig) : State → List (List DeviceDataEntry × Option ℕ) → Option State
  | s, [] => some s
  | s, (data,failsAt)::rest =>
    (insertBatch ins cfg failsAt s data).bind (fun s' => insertBatches cfg s' rest)

def BulkConfig.valid (cfg : BulkConfig) : Bool :=
  decide (0 < cfg.realtimeRowsPerInsert ∧ 0 < cfg.copyMinRows ∧ 0 < cfg.realtimeMaxRows)

def cutEntries (cuts : List (List DeviceDataEntry × Option ℕ)) : List DeviceDataEntry :=
  (cuts.map Prod.fst).flatten

/-- However the entries are cut into batches, once all are inserted the
readings are the same. -/
def BoundaryFree (entries : List DeviceDataEntry) (s : State) : Prop :=
  ∀ cfg : BulkConfig, cfg.valid = true → ∀ cuts cuts' s₁ s₂,
    cutEntries cuts = entries → cutEntries cuts' = entries →
    insertBatches ins cfg s cuts = some s₁ →
    insertBatches ins cfg s cuts' = some s₂ →
    s₁.db.readings = s₂.db.readings

def lastUnder (k : ReadingKey) (entry : DeviceDataEntry) : Option ReadingInsert :=
  ((entryReadings ins entry).filter (fun r => readingKey ins.wire r = k)).getLast?

/-- INSERT takes what each entry sends, so that none of the inserts fails. -/
def Taken (entries : List DeviceDataEntry) : Prop :=
  ∀ e ∈ entries, ∀ r ∈ batchRows ins [e], accepts ins.wire .values r = true

/-- COPY stores the reading as the first one under its key: there are rows
enough for COPY, it commits the part that has the reading, and if a later part
is refused INSERT can start over with all of them. -/
structure CopyStores (rows : List ReadingInsert) (k : ReadingKey) (r : ReadingInsert) : Prop where
  first : firstOf w rows k = some r
  many : 1 < rows.length
  committed : r ∈ staged w none rows
  resumed : (∀ x ∈ rows, accepts w .copy x = true) ∨
    ∀ chunk ∈ slices MAX_ROWS_PER_BULK_INSERT rows, Unmixed w chunk

/-- Of each key that is not stored, every entry with readings under it ends in
one that INSERT stores like that of the first such entry, unless an earlier one
writes the agent's uuid in a spelling that sorts before its own; and where a
batch is the first one under the key and COPY stores its reading, the staging
table shows no difference. -/
structure RepeatsAlike (entries : List DeviceDataEntry) (table : ReadingKey → Option Cells) :
    Prop where
  alike : ∀ k, table k = none → ∀ pre e post r first, entries = pre++e::post →
    lastUnder ins k e = some r →
    (∀ e' ∈ pre, lastUnder ins k e' ≠ none →
      ¬ins.wire.localeCompare e'.deviceUuid e.deviceUuid < 0) →
    entries.findSome? (lastUnder ins k) = some first →
    restCells ins.wire .values r = restCells ins.wire .values first
  staged : ∀ k, table k = none → ∀ pre data post r, entries = pre++(data++post) →
    (∀ e ∈ pre, lastUnder ins k e = none) →
    CopyStores ins.wire (batchRows ins data) k r → RealsAlike ins.wire r

end

variable {w : Wire} {ins : ReadingInserter}

theorem entryReadings_agent {entry : DeviceDataEntry} {r : ReadingInsert}
    (h : r ∈ entryReadings ins entry) :
    r.agent_uuid = entry.deviceUuid := by
  unfold entryReadings at h
  cases he : expandMessages ins.date entry (ins.detectProtocol entry) ins.ingestedAt with
  | none => simp [he] at h
  | some rs => exact expandMessages_agent ins.date he r (by simpa [he] using h)

theorem not_colon_of_read {s : String} (h : (w.readUuid s).isSome) : ':' ∉ s.toList := by
  obtain ⟨u,hu⟩ := Option.isSome_iff_exists.mp h
  intro hm
  rcases w.uuid_chars s u hu _ hm with hc | hc
  · revert hc
    decide
  · revert hc
    decide

/-- The text of a key tells the agent, the metric and the time, as a uuid has
no colon. -/
theorem dedupKey_inj {r r' : ReadingInsert} (hr : (w.readUuid r.agent_uuid).isSome)
    (hr' : (w.readUuid r'.agent_uuid).isSome) :
    dedupKey r = dedupKey r' ↔
      r.agent_uuid = r'.agent_uuid ∧ r.metric_name = r'.metric_name ∧ r.time = r'.time := by
  constructor
  · intro h
    have hl : ∀ x : ReadingInsert, (dedupKey x).toList =
        x.agent_uuid.toList++ ':'::(x.metric_name.toList++ ':'::(JsNumerals.intText x.time).toList) := by
      intro x
      simp [dedupKey]
    have hlist := congrArg String.toList h
    rw [hl, hl] at hlist
    have houter := append_sep_inj (not_colon_of_read hr) (not_colon_of_read hr') hlist
    have hinner := append_sep_inj_right (JsNumerals.not_mem_intText r.time (by decide) (by decide))
      (JsNumerals.not_mem_intText r'.time (by decide) (by decide)) houter.2
    exact ⟨String.toList_injective houter.1,String.toList_injective hinner.1,
      JsNumerals.intText_injective (String.toList_injective hinner.2)⟩
  · rintro ⟨ha,hm,ht⟩
    rw [dedupKey, dedupKey, ha, hm, ht]

theorem get?_seen (allReadings : List ReadingInsert) (k : String) :
    (seen allReadings).get? k = (allReadings.filter (fun r => dedupKey r = k)).getLast? := by
  have hget : (seen allReadings).get? k =
      lastNewest (fun _ => 0) (allReadings.filter (fun r => dedupKey r = k)) := by
    have h := get?_collect_last (fun _ : ReadingInsert => 0) dedupKey OrderedMap.empty allReadings k
    simp only [le_refl, decide_true] at h
    exact h
  rw [hget]
  cases hnil : allReadings.filter (fun r => dedupKey r = k) with
  | nil => rfl
  | cons r rs =>
    rw [lastNewest_top (fun _ : ReadingInsert => 0) (fun _ _ => le_rfl) (by simp)]
    simp

theorem mem_deduped {allReadings : List ReadingInsert} {r : ReadingInsert} :
    r ∈ deduped w allReadings ↔
      (allReadings.filter (fun x => dedupKey x = dedupKey r)).getLast? = some r := by
  have hperm := List.perm_insertionSort (fun a b => comparePrimary w a b ≤ 0)
    ((seen allReadings).entries.map Prod.snd)
  have hkeyed : ∀ e ∈ (seen allReadings).entries, dedupKey e.2 = e.1 :=
    collect_keyed _ _ (fun e he => absurd he List.not_mem_nil) allReadings
  unfold deduped sortReadings
  rw [hperm.mem_iff, ← get?_seen]
  constructor
  · intro h
    obtain ⟨e,he,rfl⟩ := List.mem_map.mp h
    rw [hkeyed e he]
    exact OrderedMap.get?_of_mem he
  · intro h
    exact List.mem_map_of_mem ((OrderedMap.get?_eq_some_iff _ _ _).mp h)

theorem deduped_subset {allReadings : List ReadingInsert} :
    deduped w allReadings ⊆ allReadings := by
  intro r hr
  exact (List.mem_filter.mp (List.mem_of_getLast? (mem_deduped.mp hr))).1

theorem exists_deduped {allReadings : List ReadingInsert} {x : ReadingInsert}
    (hx : x ∈ allReadings) : ∃ v ∈ deduped w allReadings, dedupKey v = dedupKey x := by
  have hne : allReadings.filter (fun y => dedupKey y = dedupKey x) ≠ [] :=
    List.ne_nil_of_mem (List.mem_filter.mpr ⟨hx,by simp⟩)
  obtain ⟨v,hv⟩ := Option.ne_none_iff_exists'.mp (fun hn => hne (List.getLast?_eq_none_iff.mp hn))
  have hvx : dedupKey v = dedupKey x := by
    simpa using (List.mem_filter.mp (List.mem_of_getLast? hv)).2
  exact ⟨v,mem_deduped.mpr (by rw [hvx]; exact hv),hvx⟩

theorem comparePrimary_swap (a b : ReadingInsert) :
    comparePrimary w a b < 0 ↔ 0 < comparePrimary w b a := by
  have hagent := w.compare_swap a.agent_uuid b.agent_uuid
  have hagent' := w.compare_swap b.agent_uuid a.agent_uuid
  have hmetric := w.compare_swap a.metric_name b.metric_name
  have hmetric' := w.compare_swap b.metric_name a.metric_name
  unfold comparePrimary compareKeys
  split_ifs <;> omega

theorem comparePrimary_total (a b : ReadingInsert) :
    comparePrimary w a b ≤ 0 ∨ comparePrimary w b a ≤ 0 := by
  have h := comparePrimary_swap (w := w) b a
  omega

theorem comparePrimary_trans {a b c : ReadingInsert} (hab : comparePrimary w a b ≤ 0)
    (hbc : comparePrimary w b c ≤ 0) : comparePrimary w a c ≤ 0 := by
  have hagent := w.compare_trans a.agent_uuid b.agent_uuid c.agent_uuid
  have hagent' := w.compare_trans c.agent_uuid a.agent_uuid b.agent_uuid
  have hagent'' := w.compare_trans b.agent_uuid c.agent_uuid a.agent_uuid
  have hmetric := w.compare_trans a.metric_name b.metric_name c.metric_name
  have hmetric' := w.compare_trans c.metric_name a.metric_name b.metric_name
  have hmetric'' := w.compare_trans b.metric_name c.metric_name a.metric_name
  have hs := w.compare_swap a.agent_uuid b.agent_uuid
  have hs' := w.compare_swap b.agent_uuid a.agent_uuid
  have hs₁ := w.compare_swap b.agent_uuid c.agent_uuid
  have hs₁' := w.compare_swap c.agent_uuid b.agent_uuid
  have hs₂ := w.compare_swap a.agent_uuid c.agent_uuid
  have hs₂' := w.compare_swap c.agent_uuid a.agent_uuid
  have ht := w.compare_swap a.metric_name b.metric_name
  have ht' := w.compare_swap b.metric_name a.metric_name
  have ht₁ := w.compare_swap b.metric_name c.metric_name
  have ht₁' := w.compare_swap c.metric_name b.metric_name
  have ht₂ := w.compare_swap a.metric_name c.metric_name
  have ht₂' := w.compare_swap c.metric_name a.metric_name
  unfold comparePrimary compareKeys at hab hbc ⊢
  split_ifs at hab hbc ⊢ <;> omega

theorem deduped_sorted (allReadings : List ReadingInsert) :
    (deduped w allReadings).Pairwise (fun a b => comparePrimary w a b ≤ 0) := by
  have htotal : Std.Total (fun a b : ReadingInsert => comparePrimary w a b ≤ 0) :=
    ⟨comparePrimary_total⟩
  have htrans : IsTrans ReadingInsert (fun a b => comparePrimary w a b ≤ 0) :=
    ⟨fun _ _ _ => comparePrimary_trans⟩
  exact List.pairwise_insertionSort (fun a b => comparePrimary w a b ≤ 0) _

theorem sort_deduped (allReadings : List ReadingInsert) :
    sortReadings w (deduped w allReadings) = deduped w allReadings :=
  List.Pairwise.insertionSort_eq (deduped_sorted allReadings)

theorem compare_agents {a b : ReadingInsert} (h : comparePrimary w a b ≤ 0) :
    w.localeCompare a.agent_uuid b.agent_uuid ≤ 0 := by
  unfold comparePrimary compareKeys at h
  split at h
  · exact h
  · rename_i hz
    simp only [ne_eq, not_not] at hz
    rw [hz]

def storedFirst (ins : ReadingInserter) (data : List DeviceDataEntry) (k : ReadingKey) :
    Option ReadingInsert :=
  firstOf ins.wire (batchRows ins data) k

theorem getLast?_flatMap {α β : Type} (f : α → List β) (p : β → Bool) {xs : List α} {b : β}
    (h : ((xs.flatMap f).filter p).getLast? = some b) :
    ∃ pre x post, xs = pre++x::post ∧ ((f x).filter p).getLast? = some b ∧
      ∀ y ∈ post, (f y).filter p = [] := by
  induction xs with
  | nil => cases h
  | cons x xs ih =>
    rw [List.flatMap_cons, List.filter_append, List.getLast?_append] at h
    cases hl : ((xs.flatMap f).filter p).getLast? with
    | none =>
      rw [hl, Option.none_or] at h
      refine ⟨[],x,xs,rfl,h,?_⟩
      intro y hy
      have hnil := List.getLast?_eq_none_iff.mp hl
      rw [List.filter_eq_nil_iff] at hnil ⊢
      exact fun b hb => hnil b (List.mem_flatMap.mpr ⟨y,hy,hb⟩)
    | some b' =>
      rw [hl, Option.some_or] at h
      obtain ⟨pre,y,post,hxs,hy,hpost⟩ := ih (hl.trans h)
      exact ⟨x::pre,y,post,by rw [hxs]; rfl,hy,hpost⟩

theorem Taken.subset {entries data : List DeviceDataEntry}
    (h : Taken ins entries) (hsub : data ⊆ entries) :
    Taken ins data := fun e he => h e (hsub he)

/-- What a batch sends one of its entries sends alone. -/
theorem batchRows_entry {data : List DeviceDataEntry} {r : ReadingInsert}
    (hr : r ∈ batchRows ins data) :
    ∃ e ∈ data, r ∈ batchRows ins [e] := by
  obtain ⟨pre,e,post,hdata,hlast,-⟩ := getLast?_flatMap _ _ (mem_deduped.mp hr)
  refine ⟨e,by rw [hdata]; simp,?_⟩
  rw [batchRows, List.flatMap_singleton, mem_deduped]
  exact hlast

theorem Taken.accepts {data : List DeviceDataEntry} (h : Taken ins data) :
    ∀ r ∈ batchRows ins data, accepts ins.wire .values r = true := by
  intro r hr
  obtain ⟨e,he,hre⟩ := batchRows_entry hr
  exact h e he r hre

theorem Taken.agent {data : List DeviceDataEntry} (h : Taken ins data)
    {e : DeviceDataEntry} (he : e ∈ data) {r : ReadingInsert}
    (hr : r ∈ entryReadings ins e) :
    (ins.wire.readUuid e.deviceUuid).isSome := by
  obtain ⟨v,hv,-⟩ := exists_deduped (w := ins.wire) hr
  have hrow : v ∈ batchRows ins [e] := by
    rw [batchRows, List.flatMap_singleton]
    exact hv
  rw [← entryReadings_agent (deduped_subset hv)]
  exact accepts_agent ins.wire (h e he v hrow)

theorem Taken.valid {data : List DeviceDataEntry} (h : Taken ins data) :
    Valid ins.wire (data.flatMap (entryReadings ins)) := by
  intro r hr
  obtain ⟨e,he,hre⟩ := List.mem_flatMap.mp hr
  rw [entryReadings_agent hre]
  exact h.agent he hre

theorem mem_of_lastUnder {k : ReadingKey} {e : DeviceDataEntry} {r : ReadingInsert}
    (h : lastUnder ins k e = some r) :
    r ∈ entryReadings ins e ∧ readingKey ins.wire r = k := by
  have hmem := List.mem_filter.mp (List.mem_of_getLast? h)
  exact ⟨hmem.1,by simpa using hmem.2⟩

/-- Every reading of a batch has a stand-in of its agent and key among the
rows. -/
theorem exists_standIn {allReadings : List ReadingInsert} (hvalid : Valid w allReadings)
    {x : ReadingInsert} (hx : x ∈ allReadings) :
    ∃ v ∈ deduped w allReadings, v.agent_uuid = x.agent_uuid ∧ readingKey w v = readingKey w x := by
  obtain ⟨v,hv,hvx⟩ := exists_deduped (w := w) hx
  have hparts := (dedupKey_inj (hvalid v (deduped_subset hv)) (hvalid x hx)).mp hvx
  refine ⟨v,hv,hparts.1,?_⟩
  rw [readingKey, readingKey, hparts.1, hparts.2.1, hparts.2.2]

/-- Within an entry, which has one agent, the text of a key and the key tell
the same readings. -/
theorem filter_dedupKey {e : DeviceDataEntry} {r : ReadingInsert} {k : ReadingKey}
    (hr : r.agent_uuid = e.deviceUuid) (hv : (ins.wire.readUuid e.deviceUuid).isSome)
    (hk : readingKey ins.wire r = k) :
    (entryReadings ins e).filter (fun x => dedupKey x = dedupKey r) =
      (entryReadings ins e).filter (fun x => readingKey ins.wire x = k) := by
  apply List.filter_congr
  intro x hx
  have hxa := entryReadings_agent hx
  have hiff : dedupKey x = dedupKey r ↔
      x.agent_uuid = r.agent_uuid ∧ x.metric_name = r.metric_name ∧ x.time = r.time :=
    dedupKey_inj (by rw [hxa]; exact hv) (by rw [hr]; exact hv)
  rw [decide_eq_decide, hiff, ← hk, readingKey, readingKey, hxa, hr]
  simp

/-- What is stored is the last reading under the key of some entry; no entry
under the key sorts before it, and none of its spelling comes after it. -/
theorem storedFirst_spec {data : List DeviceDataEntry}
    (htaken : Taken ins data) {k : ReadingKey} {r : ReadingInsert}
    (h : storedFirst ins data k = some r) :
    ∃ pre e post, data = pre++e::post ∧ lastUnder ins k e = some r ∧
      (∀ e' ∈ data, lastUnder ins k e' ≠ none →
        ins.wire.localeCompare e.deviceUuid e'.deviceUuid ≤ 0) ∧
      ∀ e' ∈ post, lastUnder ins k e' ≠ none → e'.deviceUuid ≠ e.deviceUuid := by
  have hmem := List.mem_filter.mp (List.mem_of_head? h)
  have hk : readingKey ins.wire r = k := by simpa using hmem.2
  obtain ⟨pre,e,post,hdata,hlast,hpost⟩ := getLast?_flatMap _ _ (mem_deduped.mp hmem.1)
  have hre : r ∈ entryReadings ins e :=
    (List.mem_filter.mp (List.mem_of_getLast? hlast)).1
  have hagent := entryReadings_agent hre
  have he : e ∈ data := by
    rw [hdata]
    simp
  refine ⟨pre,e,post,hdata,?_,?_,?_⟩
  · rw [lastUnder, ← filter_dedupKey hagent (htaken.agent he hre) hk]
    exact hlast
  · intro e' he' hne
    obtain ⟨x,hx⟩ := Option.ne_none_iff_exists'.mp hne
    obtain ⟨hxe,hxk⟩ := mem_of_lastUnder hx
    have hxall : x ∈ data.flatMap (entryReadings ins) :=
      List.mem_flatMap.mpr ⟨e',he',hxe⟩
    obtain ⟨v,hvd,hva,hvk⟩ := exists_standIn htaken.valid hxall
    rw [hxk] at hvk
    have hle : comparePrimary ins.wire r v ≤ 0 := by
      have hpair := (deduped_sorted (w := ins.wire) (data.flatMap (entryReadings ins))).filter
          (fun y => decide (readingKey ins.wire y = k))
      have hvf : v ∈ (deduped ins.wire (data.flatMap (entryReadings ins))).filter
          (fun y => readingKey ins.wire y = k) := List.mem_filter.mpr ⟨hvd,by simpa using hvk⟩
      obtain ⟨rest,hrest⟩ := List.head?_eq_some_iff.mp h
      rw [batchRows] at hrest
      rw [hrest] at hpair hvf
      rcases List.mem_cons.mp hvf with rfl | hv'
      · have hswap := comparePrimary_swap (w := ins.wire) v v
        omega
      · exact (List.pairwise_cons.mp hpair).1 v hv'
    have hcmp := compare_agents hle
    rwa [hagent, hva, entryReadings_agent hxe] at hcmp
  · intro e' he' hne hsame
    obtain ⟨x,hx⟩ := Option.ne_none_iff_exists'.mp hne
    have hve' : (ins.wire.readUuid e'.deviceUuid).isSome :=
      htaken.agent (by rw [hdata]; simp [he']) (mem_of_lastUnder hx).1
    apply hne
    rw [lastUnder, ← filter_dedupKey (hagent.trans hsame.symm) hve' hk, hpost e' he']
    rfl

theorem storedFirst_none {data : List DeviceDataEntry} (htaken : Taken ins data) {k : ReadingKey}
    (h : storedFirst ins data k = none) :
    ∀ e ∈ data, lastUnder ins k e = none := by
  intro e he
  by_contra hne
  obtain ⟨x,hx⟩ := Option.ne_none_iff_exists'.mp hne
  obtain ⟨hxe,hxk⟩ := mem_of_lastUnder hx
  have hxall : x ∈ data.flatMap (entryReadings ins) :=
    List.mem_flatMap.mpr ⟨e,he,hxe⟩
  obtain ⟨v,hvd,-,hvk⟩ := exists_standIn htaken.valid hxall
  rw [hxk] at hvk
  have hnil := List.head?_eq_none_iff.mp h
  exact List.filter_eq_nil_iff.mp hnil v hvd (by simpa using hvk)

theorem viaValues_deduped {rows : ℕ} (hrows : 0 < rows) {s s' : State}
    {allReadings : List ReadingInsert}
    (h : bulkInsertViaValues w rows s (deduped w allReadings) = some s') :
    (∀ k, s'.db.readings k = (s.db.readings k).or
      ((firstOf w (deduped w allReadings) k).map (restCells w .values))) ∧
      ∀ chunk ∈ slices rows (deduped w allReadings), Unmixed w chunk := by
  rw [bulkInsertViaValues, sort_deduped] at h
  obtain ⟨db',hdb,hs'⟩ := Option.map_eq_some_iff.mp h
  obtain ⟨ha,hr⟩ := insertChunks_readings hdb
  refine ⟨?_,(exists_insertChunks_iff s.db ha).mp ⟨db',hdb⟩⟩
  intro k
  rw [← hs', ← insertAbsent_stored]
  show db'.readings k = _
  rw [hr, flatten_slices hrows]

/-- Whatever path its rows take, of each new key a batch stores the first row,
as one of the statements reads it. -/
theorem bulkInsert_readings {cfg : BulkConfig} (hcfg : cfg.valid = true) {failsAt : Option ℕ}
    {s s' : State} {allReadings : List ReadingInsert}
    (h : bulkInsert w cfg failsAt s (deduped w allReadings) = some s') (k : ReadingKey) :
    ∃ statement : Statement, s'.db.readings k = (s.db.readings k).or
        ((firstOf w (deduped w allReadings) k).map (restCells w statement)) ∧
      (statement = .copy → ∀ r, firstOf w (deduped w allReadings) k = some r →
        CopyStores w (deduped w allReadings) k r) := by
  unfold bulkInsert at h
  split at h
  · rename_i hnil
    refine ⟨.values,?_,nofun⟩
    rw [hnil, ← Option.some.inj h]
    simp [firstOf]
  · split at h
    · rename_i hroute
      have hmany : 1 < (deduped w allReadings).length := by
        have hmax := (of_decide_eq_true hcfg).2.2
        have hlt := (route_copy hroute).2.1
        omega
      rw [copyOrValues_eq] at h
      split at h
      · obtain ⟨hreadings,hunmixed⟩ := viaValues_deduped (by decide) h
        rw [hreadings, copied_readings]
        cases hfirst : firstOf w (staged w failsAt (deduped w allReadings)) k with
        | none => exact ⟨.values,by simp,nofun⟩
        | some r =>
          have hwhole := firstOf_initial (staged_initial failsAt) hfirst
          refine ⟨.copy,?_,fun _ r' hr' => ?_⟩
          · rw [hwhole]
            cases s.db.readings k <;> rfl
          · have hsame : r' = r := Option.some.inj (hr'.symm.trans hwhole)
            subst hsame
            exact ⟨hr',hmany,(staged_initial_none failsAt).subset (firstOf_mem hfirst),
              Or.inr hunmixed⟩
      · rename_i hall
        refine ⟨.copy,?_,fun _ r hr => ⟨hr,hmany,(staged_initial_none failsAt).subset ?_,Or.inl ?_⟩⟩
        · rw [← Option.some.inj h, copied_readings]
        · rw [staged, List.take_of_length_le (not_lt.mp hall)]
          exact firstOf_mem hr
        · exact accepts_of_staged hall
    · rename_i rows hroute
      have hrows := route_values (of_decide_eq_true hcfg).1 hroute
      exact ⟨.values,(viaValues_deduped hrows h).1 k,nofun⟩

theorem insertBatch_readings {cfg : BulkConfig} (hcfg : cfg.valid = true) {failsAt : Option ℕ}
    {s s' : State} {data : List DeviceDataEntry}
    (h : insertBatch ins cfg failsAt s data = some s')
    (k : ReadingKey) :
    ∃ statement : Statement, s'.db.readings k = (s.db.readings k).or
        ((storedFirst ins data k).map (restCells ins.wire statement)) ∧
      (statement = .copy → ∀ r, storedFirst ins data k = some r →
        CopyStores ins.wire (batchRows ins data) k r) := by
  unfold insertBatch at h
  simp only at h
  split at h
  · rename_i hnil
    have hnone : storedFirst ins data k = none := by
      rw [storedFirst, batchRows, hnil]
      rfl
    refine ⟨.values,?_,nofun⟩
    rw [hnone, ← Option.some.inj h]
    simp
  · exact bulkInsert_readings hcfg h k

theorem storedFirst_entry {pre data : List DeviceDataEntry} (post : List DeviceDataEntry)
    {k : ReadingKey} {r : ReadingInsert} (htaken : Taken ins data)
    (hpre : ∀ e ∈ pre, lastUnder ins k e = none)
    (h : storedFirst ins data k = some r) :
    ∃ pre' e post', pre++(data++post) = pre'++e::post' ∧ lastUnder ins k e = some r ∧
      ∀ e' ∈ pre', lastUnder ins k e' ≠ none →
        ¬ins.wire.localeCompare e'.deviceUuid e.deviceUuid < 0 := by
  obtain ⟨before,e,after,hdata,hlast,hle,-⟩ := storedFirst_spec htaken h
  refine ⟨pre++before,e,after++post,by rw [hdata]; simp,hlast,?_⟩
  intro e' he' hne
  rcases List.mem_append.mp he' with he' | he'
  · exact absurd (hpre e' he') hne
  · have hcmp := hle e' (by rw [hdata]; simp [he']) hne
    have hswap := ins.wire.compare_swap e'.deviceUuid e.deviceUuid
    omega

/-- With repeats alike a batch stores what the first entry under the key has,
as INSERT stores it. -/
theorem insertBatch_alike {cfg : BulkConfig} (hcfg : cfg.valid = true) {failsAt : Option ℕ}
    {entries pre data post : List DeviceDataEntry} {table : ReadingKey → Option Cells}
    (htaken : Taken ins entries)
    (halike : RepeatsAlike ins entries table)
    (hentries : entries = pre++(data++post)) {s s' : State}
    (h : insertBatch ins cfg failsAt s data = some s') {k : ReadingKey}
    (hk : table k = none) (hpre : ∀ e ∈ pre, lastUnder ins k e = none) :
    s'.db.readings k = (s.db.readings k).or (((pre++data).findSome? (lastUnder ins k)).map
        (restCells ins.wire .values)) := by
  have hdata : Taken ins data :=
    htaken.subset (by rw [hentries]; exact fun e he => by simp [he])
  have hnone := List.findSome?_eq_none_iff.mpr hpre
  obtain ⟨statement,hreadings,hcopy⟩ := insertBatch_readings hcfg h k
  rw [hreadings, List.findSome?_append, hnone, Option.none_or]
  congr 1
  cases hfirst : storedFirst ins data k with
  | none =>
    rw [List.findSome?_eq_none_iff.mpr (storedFirst_none hdata hfirst)]
    rfl
  | some r =>
    obtain ⟨pre',e,post',hsplit,hlast,hbefore⟩ := storedFirst_entry post hdata hpre hfirst
    have hfound : ∃ first, data.findSome? (lastUnder ins k) = some first := by
      obtain ⟨before,e,after,hd,hl,-⟩ := storedFirst_spec hdata hfirst
      rw [← Option.isSome_iff_exists, List.findSome?_isSome_iff]
      exact ⟨e,by rw [hd]; simp,by rw [hl]; rfl⟩
    obtain ⟨first,hf⟩ := hfound
    have hvalues := halike.alike k hk pre' e post' r first (hentries.trans hsplit) hlast hbefore
      (by rw [hentries, List.findSome?_append, hnone, List.findSome?_append, hf]; rfl)
    rw [hf, Option.map_some, Option.map_some, ← hvalues]
    cases statement with
    | values => rfl
    | copy =>
      have hstores := hcopy rfl r hfirst
      rw [(restCells_alike_iff ins.wire (accepts_staged hstores.committed)
        (hdata.accepts r (firstOf_mem hfirst))).mpr (halike.staged k hk pre data post r hentries
          hpre hstores)]

theorem insertBatches_alike {cfg : BulkConfig} (hcfg : cfg.valid = true)
    {entries : List DeviceDataEntry} (pre : List DeviceDataEntry)
    {table : ReadingKey → Option Cells}
    (htaken : Taken ins entries)
    (halike : RepeatsAlike ins entries table)
    {cuts : List (List DeviceDataEntry × Option ℕ)} (hentries : entries = pre++cutEntries cuts)
    {s s' : State} {k : ReadingKey}
    (hs : s.db.readings k = (table k).or
      ((pre.findSome? (lastUnder ins k)).map (restCells ins.wire .values)))
    (h : insertBatches ins cfg s cuts = some s') :
    s'.db.readings k = (table k).or ((entries.findSome? (lastUnder ins k)).map
        (restCells ins.wire .values)) := by
  induction cuts generalizing pre s with
  | nil =>
    cases h
    rw [hs, hentries]
    simp [cutEntries]
  | cons cut cuts ih =>
    obtain ⟨data,failsAt⟩ := cut
    obtain ⟨s₁,h₁,h₂⟩ := Option.bind_eq_some_iff.mp h
    have hsplit : entries = pre++(data++cutEntries cuts) := by
      rw [hentries]
      simp [cutEntries]
    refine ih (pre++data) (by rw [hsplit, List.append_assoc]) ?_ h₂
    have hkept : s.db.readings k ≠ none → s₁.db.readings k = s.db.readings k := by
      intro hne
      obtain ⟨statement,hreadings,-⟩ := insertBatch_readings hcfg h₁ k
      obtain ⟨cells,hcells⟩ := Option.ne_none_iff_exists'.mp hne
      rw [hreadings, hcells, Option.some_or]
    cases hk : table k with
    | some cells =>
      rw [hk, Option.some_or] at hs
      rw [hkept (by rw [hs]; simp), hs, Option.some_or]
    | none =>
      rw [hk, Option.none_or] at hs
      rw [Option.none_or]
      cases hfound : pre.findSome? (lastUnder ins k) with
      | some first =>
        rw [hfound, Option.map_some] at hs
        rw [hkept (by rw [hs]; simp), hs, List.findSome?_append, hfound]
        rfl
      | none =>
        rw [hfound, Option.map_none] at hs
        rw [insertBatch_alike hcfg htaken halike hsplit h₁ hk
          (List.findSome?_eq_none_iff.mp hfound), hs, Option.none_or]

/-- A batch that ends in an entry which no earlier one sorts before stores the
last reading of that entry. -/
theorem storedFirst_last {pre : List DeviceDataEntry} {e : DeviceDataEntry} {k : ReadingKey}
    {r : ReadingInsert} (htaken : Taken ins (pre++[e]))
    (he : lastUnder ins k e = some r)
    (hpre : ∀ e' ∈ pre, lastUnder ins k e' ≠ none →
      ¬ins.wire.localeCompare e'.deviceUuid e.deviceUuid < 0) :
    storedFirst ins (pre++[e]) k = some r := by
  have hene : lastUnder ins k e ≠ none := by
    rw [he]
    simp
  cases hs : storedFirst ins (pre++[e]) k with
  | none =>
    have hnone := storedFirst_none htaken hs e (by simp)
    exact absurd hnone hene
  | some r' =>
    obtain ⟨pre',e',post',hsplit,hlast,hle,hpost⟩ := storedFirst_spec htaken hs
    rcases List.eq_nil_or_concat post' with rfl | ⟨post'',x,rfl⟩
    · have hsame : e = e' := (List.append_inj' hsplit rfl).2 |> fun h => by simpa using h
      rw [hsame] at he
      rw [← hlast, he]
    · have hsplit' : pre++[e] = (pre'++e'::post'')++[x] := by
        rw [hsplit]
        simp
      have hparts := List.append_inj' hsplit' rfl
      have hx : e = x := by simpa using hparts.2
      subst hx
      have hne := hpost e (by simp) hene
      have hcmp := hle e (by simp) hene
      have hmem : e' ∈ pre := by
        rw [hparts.1]
        simp
      have hnot := hpre e' hmem (by rw [hlast]; simp)
      have hzero : ins.wire.localeCompare e'.deviceUuid e.deviceUuid = 0 := by omega
      obtain ⟨u,hu⟩ := Option.isSome_iff_exists.mp
        (htaken.agent (List.mem_append_left _ hmem) (mem_of_lastUnder hlast).1)
      obtain ⟨v,hv⟩ := Option.isSome_iff_exists.mp
        (htaken.agent (List.mem_append_right _ (List.mem_singleton.mpr rfl))
          (mem_of_lastUnder he).1)
      exact absurd (ins.wire.compare_uuid _ _ u v hu hv hzero).symm hne

theorem storedFirst_single {e : DeviceDataEntry} (htaken : Taken ins [e])
    (k : ReadingKey) : storedFirst ins [e] k = lastUnder ins k e := by
  cases he : lastUnder ins k e with
  | some r =>
    have hnone : ∀ e' ∈ ([] : List DeviceDataEntry), lastUnder ins k e' ≠ none →
        ¬ins.wire.localeCompare e'.deviceUuid e.deviceUuid < 0 := by simp
    exact storedFirst_last htaken he hnone
  | none =>
    cases hs : storedFirst ins [e] k with
    | none => rfl
    | some r =>
      obtain ⟨pre,e',post,hdata,hlast,-⟩ := storedFirst_spec htaken hs
      have hsame : e' = e := List.mem_singleton.mp (by rw [hdata]; simp)
      rw [hsame, he] at hlast
      cases hlast

/-- A batch that INSERT stores, for each key with what the batch sends first. -/
def StoresByValues (ins : ReadingInserter) (cfg : BulkConfig) (failsAt : Option ℕ)
    (data : List DeviceDataEntry) : Prop :=
  ∀ s, ∃ s', insertBatch ins cfg failsAt s data = some s' ∧
    ∀ k, s'.db.readings k = (s.db.readings k).or
      ((storedFirst ins data k).map (restCells ins.wire .values))

theorem storesByValues_of {cfg : BulkConfig} {failsAt : Option ℕ} {data : List DeviceDataEntry}
    {n : ℕ} (hn : 0 < n) (htaken : Taken ins data)
    (hvia : batchRows ins data ≠ [] → ∀ s, bulkInsert ins.wire cfg failsAt s (batchRows ins data) =
        bulkInsertViaValues ins.wire n s (batchRows ins data))
    (hunmixed : ∀ chunk ∈ slices n (batchRows ins data), Unmixed ins.wire chunk) :
    StoresByValues ins cfg failsAt data := by
  intro s
  have hbatch : ∀ s', bulkInsert ins.wire cfg failsAt s (batchRows ins data) =
      some s' → insertBatch ins cfg failsAt s data = some s' := by
    intro s' hs'
    unfold insertBatch
    simp only
    split
    · rename_i hnil
      rwa [batchRows, hnil] at hs'
    · exact hs'
  by_cases hne : batchRows ins data = []
  · refine ⟨s,hbatch s ?_,fun k => ?_⟩
    · rw [hne]
      rfl
    · rw [storedFirst, hne]
      simp [firstOf]
  · obtain ⟨db',hdb⟩ := (exists_insertChunks_iff s.db
      (by rw [flatten_slices hn]; exact htaken.accepts)).mpr hunmixed
    have hrun : bulkInsertViaValues ins.wire n s (batchRows ins data) =
        some { s with db := db' } := by
      rw [batchRows, bulkInsertViaValues, sort_deduped]
      exact congrArg (Option.map (fun db : Db => { s with db })) hdb
    exact ⟨_,hbatch _ ((hvia hne s).trans hrun),(viaValues_deduped hn hrun).1⟩

def realtimeConfig : BulkConfig := ⟨.realtime,1,1,1⟩

theorem storesByValues_realtime {data : List DeviceDataEntry} (htaken : Taken ins data) :
    StoresByValues ins realtimeConfig none data := by
  refine storesByValues_of (n := 1) (by decide) htaken (fun hne s => ?_) ?_
  · unfold bulkInsert
    rw [if_neg hne]
    rfl
  · intro chunk hchunk
    rw [slices_one] at hchunk
    obtain ⟨r,-,rfl⟩ := List.mem_map.mp hchunk
    exact unmixed_of_agent (fun x hx => by rw [List.mem_singleton.mp hx])

def copyConfig : BulkConfig := ⟨.copy,1,1,1⟩

theorem storesByValues_entry {e : DeviceDataEntry} (htaken : Taken ins [e]) :
    StoresByValues ins copyConfig (some 0) [e] := by
  have hagent : ∀ n, ∀ chunk ∈ slices n (batchRows ins [e]), 0 < n → Unmixed ins.wire chunk := by
    intro n chunk hchunk hn
    apply unmixed_of_agent
    intro r hr
    have hflat := List.mem_flatten.mpr ⟨chunk,hchunk,hr⟩
    rw [flatten_slices hn] at hflat
    have hsub := deduped_subset hflat
    rw [List.flatMap_singleton] at hsub
    exact entryReadings_agent hsub
  cases hroute : copyConfig.route (batchRows ins [e]).length with
  | values n =>
    have hn := route_values (show 0 < copyConfig.realtimeRowsPerInsert by decide) hroute
    refine storesByValues_of hn htaken (fun hne s => ?_) (fun chunk hc => hagent n chunk hc hn)
    unfold bulkInsert
    rw [if_neg hne, hroute]
  | copy =>
    refine storesByValues_of (n := MAX_ROWS_PER_BULK_INSERT) (by decide) htaken (fun hne s => ?_)
      (fun chunk hc => hagent _ chunk hc (by decide))
    have hzero : committed ins.wire (some 0) (batchRows ins [e]) = 0 :=
      Nat.min_zero _
    unfold bulkInsert
    rw [if_neg hne, hroute]
    show copyOrValues ins.wire (some 0) s (batchRows ins [e]) = _
    rw [copyOrValues_eq, staged, hzero, Nat.mul_zero, if_pos (List.length_pos_of_ne_nil hne)]
    rfl

theorem exists_run {cfg : BulkConfig} {cuts : List (List DeviceDataEntry × Option ℕ)}
    (h : ∀ cut ∈ cuts, StoresByValues ins cfg cut.2 cut.1) (s : State) :
    ∃ s', insertBatches ins cfg s cuts = some s' ∧ ∀ k, s'.db.readings k = (s.db.readings k).or
        ((cuts.findSome? (fun cut => storedFirst ins cut.1 k)).map
          (restCells ins.wire .values)) := by
  induction cuts generalizing s with
  | nil => exact ⟨s,rfl,by simp⟩
  | cons cut cuts ih =>
    obtain ⟨s₁,h₁,hr₁⟩ := h cut List.mem_cons_self s
    obtain ⟨s₂,h₂,hr₂⟩ := ih (fun c hc => h c (List.mem_cons_of_mem _ hc)) s₁
    refine ⟨s₂,?_,fun k => ?_⟩
    · rw [insertBatches, h₁]
      exact h₂
    · rw [hr₂, hr₁, List.findSome?_cons]
      cases storedFirst ins cut.1 k with
      | none => simp
      | some r => simp

def entryByEntry (entries : List DeviceDataEntry) : List (List DeviceDataEntry × Option ℕ) :=
  entries.map (fun e => ([e],some 0))

theorem cutEntries_entryByEntry (entries : List DeviceDataEntry) :
    cutEntries (entryByEntry entries) = entries := by
  induction entries with
  | nil => rfl
  | cons e entries ih => exact congrArg (List.cons e) ih

theorem exists_entryByEntry {entries : List DeviceDataEntry}
    (htaken : Taken ins entries) (s : State) :
    ∃ s', insertBatches ins copyConfig s (entryByEntry entries) = some s' ∧
      ∀ k, s'.db.readings k = (s.db.readings k).or ((entries.findSome? (lastUnder ins k)).map
          (restCells ins.wire .values)) := by
  have hone : ∀ e ∈ entries, Taken ins [e] :=
    fun e he => htaken.subset (by simpa using he)
  have hstores : ∀ cut ∈ entryByEntry entries, StoresByValues ins copyConfig cut.2 cut.1 := by
    intro cut hcut
    obtain ⟨e,he,rfl⟩ := List.mem_map.mp hcut
    exact storesByValues_entry (hone e he)
  obtain ⟨s',hs',hr⟩ := exists_run hstores s
  refine ⟨s',hs',fun k => ?_⟩
  rw [hr, entryByEntry, List.findSome?_map]
  congr 2
  clear hs' hr hstores htaken
  induction entries with
  | nil => rfl
  | cons e entries ih =>
    rw [List.findSome?_cons, List.findSome?_cons,
      ih (fun x hx => hone x (List.mem_cons_of_mem _ hx)), Function.comp_apply,
      storedFirst_single (hone e List.mem_cons_self)]

theorem insertBatches_append (cfg : BulkConfig) (s : State)
    (cuts cuts' : List (List DeviceDataEntry × Option ℕ)) :
    insertBatches ins cfg s (cuts++cuts') = (insertBatches ins cfg s cuts).bind
        (fun s' => insertBatches ins cfg s' cuts') := by
  induction cuts generalizing s with
  | nil => rfl
  | cons cut cuts ih =>
    rw [List.cons_append, insertBatches, insertBatches, Option.bind_assoc]
    congr 1
    funext s'
    exact ih s'

theorem exists_copied {data : List DeviceDataEntry}
    (htaken : Taken ins data) {k : ReadingKey} {r : ReadingInsert}
    (hstores : CopyStores ins.wire (batchRows ins data) k r) (s : State)
    (hk : s.db.readings k = none) :
    ∃ s', insertBatch ins copyConfig none s data = some s' ∧
      s'.db.readings k = some (restCells ins.wire .copy r) := by
  have hne : batchRows ins data ≠ [] :=
    List.ne_nil_of_mem (firstOf_mem hstores.first)
  have hall : data.flatMap (entryReadings ins) ≠ [] := by
    intro hnil
    rw [batchRows, hnil] at hne
    exact hne rfl
  have hroute : copyConfig.route (batchRows ins data).length = .copy := by
    have hmany := hstores.many
    unfold BulkConfig.route
    rw [if_neg, if_pos]
    · exact ⟨rfl,le_of_lt hmany⟩
    · rintro (h | h)
      · cases h
      · exact absurd h.2 (not_le.mpr hmany)
  have hbatch : insertBatch ins copyConfig none s data =
      copyOrValues ins.wire none s (batchRows ins data) := by
    unfold insertBatch
    simp only
    rw [if_neg hall]
    show bulkInsert ins.wire copyConfig none s (batchRows ins data) = _
    unfold bulkInsert
    rw [if_neg hne, hroute]
  rw [hbatch, copyOrValues_eq]
  split
  · rename_i hpart
    have hunmixed : ∀ chunk ∈ slices MAX_ROWS_PER_BULK_INSERT
        (batchRows ins data), Unmixed ins.wire chunk :=
      hstores.resumed.resolve_left (fun ha => staged_none_of_accepts ha hpart)
    obtain ⟨db',hdb⟩ := (exists_insertChunks_iff
      (copied ins.wire s (staged ins.wire none (batchRows ins data))).db
      (by rw [flatten_slices (by decide)]; exact htaken.accepts)).mpr hunmixed
    have hrun : bulkInsertViaValues ins.wire MAX_ROWS_PER_BULK_INSERT
        (copied ins.wire s (staged ins.wire none (batchRows ins data)))
        (batchRows ins data) =
        some ⟨db',(copied ins.wire s
          (staged ins.wire none (batchRows ins data))).latestBuffer⟩ := by
      rw [bulkInsertViaValues, batchRows, sort_deduped]
      exact congrArg (Option.map _) hdb
    refine ⟨_,hrun,?_⟩
    rw [(viaValues_deduped (by decide) hrun).1, copied_readings, hk,
      firstOf_of_mem (staged_initial none) hstores.first hstores.committed]
    rfl
  · refine ⟨_,rfl,?_⟩
    rw [copied_readings, hk, hstores.first]
    rfl

/-- A cut after an entry, with INSERT for all rows. -/
theorem exists_cut_after {entries : List DeviceDataEntry} {s : State} (htaken : Taken ins entries)
    {k : ReadingKey} (hk : s.db.readings k = none) {pre post : List DeviceDataEntry}
    {e : DeviceDataEntry} {r : ReadingInsert} (hentries : entries = pre++e::post)
    (hlast : lastUnder ins k e = some r)
    (hpre : ∀ e' ∈ pre, lastUnder ins k e' ≠ none →
      ¬ins.wire.localeCompare e'.deviceUuid e.deviceUuid < 0) :
    ∃ cuts s', cutEntries cuts = entries ∧ insertBatches ins realtimeConfig s cuts = some s' ∧
      s'.db.readings k = some (restCells ins.wire .values r) := by
  have hpart : ∀ data ∈ [pre++[e],post], Taken ins data := by
    intro data hdata
    refine htaken.subset (fun x hx => ?_)
    simp only [List.mem_cons, List.not_mem_nil, or_false] at hdata
    rw [hentries]
    rcases hdata with rfl | rfl
    · rcases List.mem_append.mp hx with hx | hx
      · exact List.mem_append_left _ hx
      · rw [List.mem_singleton.mp hx]
        simp
    · simp [hx]
  have hstores : ∀ cut ∈ [(pre++[e],(none : Option ℕ)),(post,none)],
      StoresByValues ins realtimeConfig cut.2 cut.1 := by
    intro cut hcut
    simp only [List.mem_cons, List.not_mem_nil, or_false] at hcut
    rcases hcut with rfl | rfl
    · exact storesByValues_realtime (hpart _ (by simp))
    · exact storesByValues_realtime (hpart _ (by simp))
  obtain ⟨s',hs',hr⟩ := exists_run hstores s
  refine ⟨_,s',?_,hs',?_⟩
  · rw [hentries]
    simp [cutEntries]
  · rw [hr, hk, Option.none_or, List.findSome?_cons,
      storedFirst_last (hpart _ (by simp)) hlast hpre]
    rfl

theorem alike_of_free {entries : List DeviceDataEntry} {s : State} (htaken : Taken ins entries)
    (h : BoundaryFree ins entries s) :
    RepeatsAlike ins entries s.db.readings := by
  have hvalues : ∀ k, s.db.readings k = none → ∀ pre e post r first, entries = pre++e::post →
      lastUnder ins k e = some r →
      (∀ e' ∈ pre, lastUnder ins k e' ≠ none →
        ¬ins.wire.localeCompare e'.deviceUuid e.deviceUuid < 0) →
      entries.findSome? (lastUnder ins k) = some first →
      restCells ins.wire .values r = restCells ins.wire .values first := by
    intro k hk pre e post r first hentries hlast hpre hfirst
    obtain ⟨pre₁,e₁,post₁,hentries₁,hlast₁,hpre₁⟩ := List.findSome?_eq_some_iff.mp hfirst
    obtain ⟨cuts,a,hcuts,ha,hak⟩ := exists_cut_after htaken hk hentries hlast hpre
    obtain ⟨cuts₁,b,hcuts₁,hb,hbk⟩ := exists_cut_after htaken hk hentries₁ hlast₁
      (fun e' he' hne => absurd (hpre₁ e' he') hne)
    have hsame := congrFun (h realtimeConfig (by decide) cuts cuts₁ a b hcuts hcuts₁ ha hb) k
    rw [hak, hbk] at hsame
    exact Option.some.inj hsame
  refine ⟨hvalues,?_⟩
  intro k hk pre data post r hentries hpre hstores
  have hsub : ∀ part : List DeviceDataEntry, part ⊆ pre++(data++post) → Taken ins part :=
    fun part hpart => htaken.subset (by rwa [hentries])
  have hdata := hsub data (by simp)
  -- the batch by COPY, the entries around it one by one by INSERT
  obtain ⟨s₁,h₁,hr₁⟩ := exists_entryByEntry (hsub pre (by simp)) s
  have hk₁ : s₁.db.readings k = none := by
    rw [hr₁, hk, List.findSome?_eq_none_iff.mpr hpre]
    rfl
  obtain ⟨s₂,h₂,hk₂⟩ := exists_copied hdata hstores s₁ hk₁
  obtain ⟨s₃,h₃,hr₃⟩ := exists_entryByEntry (hsub post (by simp)) s₂
  have hrun : insertBatches ins copyConfig s
      (entryByEntry pre++(data,none)::entryByEntry post) = some s₃ := by
    rw [insertBatches_append, h₁, Option.bind_some, insertBatches, h₂, Option.bind_some, h₃]
  have hcuts : cutEntries (entryByEntry pre++(data,none)::entryByEntry post) = entries := by
    have hparts := cutEntries_entryByEntry pre
    have hparts' := cutEntries_entryByEntry post
    rw [hentries]
    unfold cutEntries at hparts hparts' ⊢
    rw [List.map_append, List.flatten_append, hparts, List.map_cons, List.flatten_cons, hparts']
  obtain ⟨s₄,h₄,hr₄⟩ := exists_entryByEntry htaken s
  have hsame := congrFun (h copyConfig (by decide) _ _ s₃ s₄ hcuts
    (cutEntries_entryByEntry entries) hrun h₄) k
  obtain ⟨pre',e,post',hsplit,hlast,hbefore⟩ := storedFirst_entry post hdata hpre hstores.first
  cases hfirst : entries.findSome? (lastUnder ins k) with
  | none =>
    have hnone := List.findSome?_eq_none_iff.mp hfirst e (by rw [hentries, hsplit]; simp)
    rw [hlast] at hnone
    cases hnone
  | some first =>
    rw [hr₃, hk₂, hr₄, hk, hfirst] at hsame
    have hcells : restCells ins.wire .copy r = restCells ins.wire .values first :=
      Option.some.inj hsame
    rw [← hvalues k hk pre' e post' r first (hentries.trans hsplit) hlast hbefore hfirst] at hcells
    exact (restCells_alike_iff ins.wire (accepts_staged hstores.committed)
      (hdata.accepts r (firstOf_mem hstores.first))).mp hcells

/-- However the entries are cut into batches the stored readings are the
same, exactly when repeats of a key are alike. -/
theorem boundary_free_iff (ins : ReadingInserter) (entries : List DeviceDataEntry)
    (s : State) (htaken : Taken ins entries) :
    BoundaryFree ins entries s ↔ RepeatsAlike ins entries s.db.readings := by
  constructor
  · exact alike_of_free htaken
  · intro halike cfg hcfg cuts cuts' s₁ s₂ hcuts hcuts' h₁ h₂
    funext k
    rw [insertBatches_alike hcfg [] htaken halike hcuts.symm (by simp) h₁,
      insertBatches_alike hcfg [] htaken halike hcuts'.symm (by simp) h₂]

def sent (value : ℚ) : DeviceDataEntry where
  deviceUuid := "00000000-0000-4000-8000-000000000001"
  deviceName := "temperature"
  timestamp := .text "1970-01-01T00:00:00.000Z"
  data := .bare (some value)
  metadata := none

def plainInserter : ReadingInserter := ⟨plainWire,fun _ => 0,fun _ => "mqtt",0⟩

def noRows : State := ⟨⟨fun _ => none,fun _ => none⟩,OrderedMap.empty⟩

theorem sent_taken (value value' : ℚ) (h : value ∈ [20,30]) (h' : value' ∈ [20,30]) :
    Taken plainInserter [sent value,sent value'] := by
  have hone : ∀ v ∈ ([20,30] : List ℚ), ∀ r ∈ batchRows plainInserter
      [sent v], accepts plainWire .values r = true := by decide +kernel
  intro e he
  simp only [List.mem_cons, List.not_mem_nil, or_false] at he
  rcases he with rfl | rfl
  · exact hone value h
  · exact hone value' h'

/-- Sent again unchanged, it may fall into the same batch or not. -/
theorem boundary_free_resent : BoundaryFree plainInserter [sent 20,sent 20] noRows := by
  refine (boundary_free_iff plainInserter [sent 20,sent 20] noRows
    (sent_taken 20 20 (by simp) (by simp))).mpr ⟨?_,?_⟩
  · intro k hk pre e post r first hentries hlast hpre hfirst
    have hall : ∀ x ∈ [sent 20,sent 20], x = sent 20 := by simp
    have he := hall e (by rw [hentries]; simp)
    obtain ⟨x,hx,hfx⟩ := List.exists_of_findSome?_eq_some hfirst
    rw [hall x hx, ← he, hlast] at hfx
    rw [Option.some.inj hfx]
  · intro k hk pre data post r hentries hpre hstores
    have hone : ∀ x ∈ batchRows plainInserter [sent 20],
        x.anomaly_score = none ∧ x.anomaly_threshold = none := by decide +kernel
    obtain ⟨e,he,hre⟩ := batchRows_entry (firstOf_mem hstores.first)
    have hall : ∀ x ∈ [sent 20,sent 20], x = sent 20 := by simp
    rw [hall e (by rw [hentries]; simp [he])] at hre
    rw [RealsAlike, (hone r hre).1, (hone r hre).2]
    simp

/-- With another value it matters. -/
theorem boundary_matters : ¬∀ (ins : ReadingInserter) (entries : List DeviceDataEntry) (s : State),
    Taken ins entries → BoundaryFree ins entries s := by
  intro h
  have htaken := sent_taken 20 30 (by simp) (by simp)
  have halike := alike_of_free htaken (h plainInserter [sent 20,sent 30] noRows htaken)
  have hrow := halike.alike ⟨"00000000-0000-4000-8000-000000000001","temperature",0⟩ rfl [sent 20]
    (sent 30) [] (bareReading (fun _ => 0) (sent 30) "mqtt" 0 (some 30))
    (bareReading (fun _ => 0) (sent 20) "mqtt" 0 (some 20)) rfl (by decide +kernel)
    (by decide +kernel) (by decide +kernel)
  revert hrow
  decide +kernel

end Iotistica.Readings
