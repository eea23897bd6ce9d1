import Iotistica.ReadingsWrites
import Mathlib.Data.Finset.Card

/-!
# What a bulk insert reports

COPY commits its batches one by one, INSERT its chunks, and each of them may
fail, also after the database has stored it. The number that is returned is
the one of the path that came last, so it is the number of new rows unless
COPY has left some behind before it gave way to INSERT.
-/

set_option autoImplicit false

namespace Iotistica.InsertCounts
open Iotistica.Readings Iotistica.Slices

inductive Time where
  | missing
  | date (ms : ℤ)
  | invalid
  deriving DecidableEq

/-- What the key of a row is made of. -/
structure ReadingInsert where
  agent_uuid : String
  metric_name : String
  time : Time
  deriving DecidableEq

/-- The uuids of the database and the comparison of strings of the runtime. -/
structure Texts where
  readUuid : String → Option String
  localeCompare : String → String → ℤ

section
variable (x : Texts)

def rowKey (now : ℤ) (r : ReadingInsert) : Option ReadingKey :=
  (x.readUuid r.agent_uuid).bind fun u =>
    match r.time with
    | .missing => some ⟨u,r.metric_name,now⟩
    | .date ms => some ⟨u,r.metric_name,ms⟩
    | .invalid => none

/-- `time?.getTime() ?? 0`, without a value for no number. -/
def getTime : Time → Option ℤ
  | .missing => some 0
  | .date ms => some ms
  | .invalid => none

/-- A comparison that is no number counts as zero. -/
def comparePrimary (a b : ReadingInsert) : ℤ :=
  compareKeys x.localeCompare a.agent_uuid b.agent_uuid a.metric_name b.metric_name
    (match getTime a.time, getTime b.time with
    | some s, some t => s-t
    | _, _ => 0)

def sortReadings (readings : List ReadingInsert) : List ReadingInsert :=
  readings.insertionSort (fun a b => comparePrimary x a b ≤ 0)

/-- A statement goes through, or stores nothing, or it stores its rows and the
caller gets an error: of the reply, of the commit or of what follows it. -/
inductive Fate where
  | done
  | refused
  | unheard
  deriving DecidableEq

/-- `ON CONFLICT … DO NOTHING`, with the number of rows that were inserted. -/
def insertRows : Finset ReadingKey → List ReadingKey → Finset ReadingKey × ℕ
  | table, [] => (table,0)
  | table, key::keys =>
    if key ∈ table then insertRows table keys
    else ((insertRows (insert key table) keys).1,(insertRows (insert key table) keys).2+1)

def store (table : Finset ReadingKey) (batch : List (Option ReadingKey)) (fate : Fate) :
    Finset ReadingKey × Option ℕ :=
  match batch.mapM id with
  | none => (table,none)
  | some keys =>
    match fate with
    | .done => ((insertRows table keys).1,some (insertRows table keys).2)
    | .refused => (table,none)
    | .unheard => ((insertRows table keys).1,none)

def storeAll (fate : ℕ → Fate) : ℕ → Finset ReadingKey → ℕ → List (List (Option ReadingKey)) →
    Finset ReadingKey × Option ℕ
  | _, table, insertedTotal, [] => (table,some insertedTotal)
  | i, table, insertedTotal, batch::batches =>
    match store table batch (fate i) with
    | (table',none) => (table',none)
    | (table',some rowCount) => storeAll fate (i+1) table' (insertedTotal+rowCount) batches

/-- What a path meets: the fates of its batches, and the clock at each row. -/
structure Pass where
  fate : ℕ → Fate
  now : ℕ → ℤ

def Pass.rows (p : Pass) (readings : List ReadingInsert) : List (Option ReadingKey) :=
  readings.zipIdx.map (fun e => rowKey x (p.now e.2) e.1)

def copyBatches (p : Pass) (readings : List ReadingInsert) : List (List (Option ReadingKey)) :=
  slices COPY_STAGE_ROWS_PER_BATCH (p.rows x readings)

def valuesBatches (p : Pass) (maxRowsPerInsert : ℕ) (readings : List ReadingInsert) :
    List (List (Option ReadingKey)) :=
  slices maxRowsPerInsert (p.rows x (sortReadings x readings))

def bulkInsertViaCopy (p : Pass) (table : Finset ReadingKey) (readings : List ReadingInsert) :
    Finset ReadingKey × Option ℕ :=
  storeAll p.fate 0 table 0 (copyBatches x p readings)

def bulkInsertViaValues (p : Pass) (maxRowsPerInsert : ℕ) (table : Finset ReadingKey)
    (readings : List ReadingInsert) : Finset ReadingKey × Option ℕ :=
  storeAll p.fate 0 table 0 (valuesBatches x p maxRowsPerInsert readings)

structure Config extends BulkConfig where
  positive : 0 < realtimeRowsPerInsert

def bulkInsert (cfg : Config) (copy values : Pass) (table : Finset ReadingKey)
    (readings : List ReadingInsert) : Finset ReadingKey × Option ℕ :=
  if readings = [] then (table,some 0)
  else
    match cfg.route readings.length with
    | .copy =>
      match bulkInsertViaCopy x copy table readings with
      | (table',some insertedTotal) => (table',some insertedTotal)
      | (table',none) => bulkInsertViaValues x values MAX_ROWS_PER_BULK_INSERT table' readings
    | .values maxRowsPerInsert => bulkInsertViaValues x values maxRowsPerInsert table readings

def keysOf (readings : List ReadingInsert) : Finset ReadingKey :=
  (readings.filterMap (rowKey x 0)).toFinset

/-- The number returned is the number of new rows. A call that throws has added
rows of its readings only, and if they have their times, as the callers see to,
the next call that returns adds the missing ones. -/
structure Accounted (cfg : Config) (copy values : Pass) (table : Finset ReadingKey)
    (readings : List ReadingInsert) : Prop where
  counted : ∀ n, (bulkInsert x cfg copy values table readings).2 = some n →
    n = ((bulkInsert x cfg copy values table readings).1 \ table).card
  given : (bulkInsert x cfg copy values table readings).2 = none →
    ∀ key ∈ (bulkInsert x cfg copy values table readings).1 \ table,
      ∃ r ∈ readings, ∃ now, rowKey x now r = some key
  resumed : (bulkInsert x cfg copy values table readings).2 = none →
    (∀ r ∈ readings, r.time ≠ .missing) → ∀ copy' values' n,
      (bulkInsert x cfg copy' values' (bulkInsert x cfg copy values table readings).1 readings).2 =
          some n →
        (bulkInsert x cfg copy' values' (bulkInsert x cfg copy values table readings).1 readings).1 \
            (bulkInsert x cfg copy values table readings).1 =
          keysOf x readings \ (bulkInsert x cfg copy values table readings).1

def completes (fate : ℕ → Fate) : ℕ → List (List (Option ReadingKey)) → Bool
  | _, [] => true
  | i, batch::batches =>
    (batch.mapM id).isSome && decide (fate i = .done) && completes fate (i+1) batches

def committed (fate : ℕ → Fate) : ℕ → List (List (Option ReadingKey)) → List ReadingKey
  | _, [] => []
  | i, batch::batches =>
    match batch.mapM id, fate i with
    | some keys, .done => keys++committed fate (i+1) batches
    | some keys, .unheard => keys
    | _, _ => []

def UsesCopy (cfg : Config) (readings : List ReadingInsert) : Prop :=
  cfg.mode = .copy ∧ cfg.realtimeMaxRows < readings.length ∧ cfg.copyMinRows ≤ readings.length

/-- COPY is not used or goes through, or nothing that it commits is new, or the
path after it fails as well. -/
def Balanced (cfg : Config) (copy values : Pass) (table : Finset ReadingKey)
    (readings : List ReadingInsert) : Prop :=
  UsesCopy cfg readings → completes copy.fate 0 (copyBatches x copy readings) = true ∨
    (∀ key ∈ committed copy.fate 0 (copyBatches x copy readings), key ∈ table) ∨
    completes values.fate 0 (valuesBatches x values MAX_ROWS_PER_BULK_INSERT readings) = false

end

theorem insertRows_spec (table : Finset ReadingKey) (keys : List ReadingKey) :
    insertRows table keys = (table ∪ keys.toFinset,(keys.toFinset \ table).card) := by
  induction keys generalizing table with
  | nil => simp [insertRows]
  | cons key keys ih =>
    rw [insertRows]
    by_cases hkey : key ∈ table
    · rw [if_pos hkey, ih, List.toFinset_cons]
      simp [Finset.insert_sdiff_of_mem _ hkey, hkey, Finset.union_insert]
    · have hnew : insert key keys.toFinset \ table =
          insert key (keys.toFinset \ insert key table) := by
        ext k
        by_cases hk : k = key
        · simp [hk, hkey]
        · simp [hk]
      rw [if_neg hkey, ih, List.toFinset_cons, hnew, Finset.card_insert_of_notMem (by simp)]
      simp

theorem card_new (table first second : Finset ReadingKey) :
    ((first ∪ second) \ table).card =
      (first \ table).card+(second \ (table ∪ first)).card := by
  rw [← Finset.card_union_of_disjoint]
  · congr 1
    ext k
    simp only [Finset.mem_sdiff, Finset.mem_union]
    tauto
  · rw [Finset.disjoint_left]
    intro k hk hk'
    simp only [Finset.mem_sdiff, Finset.mem_union] at hk hk'
    exact hk'.2 (Or.inr hk.1)

theorem mapM_id_some {batch : List (Option ReadingKey)} {keys : List ReadingKey}
    (h : batch.mapM id = some keys) : batch = keys.map some := by
  induction batch generalizing keys with
  | nil =>
    rw [List.mapM_nil] at h
    obtain rfl := Option.some_inj.mp h
    rfl
  | cons row batch ih =>
    rw [List.mapM_cons] at h
    obtain ⟨key,hrow,h⟩ := Option.bind_eq_some_iff.mp h
    obtain ⟨rest,hrest,h⟩ := Option.bind_eq_some_iff.mp h
    obtain rfl := Option.some_inj.mp h
    rw [List.map_cons, ih hrest]
    exact congrArg (fun o => o::rest.map some) hrow

theorem storeAll_spec (fate : ℕ → Fate) (i : ℕ) (table : Finset ReadingKey) (total : ℕ)
    (batches : List (List (Option ReadingKey))) :
    storeAll fate i table total batches =
      (table ∪ (committed fate i batches).toFinset,
        if completes fate i batches then
          some (total+((committed fate i batches).toFinset \ table).card) else none) := by
  induction batches generalizing i table total with
  | nil => simp [storeAll, completes, committed]
  | cons batch batches ih =>
    rw [storeAll, store, completes, committed]
    cases hrows : batch.mapM id with
    | none => simp
    | some keys =>
      cases hfate : fate i with
      | done =>
        simp only [insertRows_spec, ih, Option.isSome_some, decide_true, Bool.and_self, Bool.true_and,
          List.toFinset_append, Finset.union_assoc, card_new, Nat.add_assoc]
      | refused => simp
      | unheard => simp [insertRows_spec]

theorem mem_committed {fate : ℕ → Fate} {i : ℕ} {batches : List (List (Option ReadingKey))}
    {key : ReadingKey} (h : key ∈ committed fate i batches) : some key ∈ batches.flatten := by
  induction batches generalizing i with
  | nil => cases h
  | cons batch batches ih =>
    rw [List.flatten_cons, List.mem_append]
    rw [committed] at h
    split at h
    · next keys hrows _ =>
      rcases List.mem_append.mp h with h | h
      · left
        rw [mapM_id_some hrows]
        exact List.mem_map_of_mem h
      · exact Or.inr (ih h)
    · next keys hrows _ =>
      left
      rw [mapM_id_some hrows]
      exact List.mem_map_of_mem h
    · cases h

theorem committed_all {fate : ℕ → Fate} {i : ℕ} {batches : List (List (Option ReadingKey))}
    (h : completes fate i batches = true) (key : ReadingKey) :
    key ∈ committed fate i batches ↔ some key ∈ batches.flatten := by
  refine ⟨mem_committed,fun hmem => ?_⟩
  induction batches generalizing i with
  | nil => cases hmem
  | cons batch batches ih =>
    rw [completes, Bool.and_eq_true, Bool.and_eq_true, decide_eq_true_eq] at h
    obtain ⟨⟨hsome,hfate⟩,hrest⟩ := h
    obtain ⟨keys,hrows⟩ := Option.isSome_iff_exists.mp hsome
    rw [committed, hrows, hfate]
    rw [List.flatten_cons, mapM_id_some hrows, List.mem_append] at hmem
    rcases hmem with hmem | hmem
    · obtain ⟨k,hk,heq⟩ := List.mem_map.mp hmem
      obtain rfl := Option.some_inj.mp heq
      exact List.mem_append_left _ hk
    · exact List.mem_append_right _ (ih hrest hmem)

section
variable {x : Texts}

theorem mem_rows {p : Pass} {readings : List ReadingInsert} {row : Option ReadingKey}
    (h : row ∈ p.rows x readings) : ∃ r ∈ readings, ∃ now, rowKey x now r = row := by
  obtain ⟨⟨r,i⟩,hr,rfl⟩ := List.mem_map.mp h
  exact ⟨r,List.fst_mem_of_mem_zipIdx hr,p.now i,rfl⟩

theorem rowKey_now {r : ReadingInsert} (h : r.time ≠ .missing) (now : ℤ) :
    rowKey x now r = rowKey x 0 r := by
  unfold rowKey
  cases ht : r.time with
  | missing => exact absurd ht h
  | date ms => rfl
  | invalid => rfl

theorem mem_keysOf {readings : List ReadingInsert} {key : ReadingKey}
    (htimes : ∀ r ∈ readings, r.time ≠ .missing)
    (h : ∃ r ∈ readings, ∃ now, rowKey x now r = some key) : key ∈ keysOf x readings := by
  obtain ⟨r,hr,now,hkey⟩ := h
  rw [rowKey_now (htimes r hr)] at hkey
  exact List.mem_toFinset.mpr (List.mem_filterMap.mpr ⟨r,hr,hkey⟩)

theorem rows_eq (p : Pass) {readings : List ReadingInsert}
    (htimes : ∀ r ∈ readings, r.time ≠ .missing) :
    p.rows x readings = readings.map (rowKey x 0) := by
  have hnow : ∀ e ∈ readings.zipIdx, rowKey x (p.now e.2) e.1 = rowKey x 0 e.1 :=
    fun e he => rowKey_now (htimes e.1 (List.fst_mem_of_mem_zipIdx he)) _
  rw [Pass.rows, List.map_congr_left hnow]
  conv_rhs => rw [← List.zipIdx_map_fst 0 readings, List.map_map]
  rfl

theorem mem_rows_iff {p : Pass} {readings : List ReadingInsert}
    (htimes : ∀ r ∈ readings, r.time ≠ .missing) (key : ReadingKey) :
    some key ∈ p.rows x readings ↔ key ∈ keysOf x readings := by
  rw [rows_eq p htimes, keysOf, List.mem_toFinset, List.mem_filterMap, List.mem_map]

theorem mem_sortReadings (readings : List ReadingInsert) (r : ReadingInsert) :
    r ∈ sortReadings x readings ↔ r ∈ readings := (List.perm_insertionSort _ _).mem_iff

theorem keysOf_sorted (readings : List ReadingInsert) :
    keysOf x (sortReadings x readings) = keysOf x readings := by
  ext key
  simp only [keysOf, List.mem_toFinset, List.mem_filterMap, mem_sortReadings]

theorem flatten_copyBatches (p : Pass) (readings : List ReadingInsert) :
    (copyBatches x p readings).flatten = p.rows x readings := flatten_slices (by decide) _

theorem flatten_valuesBatches (p : Pass) {n : ℕ} (hn : 0 < n) (readings : List ReadingInsert) :
    (valuesBatches x p n readings).flatten = p.rows x (sortReadings x readings) :=
  flatten_slices hn _

theorem viaCopy_eq (p : Pass) (table : Finset ReadingKey) (readings : List ReadingInsert) :
    bulkInsertViaCopy x p table readings =
      (table ∪ (committed p.fate 0 (copyBatches x p readings)).toFinset,
        if completes p.fate 0 (copyBatches x p readings) then
          some ((committed p.fate 0 (copyBatches x p readings)).toFinset \ table).card
        else none) := by
  rw [bulkInsertViaCopy, storeAll_spec]
  simp

theorem viaValues_eq (p : Pass) (n : ℕ) (table : Finset ReadingKey)
    (readings : List ReadingInsert) :
    bulkInsertViaValues x p n table readings =
      (table ∪ (committed p.fate 0 (valuesBatches x p n readings)).toFinset,
        if completes p.fate 0 (valuesBatches x p n readings) then
          some ((committed p.fate 0 (valuesBatches x p n readings)).toFinset \ table).card
        else none) := by
  rw [bulkInsertViaValues, storeAll_spec]
  simp

theorem usesCopy_iff (cfg : Config) (readings : List ReadingInsert) :
    UsesCopy cfg readings ↔ cfg.route readings.length = .copy := by
  constructor
  · rintro ⟨hmode,hmax,hmin⟩
    unfold BulkConfig.route
    rw [if_neg, if_pos ⟨hmode,hmin⟩]
    rintro (h | h)
    · rw [hmode] at h
      cases h
    · exact absurd h.2 (not_le.mpr hmax)
  · exact route_copy

theorem bulkInsert_values {cfg : Config} {readings : List ReadingInsert} (hne : readings ≠ [])
    (h : ¬UsesCopy cfg readings) : ∃ n, 0 < n ∧ ∀ copy values table,
      bulkInsert x cfg copy values table readings =
        bulkInsertViaValues x values n table readings := by
  rw [usesCopy_iff] at h
  unfold bulkInsert
  simp only [if_neg hne]
  cases hroute : cfg.route readings.length with
  | copy => exact absurd hroute h
  | values n => exact ⟨n,route_values cfg.positive hroute,fun _ _ _ => rfl⟩

theorem bulkInsert_copy {cfg : Config} {readings : List ReadingInsert}
    (h : UsesCopy cfg readings) (copy values : Pass) (table : Finset ReadingKey) :
    bulkInsert x cfg copy values table readings =
      match bulkInsertViaCopy x copy table readings with
      | (table',some insertedTotal) => (table',some insertedTotal)
      | (table',none) => bulkInsertViaValues x values MAX_ROWS_PER_BULK_INSERT table' readings := by
  have hne : readings ≠ [] := by
    rintro rfl
    exact Nat.not_lt_zero _ h.2.1
  rw [usesCopy_iff] at h
  unfold bulkInsert
  rw [if_neg hne, h]

/-- What a call has stored comes from its readings, and if it returns and they
have their times, from all of them. -/
structure Stores (x : Texts) (readings : List ReadingInsert) (table : Finset ReadingKey)
    (out : Finset ReadingKey × Option ℕ) (keys : Finset ReadingKey) : Prop where
  table : out.1 = table ∪ keys
  given : ∀ key ∈ keys, ∃ r ∈ readings, ∃ now, rowKey x now r = some key
  all : out.2 ≠ none → (∀ r ∈ readings, r.time ≠ .missing) → keys = keysOf x readings

theorem stores_viaCopy (p : Pass) (table : Finset ReadingKey) (readings : List ReadingInsert) :
    Stores x readings table (bulkInsertViaCopy x p table readings)
      (committed p.fate 0 (copyBatches x p readings)).toFinset := by
  rw [viaCopy_eq]
  refine ⟨rfl,fun key hkey => ?_,fun hout htimes => ?_⟩
  · have hrow := mem_committed (List.mem_toFinset.mp hkey)
    rw [flatten_copyBatches] at hrow
    exact mem_rows hrow
  · have hdone : completes p.fate 0 (copyBatches x p readings) = true := by
      by_contra hnot
      exact hout (if_neg hnot)
    ext key
    rw [List.mem_toFinset, committed_all hdone, flatten_copyBatches, mem_rows_iff htimes]

theorem stores_viaValues (p : Pass) {n : ℕ} (hn : 0 < n) (table : Finset ReadingKey)
    (readings : List ReadingInsert) :
    Stores x readings table (bulkInsertViaValues x p n table readings)
      (committed p.fate 0 (valuesBatches x p n readings)).toFinset := by
  rw [viaValues_eq]
  refine ⟨rfl,fun key hkey => ?_,fun hout htimes => ?_⟩
  · have hrow := mem_committed (List.mem_toFinset.mp hkey)
    rw [flatten_valuesBatches p hn] at hrow
    obtain ⟨r,hr,hkey⟩ := mem_rows hrow
    exact ⟨r,(mem_sortReadings readings r).mp hr,hkey⟩
  · have hdone : completes p.fate 0 (valuesBatches x p n readings) = true := by
      by_contra hnot
      exact hout (if_neg hnot)
    have htimes' : ∀ r ∈ sortReadings x readings, r.time ≠ .missing :=
      fun r hr => htimes r ((mem_sortReadings readings r).mp hr)
    ext key
    rw [List.mem_toFinset, committed_all hdone, flatten_valuesBatches p hn, mem_rows_iff htimes',
      keysOf_sorted]

theorem exists_stores (cfg : Config) (copy values : Pass) (table : Finset ReadingKey)
    (readings : List ReadingInsert) :
    ∃ keys, Stores x readings table (bulkInsert x cfg copy values table readings) keys := by
  by_cases hne : readings = []
  · subst hne
    exact ⟨∅,by simp [bulkInsert],by simp,fun _ _ => rfl⟩
  · by_cases huse : UsesCopy cfg readings
    · obtain ⟨first,hfirst⟩ : ∃ keys, Stores x readings table
          (bulkInsertViaCopy x copy table readings) keys := ⟨_,stores_viaCopy copy table readings⟩
      rw [bulkInsert_copy huse]
      cases hout : bulkInsertViaCopy x copy table readings with
      | mk table' returned =>
        rw [hout] at hfirst
        cases returned with
        | some n => exact ⟨first,hfirst⟩
        | none =>
          -- the other path starts over, on what COPY has left
          obtain ⟨second,hsecond⟩ : ∃ keys, Stores x readings table'
              (bulkInsertViaValues x values MAX_ROWS_PER_BULK_INSERT table' readings) keys :=
            ⟨_,stores_viaValues values (by decide) table' readings⟩
          have htable : table' = table ∪ first := hfirst.table
          refine ⟨first ∪ second,?_,fun key hkey => ?_,fun hout htimes => ?_⟩
          · rw [← Finset.union_assoc, ← htable]
            exact hsecond.table
          · rcases Finset.mem_union.mp hkey with hkey | hkey
            · exact hfirst.given key hkey
            · exact hsecond.given key hkey
          · have hall := hsecond.all hout htimes
            rw [hall, Finset.union_eq_right]
            exact fun key hkey => mem_keysOf htimes (hfirst.given key hkey)
    · obtain ⟨n,hn,heq⟩ := bulkInsert_values (x := x) hne huse
      rw [heq]
      exact ⟨_,stores_viaValues values hn table readings⟩

theorem counted_viaValues (p : Pass) (n : ℕ) (table : Finset ReadingKey)
    (readings : List ReadingInsert) :
    ∀ m, (bulkInsertViaValues x p n table readings).2 = some m →
      m = ((bulkInsertViaValues x p n table readings).1 \ table).card := by
  intro m hm
  rw [viaValues_eq] at hm ⊢
  rw [Finset.union_sdiff_left]
  dsimp only at hm
  split at hm
  · exact (Option.some_inj.mp hm).symm
  · cases hm

theorem counted_copy_iff {cfg : Config} {readings : List ReadingInsert}
    (h : UsesCopy cfg readings) (copy values : Pass) (table : Finset ReadingKey) :
    (∀ m, (bulkInsert x cfg copy values table readings).2 = some m →
      m = ((bulkInsert x cfg copy values table readings).1 \ table).card) ↔
    completes copy.fate 0 (copyBatches x copy readings) = true ∨
      (∀ key ∈ committed copy.fate 0 (copyBatches x copy readings), key ∈ table) ∨
      completes values.fate 0 (valuesBatches x values MAX_ROWS_PER_BULK_INSERT readings) = false := by
  rw [bulkInsert_copy h, viaCopy_eq]
  generalize (committed copy.fate 0 (copyBatches x copy readings)) = first
  cases hcopy : completes copy.fate 0 (copyBatches x copy readings) with
  | true =>
    refine iff_of_true (fun m hm => ?_) (Or.inl rfl)
    simp only [if_true] at hm ⊢
    rw [Finset.union_sdiff_left]
    exact (Option.some_inj.mp hm).symm
  | false =>
    simp only [Bool.false_eq_true, if_false]
    rw [viaValues_eq]
    generalize (committed values.fate 0
      (valuesBatches x values MAX_ROWS_PER_BULK_INSERT readings)) = second
    cases hvalues : completes values.fate 0
        (valuesBatches x values MAX_ROWS_PER_BULK_INSERT readings) with
    | false => exact iff_of_true nofun (Or.inr (Or.inr rfl))
    | true =>
      have hnew : ((table ∪ first.toFinset ∪ second.toFinset) \ table).card =
          (first.toFinset \ table).card+(second.toFinset \ (table ∪ first.toFinset)).card := by
        rw [Finset.union_assoc, Finset.union_sdiff_left, card_new]
      have hnone : (first.toFinset \ table).card = 0 ↔ ∀ key ∈ first, key ∈ table := by
        rw [Finset.card_eq_zero, Finset.sdiff_eq_empty_iff_subset]
        exact ⟨fun hs key hkey => hs (List.mem_toFinset.mpr hkey),
          fun hs key hkey => hs key (List.mem_toFinset.mp hkey)⟩
      simp only [if_true, Option.some_inj, forall_eq', hnew, false_or, Bool.true_eq_false, or_false]
      rw [← hnone]
      omega

/-- A call accounts for what it stores unless COPY fails after it has committed
a new row and the path after it goes through. -/
theorem accounted_iff_balanced (x : Texts) (cfg : Config) (copy values : Pass) (table : Finset ReadingKey)
    (readings : List ReadingInsert) :
    Accounted x cfg copy values table readings ↔ Balanced x cfg copy values table readings := by
  constructor
  · intro h huse
    exact (counted_copy_iff huse copy values table).mp h.counted
  · intro h
    obtain ⟨keys,hkeys⟩ := exists_stores (x := x) cfg copy values table readings
    refine ⟨?_,fun _ key hkey => ?_,fun _ htimes copy' values' n hn => ?_⟩
    · by_cases huse : UsesCopy cfg readings
      · exact (counted_copy_iff huse copy values table).mpr (h huse)
      · by_cases hne : readings = []
        · subst hne
          intro m hm
          simp [bulkInsert] at hm ⊢
          exact hm.symm
        · obtain ⟨n,-,heq⟩ := bulkInsert_values (x := x) hne huse
          rw [heq]
          exact counted_viaValues values n table readings
    · rw [hkeys.table, Finset.union_sdiff_left] at hkey
      exact hkeys.given key (Finset.mem_sdiff.mp hkey).1
    · obtain ⟨again,hagain⟩ := exists_stores (x := x) cfg copy' values'
        (bulkInsert x cfg copy values table readings).1 readings
      rw [hagain.table, Finset.union_sdiff_left,
        hagain.all (by rw [hn]; exact Option.some_ne_none n) htimes]

theorem mapM_id_isSome {batch : List (Option ReadingKey)} (h : ∀ row ∈ batch, row.isSome = true) :
    (batch.mapM id).isSome = true := by
  induction batch with
  | nil => rfl
  | cons row batch ih =>
    obtain ⟨key,rfl⟩ := Option.isSome_iff_exists.mp (h row List.mem_cons_self)
    obtain ⟨keys,hkeys⟩ := Option.isSome_iff_exists.mp
      (ih fun r hr => h r (List.mem_cons_of_mem _ hr))
    rw [List.mapM_cons, hkeys]
    rfl

theorem completes_of {fate : ℕ → Fate} (hfate : ∀ i, fate i = .done)
    {batches : List (List (Option ReadingKey))} (h : ∀ row ∈ batches.flatten, row.isSome = true)
    (i : ℕ) : completes fate i batches = true := by
  induction batches generalizing i with
  | nil => rfl
  | cons batch batches ih =>
    rw [List.flatten_cons] at h
    rw [completes, mapM_id_isSome fun row hr => h row (List.mem_append_left _ hr), hfate,
      ih fun row hr => h row (List.mem_append_right _ hr)]
    rfl

theorem mem_committed_first {fate : ℕ → Fate} {i : ℕ} (hfate : fate i = .done)
    {batch : List (Option ReadingKey)} (batches : List (List (Option ReadingKey)))
    (h : ∀ row ∈ batch, row.isSome = true) {key : ReadingKey} (hkey : some key ∈ batch) :
    key ∈ committed fate i (batch::batches) := by
  obtain ⟨keys,hkeys⟩ := Option.isSome_iff_exists.mp (mapM_id_isSome h)
  rw [committed, hkeys, hfate]
  rw [mapM_id_some hkeys] at hkey
  obtain ⟨k,hk,heq⟩ := List.mem_map.mp hkey
  obtain rfl := Option.some_inj.mp heq
  exact List.mem_append_left _ hk

end

def anyText : Texts := ⟨some,fun _ _ => 0⟩

def defaults : Config where
  mode := .copy
  realtimeRowsPerInsert := 25
  copyMinRows := 1000
  realtimeMaxRows := 50
  positive := by decide

def readingsOf (n : ℕ) : List ReadingInsert :=
  (List.range n).map (fun i : ℕ => ⟨"agent","temperature",.date (i : ℤ)⟩)

def secondRefused : Pass := ⟨fun i => if i = 1 then .refused else .done,fun _ => 0⟩

def allDone : Pass := ⟨fun _ => .done,fun _ => 0⟩

theorem length_readingsOf (n : ℕ) : (readingsOf n).length = n := by simp [readingsOf]

theorem rows_readingsOf (p : Pass) (n : ℕ) : p.rows anyText (readingsOf n) =
    (List.range n).map (fun i : ℕ => some ⟨"agent","temperature",(i : ℤ)⟩) := by
  rw [rows_eq]
  · rw [readingsOf, List.map_map]
    rfl
  · intro r hr
    obtain ⟨i,-,rfl⟩ := List.mem_map.mp hr
    exact nofun

/-- Of 5001 readings the first batch is committed and the second one fails, and
only the one that is left is counted. -/
theorem earlier_batch_uncounted :
    ¬Accounted anyText defaults secondRefused allDone ∅ (readingsOf 5001) := by
  intro h
  have huse : UsesCopy defaults (readingsOf 5001) := by
    rw [UsesCopy, length_readingsOf]
    decide
  have hrows := rows_readingsOf secondRefused 5001
  have hbatches : copyBatches anyText secondRefused (readingsOf 5001) =
      [((secondRefused.rows anyText (readingsOf 5001)).drop 0).take 5000,
        ((secondRefused.rows anyText (readingsOf 5001)).drop 5000).take 5000] := by
    have hlen : ((secondRefused.rows anyText (readingsOf 5001)).length+(5000-1))/5000 = 2 := by
      rw [hrows, List.length_map, List.length_range]
    rw [copyBatches, slices, COPY_STAGE_ROWS_PER_BATCH, hlen]
    rfl
  have hsome : ∀ row ∈ secondRefused.rows anyText (readingsOf 5001), row.isSome = true := by
    intro row hrow
    rw [hrows] at hrow
    obtain ⟨i,-,rfl⟩ := List.mem_map.mp hrow
    rfl
  rcases (counted_copy_iff huse secondRefused allDone ∅).mp h.counted with hdone | hold | hfail
  · rw [hbatches] at hdone
    simp [completes, secondRefused] at hdone
  · rw [hbatches] at hold
    refine Finset.notMem_empty _ (hold ⟨"agent","temperature",0⟩ (mem_committed_first rfl _ ?_ ?_))
    · exact fun row hrow => hsome row (List.mem_of_mem_drop (List.mem_of_mem_take hrow))
    · rw [hrows, List.drop_zero, ← List.map_take, List.take_range]
      exact List.mem_map.mpr ⟨0,by simp,rfl⟩
  · have hall : completes allDone.fate 0
        (valuesBatches anyText allDone MAX_ROWS_PER_BULK_INSERT (readingsOf 5001)) = true := by
      refine completes_of (fun _ => rfl) (fun row hrow => ?_) 0
      rw [flatten_valuesBatches allDone (by decide)] at hrow
      obtain ⟨r,hr,now,rfl⟩ := mem_rows hrow
      obtain ⟨i,-,rfl⟩ := List.mem_map.mp ((mem_sortReadings (readingsOf 5001) r).mp hr)
      rfl
    rw [hall] at hfail
    cases hfail

def keyed (r : Readings.ReadingInsert) : ReadingInsert := ⟨r.agent_uuid,r.metric_name,.date r.time⟩

def Holds (table : Finset ReadingKey) (db : Db) : Prop :=
  ∀ key, key ∈ table ↔ (db.readings key).isSome = true

variable (w : Wire)

/-- A batch that the model of the readings inserts adds the keys that it adds
here; one that it refuses meets its fate. -/
theorem store_holds (statement : Statement) (now : ℤ) {table : Finset ReadingKey} {db db' : Db}
    (h : Holds table db) {batch : List Readings.ReadingInsert}
    (hdb : insertReadings w statement db (batch.map (columns w (statement.timeText w))) = some db') :
    Holds (store table (batch.map fun r => rowKey ⟨w.readUuid,w.localeCompare⟩ now (keyed r))
      .done).1 db' := by
  have ha := accepts_of_insert w hdb
  rw [insertReadings_columns w db ha] at hdb
  have hrows : (batch.map fun r => rowKey ⟨w.readUuid,w.localeCompare⟩ now (keyed r)).mapM id =
      some (batch.map (readingKey w)) := by
    rw [List.mapM_map]
    apply mapM_some
    intro r hr
    obtain ⟨u,hu⟩ := Option.isSome_iff_exists.mp (accepts_agent w (ha r hr))
    simp [rowKey, keyed, readingKey, hu]
  unfold store
  rw [hrows, ← Option.some.inj hdb]
  intro key
  simp only [insertRows_spec, Finset.mem_union, List.mem_toFinset, h key, insertAbsent_apply,
    Option.isSome_or, Bool.or_eq_true, Option.isSome_map]
  refine or_congr Iff.rfl ?_
  rw [List.isSome_head?, List.mem_map]
  simp [storedRow]

end Iotistica.InsertCounts
