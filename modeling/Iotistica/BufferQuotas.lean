import Iotistica.BufferEvictions

/-!
# When the quotas are met

Each pass looks at a window of the oldest queued rows. A loop that finds only
critical rows there gives up, also where rows that may go are queued behind
them. The quotas are met exactly when this does not happen; in the record loop
it may happen where the limit on bytes asks for as many rows to go.
-/

set_option autoImplicit false

namespace Iotistica.BufferQuotas
open Iotistica.KeyedTable Iotistica.BufferStore Iotistica.BufferDeletion Iotistica.BufferEvictions

/-- Within both limits, or with nothing left that may be evicted. -/
def QuotasMet (s : Store) : Prop :=
  ((s.table.rows.length : ℤ) ≤ s.metadata.maxRecords ∧
    (bytesOf s.table.rows : ℤ) ≤ s.metadata.maxBytes) ∨
  ∀ r ∈ s.table.rows, ¬(queuedUnlocked r = true ∧ isCriticalRecord r = false)

def Blocked (t : Rows) (window : ℕ) : Prop :=
  (∀ r ∈ getQueuedOldest t window, isCriticalRecord r = true) ∧
    ∃ r ∈ t.rows, queuedUnlocked r = true ∧ isCriticalRecord r = false

def RecordsClear (maxRecords : ℤ) (t : Rows) : Prop :=
  ∀ t', Relation.ReflTransGen (RecordPass maxRecords) t t' → maxRecords < t'.rows.length →
    ¬Blocked t' (recordWindow maxRecords t')

/-- No pass of the byte loop that has too many bytes before it is blocked,
wherever the record loop has left off. -/
def BytesClear (m : Metadata) (t : Rows) : Prop :=
  ∀ t' x, Ends (RecordPass m.maxRecords) t t' →
    Relation.ReflTransGen (BytePass m.maxBytes) (.start t') x → m.maxBytes < x.currentBytes →
    ¬Blocked x.rows (byteWindow m.maxBytes x.currentCount x.currentBytes)

def BytesAskMore (m : Metadata) (t : Rows) : Prop :=
  ∀ n < (evictable t).length, m.maxRecords+n < t.rows.length →
    m.maxBytes < bytesOf (evicted t n).rows

/-- No loop gives up in front of rows that may go; the record loop may where
the bytes ask for as many. -/
def Clear (m : Metadata) (t : Rows) : Prop :=
  BytesClear m t ∧ (RecordsClear m.maxRecords t ∨ BytesAskMore m t)

theorem blocked_evictable {t : Rows} {window : ℕ} (h : Blocked t window) : evictable t ≠ [] := by
  obtain ⟨r,hr⟩ := h.2
  exact List.ne_nil_of_mem (mem_evictable.mpr hr)

theorem exists_evictable {t : Rows} (h : evictable t ≠ []) :
    ∃ r ∈ t.rows, queuedUnlocked r = true ∧ isCriticalRecord r = false := by
  obtain ⟨r,hr⟩ := List.exists_mem_of_ne_nil _ h
  exact ⟨r,mem_evictable.mp hr⟩

theorem quotasMet_iff (s : Store) : QuotasMet s ↔
    ((s.table.rows.length : ℤ) ≤ s.metadata.maxRecords ∧
      (bytesOf s.table.rows : ℤ) ≤ s.metadata.maxBytes) ∨ evictable s.table = [] := by
  refine or_congr Iff.rfl ⟨fun h => ?_,fun h r hr hmay => ?_⟩
  · by_contra hne
    obtain ⟨r,hr,hmay⟩ := exists_evictable hne
    exact h r hr hmay
  · have hmem := mem_evictable.mpr ⟨hr,hmay⟩
    rw [h] at hmem
    cases hmem

theorem critical_of_idle_records {maxRecords : ℤ} {t : Rows}
    (h : ∀ t', ¬RecordPass maxRecords t t') (hgt : maxRecords < t.rows.length) :
    ∀ r ∈ getQueuedOldest t (recordWindow maxRecords t), isCriticalRecord r = true := by
  obtain ⟨n,hn,hids,-,hcritical⟩ := excessIds_eq maxRecords t
  refine hcritical ?_ hgt
  by_contra hpos
  refine h _ ⟨hgt,?_,rfl⟩
  rw [hids, idsOf, Ne, List.map_eq_nil_iff, List.take_eq_nil_iff]
  rintro (hzero | hnil)
  · exact hpos hzero
  · rw [hnil] at hn
    exact hpos (Nat.le_zero.mp hn)

theorem idle_of_critical_records {maxRecords : ℤ} {t : Rows}
    (h : ∀ r ∈ getQueuedOldest t (recordWindow maxRecords t), isCriticalRecord r = true)
    (t' : Rows) : ¬RecordPass maxRecords t t' := by
  rintro ⟨-,hne,-⟩
  refine hne ?_
  have hnone : (getQueuedOldest t (recordWindow maxRecords t)).filter ordinary = [] := by
    rw [List.filter_eq_nil_iff]
    intro r hr
    simp [ordinary, h r hr]
  have hids : excessIds maxRecords t =
      pickByCount _ (getQueuedOldest t (recordWindow maxRecords t)) := rfl
  rw [hids, pickByCount_eq, hnone, List.take_nil]
  rfl

theorem critical_of_idle_bytes {maxBytes : ℤ} {t : Rows}
    (h : ∀ x, ¬BytePass maxBytes (.start t) x) (hgt : maxBytes < bytesOf t.rows) :
    ∀ r ∈ getQueuedOldest t (byteWindow maxBytes t.rows.length (bytesOf t.rows)),
      isCriticalRecord r = true := by
  obtain ⟨n,hn,hids,-,hcritical⟩ := overflowIds_eq maxBytes t
  refine hcritical ?_ hgt
  by_contra hpos
  refine h _ ⟨hgt,?_,rfl⟩
  have hpicked : (ByteState.start t).picked maxBytes = _ := hids
  rw [hpicked, Ne]
  simp only [idsOf, List.map_eq_nil_iff, List.take_eq_nil_iff]
  rintro (hzero | hnil)
  · exact hpos hzero
  · rw [hnil] at hn
    exact hpos (Nat.le_zero.mp hn)

theorem idle_of_critical_bytes {maxBytes : ℤ} {x : ByteState}
    (h : ∀ r ∈ getQueuedOldest x.rows (byteWindow maxBytes x.currentCount x.currentBytes),
      isCriticalRecord r = true) (x' : ByteState) : ¬BytePass maxBytes x x' := by
  rintro ⟨-,hne,-⟩
  refine hne ?_
  obtain ⟨k,hk,hpick,-,-⟩ := pickByBytes_eq x.currentBytes maxBytes
    (getQueuedOldest x.rows (byteWindow maxBytes x.currentCount x.currentBytes)) 0
  have hnone : (getQueuedOldest x.rows
      (byteWindow maxBytes x.currentCount x.currentBytes)).filter ordinary = [] := by
    rw [List.filter_eq_nil_iff]
    intro r hr
    simp [ordinary, h r hr]
  have hpicked : x.picked maxBytes = _ := hpick
  rw [hpicked, hnone, List.take_nil]
  rfl

theorem records_stop {s : Store} {m n : ℕ} (h : Enforced s m n) :
    ((evicted s.table m).rows.length : ℤ) ≤ s.metadata.maxRecords ∨
      evictable (evicted s.table m) = [] ∨
      Blocked (evicted s.table m) (recordWindow s.metadata.maxRecords (evicted s.table m)) := by
  by_cases hgt : s.metadata.maxRecords < (evicted s.table m).rows.length
  · by_cases he : evictable (evicted s.table m) = []
    · exact Or.inr (Or.inl he)
    · exact Or.inr (Or.inr ⟨critical_of_idle_records h.records.2 hgt,exists_evictable he⟩)
  · exact Or.inl (Int.not_lt.mp hgt)

theorem bytes_stop {s : Store} {m n : ℕ} (h : Enforced s m n) :
    (bytesOf (evicted s.table (m+n)).rows : ℤ) ≤ s.metadata.maxBytes ∨
      evictable (evicted s.table (m+n)) = [] ∨
      Blocked (evicted s.table (m+n)) (byteWindow s.metadata.maxBytes
        (evicted s.table (m+n)).rows.length (bytesOf (evicted s.table (m+n)).rows)) := by
  by_cases hgt : s.metadata.maxBytes < bytesOf (evicted s.table (m+n)).rows
  · by_cases he : evictable (evicted s.table (m+n)) = []
    · exact Or.inr (Or.inl he)
    · exact Or.inr (Or.inr ⟨critical_of_idle_bytes h.bytes.2 hgt,exists_evictable he⟩)
  · exact Or.inl (Int.not_lt.mp hgt)

/-- A blocked pass is the last one, so only the state where the record loop
stops can be blocked. -/
theorem recordsClear_iff {s : Store} {m n : ℕ} (h : Enforced s m n) :
    RecordsClear s.metadata.maxRecords s.table ↔
      ((evicted s.table m).rows.length : ℤ) ≤ s.metadata.maxRecords ∨
        evictable (evicted s.table m) = [] := by
  constructor
  · intro hclear
    rcases records_stop h with hle | he | hblocked
    · exact Or.inl hle
    · exact Or.inr he
    · by_contra hne
      exact hclear _ h.records.1 (by omega) hblocked
  · intro hstop t hreach hgt hblocked
    have hends : Ends (RecordPass s.metadata.maxRecords) s.table t :=
      ⟨hreach,idle_of_critical_records hblocked.1⟩
    obtain rfl := hends.unique (recordPass_unique _) h.records
    rcases hstop with hle | he
    · omega
    · exact blocked_evictable hblocked he

theorem bytesClear_iff {s : Store} {m n : ℕ} (h : Enforced s m n) :
    BytesClear s.metadata s.table ↔
      (bytesOf (evicted s.table (m+n)).rows : ℤ) ≤ s.metadata.maxBytes ∨
        evictable (evicted s.table (m+n)) = [] := by
  constructor
  · intro hclear
    rcases bytes_stop h with hle | he | hblocked
    · exact Or.inl hle
    · exact Or.inr he
    · by_contra hne
      have hgt : ¬(bytesOf (evicted s.table (m+n)).rows : ℤ) ≤ s.metadata.maxBytes :=
        fun hle => hne (Or.inl hle)
      exact hclear _ _ h.records h.bytes.1 (Int.not_le.mp hgt) hblocked
  · intro hstop t x hrecords hreach hgt hblocked
    obtain rfl := hrecords.unique (recordPass_unique _) h.records
    have hends : Ends (BytePass s.metadata.maxBytes) (.start (evicted s.table m)) x :=
      ⟨hreach,idle_of_critical_bytes hblocked.1⟩
    obtain rfl := hends.unique (bytePass_unique _) h.bytes
    rcases hstop with hle | he
    · exact absurd hgt (Int.not_lt.mpr hle)
    · exact blocked_evictable hblocked he

theorem bytes_antitone (t : Rows) {k m : ℕ} (h : k ≤ m) :
    bytesOf (evicted t m).rows ≤ bytesOf (evicted t k).rows := by
  have hbytes := bytes_evicted (evicted t k) (m-k)
  rw [evicted_evicted, Nat.add_sub_cancel' h] at hbytes
  omega

theorem enforceQuotas_met_iff (s : Store) :
    QuotasMet (enforceQuotas s) ↔ Clear s.metadata s.table := by
  obtain ⟨m,n,h⟩ := enforced s
  have hlen := length_evicted s.table h.few
  have hfew := h.few
  have hnone : ∀ k, evictable (evicted s.table k) = [] ↔ (evictable s.table).length ≤ k := by
    intro k
    rw [evictable_evicted, List.drop_eq_nil_iff]
  have hlenm := length_evicted s.table (Nat.le_trans (Nat.le_add_right m n) h.few)
  rw [quotasMet_iff, Clear, recordsClear_iff h, bytesClear_iff h]
  have hmeta : (enforceQuotas s).metadata.maxRecords = s.metadata.maxRecords ∧
    (enforceQuotas s).metadata.maxBytes = s.metadata.maxBytes := ⟨rfl,rfl⟩
  rw [hmeta.1, hmeta.2, h.result, hnone, hnone]
  constructor
  · intro hmet
    refine ⟨hmet.imp And.right id,?_⟩
    by_contra hnot
    obtain ⟨hstuck,hask⟩ := not_or.mp hnot
    obtain ⟨hover,hleft⟩ := not_or.mp hstuck
    refine hask fun k hk hmany => ?_
    by_contra hle
    -- the byte loop evicts nothing once few enough bytes are left
    have hkm : k < m+n := by
      rcases hmet with ⟨hcount,-⟩ | hall
      · omega
      · omega
    have hbefore : k < m := by
      by_contra hge
      exact hle (h.overflow k (by omega) hkm)
    have hzero : n = 0 := by
      by_contra hpos
      have hmore := h.overflow m (Nat.le_refl m) (by omega)
      have hmono := bytes_antitone s.table hbefore.le
      omega
    subst hzero
    rcases hmet with ⟨hcount,-⟩ | hall
    · exact hover hcount
    · exact hleft hall
  · rintro ⟨hbytes,hrecords⟩
    rcases hbytes with hbytes | hall
    · by_cases hle : (evictable s.table).length ≤ m+n
      · exact Or.inr hle
      · refine Or.inl ⟨?_,hbytes⟩
        rcases hrecords with (hcount | hall) | hask
        · omega
        · omega
        · by_contra hmany
          have hmore := hask (m+n) (by omega) (by omega)
          omega
    · exact Or.inr hall

theorem storedRow_id (s : Store) (record : NewRecord) (status : Status) (lockId : Option String)
    (lockedAt : Option ℤ) (now : ℤ) (id : ℕ) :
    (newRow s.metadata.ttlHours record status lockId lockedAt now id).id = id :=
  newRow_id _ _ _ _ _ _ _

def withRow (s : Store) (record : NewRecord) (status : Status) (lockId : Option String)
    (lockedAt : Option ℤ) (now : ℤ) : Rows :=
  s.table.insert (newRow s.metadata.ttlHours record status lockId lockedAt now)
    (storedRow_id s record status lockId lockedAt now)

theorem clear_addBuffered (s : Store) (t : Rows) :
    Clear ({ s with table := t }.addBuffered 1).metadata ({ s with table := t }.addBuffered 1).table ↔
      Clear s.metadata t := Iff.rfl

theorem insertRecord_fst (s : Store) (record : NewRecord) (status : Status)
    (lockId : Option String) (lockedAt : Option ℤ) (now : ℤ) :
    (insertRecord s record status lockId lockedAt now).1 = enforceQuotas
      ({ s with table := withRow s record status lockId lockedAt now }.addBuffered 1) := rfl

/-- An insertion leaves the table within the quotas, or without rows that may
be evicted, exactly when no blocked pass ends a loop too early. -/
theorem insertion_meets_quotas_iff (s : Store) (record : NewRecord) (lockId : String)
    (lockedAt now : ℤ) :
    (QuotasMet (enqueue s record now).1 ↔
      Clear s.metadata (withRow s record .queued none none now)) ∧
    (QuotasMet (enqueueClaimed s record lockId lockedAt now).1 ↔
      Clear s.metadata (withRow s record .sending (some lockId) (some lockedAt) now)) := by
  refine ⟨?_,?_⟩
  · rw [enqueue, insertRecord_fst, enforceQuotas_met_iff, clear_addBuffered]
  · rw [enqueueClaimed, insertRecord_fst, enforceQuotas_met_iff, clear_addBuffered]

theorem not_blocked_of_few {t : Rows} {window : ℕ} (hwindow : 100 ≤ window)
    (hfew : (queue t).countP isCriticalRecord < 100) : ¬Blocked t window := by
  rintro ⟨hcritical,hmay⟩
  obtain ⟨r,hr,hq,hc⟩ := hmay
  have hmem : r ∈ queue t := (Table.mem_selectOrdered _ _ _ r).mpr ⟨hr,hq⟩
  have hcount : ((queue t).take window).countP isCriticalRecord = ((queue t).take window).length :=
    List.countP_eq_length.mpr hcritical
  have hle : ((queue t).take window).countP isCriticalRecord ≤ (queue t).countP isCriticalRecord :=
    (List.take_sublist window (queue t)).countP_le
  rw [hcount, List.length_take] at hle
  have hshort : (queue t).length ≤ window := by omega
  rw [List.take_of_length_le hshort] at hcount
  have hall := List.countP_eq_length.mp hcount r hmem
  rw [hc] at hall
  cases hall

theorem criticals_delete (t : Rows) (ids : List ℕ) :
    (queue (deleteIdsInChunks t ids).1).countP isCriticalRecord ≤
      (queue t).countP isCriticalRecord := by
  rw [deleteIdsInChunks_fst, queue_delete]
  exact List.filter_sublist.countP_le

theorem criticals_reach {X : Type} {pass : X → X → Prop} (rows : X → Rows)
    (hpass : ∀ x y, pass x y → ∃ ids, rows y = (deleteIdsInChunks (rows x) ids).1) {x x' : X}
    (h : Relation.ReflTransGen pass x x') :
    (queue (rows x')).countP isCriticalRecord ≤ (queue (rows x)).countP isCriticalRecord := by
  induction h with
  | refl => exact Nat.le_refl _
  | tail _ hstep ih =>
    obtain ⟨ids,hids⟩ := hpass _ _ hstep
    rw [hids]
    exact (criticals_delete _ ids).trans ih

theorem criticals_records {maxRecords : ℤ} {t t' : Rows}
    (h : Relation.ReflTransGen (RecordPass maxRecords) t t') :
    (queue t').countP isCriticalRecord ≤ (queue t).countP isCriticalRecord :=
  criticals_reach id (fun _ _ hstep => ⟨_,hstep.2.2⟩) h

theorem criticals_bytes {maxBytes : ℤ} {x x' : ByteState}
    (h : Relation.ReflTransGen (BytePass maxBytes) x x') :
    (queue x'.rows).countP isCriticalRecord ≤ (queue x.rows).countP isCriticalRecord :=
  criticals_reach ByteState.rows (fun _ _ hstep => ⟨_,congrArg ByteState.rows hstep.2.2⟩) h

theorem clear_of_few {t : Rows} (m : Metadata)
    (hfew : (queue t).countP isCriticalRecord < 100) : Clear m t := by
  refine ⟨fun t' x hrecords hbytes _ => ?_,Or.inl fun t' hreach _ => ?_⟩
  · have hrec := criticals_records hrecords.1
    have hbyt : (queue x.rows).countP isCriticalRecord ≤ (queue t').countP isCriticalRecord :=
      criticals_bytes hbytes
    exact not_blocked_of_few (le_max_right _ _) (by omega)
  · have hrec := criticals_records hreach
    exact not_blocked_of_few ((le_max_right _ _).trans (le_max_right _ _)) (by omega)

/-- An insertion with so few meets the quotas. -/
theorem quotas_met_of_few (s : Store) (record : NewRecord) (now : ℤ)
    (hfew : (queue (withRow s record .queued none none now)).countP isCriticalRecord < 100) :
    QuotasMet (enqueue s record now).1 := by
  rw [enqueue, insertRecord_fst, enforceQuotas_met_iff, clear_addBuffered]
  exact clear_of_few _ hfew

def alarmRow (i : ℕ) : MessageBufferRecord where
  id := i+1
  endpointName := "alarm"
  topic := "alerts/fire"
  qos := 1
  payload := "1"
  msgId := none
  isCritical := 1
  status := .queued
  lockId := none
  lockedAt := none
  payloadBytes := 1
  retryCount := 0
  lastRetryAt := none
  nextRetryAt := none
  lastError := none
  createdAt := i
  expiresAt := 1000

def alarms : Store where
  table := ⟨(List.range 100).map alarmRow,101,by decide +kernel,by decide +kernel⟩
  metadata := { defaultMetadata with maxRecords := 100 }

/-- The reading that is inserted exceeds the limit, and stays. -/
theorem reading_behind_alarms : ¬QuotasMet (enqueue alarms reading 100).1 := by
  unfold QuotasMet
  decide +kernel

theorem quotas_met_of_few_alarm :
    QuotasMet (enqueue ⟨⟨[alarmRow 0],2,by decide,by decide⟩,
      { defaultMetadata with maxRecords := 1 }⟩ reading 100).1 :=
  quotas_met_of_few _ _ _ (by decide +kernel)

end Iotistica.BufferQuotas
