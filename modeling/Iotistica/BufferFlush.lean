import Iotistica.GuardedRun
import Iotistica.BufferSync

/-!
# Conservation of buffered messages

Every row that was ever inserted is in the table, was counted as flushed or
was counted as dropped; messages rejected before insertion enter the drop
counter as well and are balanced by the amounts reported for them. One pass
of the flush loop is described once: which rows stay, which are put back in
the queue and what is counted.
-/

set_option autoImplicit false

namespace Iotistica.BufferConservation
open Iotistica.KeyedTable Iotistica.GuardedRun Iotistica.BufferStore Iotistica.BufferDeletion

inductive Op where
  | enqueue (record : NewRecord) (now : ℤ)
  | enqueueClaimed (record : NewRecord) (lockId : String) (lockedAt now : ℤ)
  | dequeueReady (limit now lockTimeoutMs : ℤ) (maxRetries : Option ℕ) (scope : Scope)
      (lockId : String)
  | deleteByIds (ids : List ℕ)
  | markRetryFailed (id : ℕ) (error : String) (nextRetryAt : Option ℤ) (now : ℤ)
  | deleteOldest (limit : ℤ) (preserveCriticalTopics : Bool)
  | dropByIds (ids : List ℕ)
  | cleanupExpired (maxRetries : Option ℕ) (lockTimeoutMs now : ℤ)
  | incrementDropped (amount : ℤ)
  deriving DecidableEq, Repr

def step (s : Store) : Op → Store
  | .enqueue record now => (enqueue s record now).1
  | .enqueueClaimed record lockId lockedAt now => (enqueueClaimed s record lockId lockedAt now).1
  | .dequeueReady limit now lockTimeoutMs maxRetries scope lockId =>
      (dequeueReady s limit now lockTimeoutMs maxRetries scope lockId).1
  | .deleteByIds ids => (deleteByIds s ids).1
  | .markRetryFailed id error nextRetryAt now => markRetryFailed s id error nextRetryAt now
  | .deleteOldest limit preserve => (deleteOldest s limit preserve).1
  | .dropByIds ids => (dropByIds s ids).1
  | .cleanupExpired maxRetries lockTimeoutMs now => (cleanupExpired s maxRetries lockTimeoutMs now).1
  | .incrementDropped amount => incrementDropped s amount

def reported : Op → ℕ
  | .incrementDropped amount => amount.toNat
  | _ => 0

def totalReported (ops : List Op) : ℕ := (ops.map reported).sum

/-- Books that balance once `n` rejected messages are added to the inserted ones. -/
def Balanced (n : ℕ) (s : Store) : Prop :=
  s.metadata.totalBuffered+n =
    s.table.rows.length+s.metadata.totalFlushed+s.metadata.totalDropped

theorem insertRecord_balanced (n : ℕ) (s : Store) (record : NewRecord) (status : Status)
    (lockId : Option String) (lockedAt : Option ℤ) (now : ℤ) (h : Balanced n s) :
    Balanced n (insertRecord s record status lockId lockedAt now).1 := by
  obtain ⟨k,he,hm⟩ := insertRecord_spec s record status lockId lockedAt now
  have hc := he.count
  rw [Table.length_insert] at hc
  simp only [Balanced, hm] at *
  omega

theorem dequeueReady_balanced (n : ℕ) (s : Store) (limit now lockTimeoutMs : ℤ)
    (maxRetries : Option ℕ) (scope : Scope) (lockId : String) (h : Balanced n s) :
    Balanced n (dequeueReady s limit now lockTimeoutMs maxRetries scope lockId).1 := by
  simp only [dequeueReady]
  split_ifs
  · exact h
  · exact h
  · exact h
  · simpa [Balanced] using h

theorem deleteByIds_balanced (n : ℕ) (s : Store) (ids : List ℕ) (h : Balanced n s) :
    Balanced n (deleteByIds s ids).1 := by
  have hl := deleteIdsInChunks_length s.table ids
  simp only [Balanced, deleteByIds, Store.addFlushed] at *
  omega

theorem dropByIds_balanced (n : ℕ) (s : Store) (ids : List ℕ) (h : Balanced n s) :
    Balanced n (dropByIds s ids).1 := by
  have hl := deleteIdsInChunks_length s.table ids
  simp only [Balanced, dropByIds, Store.addDropped] at *
  omega

theorem deleteOldest_balanced (n : ℕ) (s : Store) (limit : ℤ) (preserve : Bool)
    (h : Balanced n s) : Balanced n (deleteOldest s limit preserve).1 := by
  simp only [deleteOldest]
  split_ifs
  · exact h
  · exact h
  · generalize pickOldest limit.toNat preserve _ = ids
    have hl := s.table.length_delete (idIn ids)
    simp only [Balanced, Store.addDropped] at *
    omega

theorem cleanupExpired_balanced (n : ℕ) (s : Store) (maxRetries : Option ℕ)
    (lockTimeoutMs now : ℤ) (h : Balanced n s) :
    Balanced n (cleanupExpired s maxRetries lockTimeoutMs now).1 := by
  simp only [cleanupExpired]
  generalize hr : s.table.update _ recoverRow recoverRow_id = recovered
  generalize hs : recovered.update _ sanitizeRow sanitizeRow_id = sanitized
  have hlr : recovered.rows.length = s.table.rows.length := by rw [← hr, Table.length_update]
  have hls : sanitized.rows.length = recovered.rows.length := by rw [← hs, Table.length_update]
  have hd := sanitized.length_delete (expired maxRetries now)
  simp only [Balanced] at h
  split
  · simp only [Balanced, Store.addDropped]
    omega
  · simp only [Balanced]
    omega

theorem incrementDropped_balanced (n : ℕ) (s : Store) (amount : ℤ) (h : Balanced n s) :
    Balanced (n+amount.toNat) (incrementDropped s amount) := by
  simp only [incrementDropped]
  split
  · rwa [show amount.toNat = 0 by omega]
  · simp only [Balanced, Store.addDropped] at *
    omega

theorem step_balanced (n : ℕ) (s : Store) (op : Op) (h : Balanced n s) :
    Balanced (n+reported op) (step s op) := by
  cases op with
  | enqueue record now => exact insertRecord_balanced n s record _ _ _ now h
  | enqueueClaimed record lockId lockedAt now => exact insertRecord_balanced n s record _ _ _ now h
  | dequeueReady => exact dequeueReady_balanced n s _ _ _ _ _ _ h
  | deleteByIds ids => exact deleteByIds_balanced n s ids h
  | markRetryFailed => simpa [Balanced, step, markRetryFailed, reported] using h
  | deleteOldest limit preserve => exact deleteOldest_balanced n s limit preserve h
  | dropByIds ids => exact dropByIds_balanced n s ids h
  | cleanupExpired => exact cleanupExpired_balanced n s _ _ _ h
  | incrementDropped amount => exact incrementDropped_balanced n s amount h

theorem run_balanced (ops : List Op) (n : ℕ) (s : Store) (h : Balanced n s) :
    Balanced (n+totalReported ops) (run step ops s) := by
  induction ops generalizing n s with
  | nil => exact h
  | cons op ops ih =>
    have ht := ih (n+reported op) (step s op) (step_balanced n s op h)
    rw [totalReported, List.map_cons, List.sum_cons, ← Nat.add_assoc]
    exact ht

/-- No sequence of operations loses or double counts a message, whatever
the quotas are. -/
theorem buffered_messages_conserved (m : Metadata) (ops : List Op) :
    (run step ops (emptyStore m)).metadata.totalBuffered+totalReported ops =
      (run step ops (emptyStore m)).table.rows.length+
        (run step ops (emptyStore m)).metadata.totalFlushed+
        (run step ops (emptyStore m)).metadata.totalDropped := by
  have h := run_balanced ops 0 (emptyStore m) rfl
  simpa [Balanced] using h

end Iotistica.BufferConservation

namespace Iotistica.BufferFlush
open Iotistica.KeyedTable Iotistica.GuardedRun Iotistica.BufferStore Iotistica.BufferDeletion
open Iotistica.BufferLocking Iotistica.BufferSync

variable {maxRetries : ℕ} {c : Cycle}

theorem mem_successfulIds {records : List MessageBufferRecord} {id : ℕ} :
    id ∈ successfulIds maxRetries c records ↔
      ∃ r ∈ records, fate maxRetries c r = .sent ∧ r.id = id := by
  simp [successfulIds, and_assoc]

theorem mem_droppedIds {records : List MessageBufferRecord} {id : ℕ} :
    id ∈ droppedIds maxRetries c records ↔
      ∃ r ∈ records, fate maxRetries c r = .dropped ∧ r.id = id := by
  simp [droppedIds, and_assoc]

theorem mem_failedIds {records : List MessageBufferRecord} {id : ℕ} :
    id ∈ failedIds maxRetries c records ↔
      ∃ r ∈ records, (∃ error, fate maxRetries c r = .failed error) ∧ r.id = id := by
  have hf : ∀ f : Fate, (f ≠ .sent ∧ f ≠ .dropped) ↔ ∃ error, f = .failed error := by
    intro f
    cases f <;> simp
  simp [failedIds, and_assoc, ← hf]

def requeued (maxRetries : ℕ) (c : Cycle) (r : MessageBufferRecord) : MessageBufferRecord :=
  match fate maxRetries c r with
  | .failed error =>
    failRow error (some (calculateNextRetryAt r.retryCount (c.clock r.id))) (c.clock r.id) r
  | _ => r

theorem requeued_id (r : MessageBufferRecord) : (requeued maxRetries c r).id = r.id := by
  unfold requeued
  split <;> rfl

theorem mem_markFailed {s : Store} {a : MessageBufferRecord}
    (hu : ∀ r ∈ s.table.rows, r.id = a.id → r = a) (r' : MessageBufferRecord) :
    r' ∈ (markFailed maxRetries c s a).table.rows ↔
      ∃ r ∈ s.table.rows, r' = if r = a then requeued maxRetries c r else r := by
  unfold markFailed requeued
  split
  · rename_i error hf
    rw [mem_markRetryFailed]
    constructor
    · rintro ⟨r,hr,rfl⟩
      by_cases h : r.id = a.id
      · obtain rfl := hu r hr h
        exact ⟨r,hr,by simp [hf]⟩
      · have hne : r ≠ a := fun e => h (by rw [e])
        exact ⟨r,hr,by simp [h, hne]⟩
    · rintro ⟨r,hr,rfl⟩
      by_cases h : r = a
      · subst h
        exact ⟨r,hr,by simp [hf]⟩
      · have hne : r.id ≠ a.id := fun e => h (hu r hr e)
        exact ⟨r,hr,by simp [h, hne]⟩
  · rename_i hf
    constructor
    · intro h
      refine ⟨r',h,?_⟩
      split
      · rename_i e
        subst e
        split
        · rename_i error he
          exact absurd he (hf error)
        · rfl
      · rfl
    · rintro ⟨r,hr,rfl⟩
      split
      · rename_i e
        subst e
        split
        · rename_i error he
          exact absurd he (hf error)
        · exact hr
      · exact hr

/-- Marking the records of a batch one after the other changes each of
their rows once and no other row. -/
theorem mem_markAll (records : List MessageBufferRecord) (s : Store)
    (hn : (records.map MessageBufferRecord.id).Nodup)
    (hu : ∀ a ∈ records, ∀ r ∈ s.table.rows, r.id = a.id → r = a) (r' : MessageBufferRecord) :
    r' ∈ (records.foldl (markFailed maxRetries c) s).table.rows ↔
      ∃ r ∈ s.table.rows, r' = if r ∈ records then requeued maxRetries c r else r := by
  induction records generalizing s with
  | nil => simp
  | cons a records ih =>
    obtain ⟨ha,hn⟩ := List.nodup_cons.mp hn
    have hout : ∀ r : MessageBufferRecord, r.id = a.id → r ∉ records :=
      fun r he hr => ha (List.mem_map.mpr ⟨r,hr,he⟩)
    have hone := @mem_markFailed maxRetries c s a (hu a (by simp))
    rw [List.foldl_cons, ih _ hn]
    · constructor
      · rintro ⟨r1,hr1,rfl⟩
        obtain ⟨r,hr,rfl⟩ := (hone r1).mp hr1
        refine ⟨r,hr,?_⟩
        by_cases h : r = a
        · subst h
          simp [hout _ (requeued_id r)]
        · simp [h]
      · rintro ⟨r,hr,rfl⟩
        refine ⟨_,(hone _).mpr ⟨r,hr,rfl⟩,?_⟩
        by_cases h : r = a
        · subst h
          simp [hout _ (requeued_id r)]
        · simp [h]
    · intro b hb r1 hr1 he
      obtain ⟨r,hr,rfl⟩ := (hone r1).mp hr1
      by_cases h : r = a
      · subst h
        simp only [if_true, requeued_id] at he
        exact absurd hb (hout b he.symm)
      · simp only [h, if_false] at he ⊢
        exact hu b (by simp [hb]) r hr he

theorem markFailed_metadata (s : Store) (a : MessageBufferRecord) :
    (markFailed maxRetries c s a).metadata = s.metadata := by
  unfold markFailed
  split <;> rfl

theorem markAll_metadata (records : List MessageBufferRecord) (s : Store) :
    (records.foldl (markFailed maxRetries c) s).metadata = s.metadata := by
  induction records generalizing s with
  | nil => rfl
  | cons a records ih => rw [List.foldl_cons, ih, markFailed_metadata]

theorem changes_present (t : Rows) (ids : List ℕ) (hn : ids.Nodup)
    (hp : ∀ id ∈ ids, ∃ r ∈ t.rows, r.id = id) : t.changes (idIn ids) = ids.length := by
  have hperm : ((t.rows.filter (idIn ids)).map MessageBufferRecord.id).Perm ids := by
    rw [List.perm_ext_iff_of_nodup (t.nodup.sublist (List.filter_sublist.map _)) hn]
    intro id
    simp only [List.mem_map, List.mem_filter, idIn, List.contains_iff_mem]
    constructor
    · rintro ⟨r,⟨_,hi⟩,rfl⟩
      exact hi
    · intro hi
      obtain ⟨r,hr,rfl⟩ := hp id hi
      exact ⟨r,⟨hr,hi⟩,rfl⟩
  rw [Table.changes, List.countP_eq_length_filter, ← hperm.length_eq, List.length_map]

theorem mem_settle {s : Store} {records : List MessageBufferRecord}
    (hn : (records.map MessageBufferRecord.id).Nodup) (hin : ∀ a ∈ records, a ∈ s.table.rows)
    (r' : MessageBufferRecord) :
    r' ∈ (settle maxRetries c s records).table.rows ↔
      ∃ r ∈ s.table.rows, (r ∉ records ∧ r' = r) ∨
        (r ∈ records ∧ (∃ error, fate maxRetries c r = .failed error) ∧
          r' = requeued maxRetries c r) := by
  have hsame : ∀ a ∈ records, ∀ r ∈ s.table.rows, r.id = a.id → r = a :=
    fun a ha r hr he => s.table.key_unique hr (hin a ha) he
  have hmid : ∀ r, r ∈ ((s.table.delete (idIn (successfulIds maxRetries c records))).delete
      (idIn (droppedIds maxRetries c records))).rows ↔
      r ∈ s.table.rows ∧ (r ∈ records → ∃ error, fate maxRetries c r = .failed error) := by
    intro r
    simp only [Table.mem_delete, idIn, List.contains_eq_mem, decide_eq_false_iff_not,
      mem_successfulIds, mem_droppedIds, and_assoc]
    constructor
    · rintro ⟨hr,hs,hd⟩
      refine ⟨hr,fun hrec => ?_⟩
      cases hf : fate maxRetries c r with
      | sent => exact absurd ⟨r,hrec,hf,rfl⟩ hs
      | dropped => exact absurd ⟨r,hrec,hf,rfl⟩ hd
      | failed error => exact ⟨error,rfl⟩
    · rintro ⟨hr,hrec⟩
      refine ⟨hr,?_,?_⟩ <;>
      · rintro ⟨a,ha,hf,he⟩
        obtain rfl := hsame a ha r hr he.symm
        obtain ⟨error,hfail⟩ := hrec ha
        rw [hf] at hfail
        cases hfail
  have htab : (dropByIds (deleteByIds s (successfulIds maxRetries c records)).1
      (droppedIds maxRetries c records)).1.table = _ :=
    (deleteIdsInChunks_fst _ _).trans (congrArg (fun t => Table.delete t _) (deleteByIds_table s _))
  rw [settle, mem_markAll records _ hn]
  · rw [htab]
    constructor
    · rintro ⟨r,hr,rfl⟩
      obtain ⟨hr,hrec⟩ := (hmid r).mp hr
      refine ⟨r,hr,?_⟩
      by_cases h : r ∈ records
      · exact Or.inr ⟨h,hrec h,by simp [h]⟩
      · exact Or.inl ⟨h,by simp [h]⟩
    · rintro ⟨r,hr,⟨h,rfl⟩ | ⟨h,hf,rfl⟩⟩
      · exact ⟨r',(hmid _).mpr ⟨hr,fun hc => absurd hc h⟩,by simp [h]⟩
      · exact ⟨r,(hmid r).mpr ⟨hr,fun _ => hf⟩,by simp [h]⟩
  · intro a ha r hr
    rw [htab] at hr
    exact hsame a ha r ((hmid r).mp hr).1

theorem nodup_droppedIds {records : List MessageBufferRecord}
    (hn : (records.map MessageBufferRecord.id).Nodup) :
    (droppedIds maxRetries c records).Nodup :=
  hn.sublist (List.filter_sublist.map _)

theorem nodup_failedIds {records : List MessageBufferRecord}
    (hn : (records.map MessageBufferRecord.id).Nodup) :
    (failedIds maxRetries c records).Nodup :=
  hn.sublist (List.filter_sublist.map _)

theorem settle_dropped {s : Store} {records : List MessageBufferRecord}
    (hn : (records.map MessageBufferRecord.id).Nodup) (hin : ∀ a ∈ records, a ∈ s.table.rows) :
    (settle maxRetries c s records).metadata.totalDropped =
      s.metadata.totalDropped+(droppedIds maxRetries c records).length := by
  rw [settle, markAll_metadata]
  change s.metadata.totalDropped+(deleteIdsInChunks _ _).2 = _
  rw [deleteIdsInChunks_snd, deleteByIds_table, changes_present]
  · exact nodup_droppedIds hn
  · intro id hid
    obtain ⟨r,hr,hf,rfl⟩ := mem_droppedIds.mp hid
    refine ⟨r,?_,rfl⟩
    simp only [Table.mem_delete, idIn, List.contains_eq_mem, decide_eq_false_iff_not,
      mem_successfulIds]
    refine ⟨hin r hr,?_⟩
    rintro ⟨a,ha,hs,he⟩
    obtain rfl := s.table.key_unique (hin a ha) (hin r hr) he
    rw [hf] at hs
    cases hs

/-- The row of a failed publish, back in the queue: one retry more than
before and the next attempt later than the moment it was marked. -/
def Requeued (c : Cycle) (r r' : MessageBufferRecord) : Prop :=
  r'.status = .queued ∧ r'.lockId = none ∧ r'.retryCount = r.retryCount+1 ∧
    ∃ t, r'.nextRetryAt = some t ∧ c.clock r.id < t

theorem requeued_requeued {r : MessageBufferRecord} {error : String}
    (hf : fate maxRetries c r = .failed error) : Requeued c r (requeued maxRetries c r) := by
  simp only [requeued, hf]
  refine ⟨rfl,rfl,rfl,_,rfl,?_⟩
  simp only [calculateNextRetryAt]
  split_ifs <;> omega

structure Pass (maxRetries : ℕ) (scope : Scope) (c : Cycle) (records : List MessageBufferRecord)
    (s s' : Store) : Prop where
  nodup : (records.map MessageBufferRecord.id).Nodup
  origin : ∀ r' ∈ s'.table.rows, ∃ r ∈ s.table.rows, r.id = r'.id ∧
    ((r.id ∉ failedIds maxRetries c records ∧ r' = r ∧ lockedBy c.lockId r = false) ∨
      (r.id ∈ failedIds maxRetries c records ∧ Requeued c r r'))
  kept : ∀ r ∈ s.table.rows, (∃ r' ∈ s'.table.rows, r'.id = r.id) ∨
    r.id ∈ successfulIds maxRetries c records ∨ r.id ∈ droppedIds maxRetries c records
  dropped : s'.metadata.totalDropped =
    s.metadata.totalDropped+(droppedIds maxRetries c records).length
  next : s'.table.next = s.table.next
  handed : FreshLock c.lockId s → ∀ a ∈ records, a.retryCount < maxRetries ∧
    ∃ r ∈ s.table.rows, r.id = a.id ∧ r.retryCount = a.retryCount ∧
      inScope scope r.endpointName = true

theorem settle_next (s : Store) (records : List MessageBufferRecord) :
    (settle maxRetries c s records).table.next = s.table.next := by
  have hm : ∀ (as : List MessageBufferRecord) (t : Store),
      (as.foldl (markFailed maxRetries c) t).table.next = t.table.next := by
    intro as
    induction as with
    | nil => exact fun _ => rfl
    | cons a as ih =>
      intro t
      rw [List.foldl_cons, ih]
      unfold markFailed
      split <;> rfl
  rw [settle, hm]
  change (deleteIdsInChunks (deleteIdsInChunks s.table _).1 _).1.next = _
  rw [deleteIdsInChunks_fst, deleteIdsInChunks_fst]
  rfl

theorem row_of_locked {s : Store} {now : ℤ} {target : MessageBufferRecord → Bool}
    {records : List MessageBufferRecord}
    (hrec : ∀ r, r ∈ records ↔
      r ∈ (s.table.update target (lockRow c.lockId now) (lockRow_id c.lockId now)).rows ∧
        lockedBy c.lockId r = true) {b : MessageBufferRecord}
    (hb : b ∈ (s.table.update target (lockRow c.lockId now) (lockRow_id c.lockId now)).rows) :
    ∃ r ∈ s.table.rows, r.id = b.id ∧ r.retryCount = b.retryCount ∧
      (b ∉ records → b = r ∧ lockedBy c.lockId r = false) := by
  obtain ⟨r,hr,rfl⟩ := (Table.mem_update ..).mp hb
  refine ⟨r,hr,by split <;> rfl,by split <;> rfl,?_⟩
  intro hout
  by_cases htr : target r = true
  · simp only [htr, if_true] at hb hout
    exact absurd ((hrec _).mpr ⟨hb,lockedBy_lockRow c.lockId now r⟩) hout
  · simp only [htr, Bool.false_eq_true, if_false] at hb hout ⊢
    refine ⟨trivial,?_⟩
    by_contra hl
    exact hout ((hrec r).mpr ⟨hb,by simpa using hl⟩)

theorem pass_of_dequeued {s st : Store} {now cutoff : ℤ} {scope : Scope}
    {records : List MessageBufferRecord}
    (hd : Dequeued s now cutoff (some maxRetries) scope c.lockId st records) (hne : records ≠ []) :
    Pass maxRetries scope c records s (settle maxRetries c st records) := by
  cases hd with
  | idle => exact absurd rfl hne
  | locked target hready hsome t ht records hrec hnodup =>
    subst ht
    have hin := fun a ha => ((hrec a).mp ha).1
    have hmem := @mem_settle maxRetries c
      { s with table := s.table.update target (lockRow c.lockId now) (lockRow_id c.lockId now) }
      records hnodup hin
    refine ⟨hnodup,?_,?_,settle_dropped hnodup hin,settle_next _ _,?_⟩
    · intro r' hr'
      obtain ⟨b,hb,h⟩ := (hmem r').mp hr'
      obtain ⟨r,hr,hid,hcount,hfree⟩ := row_of_locked hrec hb
      rcases h with ⟨hout,rfl⟩ | ⟨hbr,⟨error,hf⟩,rfl⟩
      · refine ⟨r,hr,hid,Or.inl ⟨?_,hfree hout⟩⟩
        intro hfail
        obtain ⟨a,ha,_,he⟩ := mem_failedIds.mp hfail
        exact hout ((Table.key_unique _ hb (hin a ha) (by rw [he, hid])) ▸ ha)
      · obtain ⟨hs,hl,hc,t,ht,hlt⟩ := requeued_requeued hf
        refine ⟨r,hr,by rw [requeued_id, hid],Or.inr ⟨?_,hs,hl,?_,t,ht,?_⟩⟩
        · exact mem_failedIds.mpr ⟨b,hbr,⟨error,hf⟩,hid.symm⟩
        · rw [hc, hcount]
        · rwa [hid]
    · intro r hr
      have hb : (if target r then lockRow c.lockId now r else r) ∈
          (s.table.update target (lockRow c.lockId now) (lockRow_id c.lockId now)).rows :=
        (Table.mem_update ..).mpr ⟨r,hr,rfl⟩
      generalize hbe : (if target r then lockRow c.lockId now r else r) = b at hb
      have hid : b.id = r.id := by
        rw [← hbe]
        split <;> rfl
      rw [← hid]
      by_cases hbr : b ∈ records
      · cases hf : fate maxRetries c b with
        | sent => exact Or.inr (Or.inl (mem_successfulIds.mpr ⟨b,hbr,hf,rfl⟩))
        | dropped => exact Or.inr (Or.inr (mem_droppedIds.mpr ⟨b,hbr,hf,rfl⟩))
        | failed error =>
          exact Or.inl ⟨_,(hmem _).mpr ⟨b,hb,Or.inr ⟨hbr,⟨error,hf⟩,rfl⟩⟩,requeued_id b⟩
      · exact Or.inl ⟨b,(hmem b).mpr ⟨b,hb,Or.inl ⟨hbr,rfl⟩⟩,rfl⟩
    · intro hfresh a ha
      obtain ⟨r,hr,htr,rfl⟩ := (returned_iff hfresh hrec a).mp ha
      have hlt : r.retryCount < maxRetries := ready_retries (hready r hr htr)
      exact ⟨hlt,r,hr,rfl,rfl,ready_scope (hready r hr htr)⟩

theorem pass_freshLock {scope : Scope} {c : Cycle} {records : List MessageBufferRecord} {s s' : Store}
    (hp : Pass maxRetries scope c records s s') {lockId : String} (hf : FreshLock lockId s) :
    FreshLock lockId s' := by
  intro r' hr'
  obtain ⟨r,hr,_,⟨_,rfl,_⟩ | ⟨_,_,hl,_⟩⟩ := hp.origin r' hr'
  · exact hf r' hr
  · simp [hl]

def sentIn (maxRetries : ℕ) (bs : List Batch) : List ℕ :=
  bs.flatMap (fun b => successfulIds maxRetries b.cycle b.records)

def droppedIn (maxRetries : ℕ) (bs : List Batch) : List ℕ :=
  bs.flatMap (fun b => droppedIds maxRetries b.cycle b.records)

def failedIn (maxRetries : ℕ) (bs : List Batch) : List ℕ :=
  bs.flatMap (fun b => failedIds maxRetries b.cycle b.records)

def failures (maxRetries : ℕ) (bs : List Batch) (id : ℕ) : ℕ := (failedIn maxRetries bs).count id

/-- What a run from `s` has done to the row `r` that is now `r'`. -/
def Attempted (maxRetries : ℕ) (bs : List Batch) (r r' : MessageBufferRecord) : Prop :=
  r'.retryCount = r.retryCount+failures maxRetries bs r.id ∧
  (failures maxRetries bs r.id = 0 → r' = r) ∧
  (0 < failures maxRetries bs r.id → r'.status = .queued ∧ r'.lockId = none ∧
    ∃ b ∈ bs, r.id ∈ failedIds maxRetries b.cycle b.records ∧
      ∃ t, r'.nextRetryAt = some t ∧ b.cycle.clock r.id < t)

structure Accounted (maxRetries : ℕ) (s : Store) (f : Flush) : Prop where
  kept : ∀ r ∈ s.table.rows, (∃ r' ∈ f.store.table.rows, r'.id = r.id) ∨
    r.id ∈ sentIn maxRetries f.batches ∨ r.id ∈ droppedIn maxRetries f.batches
  dropped : f.store.metadata.totalDropped =
    s.metadata.totalDropped+(droppedIn maxRetries f.batches).length
  requeued : ∀ r' ∈ f.store.table.rows, ∃ r ∈ s.table.rows, r.id = r'.id ∧
    Attempted maxRetries f.batches r r'
  unlocked : ∀ r' ∈ f.store.table.rows, ∀ b ∈ f.batches, lockedBy b.cycle.lockId r' = false

theorem accounted_idle (s : Store) (e : Exit) : Accounted maxRetries s ⟨s,[],e⟩ where
  kept := fun r hr => Or.inl ⟨r,hr,rfl⟩
  dropped := rfl
  requeued := fun r hr => ⟨r,hr,rfl,by simp [Attempted, failures, failedIn]⟩
  unlocked := by simp

theorem failures_cons (b : Batch) (bs : List Batch) (id : ℕ) :
    failures maxRetries (b::bs) id =
      (failedIds maxRetries b.cycle b.records).count id+failures maxRetries bs id := by
  simp [failures, failedIn, List.count_append]

theorem attempted_cons {b : Batch} {bs : List Batch} {r r1 r' : MessageBufferRecord}
    (hn : (b.records.map MessageBufferRecord.id).Nodup) (hid : r.id = r1.id)
    (h1 : (r.id ∉ failedIds maxRetries b.cycle b.records ∧ r1 = r) ∨
      (r.id ∈ failedIds maxRetries b.cycle b.records ∧ Requeued b.cycle r r1))
    (h2 : Attempted maxRetries bs r1 r') : Attempted maxRetries (b::bs) r r' := by
  obtain ⟨hc,hz,hp⟩ := h2
  rw [Attempted, failures_cons]
  rw [← hid] at hc hz hp
  rcases h1 with ⟨hnot,rfl⟩ | ⟨hin,hs,hl,hr,t,ht,hlt⟩
  · rw [List.count_eq_zero_of_not_mem hnot]
    refine ⟨by omega,fun h => hz (by omega),fun h => ?_⟩
    obtain ⟨hs,hl,b',hb',hrest⟩ := hp (by omega)
    exact ⟨hs,hl,b',by simp [hb'],hrest⟩
  · rw [List.count_eq_one_of_mem (nodup_failedIds hn) hin]
    refine ⟨by omega,fun h => by omega,fun _ => ?_⟩
    by_cases h0 : failures maxRetries bs r.id = 0
    · rw [hz h0]
      exact ⟨hs,hl,b,by simp,hin,t,ht,hlt⟩
    · obtain ⟨hs',hl',b',hb',hrest⟩ := hp (by omega)
      exact ⟨hs',hl',b',by simp [hb'],hrest⟩

theorem accounted_cons {scope : Scope} {b : Batch} {s s1 : Store} {f : Flush}
    (hp : Pass maxRetries scope b.cycle b.records s s1) (ha : Accounted maxRetries s1 f) :
    Accounted maxRetries s { f with batches := b::f.batches } where
  kept := by
    intro r hr
    simp only [sentIn, droppedIn, List.flatMap_cons, List.mem_append]
    rcases hp.kept r hr with ⟨r1,hr1,he⟩ | hs | hd
    · rcases ha.kept r1 hr1 with ⟨r',hr',he'⟩ | hs | hd
      · exact Or.inl ⟨r',hr',he'.trans he⟩
      · exact Or.inr (Or.inl (Or.inr (he ▸ hs)))
      · exact Or.inr (Or.inr (Or.inr (he ▸ hd)))
    · exact Or.inr (Or.inl (Or.inl hs))
    · exact Or.inr (Or.inr (Or.inl hd))
  dropped := by
    have h1 := hp.dropped
    have h2 := ha.dropped
    simp only [droppedIn, List.flatMap_cons, List.length_append] at *
    omega
  requeued := by
    intro r' hr'
    obtain ⟨r1,hr1,hid1,hatt⟩ := ha.requeued r' hr'
    obtain ⟨r,hr,hid,h⟩ := hp.origin r1 hr1
    refine ⟨r,hr,hid.trans hid1,attempted_cons hp.nodup hid ?_ hatt⟩
    rcases h with ⟨hnot,he,_⟩ | h
    · exact Or.inl ⟨hnot,he⟩
    · exact Or.inr h
  unlocked := by
    intro r' hr' b' hb'
    rcases List.mem_cons.mp hb' with rfl | hb'
    · obtain ⟨r1,hr1,_,hc,hz,hpos⟩ := ha.requeued r' hr'
      by_cases h0 : failures maxRetries f.batches r1.id = 0
      · rw [hz h0]
        obtain ⟨r,hr,_,⟨_,rfl,hl⟩ | ⟨_,hs,_⟩⟩ := hp.origin r1 hr1
        · exact hl
        · simp [lockedBy, hs]
      · simp [lockedBy, (hpos (by omega)).1]
    · exact ha.unlocked r' hr' b' hb'

/-- One unfolding of the loop: it stops and leaves the store as it is, or it
settles a batch and goes on. -/
theorem flushLoop_cases (cfg : BufferSyncConfig) (cycles : ℕ → Cycle) (fuel k handled : ℕ)
    (s : Store) :
    (∃ e, e ≠ .cutOff ∧ flushLoop cfg cycles (fuel+1) k handled s = ⟨s,[],e⟩) ∨
      ∃ rs s1, Pass cfg.maxRetries cfg.scope (cycles k) rs s s1 ∧ rs ≠ [] ∧
        handled < cfg.maxFlushPerCycle ∧ flushLoop cfg cycles (fuel+1) k handled s =
          { flushLoop cfg cycles fuel (k+1) (handled+rs.length) s1 with
            batches := ⟨cycles k,rs⟩::
              (flushLoop cfg cycles fuel (k+1) (handled+rs.length) s1).batches } := by
  have hd := dequeueReady_dequeued s cfg.flushBatchSize (cycles k).now defaultLockTimeoutMs
    (some cfg.maxRetries) cfg.scope (cycles k).lockId
  simp only [flushLoop]
  generalize dequeueReady s cfg.flushBatchSize (cycles k).now defaultLockTimeoutMs
    (some cfg.maxRetries) cfg.scope (cycles k).lockId = out at *
  split_ifs with hc hm he
  · exact Or.inl ⟨_,by simp,rfl⟩
  · exact Or.inl ⟨_,by simp,rfl⟩
  · left
    obtain ⟨st,rs⟩ := out
    simp only [List.isEmpty_iff] at he
    subst he
    cases hd with
    | idle => exact ⟨_,by simp,rfl⟩
    | locked target hready hsome t ht records hrec hnodup =>
      -- a dequeue that locks a row returns it
      obtain ⟨a,ha,hta⟩ := hsome
      have hl : lockRow (cycles k).lockId (cycles k).now a ∈ ([] : List MessageBufferRecord) := by
        rw [hrec, ht, Table.mem_update]
        exact ⟨⟨a,ha,by simp [hta]⟩,lockedBy_lockRow _ _ a⟩
      exact absurd hl (by simp)
  · have hne : out.2 ≠ [] := by simpa using he
    exact Or.inr ⟨out.2,_,pass_of_dequeued hd hne,hne,by omega,rfl⟩

theorem flushLoop_accounted (cfg : BufferSyncConfig) (cycles : ℕ → Cycle) (fuel k handled : ℕ)
    (s : Store) : Accounted cfg.maxRetries s (flushLoop cfg cycles fuel k handled s) := by
  induction fuel generalizing k handled s with
  | zero => exact accounted_idle s _
  | succ fuel ih =>
    rcases flushLoop_cases cfg cycles fuel k handled s with ⟨e,_,he⟩ | ⟨rs,s1,hp,_,_,he⟩
    · rw [he]
      exact accounted_idle s e
    · rw [he]
      exact accounted_cons (b := ⟨cycles k,rs⟩) hp (ih _ _ _)

theorem flushLoop_ends (cfg : BufferSyncConfig) (cycles : ℕ → Cycle) (fuel k handled : ℕ)
    (s : Store) (hpos : 0 < fuel) (hf : cfg.maxFlushPerCycle < fuel+handled) :
    (flushLoop cfg cycles fuel k handled s).exit ≠ .cutOff := by
  induction fuel generalizing k handled s with
  | zero => omega
  | succ fuel ih =>
    rcases flushLoop_cases cfg cycles fuel k handled s with ⟨e,hne,he⟩ | ⟨rs,s1,_,hrs,hcap,he⟩
    · rwa [he]
    · have hlen := List.length_pos_iff.mpr hrs
      rw [he]
      apply ih
      · omega
      · omega

end Iotistica.BufferFlush
