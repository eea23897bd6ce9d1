import Iotistica.BufferStore

/-!
# What the buffer's deletions remove

Chunked deletion is one deletion by membership, whatever repetitions or
absent ids the list has. Both quota loops delete a row on every pass, so
their fuel is never exhausted and they stop by their own exit conditions.
-/

set_option autoImplicit false

namespace Iotistica.BufferDeletion
open Iotistica.KeyedTable Iotistica.BufferStore

theorem mem_chunk (ids : List ℕ) (k x : ℕ) (h : x ∈ chunk ids k) : x ∈ ids :=
  List.mem_of_mem_drop (List.mem_of_mem_take h)

theorem mem_chunks (ids : List ℕ) (x : ℕ) : (∃ c ∈ chunks ids, x ∈ c) ↔ x ∈ ids := by
  constructor
  · rintro ⟨c,hc,hx⟩
    obtain ⟨k,_,rfl⟩ := List.mem_map.mp hc
    exact mem_chunk ids k x hx
  · intro hx
    obtain ⟨i,hi,rfl⟩ := List.getElem_of_mem hx
    refine ⟨chunk ids (i/idDeleteChunkSize),?_,?_⟩
    · apply List.mem_map_of_mem
      rw [List.mem_range, Nat.div_lt_iff_lt_mul (by decide)]
      have hd := Nat.div_add_mod (ids.length+(idDeleteChunkSize-1)) idDeleteChunkSize
      have hm := Nat.mod_lt (ids.length+(idDeleteChunkSize-1)) (y := idDeleteChunkSize) (by decide)
      simp only [idDeleteChunkSize] at *
      omega
    · have hd := Nat.div_add_mod i idDeleteChunkSize
      have hm := Nat.mod_lt i (y := idDeleteChunkSize) (by decide)
      apply List.mem_take_iff_getElem.mpr
      refine ⟨i%idDeleteChunkSize,?_,?_⟩
      · rw [List.length_drop]
        omega
      · rw [List.getElem_drop]
        congr 1

theorem deleteChunks_delete (cs : List (List ℕ)) (t : Rows) :
    (deleteChunks cs t).1 = t.delete (fun r => cs.any (fun c => idIn c r)) := by
  induction cs generalizing t with
  | nil =>
    apply Table.ext_rows
    · simp [deleteChunks, Table.delete]
    · rfl
  | cons c cs ih =>
    rw [deleteChunks, ih]
    apply Table.ext_rows
    · simp only [Table.delete, List.filter_filter, List.any_cons, Bool.not_or]
      exact List.filter_congr (fun r _ => Bool.and_comm _ _)
    · rfl

theorem deleteChunks_length (cs : List (List ℕ)) (t : Rows) :
    (deleteChunks cs t).1.rows.length+(deleteChunks cs t).2 = t.rows.length := by
  induction cs generalizing t with
  | nil => rfl
  | cons c cs ih =>
    have hr := ih (t.delete (idIn c))
    have hd := t.length_delete (idIn c)
    simp only [deleteChunks]
    omega

theorem deleteIdsInChunks_fst (t : Rows) (ids : List ℕ) :
    (deleteIdsInChunks t ids).1 = t.delete (idIn ids) := by
  rw [deleteIdsInChunks, deleteChunks_delete]
  congr 1
  funext r
  rw [Bool.eq_iff_iff]
  simpa [idIn] using mem_chunks ids r.id

/-- The number reported is the number of rows deleted: an id that is absent
or was deleted by an earlier chunk is not counted. -/
theorem deleteIdsInChunks_snd (t : Rows) (ids : List ℕ) :
    (deleteIdsInChunks t ids).2 = t.changes (idIn ids) := by
  have hl : (deleteIdsInChunks t ids).1.rows.length+(deleteIdsInChunks t ids).2 = _ :=
    deleteChunks_length (chunks ids) t
  have hd := t.length_delete (idIn ids)
  rw [deleteIdsInChunks_fst] at hl
  omega

theorem deleteIdsInChunks_length (t : Rows) (ids : List ℕ) :
    (deleteIdsInChunks t ids).1.rows.length+(deleteIdsInChunks t ids).2 = t.rows.length :=
  deleteChunks_length (chunks ids) t

theorem mem_getQueuedOldest {t : Rows} {limit : ℕ} {r : MessageBufferRecord}
    (h : r ∈ getQueuedOldest t limit) : r ∈ t.rows ∧ queuedUnlocked r = true :=
  Table.mem_selectOldest h

theorem mem_pickByCount (n : ℕ) (rs : List MessageBufferRecord) (id : ℕ)
    (h : id ∈ pickByCount n rs) : ∃ r ∈ rs, r.id = id ∧ isCriticalRecord r = false := by
  induction rs generalizing n with
  | nil => cases n <;> simp [pickByCount] at h
  | cons r rs ih =>
    cases n with
    | zero => simp [pickByCount] at h
    | succ n =>
      by_cases hc : isCriticalRecord r
      · obtain ⟨a,ha,hi⟩ := ih (n+1) (by simpa [pickByCount, hc] using h)
        exact ⟨a,by simp [ha],hi⟩
      · rcases (by simpa [pickByCount, hc] using h : id = r.id ∨ id ∈ pickByCount n rs) with rfl | hr
        · exact ⟨r,by simp,rfl,by simpa using hc⟩
        · obtain ⟨a,ha,hi⟩ := ih n hr
          exact ⟨a,by simp [ha],hi⟩

theorem mem_pickByBytes (bytes maxBytes : ℤ) (rs : List MessageBufferRecord) (n id : ℕ)
    (h : id ∈ (pickByBytes bytes maxBytes rs n).1) :
    ∃ r ∈ rs, r.id = id ∧ isCriticalRecord r = false := by
  induction rs generalizing n with
  | nil => simp [pickByBytes] at h
  | cons r rs ih =>
    by_cases hb : bytes-n ≤ maxBytes
    · simp [pickByBytes, hb] at h
    · by_cases hc : isCriticalRecord r
      · obtain ⟨a,ha,hi⟩ := ih n (by simpa [pickByBytes, hb, hc] using h)
        exact ⟨a,by simp [ha],hi⟩
      · simp only [pickByBytes, hb, hc, if_false, Bool.false_eq_true, List.mem_cons] at h
        rcases h with rfl | hr
        · exact ⟨r,by simp,rfl,by simpa using hc⟩
        · obtain ⟨a,ha,hi⟩ := ih _ hr
          exact ⟨a,by simp [ha],hi⟩

theorem changes_pos {t : Rows} {ids : List ℕ} {r : MessageBufferRecord}
    (hr : r ∈ t.rows) (hi : r.id ∈ ids) : 0 < t.changes (idIn ids) := by
  rw [Table.changes, List.countP_pos_iff]
  exact ⟨r,hr,by simp [idIn, hi]⟩

theorem mem_excessIds {maxRecords : ℤ} {t : Rows} {id : ℕ} (h : id ∈ excessIds maxRecords t) :
    ∃ r ∈ t.rows, r.id = id ∧ queuedUnlocked r = true ∧ isCriticalRecord r = false := by
  obtain ⟨r,hr,hi,hc⟩ := mem_pickByCount _ _ id h
  exact ⟨r,(mem_getQueuedOldest hr).1,hi,(mem_getQueuedOldest hr).2,hc⟩

theorem mem_overflowIds {maxBytes : ℤ} {count bytes : ℕ} {t : Rows} {id : ℕ}
    (h : id ∈ (overflowIds maxBytes count bytes t).1) :
    ∃ r ∈ t.rows, r.id = id ∧ queuedUnlocked r = true ∧ isCriticalRecord r = false := by
  obtain ⟨r,hr,hi,hc⟩ := mem_pickByBytes _ _ _ _ id h
  exact ⟨r,(mem_getQueuedOldest hr).1,hi,(mem_getQueuedOldest hr).2,hc⟩

structure Evicts (t t' : Rows) (n : ℕ) : Prop where
  removed : ∃ p, t' = t.delete p ∧
    ∀ r ∈ t.rows, p r = true → queuedUnlocked r = true ∧ isCriticalRecord r = false
  count : t'.rows.length+n = t.rows.length

theorem evicts_refl (t : Rows) : Evicts t t 0 where
  removed := ⟨fun _ => false,Table.ext_rows (by simp [Table.delete]) rfl,by simp⟩
  count := rfl

theorem Evicts.trans {t t' t'' : Rows} {m n : ℕ} (h : Evicts t t' m) (h' : Evicts t' t'' n) :
    Evicts t t'' (m+n) where
  removed := by
    obtain ⟨p,rfl,hp⟩ := h.removed
    obtain ⟨q,rfl,hq⟩ := h'.removed
    refine ⟨fun r => p r || q r,?_,?_⟩
    · apply Table.ext_rows
      · simp only [Table.delete, List.filter_filter, Bool.not_or]
        exact List.filter_congr (fun r _ => Bool.and_comm _ _)
      · rfl
    · intro r hr h
      by_cases hpr : p r = true
      · exact hp r hr hpr
      · have hqr : q r = true := by simpa [hpr] using h
        exact hq r ((Table.mem_delete t p r).mpr ⟨hr,by simpa using hpr⟩) hqr
  count := by
    have := h.count
    have := h'.count
    omega

theorem evicts_picked (t : Rows) (ids : List ℕ)
    (hp : ∀ id ∈ ids, ∃ r ∈ t.rows, r.id = id ∧ queuedUnlocked r = true ∧
      isCriticalRecord r = false) :
    Evicts t (deleteIdsInChunks t ids).1 (deleteIdsInChunks t ids).2 where
  removed := by
    refine ⟨idIn ids,deleteIdsInChunks_fst t ids,?_⟩
    intro r hr hi
    obtain ⟨a,ha,he,hq⟩ := hp r.id (by simpa [idIn] using hi)
    obtain rfl := t.key_unique ha hr he
    exact hq
  count := deleteIdsInChunks_length t ids

theorem picked_shrinks (t : Rows) (ids : List ℕ) (hne : ¬ids.isEmpty = true)
    (hp : ∀ id ∈ ids, ∃ r ∈ t.rows, r.id = id ∧ queuedUnlocked r = true ∧
      isCriticalRecord r = false) :
    (deleteIdsInChunks t ids).1.rows.length < t.rows.length := by
  have hn : ids ≠ [] := by simpa using hne
  obtain ⟨id,hid⟩ := List.exists_mem_of_ne_nil ids hn
  obtain ⟨r,hr,rfl,_⟩ := hp id hid
  have hl := deleteIdsInChunks_length t ids
  have hpos := changes_pos hr hid
  rw [deleteIdsInChunks_snd] at hl
  omega

theorem enforceRecords_evicts (maxRecords : ℤ) (fuel : ℕ) (t : Rows) :
    Evicts t (enforceRecords maxRecords fuel t).1 (enforceRecords maxRecords fuel t).2 := by
  induction fuel generalizing t with
  | zero => exact evicts_refl t
  | succ fuel ih =>
    simp only [enforceRecords]
    split
    · split
      · exact evicts_refl t
      · exact (evicts_picked t _ (fun _ h => mem_excessIds h)).trans (ih _)
    · exact evicts_refl t

theorem enforceBytes_evicts (maxBytes : ℤ) (fuel count bytes : ℕ) (t : Rows) :
    Evicts t (enforceBytes maxBytes fuel count bytes t).1
      (enforceBytes maxBytes fuel count bytes t).2 := by
  induction fuel generalizing count bytes t with
  | zero => exact evicts_refl t
  | succ fuel ih =>
    simp only [enforceBytes]
    split
    · split
      · exact evicts_refl t
      · exact (evicts_picked t _ (fun _ h => mem_overflowIds h)).trans (ih _ _ _)
    · exact evicts_refl t

/-- The whole of quota enforcement: rows leave the table, each counted as
dropped, and every other counter stays. -/
theorem enforceQuotas_spec (s : Store) :
    ∃ n, Evicts s.table (enforceQuotas s).table n ∧
      (enforceQuotas s).metadata =
        { s.metadata with totalDropped := s.metadata.totalDropped+n } := by
  refine ⟨_,?_,rfl⟩
  exact (enforceRecords_evicts _ _ _).trans (enforceBytes_evicts _ _ _ _ _)

theorem insertRecord_spec (s : Store) (record : NewRecord) (status : Status)
    (lockId : Option String) (lockedAt : Option ℤ) (now : ℤ) :
    ∃ n, Evicts (s.table.insert (newRow s.metadata.ttlHours record status lockId lockedAt now)
        (newRow_id _ _ _ _ _ _)) (insertRecord s record status lockId lockedAt now).1.table n ∧
      (insertRecord s record status lockId lockedAt now).1.metadata =
        { s.metadata with
          totalBuffered := s.metadata.totalBuffered+1
          totalDropped := s.metadata.totalDropped+n } := by
  let t := s.table.insert (newRow s.metadata.ttlHours record status lockId lockedAt now)
    (newRow_id _ _ _ _ _ _)
  exact enforceQuotas_spec ({ s with table := t }.addBuffered 1)

theorem mem_insertRecord {s : Store} {record : NewRecord} {status : Status}
    {lockId : Option String} {lockedAt : Option ℤ} {now : ℤ} {r : MessageBufferRecord}
    (h : r ∈ (insertRecord s record status lockId lockedAt now).1.table.rows) :
    r ∈ s.table.rows ∨
      r = newRow s.metadata.ttlHours record status lockId lockedAt now s.table.next := by
  obtain ⟨n,he,_⟩ := insertRecord_spec s record status lockId lockedAt now
  obtain ⟨p,hp,_⟩ := he.removed
  rw [hp, Table.mem_delete, Table.mem_insert] at h
  exact h.1

theorem insertRecord_next (s : Store) (record : NewRecord) (status : Status)
    (lockId : Option String) (lockedAt : Option ℤ) (now : ℤ) :
    (insertRecord s record status lockId lockedAt now).1.table.next = s.table.next+1 := by
  obtain ⟨n,he,_⟩ := insertRecord_spec s record status lockId lockedAt now
  obtain ⟨p,hp,_⟩ := he.removed
  rw [hp]
  rfl

theorem mem_markRetryFailed (s : Store) (id : ℕ) (error : String) (nextRetryAt : Option ℤ)
    (now : ℤ) (r' : MessageBufferRecord) :
    r' ∈ (markRetryFailed s id error nextRetryAt now).table.rows ↔
      ∃ r ∈ s.table.rows, (if r.id = id then failRow error nextRetryAt now r else r) = r' := by
  simp [markRetryFailed]

theorem deleteByIds_table (s : Store) (ids : List ℕ) :
    (deleteByIds s ids).1.table = s.table.delete (idIn ids) :=
  deleteIdsInChunks_fst s.table ids

theorem cleanupExpired_table (s : Store) (maxRetries : Option ℕ) (lockTimeoutMs now : ℤ) :
    (cleanupExpired s maxRetries lockTimeoutMs now).1.table =
      ((s.table.update (fun r => r.status == .sending && before r.lockedAt (now-lockTimeoutMs))
        recoverRow recoverRow_id).update
        (fun r => r.status == .queued && after r.nextRetryAt (now+30*24*60*60*1000))
        sanitizeRow sanitizeRow_id).delete (expired maxRetries now) := by
  simp only [cleanupExpired]
  split <;> rfl

end Iotistica.BufferDeletion
