import Iotistica.BufferDeletion

/-!
# What a dequeue locks and returns

A dequeue either leaves the store alone or locks a set of ready rows and
returns every row carrying its lock id. When that lock id is new to the
table the returned rows are exactly the ones it locked.
-/

set_option autoImplicit false

namespace Iotistica.BufferLocking
open Iotistica.KeyedTable Iotistica.BufferStore

def FreshLock (lockId : String) (s : Store) : Prop :=
  ∀ r ∈ s.table.rows, r.lockId ≠ some lockId

instance (lockId : String) (s : Store) : Decidable (FreshLock lockId s) :=
  inferInstanceAs (Decidable (∀ r ∈ s.table.rows, r.lockId ≠ some lockId))

inductive Dequeued (s : Store) (now cutoff : ℤ) (maxRetries : Option ℕ) (scope : Scope)
    (lockId : String) : Store → List MessageBufferRecord → Prop
  | idle : Dequeued s now cutoff maxRetries scope lockId s []
  | locked (target : MessageBufferRecord → Bool)
      (hready : ∀ r ∈ s.table.rows, target r = true → ready now cutoff maxRetries scope r = true)
      (hsome : ∃ r ∈ s.table.rows, target r = true)
      (t : Rows) (ht : t = s.table.update target (lockRow lockId now) (lockRow_id lockId now))
      (records : List MessageBufferRecord)
      (hrec : ∀ r, r ∈ records ↔ r ∈ t.rows ∧ lockedBy lockId r = true)
      (hnodup : (records.map MessageBufferRecord.id).Nodup) :
      Dequeued s now cutoff maxRetries scope lockId { s with table := t } records

theorem dequeueReady_dequeued (s : Store) (limit now lockTimeoutMs : ℤ) (maxRetries : Option ℕ)
    (scope : Scope) (lockId : String) :
    Dequeued s now (now-lockTimeoutMs) maxRetries scope lockId
      (dequeueReady s limit now lockTimeoutMs maxRetries scope lockId).1
      (dequeueReady s limit now lockTimeoutMs maxRetries scope lockId).2 := by
  simp only [dequeueReady]
  split_ifs with _ _ hc
  · exact .idle
  · exact .idle
  · exact .idle
  · refine .locked _ ?_ ?_ _ rfl _ ?_ ?_
    · intro r hr ht
      obtain ⟨hid,_⟩ := Bool.and_eq_true_iff.mp ht
      obtain ⟨c,hc,he⟩ := List.mem_map.mp (by simpa [idIn] using hid)
      obtain ⟨hm,hready⟩ := Table.mem_selectOldest hc
      obtain rfl := s.table.key_unique hm hr he
      exact hready
    · exact List.countP_pos_iff.mp (Nat.pos_of_ne_zero hc)
    · intro r
      rw [List.mem_insertionSort, Table.mem_select]
    · exact Table.nodup_sorted_select _ MessageBufferRecord.createdAt _

theorem lockedBy_lockRow (lockId : String) (now : ℤ) (r : MessageBufferRecord) :
    lockedBy lockId (lockRow lockId now r) = true := by
  simp [lockedBy, lockRow]

theorem returned_iff {s : Store} {lockId : String} {now : ℤ} {target : MessageBufferRecord → Bool}
    {records : List MessageBufferRecord} (hf : FreshLock lockId s)
    (hrec : ∀ r, r ∈ records ↔
      r ∈ (s.table.update target (lockRow lockId now) (lockRow_id lockId now)).rows ∧
        lockedBy lockId r = true) (r : MessageBufferRecord) :
    r ∈ records ↔ ∃ a ∈ s.table.rows, target a = true ∧ r = lockRow lockId now a := by
  rw [hrec, Table.mem_update]
  constructor
  · rintro ⟨⟨a,ha,rfl⟩,hl⟩
    by_cases ht : target a = true
    · exact ⟨a,ha,ht,by simp [ht]⟩
    · have hn := hf a ha
      simp [ht, lockedBy] at hl
      exact absurd hl.1 hn
  · rintro ⟨a,ha,ht,rfl⟩
    exact ⟨⟨a,ha,by simp [ht]⟩,lockedBy_lockRow lockId now a⟩

theorem ready_claimable {now cutoff : ℤ} {maxRetries : Option ℕ} {scope : Scope}
    {r : MessageBufferRecord} (h : ready now cutoff maxRetries scope r = true) :
    claimable cutoff r = true := by
  simp only [ready, Bool.and_eq_true] at h
  exact h.1.1.1.1

theorem ready_retries {now cutoff : ℤ} {m : ℕ} {scope : Scope} {r : MessageBufferRecord}
    (h : ready now cutoff (some m) scope r = true) : r.retryCount < m := by
  simp only [ready, Bool.and_eq_true, decide_eq_true_eq] at h
  exact h.1.1.2

theorem ready_scope {now cutoff : ℤ} {maxRetries : Option ℕ} {scope : Scope}
    {r : MessageBufferRecord} (h : ready now cutoff maxRetries scope r = true) :
    inScope scope r.endpointName = true := by
  simp only [ready, Bool.and_eq_true] at h
  exact h.2

end Iotistica.BufferLocking
