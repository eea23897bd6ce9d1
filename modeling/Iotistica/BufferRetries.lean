import Iotistica.BufferFlush

/-!
# Retry bound over many flushes

The store lives through any number of flushes, of instances that differ in
everything but the retry limit, and any operation of the buffer may come
between two of them. Every failed publish is kept in the history. The
retry counter of a row is never below the number of its failed publishes
and a dequeue only hands out rows below the limit, so the limit bounds the
failures of every record, those already deleted included.
-/

set_option autoImplicit false

namespace Iotistica.BufferRetries
open Iotistica.KeyedTable Iotistica.GuardedRun Iotistica.BufferStore Iotistica.BufferDeletion
open Iotistica.BufferLocking Iotistica.BufferSync Iotistica.BufferFlush

def unsentIds (b : Batch) : List ℕ :=
  (b.records.filter (fun r => (b.cycle.publish r).isSome)).map MessageBufferRecord.id

def failedAttempts (bs : List Batch) (id : ℕ) : ℕ := (bs.flatMap unsentIds).count id

structure History where
  store : Store
  batches : List Batch

inductive Activity where
  | flush (cfg : BufferSyncConfig) (connected : Bool) (mode : PublishMode) (cycles : ℕ → Cycle)
  | op (op : BufferConservation.Op)

def perform (h : History) : Activity → History
  | .flush cfg connected mode cycles =>
    let f := flushBuffer cfg connected mode cycles h.store
    ⟨f.store,h.batches++f.batches⟩
  | .op op => ⟨BufferConservation.step h.store op,h.batches⟩

/-- Flushes share the retry limit and draw lock ids that no row carries. -/
def Admitted (maxRetries : ℕ) (h : History) : Activity → Prop
  | .flush cfg _ _ cycles =>
    cfg.maxRetries = maxRetries ∧ ∀ k, FreshLock (cycles k).lockId h.store
  | .op _ => True

structure WithinRetries (maxRetries : ℕ) (h : History) : Prop where
  limit : ∀ id, failedAttempts h.batches id ≤ maxRetries
  counted : ∀ r ∈ h.store.table.rows, failedAttempts h.batches r.id ≤ r.retryCount
  issued : ∀ id, 0 < failedAttempts h.batches id → id < h.store.table.next

theorem failedAttempts_append (bs bs' : List Batch) (id : ℕ) :
    failedAttempts (bs++bs') id = failedAttempts bs id+failedAttempts bs' id := by
  simp [failedAttempts]

variable {maxRetries : ℕ}

theorem unsentIds_eq {b : Batch} (h : ∀ a ∈ b.records, a.retryCount < maxRetries) :
    unsentIds b = failedIds maxRetries b.cycle b.records := by
  unfold unsentIds failedIds
  congr 1
  apply List.filter_congr
  intro a ha
  have hlt := h a ha
  unfold fate
  cases b.cycle.publish a with
  | none => rfl
  | some error => simp [Nat.not_le.mpr hlt]

theorem pass_within {scope : Scope} {b : Batch} {s s' : Store} {bs : List Batch}
    (hp : Pass maxRetries scope b.cycle b.records s s') (hf : FreshLock b.cycle.lockId s)
    (hi : WithinRetries maxRetries ⟨s,bs⟩) : WithinRetries maxRetries ⟨s',bs++[b]⟩ := by
  have hlow := hp.handed hf
  have hone : ∀ id, failedAttempts [b] id =
      (failedIds maxRetries b.cycle b.records).count id := by
    intro id
    simp [failedAttempts, unsentIds_eq (fun a ha => (hlow a ha).1)]
  have hrow : ∀ id ∈ failedIds maxRetries b.cycle b.records,
      ∃ r ∈ s.table.rows, r.id = id ∧ r.retryCount < maxRetries := by
    intro id hid
    obtain ⟨a,ha,_,rfl⟩ := mem_failedIds.mp hid
    obtain ⟨hlt,r,hr,he,hc,_⟩ := hlow a ha
    exact ⟨r,hr,he,hc ▸ hlt⟩
  refine ⟨?_,?_,?_⟩
  · intro id
    rw [failedAttempts_append, hone]
    by_cases hid : id ∈ failedIds maxRetries b.cycle b.records
    · obtain ⟨r,hr,rfl,hlt⟩ := hrow id hid
      have hc : failedAttempts bs r.id ≤ r.retryCount := hi.counted r hr
      rw [List.count_eq_one_of_mem (nodup_failedIds hp.nodup) hid]
      omega
    · rw [List.count_eq_zero_of_not_mem hid]
      exact hi.limit id
  · intro r' hr'
    rw [failedAttempts_append, hone]
    obtain ⟨r,hr,hid,⟨hnot,rfl,_⟩ | ⟨hin,_,_,hc,_⟩⟩ := hp.origin r' hr'
    · rw [List.count_eq_zero_of_not_mem hnot]
      exact hi.counted r' hr
    · have hcount := hi.counted r hr
      rw [← hid, List.count_eq_one_of_mem (nodup_failedIds hp.nodup) hin, hc]
      exact Nat.succ_le_succ hcount
  · intro id hpos
    rw [failedAttempts_append, hone] at hpos
    change id < s'.table.next
    rw [hp.next]
    by_cases hid : id ∈ failedIds maxRetries b.cycle b.records
    · obtain ⟨r,hr,rfl,_⟩ := hrow id hid
      exact s.table.below r hr
    · rw [List.count_eq_zero_of_not_mem hid] at hpos
      exact hi.issued id hpos

theorem flushLoop_within (cfg : BufferSyncConfig) (cycles : ℕ → Cycle) (fuel k handled : ℕ)
    (s : Store) (bs : List Batch) (hf : ∀ k, FreshLock (cycles k).lockId s)
    (hi : WithinRetries cfg.maxRetries ⟨s,bs⟩) :
    WithinRetries cfg.maxRetries ⟨(flushLoop cfg cycles fuel k handled s).store,
      bs++(flushLoop cfg cycles fuel k handled s).batches⟩ := by
  induction fuel generalizing k handled s bs with
  | zero => simpa [flushLoop] using hi
  | succ fuel ih =>
    rcases flushLoop_cases cfg cycles fuel k handled s with ⟨e,_,he⟩ | ⟨rs,s1,hp,_,_,he⟩
    · simpa [he] using hi
    · rw [he]
      have h := ih (k+1) (handled+rs.length) s1 (bs++[⟨cycles k,rs⟩])
        (fun k => pass_freshLock hp (hf k)) (pass_within hp (hf k) hi)
      simpa using h

/-- A row after an operation was there before with no more retries, or it
was just inserted. -/
theorem step_origin (s : Store) (op : BufferConservation.Op) (r' : MessageBufferRecord)
    (hr' : r' ∈ (BufferConservation.step s op).table.rows) :
    (∃ r ∈ s.table.rows, r.id = r'.id ∧ r.retryCount ≤ r'.retryCount) ∨ s.table.next ≤ r'.id := by
  have hold : ∀ {r'}, r' ∈ s.table.rows →
      (∃ r ∈ s.table.rows, r.id = r'.id ∧ r.retryCount ≤ r'.retryCount) ∨ s.table.next ≤ r'.id :=
    fun {r'} h => Or.inl ⟨r',h,rfl,le_rfl⟩
  cases op with
  | enqueue record now =>
    rcases mem_insertRecord hr' with h | rfl
    · exact hold h
    · exact Or.inr le_rfl
  | enqueueClaimed record lockId lockedAt now =>
    rcases mem_insertRecord hr' with h | rfl
    · exact hold h
    · exact Or.inr le_rfl
  | dequeueReady limit now lockTimeoutMs maxRetries scope lockId =>
    have hd := dequeueReady_dequeued s limit now lockTimeoutMs maxRetries scope lockId
    simp only [BufferConservation.step] at hr'
    generalize (dequeueReady s limit now lockTimeoutMs maxRetries scope lockId).1 = st at *
    generalize (dequeueReady s limit now lockTimeoutMs maxRetries scope lockId).2 = rs at *
    cases hd with
    | idle => exact hold hr'
    | locked target hready hsome t ht records hrec hnodup =>
      subst ht
      simp only [Table.mem_update] at hr'
      obtain ⟨r,hr,rfl⟩ := hr'
      exact Or.inl ⟨r,hr,by split <;> rfl,by split <;> exact le_rfl⟩
  | deleteByIds ids =>
    simp only [BufferConservation.step, deleteByIds_table, Table.mem_delete] at hr'
    exact hold hr'.1
  | markRetryFailed id error nextRetryAt now =>
    obtain ⟨r,hr,rfl⟩ := (mem_markRetryFailed ..).mp hr'
    refine Or.inl ⟨r,hr,by split <;> rfl,?_⟩
    split
    · exact Nat.le_succ _
    · exact le_rfl
  | deleteOldest limit preserve =>
    simp only [BufferConservation.step, deleteOldest] at hr'
    split_ifs at hr'
    · exact hold hr'
    · exact hold hr'
    · exact hold ((Table.mem_delete ..).mp hr').1
  | dropByIds ids =>
    have ht : (BufferConservation.step s (.dropByIds ids)).table = _ :=
      deleteIdsInChunks_fst s.table ids
    rw [ht, Table.mem_delete] at hr'
    exact hold hr'.1
  | cleanupExpired maxRetries lockTimeoutMs now =>
    simp only [BufferConservation.step, cleanupExpired_table, Table.mem_delete] at hr'
    obtain ⟨r1,hr1,rfl⟩ := (Table.mem_update ..).mp hr'.1
    obtain ⟨r,hr,rfl⟩ := (Table.mem_update ..).mp hr1
    refine Or.inl ⟨r,hr,?_,le_of_eq ?_⟩ <;> split <;> split <;> rfl
  | incrementDropped amount =>
    simp only [BufferConservation.step, incrementDropped] at hr'
    split at hr' <;> exact hold hr'

theorem step_next (s : Store) (op : BufferConservation.Op) :
    s.table.next ≤ (BufferConservation.step s op).table.next := by
  cases op with
  | enqueue record now => exact (insertRecord_next s record _ _ _ now).ge.trans' (Nat.le_succ _)
  | enqueueClaimed record lockId lockedAt now =>
    exact (insertRecord_next s record _ _ _ now).ge.trans' (Nat.le_succ _)
  | dequeueReady =>
    simp only [BufferConservation.step, dequeueReady]
    split_ifs <;> exact le_rfl
  | deleteByIds ids => simp [BufferConservation.step, deleteByIds_table, Table.delete]
  | markRetryFailed => exact le_rfl
  | deleteOldest =>
    simp only [BufferConservation.step, deleteOldest]
    split_ifs <;> exact le_rfl
  | dropByIds ids =>
    exact (congrArg Table.next (deleteIdsInChunks_fst s.table ids)).ge
  | cleanupExpired =>
    simp only [BufferConservation.step, cleanupExpired_table]
    exact le_rfl
  | incrementDropped amount =>
    simp only [BufferConservation.step, incrementDropped]
    split <;> exact le_rfl

theorem op_within (h : History) (op : BufferConservation.Op) (hi : WithinRetries maxRetries h) :
    WithinRetries maxRetries (perform h (.op op)) where
  limit := hi.limit
  counted := by
    intro r' hr'
    rcases step_origin h.store op r' hr' with ⟨r,hr,he,hc⟩ | hnew
    · exact (he ▸ hi.counted r hr).trans hc
    · have hz : failedAttempts h.batches r'.id = 0 := by
        by_contra hne
        exact absurd (hi.issued r'.id (Nat.pos_of_ne_zero hne)) (Nat.not_lt.mpr hnew)
      exact hz.le.trans (Nat.zero_le _)
  issued := fun id hpos => (hi.issued id hpos).trans_le (step_next h.store op)

theorem perform_within (h : History) (a : Activity) (ha : Admitted maxRetries h a)
    (hi : WithinRetries maxRetries h) : WithinRetries maxRetries (perform h a) := by
  cases a with
  | flush cfg connected mode cycles =>
    obtain ⟨rfl,hf⟩ := ha
    simp only [perform, flushBuffer]
    split_ifs
    · simpa using hi
    · simpa using hi
    · exact flushLoop_within cfg cycles _ _ _ h.store h.batches hf hi
  | op op => exact op_within h op hi

theorem flushBuffer_accounted (cfg : BufferSyncConfig) (connected : Bool) (mode : PublishMode)
    (cycles : ℕ → Cycle) (s : Store) :
    (flushBuffer cfg connected mode cycles s).exit ≠ .cutOff ∧
      Accounted cfg.maxRetries s (flushBuffer cfg connected mode cycles s) := by
  unfold flushBuffer
  split_ifs
  · exact ⟨by simp,accounted_idle s _⟩
  · exact ⟨by simp,accounted_idle s _⟩
  · exact ⟨flushLoop_ends cfg cycles _ _ _ s (Nat.succ_pos _) (Nat.lt_succ_self _),
      flushLoop_accounted cfg cycles _ _ _ s⟩

/-- Every flush of a history ends and accounts for each row of the store it
found, and no record ever collects more failed publishes than the limit. -/
theorem flushes_account_for_rows (maxRetries : ℕ) (s : Store) (acts : List Activity)
    (hm : Meets perform (Admitted maxRetries) acts ⟨s,[]⟩) :
    (∀ id, failedAttempts (run perform acts ⟨s,[]⟩).batches id ≤ maxRetries) ∧
      ∀ (cfg : BufferSyncConfig) (connected : Bool) (mode : PublishMode) (cycles : ℕ → Cycle)
        (found : Store), (flushBuffer cfg connected mode cycles found).exit ≠ .cutOff ∧
          Accounted cfg.maxRetries found (flushBuffer cfg connected mode cycles found) := by
  refine ⟨?_,flushBuffer_accounted⟩
  have h0 : WithinRetries maxRetries ⟨s,[]⟩ := by
    refine ⟨?_,?_,?_⟩ <;> simp [failedAttempts]
  exact (run_invariant perform_within acts _ hm h0).limit

def reading : NewRecord where
  endpointName := "pressure"
  topic := "devices/pressure"
  qos := 1
  payload := "1013"
  msgId := none
  isCritical := none

def twoRetries : BufferSyncConfig where
  enabled := true
  flushBatchSize := 10
  maxRetries := 2
  maxBufferRecords := 100
  dropPolicy := .oldest
  maxFlushPerCycle := 50
  bufferEvenWhenOnline := false
  scopeEndpointName := none
  scopeExcludePrefix := none

def refusal (now : ℤ) : ℕ → Cycle := fun _ =>
  ⟨true,now,"lock",fun _ => some "refused",fun _ => now⟩

def outage : List Activity :=
  [.op (.enqueue reading 0),.flush twoRetries true .direct (refusal 0),
    .flush twoRetries true .direct (refusal 60000),
    .flush twoRetries true .direct (refusal 600000)]

theorem flushes_account_for_outage :
    failedAttempts (run perform outage ⟨emptyStore defaultMetadata,[]⟩).batches 1 = 2 ∧
      ∀ id, failedAttempts (run perform outage ⟨emptyStore defaultMetadata,[]⟩).batches id ≤ 2 := by
  refine ⟨by decide,(flushes_account_for_rows 2 (emptyStore defaultMetadata) outage ?_).1⟩
  refine ⟨trivial,⟨rfl,fun _ => ?_⟩,⟨rfl,fun _ => ?_⟩,⟨rfl,fun _ => ?_⟩,trivial⟩
  all_goals
    change FreshLock "lock" _
    decide

end Iotistica.BufferRetries
