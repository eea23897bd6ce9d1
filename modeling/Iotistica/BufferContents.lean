import Iotistica.BufferAdmission
import Iotistica.BufferRetries

/-!
# What the buffer does with the contents of a row

Rows are locked, released, retried, recovered and deleted, but their payload
and their message id stay as they were inserted, and an id is never given
twice. So whatever a flush sends under an id is what the publish stored.
-/

set_option autoImplicit false

namespace Iotistica.BufferContents
open Iotistica.GuardedRun Iotistica.KeyedTable Iotistica.BufferStore Iotistica.BufferDeletion
open Iotistica.BufferLocking Iotistica.BufferSync Iotistica.BufferAdmission Iotistica.BufferRetries

structure Copies (r r' : MessageBufferRecord) : Prop where
  id : r'.id = r.id
  payload : r'.payload = r.payload
  msgId : r'.msgId = r.msgId

theorem copies_refl (r : MessageBufferRecord) : Copies r r := ⟨rfl,rfl,rfl⟩

theorem Copies.trans {a b c : MessageBufferRecord} (h : Copies a b) (h' : Copies b c) :
    Copies a c :=
  ⟨h'.id.trans h.id,h'.payload.trans h.payload,h'.msgId.trans h.msgId⟩

def Copied (t : Rows) (records : List MessageBufferRecord) : Prop :=
  ∀ r' ∈ records, r'.id < t.next → ∃ r ∈ t.rows, Copies r r'

theorem copied_nil (t : Rows) : Copied t [] := fun _ hr => absurd hr List.not_mem_nil

structure Retains (t t' : Rows) : Prop where
  next : t.next ≤ t'.next
  rows : Copied t t'.rows

theorem retains_refl (t : Rows) : Retains t t :=
  ⟨le_rfl,fun r hr _ => ⟨r,hr,copies_refl r⟩⟩

theorem Retains.copied {t t' : Rows} (h : Retains t t') {records : List MessageBufferRecord}
    (hrecords : Copied t' records) : Copied t records := by
  intro r'' hr'' hold
  obtain ⟨r',hr',hcopy'⟩ := hrecords r'' hr'' (hold.trans_le h.next)
  obtain ⟨r,hr,hcopy⟩ := h.rows r' hr' (hcopy'.id ▸ hold)
  exact ⟨r,hr,hcopy.trans hcopy'⟩

theorem Retains.trans {t t' t'' : Rows} (h : Retains t t') (h' : Retains t' t'') :
    Retains t t'' :=
  ⟨h.next.trans h'.next,h.copied h'.rows⟩

theorem retains_update (t : Rows) (target : MessageBufferRecord → Bool)
    {f : MessageBufferRecord → MessageBufferRecord} (hf : ∀ r, (f r).id = r.id)
    (hcopy : ∀ r, Copies r (f r)) : Retains t (t.update target f hf) := by
  refine ⟨le_rfl,fun r' hr' _ => ?_⟩
  obtain ⟨r,hr,rfl⟩ := (Table.mem_update t target f hf r').mp hr'
  refine ⟨r,hr,?_⟩
  split
  · exact hcopy r
  · exact copies_refl r

theorem retains_delete (t : Rows) (p : MessageBufferRecord → Bool) : Retains t (t.delete p) :=
  ⟨le_rfl,fun r hr _ => ⟨r,((Table.mem_delete t p r).mp hr).1,copies_refl r⟩⟩

theorem retains_insert (s : Store) (record : NewRecord) (status : Status)
    (lockId : Option String) (lockedAt : Option ℤ) (now : ℤ) :
    Retains s.table (insertRecord s record status lockId lockedAt now).1.table := by
  refine ⟨(insertRecord_next s record status lockId lockedAt now).ge.trans' (Nat.le_succ _),?_⟩
  intro r' hr' hold
  rcases mem_insertRecord hr' with hr' | rfl
  · exact ⟨r',hr',copies_refl r'⟩
  · exact absurd hold (lt_irrefl _)

theorem retains_deleteByIds (s : Store) (ids : List ℕ) :
    Retains s.table (deleteByIds s ids).1.table := by
  rw [deleteByIds_table]
  exact retains_delete s.table _

theorem retains_dropByIds (s : Store) (ids : List ℕ) :
    Retains s.table (dropByIds s ids).1.table := by
  have htable : (dropByIds s ids).1.table = s.table.delete (idIn ids) :=
    deleteIdsInChunks_fst s.table ids
  rw [htable]
  exact retains_delete s.table _

theorem retains_markRetryFailed (s : Store) (id : ℕ) (error : String) (nextRetryAt : Option ℤ)
    (now : ℤ) : Retains s.table (markRetryFailed s id error nextRetryAt now).table :=
  retains_update s.table _ (failRow_id error nextRetryAt now) (fun _ => ⟨rfl,rfl,rfl⟩)

theorem dequeue_retains (s : Store) (limit now lockTimeoutMs : ℤ) (maxRetries : Option ℕ)
    (scope : Scope) (lockId : String) :
    Retains s.table (dequeueReady s limit now lockTimeoutMs maxRetries scope lockId).1.table ∧
      Copied s.table (dequeueReady s limit now lockTimeoutMs maxRetries scope lockId).2 := by
  have hd := dequeueReady_dequeued s limit now lockTimeoutMs maxRetries scope lockId
  generalize (dequeueReady s limit now lockTimeoutMs maxRetries scope lockId).1 = s' at *
  generalize (dequeueReady s limit now lockTimeoutMs maxRetries scope lockId).2 = records at *
  cases hd with
  | idle => exact ⟨retains_refl s.table,copied_nil s.table⟩
  | locked target hready hsome t ht records hrec hnodup =>
    have hretains : Retains s.table t := by
      rw [ht]
      exact retains_update s.table target (lockRow_id lockId now) (fun _ => ⟨rfl,rfl,rfl⟩)
    exact ⟨hretains,fun r hr => hretains.rows r ((hrec r).mp hr).1⟩

theorem step_retains (s : Store) (op : BufferConservation.Op) :
    Retains s.table (BufferConservation.step s op).table := by
  cases op with
  | enqueue record now => exact retains_insert s record _ _ _ now
  | enqueueClaimed record lockId lockedAt now => exact retains_insert s record _ _ _ now
  | dequeueReady limit now lockTimeoutMs maxRetries scope lockId =>
    exact (dequeue_retains s limit now lockTimeoutMs maxRetries scope lockId).1
  | deleteByIds ids => exact retains_deleteByIds s ids
  | markRetryFailed id error nextRetryAt now =>
    exact retains_markRetryFailed s id error nextRetryAt now
  | deleteOldest limit preserve =>
    simp only [BufferConservation.step, deleteOldest]
    split_ifs
    · exact retains_refl s.table
    · exact retains_refl s.table
    · exact retains_delete s.table _
  | dropByIds ids => exact retains_dropByIds s ids
  | cleanupExpired maxRetries lockTimeoutMs now =>
    simp only [BufferConservation.step, cleanupExpired_table]
    have hrecovered := retains_update s.table (fun r => r.status == .sending &&
      before r.lockedAt (now-lockTimeoutMs)) recoverRow_id (fun _ => ⟨rfl,rfl,rfl⟩)
    exact (hrecovered.trans (retains_update _ _ sanitizeRow_id (fun _ => ⟨rfl,rfl,rfl⟩))).trans
      (retains_delete _ _)
  | incrementDropped amount =>
    simp only [BufferConservation.step, incrementDropped]
    split
    · exact retains_refl s.table
    · exact retains_refl s.table

theorem markFailed_retains (maxRetries : ℕ) (c : Cycle) (s : Store) (r : MessageBufferRecord) :
    Retains s.table (markFailed maxRetries c s r).table := by
  unfold markFailed
  split
  · exact retains_markRetryFailed s _ _ _ _
  · exact retains_refl s.table

theorem settle_retains (maxRetries : ℕ) (c : Cycle) (s : Store)
    (records : List MessageBufferRecord) :
    Retains s.table (settle maxRetries c s records).table := by
  have hmarked : ∀ (rs : List MessageBufferRecord) (s : Store),
      Retains s.table (rs.foldl (markFailed maxRetries c) s).table := by
    intro rs
    induction rs with
    | nil => exact fun s => retains_refl s.table
    | cons r rs ih => exact fun s => (markFailed_retains maxRetries c s r).trans (ih _)
  exact ((retains_deleteByIds s _).trans (retains_dropByIds _ _)).trans (hmarked records _)

def Sent (t : Rows) (batches : List Batch) : Prop := ∀ b ∈ batches, Copied t b.records

theorem sent_nil (t : Rows) : Sent t [] := fun _ hb => absurd hb List.not_mem_nil

theorem flushLoop_retains (cfg : BufferSyncConfig) (cycles : ℕ → Cycle) (fuel k handled : ℕ)
    (s : Store) :
    Retains s.table (flushLoop cfg cycles fuel k handled s).store.table ∧
      Sent s.table (flushLoop cfg cycles fuel k handled s).batches := by
  induction fuel generalizing k handled s with
  | zero => exact ⟨retains_refl s.table,sent_nil s.table⟩
  | succ fuel ih =>
    have hdequeue := dequeue_retains s cfg.flushBatchSize (cycles k).now defaultLockTimeoutMs
      (some cfg.maxRetries) cfg.scope (cycles k).lockId
    simp only [flushLoop]
    generalize dequeueReady s cfg.flushBatchSize (cycles k).now defaultLockTimeoutMs
      (some cfg.maxRetries) cfg.scope (cycles k).lockId = out at *
    split
    · exact ⟨retains_refl s.table,sent_nil s.table⟩
    · split
      · exact ⟨retains_refl s.table,sent_nil s.table⟩
      · split
        · exact ⟨hdequeue.1,sent_nil s.table⟩
        · have hsettled := hdequeue.1.trans (settle_retains cfg.maxRetries (cycles k) out.1 out.2)
          obtain ⟨hstore,hsent⟩ := ih (k+1) (handled+out.2.length)
            (settle cfg.maxRetries (cycles k) out.1 out.2)
          refine ⟨hsettled.trans hstore,fun b hb => ?_⟩
          rcases List.mem_cons.mp hb with rfl | hb
          · exact hdequeue.2
          · exact hsettled.copied (hsent b hb)

theorem flushBuffer_retains (cfg : BufferSyncConfig) (connected : Bool) (mode : PublishMode)
    (cycles : ℕ → Cycle) (s : Store) :
    Retains s.table (flushBuffer cfg connected mode cycles s).store.table ∧
      Sent s.table (flushBuffer cfg connected mode cycles s).batches := by
  unfold flushBuffer
  split
  · exact ⟨retains_refl s.table,sent_nil s.table⟩
  · split
    · exact ⟨retains_refl s.table,sent_nil s.table⟩
    · exact flushLoop_retains cfg cycles _ _ _ s

theorem perform_retains (s : Store) (h : History) (a : Activity)
    (hi : Retains s.table h.store.table ∧ Sent s.table h.batches) :
    Retains s.table (perform h a).store.table ∧ Sent s.table (perform h a).batches := by
  cases a with
  | flush cfg connected mode cycles =>
    have hflush := flushBuffer_retains cfg connected mode cycles h.store
    refine ⟨hi.1.trans hflush.1,fun b hb => ?_⟩
    rcases List.mem_append.mp hb with hb | hb
    · exact hi.2 b hb
    · exact hi.1.copied (hflush.2 b hb)
  | op op => exact ⟨hi.1.trans (step_retains h.store op),hi.2⟩

theorem run_retains (s : Store) (acts : List Activity) :
    Retains s.table (run perform acts ⟨s,[]⟩).store.table ∧
      Sent s.table (run perform acts ⟨s,[]⟩).batches :=
  run_invariant (fun h a (_ : True) => perform_retains s h a) acts _ (meets_any _ _ _)
    ⟨retains_refl s.table,sent_nil s.table⟩

structure Holds (s s' : Store) (p : Publish) : Prop where
  next : s'.table.next = s.table.next+1
  payload : ∀ r ∈ s'.table.rows, r.id = s.table.next → r.payload = p.payloadText
  msgId : ∀ r ∈ s'.table.rows, r.id = s.table.next → r.msgId = p.msgId

theorem enqueue_holds (cfg : BufferSyncConfig) {s s' : Store} (p : Publish)
    (hnext : s'.table.next = s.table.next) : Holds s (enqueuePublish cfg s' p) p := by
  have hrow : ∀ r ∈ (enqueuePublish cfg s' p).table.rows, r.id = s.table.next →
      r.payload = p.payloadText ∧ r.msgId = p.msgId := by
    intro r hr hid
    rcases mem_insertRecord hr with hr | rfl
    · have hbelow := s'.table.below r hr
      rw [hnext, hid] at hbelow
      exact absurd hbelow (lt_irrefl _)
    · exact ⟨rfl,rfl⟩
  refine ⟨?_,fun r hr hid => (hrow r hr hid).1,fun r hr hid => (hrow r hr hid).2⟩
  rw [← hnext]
  exact insertRecord_next s' _ _ _ _ _

theorem handlePublish_holds {cfg : BufferSyncConfig} {s : Store} {p : Publish}
    (h : (handlePublish cfg s p).2 = .buffered) : Holds s (handlePublish cfg s p).1 p := by
  unfold handlePublish at h ⊢
  split
  · simp_all
  · split
    · simp_all
    · split
      · have hadmitted := handleAdmissionPressure_accounted cfg s p
        simp only at hadmitted ⊢
        split
        · rename_i hbuffered
          rw [if_pos hbuffered] at hadmitted
          exact enqueue_holds cfg p hadmitted.next
        · simp_all
      · exact enqueue_holds cfg p rfl

theorem sent_as_published {cfg : BufferSyncConfig} {s : Store} {p : Publish}
    (h : (handlePublish cfg s p).2 = .buffered) (acts : List Activity) {b : Batch}
    (hb : b ∈ (run perform acts ⟨(handlePublish cfg s p).1,[]⟩).batches)
    {r : MessageBufferRecord} (hr : r ∈ b.records) (hid : r.id = s.table.next) :
    r.payload = p.payloadText ∧ r.msgId = p.msgId := by
  have hholds := handlePublish_holds h
  have hgiven : r.id < (handlePublish cfg s p).1.table.next := by
    rw [hid, hholds.next]
    exact Nat.lt_succ_self _
  obtain ⟨r₀,hr₀,hcopy⟩ := (run_retains _ acts).2 b hb r hr hgiven
  have hid₀ : r₀.id = s.table.next := hcopy.id.symm.trans hid
  exact ⟨hcopy.payload.trans (hholds.payload r₀ hr₀ hid₀),
    hcopy.msgId.trans (hholds.msgId r₀ hr₀ hid₀)⟩

end Iotistica.BufferContents
