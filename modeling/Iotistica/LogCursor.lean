import Iotistica.LogPending

/-!
# The acknowledgement cursor

The cursor is one batch id that stands for all acknowledged batches. It is
sound as long as no batch is acknowledged while an older one is pending:
then every line at or below the cursor was acknowledged or given up, and
these are the lines a prune, a clear or a replay leaves out.
-/

set_option autoImplicit false

namespace Iotistica.CloudLog
open Iotistica Iotistica.GuardedRun

def lines (s : Backend) : List LogBatch := s.spool.files.flatten++s.spool.chunks

def Settled (s : Backend) (batchId : String) : Prop :=
  batchId ∈ (s.history.acked++s.history.dropped).map LogBatch.batchId

instance (s : Backend) (batchId : String) : Decidable (Settled s batchId) :=
  inferInstanceAs (Decidable (_ ∈ _))

def Covered (cfg : Config) (batchId last : String) : Prop :=
  compareBatchIds cfg.localeCompare batchId last ≤ 0

instance (cfg : Config) (batchId last : String) : Decidable (Covered cfg batchId last) :=
  inferInstanceAs (Decidable (_ ≤ _))

theorem isBatchAcked_iff (cfg : Config) (batchId : String) (last : Option String) :
    isBatchAcked cfg batchId last = true ↔ ∃ c, last = some c ∧ Covered cfg batchId c := by
  cases last with
  | none => simp [isBatchAcked]
  | some c => simp [isBatchAcked, Covered]

structure Durable (cfg : Config) (s : Backend) : Prop where
  issued : ∀ b ∈ lines s, Issued cfg s.now s.nextBatchId b.batchId
  kept : ∀ b ∈ lines s, Settled s b.batchId ∨ b.batchId ∈ s.pendingBatches.keys
  cursor : ∀ c, s.spool.lastAckBatchId = some c → Issued cfg s.now s.nextBatchId c
  behind : ∀ c, s.spool.lastAckBatchId = some c → ∀ b ∈ lines s,
    Covered cfg b.batchId c → Settled s b.batchId
  removed : ∀ b ∈ s.history.removed, Settled s b.batchId

def Standing (cfg : Config) (s : Backend) : Phase → Prop
  | .advancing b _ => Issued cfg s.now s.nextBatchId b.batchId ∧
      ∀ k ∈ s.pendingBatches.keys, ¬Covered cfg k b.batchId
  | .clearing _ => s.pendingBatches.keys = []
  | .pruning last _ => s.spool.lastAckBatchId = some last
  | _ => True

structure Sound (cfg : Config) (s : Backend) : Prop where
  tracked : Tracked cfg s
  durable : Durable cfg s
  standing : Standing cfg s s.phase

theorem Durable.same {cfg : Config} {s s' : Backend} (h : Durable cfg s)
    (hspool : s'.spool = s.spool) (hhist : s'.history = s.history)
    (hkeys : s'.pendingBatches.keys = s.pendingBatches.keys) (hnow : s.now ≤ s'.now)
    (hnext : s.nextBatchId ≤ s'.nextBatchId) : Durable cfg s' := by
  have hlines : lines s' = lines s := by rw [lines, lines, hspool]
  have hset : ∀ id, Settled s' id ↔ Settled s id := by
    intro id
    rw [Settled, Settled, hhist]
  constructor
  · intro b hb
    rw [hlines] at hb
    exact (h.issued b hb).later hnow hnext
  · intro b hb
    rw [hlines] at hb
    rw [hset, hkeys]
    exact h.kept b hb
  · intro c hc
    rw [hspool] at hc
    exact (h.cursor c hc).later hnow hnext
  · intro c hc b hb hcov
    rw [hspool] at hc
    rw [hlines] at hb
    exact (hset b.batchId).mpr (h.behind c hc b hb hcov)
  · intro b hb
    rw [hhist] at hb
    exact (hset b.batchId).mpr (h.removed b hb)

theorem Durable.fewer {cfg : Config} {s : Backend} (h : Durable cfg s) (s' : Backend)
    (hlines : lines s' ⊆ lines s) (hcursor : s'.spool.lastAckBatchId = s.spool.lastAckBatchId)
    (hacked : s'.history.acked = s.history.acked)
    (hdropped : s'.history.dropped = s.history.dropped)
    (hpending : s'.pendingBatches = s.pendingBatches) (hnow : s'.now = s.now)
    (hnext : s'.nextBatchId = s.nextBatchId)
    (hremoved : ∀ b ∈ s'.history.removed, Settled s b.batchId) : Durable cfg s' := by
  have hset : ∀ id, Settled s' id ↔ Settled s id := by
    intro id
    rw [Settled, Settled, hacked, hdropped]
  constructor
  · intro b hb
    rw [hnow, hnext]
    exact h.issued b (hlines hb)
  · intro b hb
    rw [hset, hpending]
    exact h.kept b (hlines hb)
  · intro c hc
    rw [hcursor] at hc
    rw [hnow, hnext]
    exact h.cursor c hc
  · intro c hc b hb hcov
    rw [hcursor] at hc
    exact (hset b.batchId).mpr (h.behind c hc b (hlines hb) hcov)
  · exact fun b hb => (hset b.batchId).mpr (hremoved b hb)

theorem Durable.finish {cfg : Config} {s : Backend} {id : String} (h : Durable cfg s)
    (s' : Backend)
    (hspool : s'.spool = s.spool) (hremoved : s'.history.removed = s.history.removed)
    (hpending : s'.pendingBatches = s.pendingBatches.delete id) (hnow : s'.now = s.now)
    (hnext : s'.nextBatchId = s.nextBatchId) (hset : ∀ k, Settled s k → Settled s' k)
    (hid : Settled s' id) : Durable cfg s' := by
  have hlines : lines s' = lines s := by rw [lines, lines, hspool]
  constructor
  · intro b hb
    rw [hlines] at hb
    rw [hnow, hnext]
    exact h.issued b hb
  · intro b hb
    rw [hlines] at hb
    rcases h.kept b hb with hs | hk
    · exact Or.inl (hset _ hs)
    · by_cases he : b.batchId = id
      · exact Or.inl (he ▸ hid)
      · right
        rw [hpending, OrderedMap.mem_delete]
        exact ⟨he,hk⟩
  · intro c hc
    rw [hspool] at hc
    rw [hnow, hnext]
    exact h.cursor c hc
  · intro c hc b hb hcov
    rw [hspool] at hc
    rw [hlines] at hb
    exact hset _ (h.behind c hc b hb hcov)
  · intro b hb
    rw [hremoved] at hb
    exact hset _ (h.removed b hb)

@[simp] theorem keys_countAttempt (m : OrderedMap String LogBatch) (id : String) :
    (m.mapValues (countAttempt id)).keys = m.keys := by
  simp [OrderedMap.keys, OrderedMap.mapValues, Function.comp_def]

theorem sendNext_sound {cfg : Config} {s : Backend} {batches : List LogBatch}
    (ht : Holds cfg s batches) (h : Durable cfg s) : Sound cfg (sendNext cfg s batches) := by
  refine ⟨sendNext_tracked ht,?_,?_⟩
  · cases batches with
    | nil => exact h.same rfl rfl rfl le_rfl le_rfl
    | cons b rest => exact h.same rfl rfl (keys_countAttempt _ _) le_rfl le_rfl
  · cases batches with
    | nil =>
      simp only [sendNext]
      split <;> trivial
    | cons b rest => trivial

theorem Durable.write {cfg : Config} {s s' : Backend} (h : Durable cfg s) (plan : Plan)
    (hspool : s'.spool = s.spool.write (cutBuffer cfg plan s).logBatches)
    (hhist : s'.history = s.history)
    (hpending : s'.pendingBatches = s.pendingBatches.assignAll
      ((cutBuffer cfg plan s).logBatches.map (fun b => (b.batchId,b))))
    (hnow : s'.now = (cutBuffer cfg plan s).now)
    (hnext : s'.nextBatchId = (cutBuffer cfg plan s).nextBatchId) : Durable cfg s' := by
  have hcut := (cutBuffer_cut cfg plan s).1
  have hlines : ∀ b ∈ lines s', b ∈ lines s ∨ b ∈ (cutBuffer cfg plan s).logBatches := by
    intro b hb
    rw [lines, hspool] at hb
    rw [lines]
    simpa [Spool.write, or_assoc] using hb
  have hset : ∀ id, Settled s' id ↔ Settled s id := by
    intro id
    rw [Settled, Settled, hhist]
  constructor
  · intro b hb
    rw [hnow, hnext]
    rcases hlines b hb with hb | hb
    · exact (h.issued b hb).later hcut.clock hcut.counter
    · exact (hcut.ids b hb).issued
  · intro b hb
    rw [hset, hpending, OrderedMap.mem_assignAll]
    rcases hlines b hb with hb | hb
    · exact (h.kept b hb).imp id Or.inl
    · right; right
      simpa [Function.comp_def] using ⟨b,hb,rfl⟩
  · intro c hc
    rw [hspool] at hc
    rw [hnow, hnext]
    exact (h.cursor c hc).later hcut.clock hcut.counter
  · intro c hc b hb hcov
    rw [hspool] at hc
    rcases hlines b hb with hb | hb
    · exact (hset b.batchId).mpr (h.behind c hc b hb hcov)
    · exact absurd hcov ((hcut.ids b hb).not_acked (h.cursor c hc))
  · intro b hb
    rw [hhist] at hb
    exact (hset b.batchId).mpr (h.removed b hb)

theorem sendBuffer_sound {cfg : Config} {s : Backend} {batches : List LogBatch}
    (hspool : cfg.spool = true) (plan : Plan) (ht : Holds cfg s batches) (h : Durable cfg s) :
    Sound cfg (sendBuffer cfg plan s) := by
  have hcut := (cutBuffer_cut cfg plan s).1
  have htracked := sendBuffer_tracked plan ht
  unfold sendBuffer at htracked ⊢
  simp only [hspool, if_true] at htracked ⊢
  split
  · apply sendNext_sound
    · exact Holds.later ht.pending rfl hcut.clock hcut.counter
    · exact h.same rfl rfl rfl hcut.clock hcut.counter
  · rename_i hne
    rw [if_neg hne] at htracked
    exact ⟨htracked,Durable.write h plan rfl rfl rfl rfl rfl,trivial⟩

theorem closeBreaker_rest (s : Backend) :
    (closeBreaker s).spool = s.spool ∧ (closeBreaker s).history = s.history := by
  unfold closeBreaker
  split <;> exact ⟨rfl,rfl⟩

theorem flush_sound {cfg : Config} {s : Backend} (hspool : cfg.spool = true) (plan : Plan)
    (h : Sound cfg s) : Sound cfg (flush cfg plan s) := by
  unfold flush
  split
  · rename_i hidle
    split
    · exact h
    · split
      · refine ⟨Holds.later h.tracked rfl le_rfl le_rfl,h.durable.same rfl rfl rfl le_rfl le_rfl,?_⟩
        show Standing cfg (shed s) s.phase
        rw [hidle]
        trivial
      · have hb := closeBreaker_pending s
        have hr := closeBreaker_rest s
        apply sendBuffer_sound hspool plan
        · exact Holds.later h.tracked hb.1 hb.2.1.ge hb.2.2.ge
        · exact h.durable.same hr.1 hr.2 (by rw [hb.1]) hb.2.1.ge hb.2.2.ge
  · exact h

theorem Sound.same {cfg : Config} {s s' : Backend} (h : Sound cfg s)
    (hspool : s'.spool = s.spool) (hhist : s'.history = s.history)
    (hpending : s'.pendingBatches = s.pendingBatches) (hphase : s'.phase = s.phase)
    (hnow : s.now ≤ s'.now) (hnext : s.nextBatchId ≤ s'.nextBatchId) : Sound cfg s' := by
  refine ⟨?_,h.durable.same hspool hhist (by rw [hpending]) hnow hnext,?_⟩
  · unfold Tracked
    rw [hphase]
    exact Holds.later h.tracked hpending hnow hnext
  · have hst := h.standing
    rw [hphase]
    cases hp : s.phase with
    | advancing b rest =>
      rw [hp] at hst
      refine ⟨hst.1.later hnow hnext,?_⟩
      rw [hpending]
      exact hst.2
    | clearing file =>
      rw [hp] at hst
      show s'.pendingBatches.keys = []
      rw [hpending]
      exact hst
    | pruning last file =>
      rw [hp] at hst
      show s'.spool.lastAckBatchId = some last
      rw [hspool]
      exact hst
    | idle => trivial
    | writing batches => trivial
    | sending b attempt rest => trivial
    | settling => trivial

theorem log_sound {cfg : Config} {s : Backend} (hspool : cfg.spool = true)
    (logMessage : LogMessage) (drawn : Bool) (plan : Plan) (h : Sound cfg s) :
    Sound cfg (log cfg s logMessage drawn plan) := by
  unfold log
  simp only
  split
  · exact h
  · split
    · exact h.same rfl rfl rfl rfl le_rfl le_rfl
    · split
      · exact flush_sound hspool plan (h.same rfl rfl rfl rfl le_rfl le_rfl)
      · exact h.same rfl rfl rfl rfl le_rfl le_rfl

theorem acknowledge_durable {cfg : Config} {s : Backend} {b : LogBatch} (h : Durable cfg s) :
    Durable cfg (acknowledge s b) := by
  apply Durable.finish h (acknowledge s b) rfl rfl rfl rfl rfl
  · intro k hk
    simp only [Settled, acknowledge, List.map_append, List.mem_append] at hk ⊢
    tauto
  · simp [Settled, acknowledge]

theorem drop_durable {cfg : Config} {s : Backend} {b : LogBatch} (h : Durable cfg s) :
    Durable cfg (drop s b) := by
  apply Durable.finish h (drop s b) rfl rfl rfl rfl rfl
  · intro k hk
    simp only [Settled, drop, List.map_append, List.mem_append] at hk ⊢
    tauto
  · simp [Settled, drop]

theorem failBatch_sound {cfg : Config} {s : Backend} {b : LogBatch} {rest : List LogBatch}
    (ht : Holds cfg s (b::rest)) (h : Durable cfg s) : Sound cfg (failBatch cfg s b rest) := by
  unfold failBatch
  split
  · exact sendNext_sound (ht.delete rfl rfl rfl) (drop_durable h)
  · exact sendNext_sound ht.rest h

theorem onFailure_rest (s : Backend) :
    (onFailure s).spool = s.spool ∧ (onFailure s).history = s.history := by
  unfold onFailure
  simp only
  split <;> exact ⟨rfl,rfl⟩

def OldestPending (cfg : Config) (s : Backend) (batchId : String) : Prop :=
  ∀ k ∈ s.pendingBatches.keys, Covered cfg k batchId → k = batchId

instance (cfg : Config) (s : Backend) (batchId : String) :
    Decidable (OldestPending cfg s batchId) :=
  inferInstanceAs (Decidable (∀ k ∈ s.pendingBatches.keys, Covered cfg k batchId → k = batchId))

theorem receive_sound {cfg : Config} {s : Backend} {b : LogBatch} (attempt : ℕ)
    {rest : List LogBatch} (reply : Reply) (hspool : cfg.spool = true)
    (ht : Holds cfg s (b::rest)) (h : Durable cfg s)
    (hold : reply = .ack (some b.batchId) → OldestPending cfg s b.batchId) :
    Sound cfg (receive cfg s b attempt rest reply) := by
  have ht' : Holds cfg { s with retryFailures := 0 } (b::rest) :=
    Holds.later ht rfl le_rfl le_rfl
  have h' : Durable cfg { s with retryFailures := 0 } := h.same rfl rfl rfl le_rfl le_rfl
  cases reply with
  | ack id =>
    simp only [receive, hspool, if_true]
    split
    · exact sendNext_sound ht'.rest h'
    · rename_i hid
      rw [not_not] at hid
      refine ⟨ht'.delete rfl rfl rfl,(acknowledge_durable h').same rfl rfl rfl le_rfl le_rfl,?_,?_⟩
      · obtain ⟨b',hmem,-⟩ := ht.todo b List.mem_cons_self
        exact (ht.keyed _ hmem).2
      · intro k hk hcov
        have hk' := (OrderedMap.mem_delete _ _ _).mp hk
        exact hk'.1 (hold (by rw [hid]) k hk'.2 hcov)
  | noBody => exact failBatch_sound ht' h'
  | failed retryable =>
    simp only [receive]
    split
    · have hf := onFailure_pending { s with retryFailures := s.retryFailures+1 }
      have hr := onFailure_rest { s with retryFailures := s.retryFailures+1 }
      apply failBatch_sound
      · exact Holds.later ht hf.1 hf.2.1.ge hf.2.2.ge
      · exact h.same hr.1 hr.2 (by rw [hf.1]) hf.2.1.ge hf.2.2.ge
    · exact ⟨⟨ht.keyed,ht.todo,ht.distinct⟩,h.same rfl rfl rfl le_rfl le_rfl,trivial⟩

/-- Whatever the new cursor covers is settled, because nothing it covers is
pending. -/
theorem updateAckCursor_durable {cfg : Config} {s : Backend} {id : String} (h : Durable cfg s)
    (hid : Issued cfg s.now s.nextBatchId id)
    (hnone : ∀ k ∈ s.pendingBatches.keys, ¬Covered cfg k id) :
    Durable cfg { s with spool := s.spool.updateAckCursor cfg id } := by
  have hmoved : Durable cfg { s with spool := { s.spool with lastAckBatchId := some id } } := by
    refine ⟨h.issued,h.kept,?_,?_,h.removed⟩
    · intro c hc
      rw [← Option.some.inj hc]
      exact hid
    · intro c hc b hb hcov
      rw [← Option.some.inj hc] at hcov
      rcases h.kept b hb with hs | hk
      · exact hs
      · exact absurd hcov (hnone _ hk)
  unfold Spool.updateAckCursor
  split
  · exact hmoved
  · split
    · exact hmoved
    · exact h

theorem mem_appendActive {files : List (List LogBatch)} {batches : List LogBatch} {b : LogBatch}
    (h : b ∈ (appendActive files batches).flatten) : b ∈ files.flatten ∨ b ∈ batches := by
  unfold appendActive at h
  rcases List.eq_nil_or_concat files with rfl | ⟨front,last,rfl⟩
  · simpa using h
  · simpa [or_assoc] using h

theorem mem_enforceCap {cap : Cap} {files : List (List LogBatch)} {b : LogBatch}
    (h : b ∈ (enforceCap cap files).flatten) : b ∈ files.flatten := by
  unfold enforceCap at h
  rcases List.eq_nil_or_concat files with rfl | ⟨front,last,rfl⟩
  · simp at h
  · simp only [List.dropLast_concat, List.concat_eq_append, List.getLastD_concat,
      List.flatten_append, List.flatten_cons, List.flatten_nil, List.append_nil,
      List.mem_append] at h ⊢
    rcases h with h | h
    · obtain ⟨file,hfile,hb⟩ := List.mem_flatten.mp h
      exact Or.inl (List.mem_flatten.mpr ⟨file,List.mem_of_mem_drop hfile,hb⟩)
    · exact Or.inr (List.mem_of_mem_drop h)

theorem flushWriteBuffer_lines (sp : Spool) (rotated : Bool) (cap : Cap) :
    (sp.flushWriteBuffer rotated cap).files.flatten++(sp.flushWriteBuffer rotated cap).chunks
      ⊆ sp.files.flatten++sp.chunks := by
  unfold Spool.flushWriteBuffer
  simp only
  split
  · exact fun b hb => hb
  · intro b hb
    rw [List.append_nil] at hb
    have hb' := mem_enforceCap hb
    apply List.mem_append.mpr
    split at hb'
    · rw [List.flatten_append] at hb'
      exact mem_appendActive (by simpa using hb')
    · exact mem_appendActive hb'

theorem flushWriteBuffer_cursor (sp : Spool) (rotated : Bool) (cap : Cap) :
    (sp.flushWriteBuffer rotated cap).lastAckBatchId = sp.lastAckBatchId := by
  unfold Spool.flushWriteBuffer
  simp only
  split <;> rfl

theorem writeOut_durable {cfg : Config} {s : Backend} (rotated : Bool) (cap : Cap)
    (h : Durable cfg s) :
    Durable cfg { s with spool := s.spool.flushWriteBuffer rotated cap } :=
  h.fewer _ (flushWriteBuffer_lines s.spool rotated cap) (flushWriteBuffer_cursor s.spool rotated cap)
    rfl rfl rfl rfl rfl h.removed

theorem keys_eq_nil_iff (m : OrderedMap String LogBatch) : m.keys = [] ↔ m.size = 0 := by
  rw [OrderedMap.size_eq, List.length_eq_zero_iff]

theorem settle_sound {cfg : Config} {s : Backend} (rotated : Bool) (cap : Cap)
    (ht : Tracked cfg s) (h : Durable cfg s) : Sound cfg (settle s rotated cap) := by
  have hw := writeOut_durable rotated cap h
  have htracked := settle_tracked rotated cap ht
  unfold settle at htracked ⊢
  simp only at htracked ⊢
  split
  · rename_i hempty
    rw [if_pos hempty] at htracked
    exact ⟨htracked,hw.same rfl rfl rfl le_rfl le_rfl,(keys_eq_nil_iff _).mpr hempty⟩
  · rename_i hpend
    rw [if_neg hpend] at htracked
    split
    · exact ⟨Holds.later ht.none rfl le_rfl le_rfl,hw.same rfl rfl rfl le_rfl le_rfl,trivial⟩
    · rename_i last hlast
      exact ⟨Holds.later ht.none rfl le_rfl le_rfl,hw.same rfl rfl rfl le_rfl le_rfl,hlast⟩

theorem mem_set_filter {files : List (List LogBatch)} {file : ℕ} {gone : LogBatch → Bool}
    {b : LogBatch}
    (h : b ∈ (files.set file ((files.getD file []).filter gone)).flatten) :
    b ∈ files.flatten := by
  obtain ⟨batches,hmem,hb⟩ := List.mem_flatten.mp h
  rcases List.mem_or_eq_of_mem_set hmem with hmem | rfl
  · exact List.mem_flatten.mpr ⟨batches,hmem,hb⟩
  · have hin := List.mem_of_mem_filter hb
    rw [List.getD_eq_getElem?_getD] at hin
    cases hf : files[file]? with
    | none => simp [hf] at hin
    | some found =>
      rw [hf] at hin
      exact List.mem_flatten.mpr ⟨found,List.mem_of_getElem? hf,hin⟩

theorem removeFrom_durable {cfg : Config} {s : Backend} {file : ℕ} {gone : LogBatch → Bool}
    (h : Durable cfg s)
    (hgone : ∀ b ∈ lines s, gone b = true → Settled s b.batchId) :
    Durable cfg (removeFrom s file gone) := by
  apply h.fewer (removeFrom s file gone) ?_ rfl rfl rfl rfl rfl rfl
  · intro b hb
    rcases List.mem_append.mp hb with hb | hb
    · exact h.removed b hb
    · obtain ⟨hin,hg⟩ := List.mem_filter.mp hb
      apply hgone b ?_ hg
      apply List.mem_append_left
      rw [List.getD_eq_getElem?_getD] at hin
      cases hf : s.spool.files[file]? with
      | none => simp [hf] at hin
      | some found =>
        rw [hf] at hin
        exact List.mem_flatten.mpr ⟨found,List.mem_of_getElem? hf,hin⟩
  · intro b hb
    rcases List.mem_append.mp hb with hb | hb
    · exact List.mem_append_left _ (mem_set_filter hb)
    · exact List.mem_append_right _ hb

theorem sweep_sound {cfg : Config} {s : Backend} (h : Sound cfg s) : Sound cfg (sweep cfg s) := by
  have hst := h.standing
  unfold sweep
  split
  · rename_i file hphase
    rw [hphase] at hst
    split
    · refine ⟨Holds.later h.tracked.none rfl le_rfl le_rfl,?_,hst⟩
      refine Durable.same (removeFrom_durable h.durable ?_) rfl rfl rfl le_rfl le_rfl
      intro b hb _
      rcases h.durable.kept b hb with hs | hk
      · exact hs
      · rw [show s.pendingBatches.keys = [] from hst] at hk
        cases hk
    · exact ⟨Holds.later h.tracked.none rfl le_rfl le_rfl,h.durable.same rfl rfl rfl le_rfl le_rfl,
        trivial⟩
  · rename_i last file hphase
    rw [hphase] at hst
    split
    · refine ⟨Holds.later h.tracked.none rfl le_rfl le_rfl,?_,hst⟩
      refine Durable.same (removeFrom_durable h.durable ?_) rfl rfl rfl le_rfl le_rfl
      intro b hb hacked
      obtain ⟨c,hc,hcov⟩ := (isBatchAcked_iff cfg _ _).mp hacked
      rw [← Option.some.inj hc] at hcov
      exact h.durable.behind last hst b hb hcov
    · exact ⟨Holds.later h.tracked.none rfl le_rfl le_rfl,h.durable.same rfl rfl rfl le_rfl le_rfl,
        trivial⟩
  · exact h

theorem restart_sound {cfg : Config} {s : Backend} (hspool : cfg.spool = true) (downtime : ℕ)
    (cap : Cap) (h : Durable cfg s) : Sound cfg (restart cfg s downtime cap) := by
  have hlater : s.now < s.now+downtime+1 := by omega
  have hdisk : ∀ b ∈ (enforceCap cap s.spool.files).flatten, b ∈ lines s :=
    fun b hb => List.mem_append_left _ (mem_enforceCap hb)
  have hskip : ∀ b ∈ (enforceCap cap s.spool.files).flatten,
      isBatchAcked cfg b.batchId s.spool.lastAckBatchId = true → Settled s b.batchId := by
    intro b hb hacked
    obtain ⟨c,hc,hcov⟩ := (isBatchAcked_iff cfg _ _).mp hacked
    exact h.behind c hc b (hdisk b hb) hcov
  unfold restart
  simp only [hspool, if_true]
  refine ⟨⟨?_,by simp [boot, Phase.batches],by simp [boot, Phase.batches]⟩,⟨?_,?_,?_,?_,?_⟩,trivial⟩
  · intro e he
    rcases OrderedMap.of_mem_entries_assignAll _ _ he with he | he
    · cases he
    · obtain ⟨b,hb,rfl⟩ := List.mem_map.mp he
      exact ⟨rfl,(h.issued b (hdisk b (List.mem_of_mem_filter hb))).restart hlater⟩
  · intro b hb
    rw [lines, boot, List.append_nil] at hb
    exact (h.issued b (hdisk b hb)).restart hlater
  · intro b hb
    rw [lines, boot, List.append_nil] at hb
    by_cases hacked : isBatchAcked cfg b.batchId s.spool.lastAckBatchId = true
    · exact Or.inl (hskip b hb hacked)
    · right
      rw [OrderedMap.mem_assignAll]
      right
      apply List.mem_map.mpr
      refine ⟨(b.batchId,b),?_,rfl⟩
      apply List.mem_map.mpr
      exact ⟨b,List.mem_filter.mpr ⟨hb,by simpa using hacked⟩,rfl⟩
  · intro c hc
    exact (h.cursor c hc).restart hlater
  · intro c hc b hb hcov
    rw [lines, boot, List.append_nil] at hb
    exact h.behind c hc b (hdisk b hb) hcov
  · intro b hb
    rcases List.mem_append.mp hb with hb | hb
    · exact h.removed b hb
    · obtain ⟨hin,hacked⟩ := List.mem_filter.mp hb
      exact hskip b hin hacked

def AnsweredInOrder (cfg : Config) (s : Backend) (reply : Reply) : Phase → Prop
  | .sending b _ _ => reply = .ack (some b.batchId) → OldestPending cfg s b.batchId
  | _ => True

def AckInOrder (cfg : Config) (s : Backend) : Event → Prop
  | .work (.reply reply) => AnsweredInOrder cfg s reply s.phase
  | _ => True

instance (cfg : Config) (s : Backend) (reply : Reply) :
    (phase : Phase) → Decidable (AnsweredInOrder cfg s reply phase)
  | .sending b _ _ =>
    inferInstanceAs (Decidable (reply = .ack (some b.batchId) → OldestPending cfg s b.batchId))
  | .idle => .isTrue trivial
  | .writing _ => .isTrue trivial
  | .advancing _ _ => .isTrue trivial
  | .settling => .isTrue trivial
  | .clearing _ => .isTrue trivial
  | .pruning _ _ => .isTrue trivial

instance (cfg : Config) (s : Backend) : (e : Event) → Decidable (AckInOrder cfg s e)
  | .work (.reply reply) => inferInstanceAs (Decidable (AnsweredInOrder cfg s reply s.phase))
  | .work (.tick _) => .isTrue trivial
  | .work (.log _ _ _) => .isTrue trivial
  | .work (.flush _) => .isTrue trivial
  | .work .written => .isTrue trivial
  | .work .cursorSaved => .isTrue trivial
  | .work (.writeOut _ _) => .isTrue trivial
  | .work (.settle _ _) => .isTrue trivial
  | .work .sweep => .isTrue trivial
  | .restart _ _ => .isTrue trivial

theorem work_sound {cfg : Config} {s : Backend} (hspool : cfg.spool = true) (w : Work)
    (hok : AckInOrder cfg s (.work w)) (h : Sound cfg s) : Sound cfg (work cfg s w) := by
  have ht := h.tracked
  have hst := h.standing
  unfold Tracked at ht
  cases w with
  | tick ms => exact h.same rfl rfl rfl rfl (Nat.le_add_right _ _) le_rfl
  | log logMessage drawn plan => exact log_sound hspool logMessage drawn plan h
  | flush plan => exact flush_sound hspool plan h
  | written =>
    simp only [work]
    split
    · rename_i batches hphase
      rw [hphase] at ht
      exact sendNext_sound ht h.durable
    · exact h
  | reply reply =>
    simp only [work, AckInOrder] at hok ⊢
    split
    · rename_i b attempt rest hphase
      rw [hphase] at ht hok
      exact receive_sound attempt reply hspool ht h.durable hok
    · exact h
  | cursorSaved =>
    simp only [work]
    split
    · rename_i b rest hphase
      rw [hphase] at ht hst
      have hd := updateAckCursor_durable h.durable hst.1 hst.2
      exact sendNext_sound ⟨ht.keyed,ht.todo,ht.distinct⟩ (hd.same rfl rfl rfl le_rfl le_rfl)
    · exact h
  | writeOut rotated cap =>
    refine ⟨Holds.later ht rfl le_rfl le_rfl,writeOut_durable rotated cap h.durable,?_⟩
    show Standing cfg _ s.phase
    cases hphase : s.phase with
    | pruning last file =>
      rw [hphase] at hst
      exact (flushWriteBuffer_cursor s.spool rotated cap).trans hst
    | idle => trivial
    | writing batches => trivial
    | sending b attempt rest => trivial
    | advancing b rest =>
      rw [hphase] at hst
      exact hst
    | settling => trivial
    | clearing file =>
      rw [hphase] at hst
      exact hst
  | settle rotated cap =>
    simp only [work]
    split
    · exact settle_sound rotated cap h.tracked h.durable
    · exact h
  | sweep => exact sweep_sound h

theorem step_sound {cfg : Config} {s : Backend} (hspool : cfg.spool = true) (e : Event)
    (hok : AckInOrder cfg s e) (h : Sound cfg s) : Sound cfg (step cfg s e) := by
  cases e with
  | work w => exact work_sound hspool w hok h
  | restart downtime cap => exact restart_sound hspool downtime cap h.durable

theorem fresh_sound (cfg : Config) (now : ℕ) : Sound cfg (fresh now) := by
  refine ⟨⟨?_,?_,?_⟩,⟨?_,?_,?_,?_,?_⟩,trivial⟩ <;>
    simp [fresh, boot, lines, OrderedMap.empty, Phase.batches]

/-- In every run that acknowledges in order, a line left out by a prune, a
clear or a replay was acknowledged or given up. -/
theorem ack_cursor_sound (cfg : Config) (hspool : cfg.spool = true) (now : ℕ) (es : List Event)
    (h : Meets (step cfg) (AckInOrder cfg) es (fresh now)) :
    ∀ pre, pre <+: es → ∀ b ∈ (run (step cfg) pre (fresh now)).history.removed,
      Settled (run (step cfg) pre (fresh now)) b.batchId := by
  rintro pre ⟨post,rfl⟩
  rw [meets_append] at h
  have hs : Sound cfg (run (step cfg) pre (fresh now)) :=
    run_invariant (fun _ e hok hi => step_sound hspool e hok hi) pre _ h.1 (fresh_sound cfg now)
  exact hs.durable.removed

def spoolConfig : Config where
  deviceUuid := "d"
  bufferSize := 2*1024*1024
  spool := true
  jsonLength := fun log => 120+textLength log.message
  localeCompare := fun _ _ => 0

def spoolPlan : Plan := ⟨50,5*1024*1024,[]⟩

def spoolLog (message : String) : Event :=
  .work (.log ⟨message,some .error,some .container,none,false⟩ true spoolPlan)

def sendNew (message : String) (reply : Reply) : List Event :=
  [spoolLog message,.work (.flush spoolPlan),.work .written,.work (.reply reply)]

def settleAll : List Event :=
  [.work .cursorSaved,.work (.settle false ⟨0,0⟩),.work .sweep,.work .sweep]

def outOfOrder : List Event :=
  sendNew "a" (.failed false)++settleAll++sendNew "b" (.ack (some "d-0-1"))++settleAll

theorem ack_cursor_unsound :
    ¬∀ pre, pre <+: outOfOrder → ∀ b ∈ (run (step spoolConfig) pre (fresh 0)).history.removed,
      Settled (run (step spoolConfig) pre (fresh 0)) b.batchId := by
  intro h
  exact absurd (h outOfOrder List.prefix_rfl) (by decide +kernel)

def inOrder : List Event :=
  sendNew "a" (.failed false)++settleAll++
  [.work (.flush spoolPlan),.work (.reply (.ack (some "d-0-0")))]++[.work .cursorSaved]++
  [.restart 5 ⟨0,0⟩]++sendNew "b" (.ack (some "d-6-0"))++settleAll

theorem ack_cursor_sound_inOrder :
    Meets (step spoolConfig) (AckInOrder spoolConfig) inOrder (fresh 0) ∧
      ∀ b ∈ (run (step spoolConfig) inOrder (fresh 0)).history.removed,
        Settled (run (step spoolConfig) inOrder (fresh 0)) b.batchId := by
  have hm : Meets (step spoolConfig) (AckInOrder spoolConfig) inOrder (fresh 0) := by
    decide +kernel
  exact ⟨hm,ack_cursor_sound spoolConfig rfl 0 inOrder hm inOrder List.prefix_rfl⟩

end Iotistica.CloudLog
