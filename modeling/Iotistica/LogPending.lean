import Iotistica.LogBackend

/-!
# Batches on their way

Ids grow with the clock and the counter, so a batch that is cut meets no
older one of its id. What a flush still has to send is in the map of
pending batches under its own id, each batch once; every step of the
backend keeps this.
-/

set_option autoImplicit false

namespace Iotistica.CloudLog
open Iotistica Iotistica.GuardedRun

def Issued (cfg : Config) (now nextBatchId : ℕ) (id : String) : Prop :=
  ∃ t n, id = batchIdText cfg.deviceUuid t n ∧ (t < now ∨ t = now ∧ n < nextBatchId)

theorem Issued.later {cfg : Config} {now next now' next' : ℕ} {id : String}
    (h : Issued cfg now next id) (hnow : now ≤ now') (hnext : next ≤ next') :
    Issued cfg now' next' id := by
  obtain ⟨t,n,rfl,ht⟩ := h
  exact ⟨t,n,rfl,by omega⟩

theorem Issued.restart {cfg : Config} {now next now' : ℕ} {id : String}
    (h : Issued cfg now next id) (hnow : now < now') : Issued cfg now' 0 id := by
  obtain ⟨t,n,rfl,ht⟩ := h
  exact ⟨t,n,rfl,by omega⟩

def CutId (cfg : Config) (now nextBatchId : ℕ) (c : Cutter) (id : String) : Prop :=
  ∃ t n, id = batchIdText cfg.deviceUuid t n ∧ now ≤ t ∧ t ≤ c.now ∧
    nextBatchId ≤ n ∧ n < c.nextBatchId

theorem CutId.not_issued {cfg : Config} {now next : ℕ} {c : Cutter} {id : String}
    (h : CutId cfg now next c id) : ¬Issued cfg now next id := by
  rintro ⟨t,n,he,ht⟩
  obtain ⟨t',n',rfl,h1,-,h3,-⟩ := h
  have hp := batchIdText_injective he
  omega

theorem CutId.issued {cfg : Config} {now next : ℕ} {c : Cutter} {id : String}
    (h : CutId cfg now next c id) : Issued cfg c.now c.nextBatchId id := by
  obtain ⟨t,n,rfl,-,h2,-,h4⟩ := h
  exact ⟨t,n,rfl,by omega⟩

theorem CutId.not_acked {cfg : Config} {now next : ℕ} {c : Cutter} {id last : String}
    (h : CutId cfg now next c id) (hlast : Issued cfg now next last) :
    ¬compareBatchIds cfg.localeCompare id last ≤ 0 := by
  obtain ⟨t,n,rfl,h1,-,h3,-⟩ := h
  obtain ⟨t',n',rfl,ht⟩ := hlast
  rw [compareBatchIds_batchIdText]
  omega

structure Cut (cfg : Config) (now nextBatchId : ℕ) (taken : List LogMessage) (c : Cutter) :
    Prop where
  logs : c.logBatches.flatMap LogBatch.logs++c.currentBatch = taken
  ids : ∀ b ∈ c.logBatches, CutId cfg now nextBatchId c b.batchId
  distinct : (c.logBatches.map LogBatch.batchId).Nodup
  clock : now ≤ c.now
  counter : nextBatchId ≤ c.nextBatchId

theorem Cut.cut {cfg : Config} {now next : ℕ} {taken : List LogMessage} {c : Cutter}
    (h : Cut cfg now next taken c) : Cut cfg now next taken (c.cut cfg) := by
  have hclock := h.clock
  have hcounter := h.counter
  constructor
  · simpa [Cutter.cut] using h.logs
  · intro b hb
    rcases List.mem_append.mp hb with hb | hb
    · obtain ⟨t,n,he,h1,h2,h3,h4⟩ := h.ids b hb
      exact ⟨t,n,he,h1,Nat.le_add_right_of_le h2,h3,Nat.lt_succ_of_lt h4⟩
    · obtain rfl := List.mem_singleton.mp hb
      exact ⟨_,_,rfl,Nat.le_add_right_of_le hclock,le_rfl,hcounter,Nat.lt_succ_self _⟩
  · show ((c.logBatches++[_]).map LogBatch.batchId).Nodup
    rw [List.map_append, List.nodup_append]
    refine ⟨h.distinct,by simp,?_⟩
    intro a ha b hb hab
    obtain ⟨a',ha',rfl⟩ := List.mem_map.mp ha
    obtain ⟨t,n,he,-,-,-,h4⟩ := h.ids a' ha'
    rw [hab] at he
    have hb' : b = batchIdText cfg.deviceUuid (c.now+c.delays.headD 0) c.nextBatchId := by
      simpa using hb
    have hn := (batchIdText_injective (hb'.symm.trans he)).2
    omega
  · exact Nat.le_add_right_of_le hclock
  · exact Nat.le_succ_of_le hcounter

theorem Cut.push {cfg : Config} {now next : ℕ} {taken : List LogMessage} {c : Cutter}
    (h : Cut cfg now next taken c) (plan : Plan) (log : LogMessage) :
    Cut cfg now next (taken++[log]) (c.push cfg plan log) := by
  unfold Cutter.push
  simp only
  split
  · have hc := h.cut
    exact ⟨by rw [← List.append_assoc, hc.logs],hc.ids,hc.distinct,hc.clock,hc.counter⟩
  · exact ⟨by rw [← List.append_assoc, h.logs],h.ids,h.distinct,h.clock,h.counter⟩

theorem Cut.pushAll {cfg : Config} {now next : ℕ} (plan : Plan) (logs : List LogMessage) :
    ∀ {taken : List LogMessage} {c : Cutter}, Cut cfg now next taken c →
      Cut cfg now next (taken++logs) (logs.foldl (Cutter.push cfg plan) c) := by
  induction logs with
  | nil =>
    intro taken c h
    simpa using h
  | cons log logs ih =>
    intro taken c h
    have hp := ih (h.push plan log)
    rwa [List.append_assoc] at hp

theorem cutBuffer_cut (cfg : Config) (plan : Plan) (s : Backend) :
    Cut cfg s.now s.nextBatchId s.buffer (cutBuffer cfg plan s)
      ∧ (cutBuffer cfg plan s).logBatches.flatMap LogBatch.logs = s.buffer := by
  have hstart : Cut cfg s.now s.nextBatchId [] ⟨[],[],0,s.nextBatchId,s.now,plan.delays⟩ :=
    ⟨rfl,by simp,by simp,le_rfl,le_rfl⟩
  have hall := Cut.pushAll plan s.buffer hstart
  rw [List.nil_append] at hall
  unfold cutBuffer Cutter.finish
  split
  · have hc := hall.cut
    refine ⟨hc,?_⟩
    simpa [Cutter.cut] using hc.logs
  · rename_i hempty
    refine ⟨hall,?_⟩
    have hnil := List.eq_nil_of_length_eq_zero (Nat.eq_zero_of_not_pos hempty)
    have hlogs := hall.logs
    rwa [hnil, List.append_nil] at hlogs

def Phase.batches : Phase → List LogBatch
  | .writing batches => batches
  | .sending b _ rest => b::rest
  | .advancing _ rest => rest
  | _ => []

structure Holds (cfg : Config) (s : Backend) (batches : List LogBatch) : Prop where
  keyed : ∀ e ∈ s.pendingBatches.entries,
    e.1 = e.2.batchId ∧ Issued cfg s.now s.nextBatchId e.1
  todo : ∀ b ∈ batches, ∃ b', (b.batchId,b') ∈ s.pendingBatches.entries ∧ b'.logs = b.logs
  distinct : (batches.map LogBatch.batchId).Nodup

def Tracked (cfg : Config) (s : Backend) : Prop := Holds cfg s s.phase.batches

theorem Holds.none {cfg : Config} {s : Backend} {batches : List LogBatch}
    (h : Holds cfg s batches) : Holds cfg s [] := ⟨h.keyed,by simp,by simp⟩

theorem Holds.rest {cfg : Config} {s : Backend} {b : LogBatch} {rest : List LogBatch}
    (h : Holds cfg s (b::rest)) : Holds cfg s rest :=
  ⟨h.keyed,fun a ha => h.todo a (List.mem_cons_of_mem _ ha),(List.nodup_cons.mp h.distinct).2⟩

theorem Holds.delete {cfg : Config} {s s' : Backend} {b : LogBatch} {rest : List LogBatch}
    (h : Holds cfg s (b::rest)) (hp : s'.pendingBatches = s.pendingBatches.delete b.batchId)
    (hnow : s'.now = s.now) (hnext : s'.nextBatchId = s.nextBatchId) : Holds cfg s' rest := by
  have hout := (List.nodup_cons.mp h.distinct).1
  refine ⟨?_,?_,h.rest.distinct⟩
  · intro e he
    rw [hp] at he
    rw [hnow, hnext]
    exact h.keyed e (List.mem_of_mem_filter he)
  · intro a ha
    obtain ⟨a',ha',hl⟩ := h.rest.todo a ha
    refine ⟨a',?_,hl⟩
    rw [hp]
    apply List.mem_filter.mpr
    refine ⟨ha',?_⟩
    have hne : a.batchId ≠ b.batchId := by
      intro he
      apply hout
      rw [← he]
      exact List.mem_map_of_mem ha
    simpa using hne

@[simp] theorem countAttempt_batchId (id : String) (b : LogBatch) :
    (countAttempt id b).batchId = b.batchId := by
  unfold countAttempt
  split <;> rfl

@[simp] theorem countAttempt_logs (id : String) (b : LogBatch) :
    (countAttempt id b).logs = b.logs := by
  unfold countAttempt
  split <;> rfl

theorem sendNext_tracked {cfg : Config} {s : Backend} {batches : List LogBatch}
    (h : Holds cfg s batches) : Tracked cfg (sendNext cfg s batches) := by
  cases batches with
  | nil =>
    have hp : (sendNext cfg s []).phase.batches = [] := by
      simp only [sendNext]
      split <;> rfl
    unfold Tracked
    rw [hp]
    exact ⟨h.keyed,by simp,by simp⟩
  | cons b rest =>
    refine ⟨?_,?_,h.distinct⟩
    · intro e he
      obtain ⟨a,ha,rfl⟩ := List.mem_map.mp he
      have hk := h.keyed a ha
      exact ⟨by simpa using hk.1,hk.2⟩
    · intro a ha
      have hmem : ∃ a₀ ∈ b::rest, a₀.batchId = a.batchId ∧ a₀.logs = a.logs := by
        rcases List.mem_cons.mp ha with rfl | ha
        · exact ⟨b,List.mem_cons_self,rfl,rfl⟩
        · exact ⟨a,List.mem_cons_of_mem _ ha,rfl,rfl⟩
      obtain ⟨a₀,ha₀,hid,hlogs⟩ := hmem
      obtain ⟨a',ha',hl⟩ := h.todo a₀ ha₀
      refine ⟨countAttempt b.batchId a',?_,by rw [countAttempt_logs, hl, hlogs]⟩
      rw [← hid]
      exact List.mem_map.mpr ⟨_,ha',rfl⟩

theorem Holds.pending {cfg : Config} {s : Backend} {batches : List LogBatch}
    (h : Holds cfg s batches) : Holds cfg s (s.pendingBatches.entries.map Prod.snd) := by
  refine ⟨h.keyed,?_,?_⟩
  · intro b hb
    obtain ⟨e,he,rfl⟩ := List.mem_map.mp hb
    refine ⟨e.2,?_,rfl⟩
    rw [← (h.keyed e he).1]
    exact he
  · have hk : (s.pendingBatches.entries.map Prod.snd).map LogBatch.batchId
        = s.pendingBatches.entries.map Prod.fst := by
      rw [List.map_map]
      apply List.map_congr_left
      intro e he
      exact (h.keyed e he).1.symm
    rw [hk]
    exact s.pendingBatches.nodup

theorem entries_cut {cfg : Config} {s : Backend} {batches : List LogBatch}
    (h : Holds cfg s batches) (plan : Plan) :
    (s.pendingBatches.assignAll ((cutBuffer cfg plan s).logBatches.map
        (fun b => (b.batchId,b)))).entries
      = s.pendingBatches.entries
        ++ (cutBuffer cfg plan s).logBatches.map (fun b => (b.batchId,b)) := by
  have hcut := (cutBuffer_cut cfg plan s).1
  apply OrderedMap.entries_assignAll
  · simpa [Function.comp_def] using hcut.distinct
  · intro id hid hmem
    obtain ⟨e,he,rfl⟩ := List.mem_map.mp hmem
    have hid' : e.1 ∈ (cutBuffer cfg plan s).logBatches.map LogBatch.batchId := by
      simpa [Function.comp_def] using hid
    obtain ⟨b,hb,hbe⟩ := List.mem_map.mp hid'
    apply (hcut.ids b hb).not_issued
    rw [hbe]
    exact (h.keyed e he).2

theorem Holds.cut {cfg : Config} {s s' : Backend} {batches : List LogBatch}
    (h : Holds cfg s batches) (plan : Plan)
    (hp : s'.pendingBatches = s.pendingBatches.assignAll
      ((cutBuffer cfg plan s).logBatches.map (fun b => (b.batchId,b))))
    (hnow : s'.now = (cutBuffer cfg plan s).now)
    (hnext : s'.nextBatchId = (cutBuffer cfg plan s).nextBatchId) :
    Holds cfg s' (cutBuffer cfg plan s).logBatches := by
  have hcut := (cutBuffer_cut cfg plan s).1
  have hentries := entries_cut h plan
  rw [← hp] at hentries
  refine ⟨?_,?_,hcut.distinct⟩
  · intro e he
    rw [hentries] at he
    rw [hnow, hnext]
    rcases List.mem_append.mp he with he | he
    · have hk := h.keyed e he
      exact ⟨hk.1,hk.2.later hcut.clock hcut.counter⟩
    · obtain ⟨b,hb,rfl⟩ := List.mem_map.mp he
      exact ⟨rfl,(hcut.ids b hb).issued⟩
  · intro b hb
    refine ⟨b,?_,rfl⟩
    rw [hentries]
    exact List.mem_append_right _ (List.mem_map.mpr ⟨b,hb,rfl⟩)

theorem Holds.later {cfg : Config} {s s' : Backend} {batches : List LogBatch}
    (h : Holds cfg s batches) (hp : s'.pendingBatches = s.pendingBatches) (hnow : s.now ≤ s'.now)
    (hnext : s.nextBatchId ≤ s'.nextBatchId) : Holds cfg s' batches := by
  refine ⟨?_,?_,h.distinct⟩
  · intro e he
    rw [hp] at he
    exact ⟨(h.keyed e he).1,(h.keyed e he).2.later hnow hnext⟩
  · intro b hb
    rw [hp]
    exact h.todo b hb

theorem sendBuffer_tracked {cfg : Config} {s : Backend} {batches : List LogBatch} (plan : Plan)
    (h : Holds cfg s batches) : Tracked cfg (sendBuffer cfg plan s) := by
  have hcut := (cutBuffer_cut cfg plan s).1
  unfold sendBuffer
  simp only
  split
  · apply sendNext_tracked
    exact Holds.later h.pending rfl hcut.clock hcut.counter
  · split
    · exact Holds.cut h plan rfl rfl rfl
    · apply sendNext_tracked
      exact Holds.cut h plan rfl rfl rfl

theorem closeBreaker_pending (s : Backend) :
    (closeBreaker s).pendingBatches = s.pendingBatches ∧ (closeBreaker s).now = s.now
      ∧ (closeBreaker s).nextBatchId = s.nextBatchId := by
  unfold closeBreaker
  split <;> exact ⟨rfl,rfl,rfl⟩

theorem flush_tracked {cfg : Config} {s : Backend} (plan : Plan) (h : Tracked cfg s) :
    Tracked cfg (flush cfg plan s) := by
  unfold flush
  split
  · split
    · exact h
    · split
      · exact Holds.later h rfl le_rfl le_rfl
      · have hb := closeBreaker_pending s
        exact sendBuffer_tracked plan (Holds.later h hb.1 hb.2.1.ge hb.2.2.ge)
  · exact h

theorem log_tracked {cfg : Config} {s : Backend} (logMessage : LogMessage) (drawn : Bool)
    (plan : Plan) (h : Tracked cfg s) : Tracked cfg (log cfg s logMessage drawn plan) := by
  unfold log
  simp only
  split
  · exact h
  · split
    · exact Holds.later h rfl le_rfl le_rfl
    · split
      · exact flush_tracked plan (Holds.later h rfl le_rfl le_rfl)
      · exact Holds.later h rfl le_rfl le_rfl

theorem failBatch_tracked {cfg : Config} {s : Backend} {b : LogBatch} {rest : List LogBatch}
    (h : Holds cfg s (b::rest)) : Tracked cfg (failBatch cfg s b rest) := by
  unfold failBatch
  split
  · exact sendNext_tracked (h.delete rfl rfl rfl)
  · exact sendNext_tracked h.rest

theorem onFailure_pending (s : Backend) :
    (onFailure s).pendingBatches = s.pendingBatches ∧ (onFailure s).now = s.now
      ∧ (onFailure s).nextBatchId = s.nextBatchId := by
  unfold onFailure
  simp only
  split <;> exact ⟨rfl,rfl,rfl⟩

theorem receive_tracked {cfg : Config} {s : Backend} {b : LogBatch} (attempt : ℕ)
    {rest : List LogBatch} (reply : Reply) (h : Holds cfg s (b::rest)) :
    Tracked cfg (receive cfg s b attempt rest reply) := by
  cases reply with
  | ack id =>
    simp only [receive]
    split
    · exact sendNext_tracked (Holds.later h.rest rfl le_rfl le_rfl)
    · split
      · exact h.delete rfl rfl rfl
      · exact sendNext_tracked (h.delete rfl rfl rfl)
  | noBody => exact failBatch_tracked (Holds.later h rfl le_rfl le_rfl)
  | failed retryable =>
    simp only [receive]
    split
    · have hf := onFailure_pending { s with retryFailures := s.retryFailures+1 }
      exact failBatch_tracked (Holds.later h hf.1 hf.2.1.ge hf.2.2.ge)
    · exact ⟨h.keyed,h.todo,h.distinct⟩

theorem settle_tracked {cfg : Config} {s : Backend} (rotated : Bool) (cap : Cap)
    (h : Tracked cfg s) : Tracked cfg (settle s rotated cap) := by
  unfold settle
  simp only
  split
  · exact Holds.later h.none rfl le_rfl le_rfl
  · split <;> exact Holds.later h.none rfl le_rfl le_rfl

theorem sweep_tracked {cfg : Config} {s : Backend} (h : Tracked cfg s) :
    Tracked cfg (sweep cfg s) := by
  unfold sweep
  split
  · split <;> exact Holds.later h.none rfl le_rfl le_rfl
  · split <;> exact Holds.later h.none rfl le_rfl le_rfl
  · exact h

theorem work_tracked {cfg : Config} {s : Backend} (w : Work) (h : Tracked cfg s) :
    Tracked cfg (work cfg s w) := by
  cases w with
  | tick ms => exact Holds.later h rfl (Nat.le_add_right _ _) le_rfl
  | log logMessage drawn plan => exact log_tracked logMessage drawn plan h
  | flush plan => exact flush_tracked plan h
  | written =>
    simp only [work]
    split
    · rename_i batches hphase
      unfold Tracked at h
      rw [hphase] at h
      exact sendNext_tracked h
    · exact h
  | reply reply =>
    simp only [work]
    split
    · rename_i b attempt rest hphase
      unfold Tracked at h
      rw [hphase] at h
      exact receive_tracked attempt reply h
    · exact h
  | cursorSaved =>
    simp only [work]
    split
    · rename_i b rest hphase
      unfold Tracked at h
      rw [hphase] at h
      exact sendNext_tracked ⟨h.keyed,h.todo,h.distinct⟩
    · exact h
  | writeOut rotated cap => exact Holds.later h rfl le_rfl le_rfl
  | settle rotated cap =>
    simp only [work]
    split
    · exact settle_tracked rotated cap h
    · exact h
  | sweep => exact sweep_tracked h

end Iotistica.CloudLog
