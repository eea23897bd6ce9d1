import Iotistica.LogPending

/-!
# Accounting of logs

Every log that passed the sampling is in the buffer, in a pending batch, in
an acknowledged batch or counted as dropped. Batching, shedding, retries and
acknowledgements move logs between these places and leave the sum alone.
-/

set_option autoImplicit false

namespace Iotistica.CloudLog
open Iotistica Iotistica.GuardedRun

def logsIn (batches : List LogBatch) : ℕ := (batches.flatMap LogBatch.logs).length

def pending (s : Backend) : List LogBatch := s.pendingBatches.entries.map Prod.snd

def accounted (s : Backend) : ℕ :=
  s.buffer.length+logsIn (pending s)+logsIn s.history.acked+s.totalLogsDropped

def Conserved (s : Backend) : Prop := s.sampledLogCount = accounted s

@[simp] theorem logsIn_nil : logsIn [] = 0 := rfl

@[simp] theorem logsIn_cons (b : LogBatch) (bs : List LogBatch) :
    logsIn (b::bs) = b.logs.length+logsIn bs := by
  simp [logsIn]

@[simp] theorem logsIn_append (bs cs : List LogBatch) :
    logsIn (bs++cs) = logsIn bs+logsIn cs := by
  simp [logsIn]

theorem logsIn_map (bs : List LogBatch) (f : LogBatch → LogBatch)
    (hf : ∀ b, (f b).logs = b.logs) : logsIn (bs.map f) = logsIn bs := by
  induction bs with
  | nil => rfl
  | cons b bs ih => simp [hf, ih]

theorem logsIn_filter_key (es : List (String × LogBatch)) (hn : (es.map Prod.fst).Nodup)
    {k : String} {b : LogBatch} (h : (k,b) ∈ es) :
    logsIn ((es.filter (fun e => e.1 ≠ k)).map Prod.snd)+b.logs.length
      = logsIn (es.map Prod.snd) := by
  induction es with
  | nil => cases h
  | cons e es ih =>
    have hout := (List.nodup_cons.mp hn).1
    have hn' := (List.nodup_cons.mp hn).2
    rcases List.mem_cons.mp h with rfl | h
    · have hkeep : es.filter (fun e => e.1 ≠ k) = es := by
        apply List.filter_eq_self.mpr
        intro e he
        have hne : e.1 ≠ k := by
          intro hk
          apply hout
          show k ∈ es.map Prod.fst
          rw [← hk]
          exact List.mem_map_of_mem he
        simpa using hne
      have hfilter : ((k,b)::es).filter (fun e => e.1 ≠ k) = es.filter (fun e => e.1 ≠ k) := by
        simp
      rw [hfilter, hkeep, List.map_cons, logsIn_cons, Nat.add_comm]
    · have hne : e.1 ≠ k := by
        intro hk
        apply hout
        rw [hk]
        exact List.mem_map.mpr ⟨_,h,rfl⟩
      have hfilter : (e::es).filter (fun e => e.1 ≠ k) = e::es.filter (fun e => e.1 ≠ k) := by
        simp [hne]
      rw [hfilter, List.map_cons, List.map_cons, logsIn_cons, logsIn_cons, ← ih hn' h]
      omega

theorem logsIn_delete {cfg : Config} {s : Backend} {b : LogBatch} {rest : List LogBatch}
    (h : Holds cfg s (b::rest)) :
    logsIn ((s.pendingBatches.delete b.batchId).entries.map Prod.snd)+b.logs.length
      = logsIn (pending s) := by
  obtain ⟨b',hmem,hlogs⟩ := h.todo b List.mem_cons_self
  have hd := logsIn_filter_key s.pendingBatches.entries s.pendingBatches.nodup hmem
  rw [hlogs] at hd
  exact hd

structure Moved (s s' : Backend) : Prop where
  sampled : s'.sampledLogCount = s.sampledLogCount
  accounted : accounted s' = accounted s

theorem Moved.refl (s : Backend) : Moved s s := ⟨rfl,rfl⟩

theorem Moved.trans {s s' s'' : Backend} (h : Moved s s') (h' : Moved s' s'') : Moved s s'' :=
  ⟨h'.sampled.trans h.sampled,h'.accounted.trans h.accounted⟩

theorem Moved.after {s s' s'' : Backend} (h : Moved s' s'')
    (hs : s'.sampledLogCount = s.sampledLogCount)
    (ha : CloudLog.accounted s' = CloudLog.accounted s) : Moved s s'' :=
  Moved.trans ⟨hs,ha⟩ h

theorem Moved.conserved {s s' : Backend} (h : Moved s s') : Conserved s' ↔ Conserved s := by
  unfold Conserved
  rw [h.sampled, h.accounted]

theorem sendNext_moved (cfg : Config) (s : Backend) (batches : List LogBatch) :
    Moved s (sendNext cfg s batches) := by
  cases batches with
  | nil => exact ⟨rfl,rfl⟩
  | cons b rest =>
    refine ⟨rfl,?_⟩
    have hp : pending (sendNext cfg s (b::rest)) = (pending s).map (countAttempt b.batchId) := by
      simp [pending, sendNext, OrderedMap.mapValues, Function.comp_def]
    unfold accounted
    rw [hp, logsIn_map _ _ (countAttempt_logs b.batchId)]
    rfl

theorem shed_moved (s : Backend) : Moved s (shed s) := by
  refine ⟨rfl,?_⟩
  have hsplit := s.buffer.length_eq_length_filter_add isCriticalLog
  show (s.buffer.filter isCriticalLog).length+logsIn (pending s)+logsIn s.history.acked
    +(s.totalLogsDropped+(s.buffer.filter (fun log => !isCriticalLog log)).length) = accounted s
  unfold accounted
  omega

theorem closeBreaker_moved (s : Backend) : Moved s (closeBreaker s) := by
  unfold closeBreaker
  split <;> exact ⟨rfl,rfl⟩

theorem logsIn_cut {cfg : Config} {s : Backend} {batches : List LogBatch}
    (h : Holds cfg s batches) (plan : Plan) :
    logsIn ((s.pendingBatches.assignAll ((cutBuffer cfg plan s).logBatches.map
        (fun b => (b.batchId,b)))).entries.map Prod.snd)
      = logsIn (pending s)+s.buffer.length := by
  have hlogs : logsIn (cutBuffer cfg plan s).logBatches = s.buffer.length := by
    unfold logsIn
    rw [(cutBuffer_cut cfg plan s).2]
  rw [entries_cut h plan, List.map_append, logsIn_append, List.map_map]
  simp only [Function.comp_def, List.map_id', hlogs]
  rfl

theorem sendBuffer_moved {cfg : Config} {s : Backend} {batches : List LogBatch} (plan : Plan)
    (h : Holds cfg s batches) : Moved s (sendBuffer cfg plan s) := by
  have hlogs := logsIn_cut h plan
  unfold sendBuffer
  simp only
  split
  · exact (sendNext_moved cfg _ _).after rfl rfl
  · split
    · refine ⟨rfl,?_⟩
      simp only [accounted, pending, List.length_nil] at hlogs ⊢
      omega
    · refine (sendNext_moved cfg _ _).after rfl ?_
      simp only [accounted, pending, List.length_nil] at hlogs ⊢
      omega

theorem flush_moved {cfg : Config} {s : Backend} (plan : Plan) (h : Tracked cfg s) :
    Moved s (flush cfg plan s) := by
  unfold flush
  split
  · split
    · exact Moved.refl s
    · split
      · exact shed_moved s
      · have hb := closeBreaker_pending s
        exact (closeBreaker_moved s).trans
          (sendBuffer_moved plan (Holds.later h hb.1 hb.2.1.ge hb.2.2.ge))
  · exact Moved.refl s

theorem drop_moved {cfg : Config} {s : Backend} {b : LogBatch} {rest : List LogBatch}
    (h : Holds cfg s (b::rest)) : Moved s (drop s b) := by
  have hd := logsIn_delete h
  refine ⟨rfl,?_⟩
  simp only [accounted, pending, drop] at hd ⊢
  omega

theorem acknowledge_moved {cfg : Config} {s : Backend} {b : LogBatch} {rest : List LogBatch}
    (h : Holds cfg s (b::rest)) : Moved s (acknowledge s b) := by
  have hd := logsIn_delete h
  refine ⟨rfl,?_⟩
  simp only [accounted, pending, acknowledge, logsIn_append, logsIn_cons, logsIn_nil] at hd ⊢
  omega

theorem failBatch_moved {cfg : Config} {s : Backend} {b : LogBatch} {rest : List LogBatch}
    (h : Holds cfg s (b::rest)) : Moved s (failBatch cfg s b rest) := by
  unfold failBatch
  split
  · exact (drop_moved h).trans (sendNext_moved cfg _ _)
  · exact sendNext_moved cfg _ _

theorem onFailure_moved (s : Backend) : Moved s (onFailure s) := by
  unfold onFailure
  simp only
  split <;> exact ⟨rfl,rfl⟩

theorem succeed_moved (cfg : Config) (s : Backend) (rest : List LogBatch) :
    Moved s (succeed cfg s rest) :=
  (sendNext_moved cfg _ _).after rfl rfl

theorem receive_moved {cfg : Config} {s : Backend} {b : LogBatch} (attempt : ℕ)
    {rest : List LogBatch} (reply : Reply) (h : Holds cfg s (b::rest)) :
    Moved s (receive cfg s b attempt rest reply) := by
  have hreset : Holds cfg { s with retryFailures := 0 } (b::rest) :=
    Holds.later h rfl le_rfl le_rfl
  cases reply with
  | ack id =>
    simp only [receive]
    have hack := (acknowledge_moved hreset)
    split
    · exact (sendNext_moved cfg _ _).after rfl rfl
    · split
      · exact ⟨hack.sampled,hack.accounted⟩
      · exact (succeed_moved cfg _ rest).after hack.sampled hack.accounted
  | noBody => exact (failBatch_moved hreset).after rfl rfl
  | failed retryable =>
    simp only [receive]
    split
    · have hf := onFailure_pending { s with retryFailures := s.retryFailures+1 }
      have hfail := failBatch_moved (Holds.later h hf.1 hf.2.1.ge hf.2.2.ge)
      have hcount := onFailure_moved { s with retryFailures := s.retryFailures+1 }
      exact hfail.after hcount.sampled hcount.accounted
    · exact ⟨rfl,rfl⟩

theorem settle_moved (s : Backend) (rotated : Bool) (cap : Cap) :
    Moved s (settle s rotated cap) := by
  unfold settle
  simp only
  split
  · exact ⟨rfl,rfl⟩
  · split <;> exact ⟨rfl,rfl⟩

theorem sweep_moved (cfg : Config) (s : Backend) : Moved s (sweep cfg s) := by
  unfold sweep
  split
  · split <;> exact ⟨rfl,rfl⟩
  · split <;> exact ⟨rfl,rfl⟩
  · exact Moved.refl s

def TurnedAway (s : Backend) (logMessage : LogMessage) (drawn : Bool) : Prop :=
  s.circuitBreakerOpen = true ∧ s.bufferBytes > MAX_OFFLINE_BUFFER_BYTES ∧
    isCriticalLog logMessage = false ∧ shouldSample logMessage true drawn = true

instance (s : Backend) (logMessage : LogMessage) (drawn : Bool) :
    Decidable (TurnedAway s logMessage drawn) :=
  inferInstanceAs (Decidable (_ ∧ _ ∧ _ ∧ _))

theorem log_turnedAway {cfg : Config} {s : Backend} {logMessage : LogMessage} {drawn : Bool}
    {plan : Plan} (h : TurnedAway s logMessage drawn) :
    log cfg s logMessage drawn plan = { s with sampledLogCount := s.sampledLogCount+1 } := by
  obtain ⟨hopen,hbytes,hcrit,hsample⟩ := h
  unfold log
  rw [hopen, hsample]
  simp [hcrit, hbytes]

theorem log_conserved {cfg : Config} {s : Backend} {logMessage : LogMessage} {drawn : Bool}
    {plan : Plan} (ht : Tracked cfg s) (h : ¬TurnedAway s logMessage drawn) (hc : Conserved s) :
    Conserved (log cfg s logMessage drawn plan) := by
  unfold log
  simp only
  by_cases hsample : shouldSample logMessage s.circuitBreakerOpen drawn = true
  · rw [hsample]
    simp only [Bool.not_true, Bool.false_eq_true, if_false]
    split
    · rename_i haway
      simp only [Bool.and_eq_true, decide_eq_true_eq, Bool.not_eq_true'] at haway
      rw [haway.1.1] at hsample
      exact absurd ⟨haway.1.1,haway.1.2,haway.2,hsample⟩ h
    · have hpush : Conserved { s with
          sampledLogCount := s.sampledLogCount+1
          buffer := s.buffer++[logMessage]
          bufferBytes := s.bufferBytes+estimateLogSize logMessage } := by
        simp only [Conserved, accounted, pending, List.length_append, List.length_singleton] at hc ⊢
        omega
      split
      · refine (flush_moved plan ?_).conserved.mpr hpush
        exact Holds.later ht rfl le_rfl le_rfl
      · exact hpush
  · rw [Bool.not_eq_true] at hsample
    rw [hsample]
    exact hc

theorem log_conserved_iff {cfg : Config} {s : Backend} {logMessage : LogMessage} {drawn : Bool}
    {plan : Plan} (ht : Tracked cfg s) (hc : Conserved s) :
    Conserved (log cfg s logMessage drawn plan) ↔ ¬TurnedAway s logMessage drawn := by
  constructor
  · intro h haway
    rw [log_turnedAway haway] at h
    simp only [Conserved, accounted, pending] at h hc
    omega
  · exact fun h => log_conserved ht h hc

/-- The event is not a log call that is turned away. -/
def KeepsAccount (s : Backend) : Work → Prop
  | .log logMessage drawn _ => ¬TurnedAway s logMessage drawn
  | _ => True

instance (s : Backend) : (w : Work) → Decidable (KeepsAccount s w)
  | .log logMessage drawn _ => inferInstanceAs (Decidable (¬TurnedAway s logMessage drawn))
  | .tick _ => .isTrue trivial
  | .flush _ => .isTrue trivial
  | .written => .isTrue trivial
  | .reply _ => .isTrue trivial
  | .cursorSaved => .isTrue trivial
  | .writeOut _ _ => .isTrue trivial
  | .settle _ _ => .isTrue trivial
  | .sweep => .isTrue trivial

theorem work_conserved_iff {cfg : Config} (s : Backend) (w : Work) (ht : Tracked cfg s)
    (hc : Conserved s) : Conserved (work cfg s w) ↔ KeepsAccount s w := by
  have hmoved : ∀ s', Moved s s' → (Conserved s' ↔ True) :=
    fun s' h => iff_of_true (h.conserved.mpr hc) trivial
  cases w with
  | log logMessage drawn plan => exact log_conserved_iff ht hc
  | tick ms => exact hmoved _ ⟨rfl,rfl⟩
  | flush plan => exact hmoved _ (flush_moved plan ht)
  | written =>
    apply hmoved
    simp only [work]
    split
    · exact sendNext_moved cfg _ _
    · exact Moved.refl s
  | reply reply =>
    apply hmoved
    simp only [work]
    split
    · rename_i b attempt rest hphase
      unfold Tracked at ht
      rw [hphase] at ht
      exact receive_moved attempt reply ht
    · exact Moved.refl s
  | cursorSaved =>
    apply hmoved
    simp only [work]
    split
    · exact (succeed_moved cfg _ _).after rfl rfl
    · exact Moved.refl s
  | writeOut rotated cap => exact hmoved _ ⟨rfl,rfl⟩
  | settle rotated cap =>
    apply hmoved
    simp only [work]
    split
    · exact settle_moved s rotated cap
    · exact Moved.refl s
  | sweep => exact hmoved _ (sweep_moved cfg s)

@[simp] theorem textLength_replicate (n : ℕ) :
    textLength (String.ofList (List.replicate n 'a')) = n := by
  have hunit : JsSort.codeUnits 'a' = [97] := by decide
  unfold textLength JsSort.utf16
  rw [String.toList_ofList]
  induction n with
  | zero => rfl
  | succ n ih => simp [List.replicate_succ, hunit, ih]

theorem log_oversized {cfg : Config} {s : Backend} {logMessage : LogMessage} {drawn : Bool}
    {plan : Plan} (hidle : s.phase = .idle) (hopen : s.circuitBreakerOpen = true)
    (hrecent : s.now-s.circuitBreakerOpenedAt < CIRCUIT_BREAKER_RESET_MS)
    (hbuffer : s.buffer = []) (hbytes : s.bufferBytes = 0)
    (hcrit : isCriticalLog logMessage = true)
    (hsize : cfg.bufferSize < estimateLogSize logMessage) :
    (log cfg s logMessage drawn plan).circuitBreakerOpen = true ∧
      (log cfg s logMessage drawn plan).bufferBytes = estimateLogSize logMessage := by
  have hsample : shouldSample logMessage true drawn = true := by simp [shouldSample, hcrit]
  unfold log
  simp only [hopen, hsample, hbytes, hbuffer, hcrit]
  simp [hsize, flush, hidle, hrecent, shed, hcrit]

theorem boot_tracked (cfg : Config) (now : ℕ) (spool : Spool) (history : History) :
    Tracked cfg (boot now spool history) :=
  ⟨by simp [boot, OrderedMap.empty],by simp [boot, Phase.batches],by simp [boot, Phase.batches]⟩

/-- The account is right after every event of a run from a start without
pending batches exactly when the run turns no sampled log away. -/
theorem logs_conserved_iff (cfg : Config) (now : ℕ) (spool : Spool) (ws : List Work) :
    (∀ pre, pre <+: ws → Conserved (run (work cfg) pre (boot now spool ⟨[],[],[]⟩)))
      ↔ Meets (work cfg) KeepsAccount ws (boot now spool ⟨[],[],[]⟩) := by
  apply always_iff_meets (I := Tracked cfg)
  · exact fun s w ht => work_tracked w ht
  · exact fun s w ht hc => work_conserved_iff s w ht hc
  · exact boot_tracked cfg now spool _
  · rfl

def outageConfig : Config where
  deviceUuid := "d"
  bufferSize := 2*1024*1024
  spool := false
  jsonLength := fun log => 120+textLength log.message
  localeCompare := fun _ _ => 0

def outagePlan : Plan := ⟨50,5*1024*1024,[]⟩

def errorLog (message : String) : LogMessage := ⟨message,some .error,some .container,none,false⟩

def infoLog : LogMessage := ⟨"m",some .info,some .container,none,false⟩

def outage : List Work :=
  let refused := [Work.flush outagePlan,Work.reply (.failed false)]
  let lost := Work.log (errorLog "e") true outagePlan::refused
  lost++refused++refused++refused++refused++lost++lost++lost++lost++lost

def turnedAwayRun (message : String) : List Work :=
  outage++[.log (errorLog message) true outagePlan,.log infoLog true outagePlan]

theorem estimateLogSize_errorLog (message : String) :
    estimateLogSize (errorLog message) = 225+textLength message := by
  have hlevel : textLength LogLevel.error.text = 5 := by decide +kernel
  simp only [estimateLogSize, errorLog, Option.map_some, Option.map_none, Option.getD_some,
    Option.getD_none, Function.comp_apply, hlevel]
  omega

theorem turnedAwayRun_unaccounted (message : String) (hlong : 10*1024*1024 ≤ textLength message) :
    ¬∀ pre, pre <+: turnedAwayRun message →
      Conserved (run (work outageConfig) pre (boot 0 ⟨[[]],[],none⟩ ⟨[],[],[]⟩)) := by
  intro h
  generalize hs : run (work outageConfig) outage (boot 0 ⟨[[]],[],none⟩ ⟨[],[],[]⟩) = s
  have hidle : s.phase = .idle := by rw [← hs]; decide +kernel
  have hopen : s.circuitBreakerOpen = true := by rw [← hs]; decide +kernel
  have hrecent : s.now-s.circuitBreakerOpenedAt < CIRCUIT_BREAKER_RESET_MS := by
    rw [← hs]; decide +kernel
  have hbuffer : s.buffer = [] := by rw [← hs]; decide +kernel
  have hbytes : s.bufferBytes = 0 := by rw [← hs]; decide +kernel
  have hsize := estimateLogSize_errorLog message
  have hcrit : isCriticalLog (errorLog message) = true := rfl
  have hforced : outageConfig.bufferSize < estimateLogSize (errorLog message) := by
    show 2*1024*1024 < _
    omega
  have hkept : (log outageConfig s (errorLog message) true outagePlan).circuitBreakerOpen = true ∧
      (log outageConfig s (errorLog message) true outagePlan).bufferBytes
        = estimateLogSize (errorLog message) :=
    log_oversized hidle hopen hrecent hbuffer hbytes hcrit hforced
  have hbefore := h (outage++[.log (errorLog message) true outagePlan])
    ⟨[.log infoLog true outagePlan],List.append_assoc _ _ _⟩
  have hafter := h (turnedAwayRun message) List.prefix_rfl
  simp only [turnedAwayRun, run, List.foldl_append, List.foldl_cons, List.foldl_nil]
    at hbefore hafter
  rw [show outage.foldl (work outageConfig) _ = s from hs] at hbefore hafter
  have haway : TurnedAway (log outageConfig s (errorLog message) true outagePlan) infoLog true := by
    refine ⟨hkept.1,?_,by decide,by decide⟩
    rw [hkept.2, hsize]
    show _ > 10*1024*1024
    omega
  simp only [work] at hbefore hafter
  rw [log_turnedAway haway] at hafter
  simp only [Conserved, accounted, pending] at hbefore hafter
  omega

theorem logs_not_conserved :
    ¬∀ pre, pre <+: turnedAwayRun (String.ofList (List.replicate (10*1024*1024) 'a')) →
      Conserved (run (work outageConfig) pre (boot 0 ⟨[[]],[],none⟩ ⟨[],[],[]⟩)) :=
  turnedAwayRun_unaccounted _ (textLength_replicate _).ge

end Iotistica.CloudLog
