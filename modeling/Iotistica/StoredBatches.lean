import Iotistica.IngestionWorker
import Iotistica.GuardedRun

/-!
# Inserted batches that are treated as failed

A watcher follows the workers. It knows whose batch has been inserted and
notes a worker that then spools the batch, counts or moves one of its
entries as failed, or reports a failure to the circuit breaker. The handler
of the insert also covers the acknowledgement, so an exception there does
all of this.
-/

set_option autoImplicit false

namespace Iotistica.Ingestion
open Iotistica Iotistica.GuardedRun

variable {D : Type}

/-- The batch is being spooled, or its entries are counted as failed or moved
to the dead letters. -/
def Phase.treatsAsFailed : Phase D → Bool
  | .storing .insert _ _ _ => false
  | .storing _ _ _ _ => true
  | .acking _ (.spooledOpen _ _) => true
  | .acking _ (.spooledFailed _ _) => true
  | .acking _ (.failing _) => true
  | .counting _ => true
  | .deadLettering _ _ => true
  | _ => false

def Phase.acksInserted : Phase D → Bool
  | .acking _ (.inserted _ _ _) => true
  | _ => false

def Event.worker : Event D → Option ℕ
  | .delivered w _ _ => some w
  | .claimAborted w => some w
  | .decoded w _ _ => some w
  | .deadLettered w _ _ => some w
  | .storeDone w _ => some w
  | .ackDone w _ _ => some w
  | .counted w _ => some w
  | _ => none

/-- `blamed` are the workers that treated an inserted batch as failed. -/
structure Watched (D : Type) where
  state : State D
  inserted : ℕ → Bool
  blamed : List ℕ

def insertedAfter (s : State D) (inserted : ℕ → Bool) : Event D → ℕ → Bool
  | .delivered w _ _ =>
    match s.workers w with
    | .idle => Function.update inserted w false
    | _ => inserted
  | .storeDone w true =>
    match s.workers w with
    | .storing .insert _ _ _ => Function.update inserted w true
    | _ => inserted
  | .restart => fun _ => false
  | _ => inserted

def treated (s s' : State D) (w : ℕ) : Bool :=
  decide (s.dbCircuitBreaker.failureCount < s'.dbCircuitBreaker.failureCount)
    || (s'.workers w).treatsAsFailed

def watch (cfg : Config) (s : Watched D) (e : Event D) : Watched D where
  state := step cfg s.state e
  inserted := insertedAfter s.state s.inserted e
  blamed := s.blamed++e.worker.toList.filter (fun w =>
    insertedAfter s.state s.inserted e w && treated s.state (step cfg s.state e) w)

def watched (now : ℤ) : Watched D := ⟨initial now,fun _ => false,[]⟩

/-- The acknowledgement of an inserted batch does not throw. -/
def Answered (s : Watched D) : Event D → Prop
  | .ackDone w _ true => (s.state.workers w).acksInserted = false
  | _ => True

structure Quiet (s s' : State D) (w : ℕ) : Prop where
  frame : ∀ v, v ≠ w → s'.workers v = s.workers v
  acks : (s'.workers w).acksInserted = false

theorem goto_self (s : State D) (w : ℕ) (phase : Phase D) : (goto s w phase).workers w = phase := by
  simp [goto]

theorem goto_other (s : State D) {w v : ℕ} (phase : Phase D) (h : v ≠ w) :
    (goto s w phase).workers v = s.workers v := by
  simp [goto, h]

theorem quiet_goto {s t : State D} (ht : t.workers = s.workers) (w : ℕ) {phase : Phase D}
    (h : phase.acksInserted = false) : Quiet s (goto t w phase) w :=
  ⟨fun _ hv => by rw [goto_other t phase hv, ht],by rw [goto_self]; exact h⟩

theorem quiet_handleBatchFailures {s t : State D} (ht : t.workers = s.workers) (w : ℕ)
    (entries : List String) : Quiet s (handleBatchFailures t w entries) w := by
  apply quiet_goto ht
  split <;> rfl

theorem quiet_ackReturned {s t : State D} (ht : t.workers = s.workers) (w : ℕ)
    (after : AfterAck D) : Quiet s (ackReturned t w after) w := by
  cases after with
  | failing pendingAck => exact quiet_handleBatchFailures ht w pendingAck
  | _ =>
    apply quiet_goto
    · exact ht
    · rfl

theorem quiet_xackBatch {s t : State D} (ht : t.workers = s.workers) (w : ℕ) (ids : List String)
    {after : AfterAck D} (h : (Phase.acking ids after).acksInserted = false) :
    Quiet s (xackBatch t w ids after) w := by
  unfold xackBatch
  split
  · exact quiet_ackReturned ht w after
  · exact quiet_goto ht w h

theorem quiet_insertFailed (cfg : Config) {s t : State D} (ht : t.workers = s.workers) (w : ℕ)
    (seen pendingAck : List String) (allData : List D) :
    Quiet s (insertFailed cfg t w seen pendingAck allData) w := by
  unfold insertFailed
  dsimp only
  split
  · apply quiet_goto
    · exact ht
    · rfl
  · apply quiet_xackBatch
    · exact ht
    · rfl

theorem quiet_storeThrew (cfg : Config) (s : State D) (w : ℕ) (place : Place)
    (seen pendingAck : List String) (allData : List D) :
    Quiet s (storeThrew cfg s w place seen pendingAck allData) w := by
  cases place with
  | insert => exact quiet_insertFailed cfg rfl w seen pendingAck allData
  | _ => exact quiet_xackBatch rfl w seen rfl

theorem quiet_resolved (cfg : Config) {s t : State D} (ht : t.workers = s.workers) (w : ℕ)
    (seen pendingAck : List String) (allData : List D) :
    Quiet s (resolved cfg t w seen pendingAck allData) w := by
  unfold resolved
  split
  · exact quiet_xackBatch ht w (seen++pendingAck) rfl
  · split
    · apply quiet_goto
      · exact ht
      · rfl
    · exact quiet_goto ht w rfl

theorem quiet_resolveFreshEntries (cfg : Config) {s t : State D} (ht : t.workers = s.workers)
    (w : ℕ) (seen rest pendingAck : List String) (allData : List D) :
    Quiet s (resolveFreshEntries cfg t w seen rest pendingAck allData) w := by
  unfold resolveFreshEntries
  split
  · exact quiet_resolved cfg ht w seen pendingAck allData
  · exact quiet_goto ht w rfl

theorem quiet_received (cfg : Config) {s t : State D} (ht : t.workers = s.workers) (w : ℕ)
    (parseErrors entries : List String) : Quiet s (received cfg t w parseErrors entries) w := by
  unfold received processBatch
  split
  · split
    · exact quiet_goto ht w rfl
    · dsimp only
      split
      · exact quiet_xackBatch ht w _ rfl
      · exact quiet_resolveFreshEntries cfg ht w _ _ [] []
  · exact quiet_goto ht w rfl

theorem quiet_slotDone (cfg : Config) {s t : State D} (ht : t.workers = s.workers) (w : ℕ)
    (seen : List String) (chunk : List (String × Slot D)) (rest pendingAck : List String)
    (allData : List D) : Quiet s (slotDone cfg t w seen chunk rest pendingAck allData) w := by
  unfold slotDone
  split
  · exact quiet_resolveFreshEntries cfg ht w seen rest _ _
  · exact quiet_goto ht w rfl

theorem workers_moveToDLQ (s : State D) (id : String) (stored : Bool) :
    (moveToDLQ s id stored).workers = s.workers := by
  unfold moveToDLQ
  split <;> rfl

/-- All that a step can do to the workers, the breaker and the watcher's
knowledge of the batches. -/
inductive Effect (s s' : State D) (e : Event D) : Prop where
  | still (workers : s'.workers = s.workers) (breaker : s'.dbCircuitBreaker = s.dbCircuitBreaker)
      (inserted : ∀ f, insertedAfter s f e = f)
  | aside (worker : e.worker = none) (workers : s'.workers = s.workers)
      (inserted : ∀ f, insertedAfter s f e = f)
  | restarted (worker : e.worker = none) (workers : ∀ w, s'.workers w = .idle)
      (inserted : ∀ f, insertedAfter s f e = fun _ => false)
  | begun (w : ℕ) (worker : e.worker = some w) (quiet : Quiet s s' w)
      (inserted : ∀ f, insertedAfter s f e = Function.update f w false)
  | stored (w : ℕ) (worker : e.worker = some w) (frame : ∀ v, v ≠ w → s'.workers v = s.workers v)
      (place : s'.workers w = .idle ∨ (s'.workers w).acksInserted = true)
      (breaker : s'.dbCircuitBreaker.failureCount = 0)
      (inserted : ∀ f, insertedAfter s f e = Function.update f w true)
  | acked (w : ℕ) (worker : e.worker = some w) (frame : ∀ v, v ≠ w → s'.workers v = s.workers v)
      (place : s'.workers w = .idle) (breaker : s'.dbCircuitBreaker = s.dbCircuitBreaker)
      (inserted : ∀ f, insertedAfter s f e = f)
  | lost (w : ℕ) (applied : Bool) (event : e = .ackDone w applied true)
      (acks : (s.workers w).acksInserted = true)
      (breaker : s'.dbCircuitBreaker.failureCount = s.dbCircuitBreaker.failureCount+1)
  | worked (w : ℕ) (worker : e.worker = some w) (busy : s.workers w ≠ .idle)
      (acks : (s.workers w).acksInserted = false) (quiet : Quiet s s' w)
      (inserted : ∀ f, insertedAfter s f e = f)

theorem failureCount_xackBatch (s : State D) (w : ℕ) (ids : List String) (after : AfterAck D) :
    (xackBatch s w ids after).dbCircuitBreaker = s.dbCircuitBreaker := by
  unfold xackBatch
  split
  · cases after <;> rfl
  · rfl

theorem failureCount_insertFailed (cfg : Config) (s : State D) (w : ℕ)
    (seen pendingAck : List String) (allData : List D) :
    (insertFailed cfg s w seen pendingAck allData).dbCircuitBreaker.failureCount
      = s.dbCircuitBreaker.failureCount+1 := by
  unfold insertFailed
  dsimp only
  split
  · rfl
  · rw [failureCount_xackBatch]
    rfl

theorem failureCount_recordSuccess (b : RedisCircuitBreaker) : b.recordSuccess.failureCount = 0 := by
  unfold RedisCircuitBreaker.recordSuccess
  split_ifs <;> rfl

theorem effect_storeReturned (s : State D) (w : ℕ) (place : Place) (seen pendingAck : List String)
    (allData : List D) (hs : s.workers w = .storing place seen pendingAck allData) :
    Effect s (storeReturned s w place seen pendingAck allData) (.storeDone w true) := by
  cases place with
  | insert =>
    unfold storeReturned xackBatch
    dsimp only
    split
    · refine .stored w rfl (fun v hv => goto_other _ _ hv) (Or.inl (goto_self _ w _)) ?_
        (by simp [insertedAfter, hs])
      exact failureCount_recordSuccess s.dbCircuitBreaker
    · refine .stored w rfl (fun v hv => goto_other _ _ hv) (Or.inr ?_) ?_
        (by simp [insertedAfter, hs])
      · rw [goto_self]
        rfl
      · exact failureCount_recordSuccess s.dbCircuitBreaker
  | _ =>
    refine .worked w rfl (by rw [hs]; simp) (by rw [hs]; rfl) ?_ (by simp [insertedAfter, hs])
    unfold storeReturned
    apply quiet_xackBatch <;> rfl

theorem quiet_ackThrew (cfg : Config) {s t : State D} (ht : t.workers = s.workers) (w : ℕ)
    (after : AfterAck D) : Quiet s (ackThrew cfg t w after) w := by
  cases after with
  | inserted seen pendingAck allData => exact quiet_insertFailed cfg ht w seen pendingAck allData
  | spooledOpen seen _ => exact quiet_xackBatch ht w seen rfl
  | spooledFailed seen _ => exact quiet_xackBatch ht w seen rfl
  | _ => exact quiet_goto ht w rfl

theorem exists_of_acksInserted {phase : Phase D} (h : phase.acksInserted = true) :
    ∃ ids seen pendingAck allData, phase = .acking ids (.inserted seen pendingAck allData) := by
  cases phase with
  | acking ids after =>
    cases after with
    | inserted seen pendingAck allData => exact ⟨ids,seen,pendingAck,allData,rfl⟩
    | _ => cases h
  | _ => cases h

theorem failureCount_ackThrew (cfg : Config) {s : State D} {w : ℕ} (applied : Bool)
    (h : (s.workers w).acksInserted = true) :
    (step cfg s (.ackDone w applied true)).dbCircuitBreaker.failureCount
      = s.dbCircuitBreaker.failureCount+1 := by
  obtain ⟨ids,seen,pendingAck,allData,hs⟩ := exists_of_acksInserted h
  simp only [step, hs, if_true, ackThrew]
  rw [failureCount_insertFailed]
  split <;> rfl

theorem effect_ackDone (cfg : Config) (s : State D) (w : ℕ) (applied thrown : Bool)
    (ids : List String) (after : AfterAck D) (hs : s.workers w = .acking ids after) :
    Effect s (step cfg s (.ackDone w applied thrown)) (.ackDone w applied thrown) := by
  have hworkers : (if applied then { s with acked := s.acked++ids } else s).workers = s.workers := by
    split <;> rfl
  cases hacks : (s.workers w).acksInserted with
  | false =>
    refine .worked w rfl (by rw [hs]; simp) hacks ?_ (fun _ => rfl)
    simp only [step, hs]
    cases thrown with
    | true => exact quiet_ackThrew cfg hworkers w after
    | false => exact quiet_ackReturned hworkers w after
  | true =>
    cases thrown with
    | true => exact .lost w applied rfl hacks (failureCount_ackThrew cfg applied hacks)
    | false =>
      obtain ⟨ids',seen,pendingAck,allData,hs'⟩ := exists_of_acksInserted hacks
      simp only [step, hs', Bool.false_eq_true, if_false, ackReturned]
      refine .acked w rfl ?_ (goto_self _ w _) ?_ (fun _ => rfl)
      · intro v hv
        rw [goto_other _ _ hv]
        split <;> rfl
      · split <;> rfl

theorem step_effect (cfg : Config) (s : State D) (e : Event D) : Effect s (step cfg s e) e := by
  cases e with
  | delivered w parseErrors entries =>
    cases hs : s.workers w with
    | idle =>
      simp only [step, hs]
      exact .begun w rfl (quiet_received cfg rfl w parseErrors entries) (by simp [insertedAfter, hs])
    | _ =>
      simp only [step, hs]
      exact .still rfl rfl (by simp [insertedAfter, hs])
  | claimAborted w =>
    cases hs : s.workers w with
    | parsed parseErrors entries =>
      simp only [step, hs]
      exact .worked w rfl (by rw [hs]; simp) (by rw [hs]; rfl) (quiet_goto rfl w rfl) (fun _ => rfl)
    | _ =>
      simp only [step, hs]
      exact .still rfl rfl (fun _ => rfl)
  | decoded w i data =>
    simp only [step, decodeDone]
    split
    · rename_i hs
      split
      · refine .worked w rfl (by rw [hs]; simp) (by rw [hs]; rfl) ?_ (fun _ => rfl)
        apply quiet_slotDone
        rfl
      · exact .worked w rfl (by rw [hs]; simp) (by rw [hs]; rfl) (quiet_goto rfl w rfl)
          (fun _ => rfl)
      · exact .still rfl rfl (fun _ => rfl)
    · exact .still rfl rfl (fun _ => rfl)
  | deadLettered w i stored =>
    simp only [step, deadLetterDone]
    split
    · rename_i hs
      exact .worked w rfl (by rw [hs]; simp) (by rw [hs]; rfl)
        (quiet_received cfg (workers_moveToDLQ s _ stored) w _ _) (fun _ => rfl)
    · rename_i hs
      split
      · exact .worked w rfl (by rw [hs]; simp) (by rw [hs]; rfl)
          (quiet_slotDone cfg (workers_moveToDLQ s _ stored) w _ _ _ _ _) (fun _ => rfl)
      · exact .still rfl rfl (fun _ => rfl)
    · rename_i hs
      exact .worked w rfl (by rw [hs]; simp) (by rw [hs]; rfl)
        (quiet_handleBatchFailures (workers_moveToDLQ s _ stored) w _) (fun _ => rfl)
    · exact .still rfl rfl (fun _ => rfl)
  | storeDone w ok =>
    cases hs : s.workers w with
    | storing place seen pendingAck allData =>
      cases ok with
      | true =>
        simp only [step, hs, if_true]
        exact effect_storeReturned s w place seen pendingAck allData hs
      | false =>
        simp only [step, hs, Bool.false_eq_true, if_false]
        exact .worked w rfl (by rw [hs]; simp) (by rw [hs]; cases place <;> rfl)
          (quiet_storeThrew cfg s w place seen pendingAck allData) (fun _ => rfl)
    | _ =>
      simp only [step, hs]
      exact .still rfl rfl (by cases ok <;> simp [insertedAfter, hs])
  | ackDone w applied thrown =>
    cases hs : s.workers w with
    | acking ids after => exact effect_ackDone cfg s w applied thrown ids after hs
    | _ =>
      simp only [step, hs]
      exact .still rfl rfl (fun _ => rfl)
  | counted w attempts =>
    simp only [step]
    split
    · rename_i hs
      refine .worked w rfl (by rw [hs]; simp) (by rw [hs]; rfl) ?_ (fun _ => rfl)
      split
      · exact quiet_goto rfl w rfl
      · exact quiet_handleBatchFailures rfl w _
    · exact .still rfl rfl (fun _ => rfl)
  | spoolInitialized => exact .still rfl rfl (fun _ => rfl)
  | replayed ok => exact .aside rfl rfl (fun _ => rfl)
  | tick ms => exact .still rfl rfl (fun _ => rfl)
  | restart => exact .restarted rfl (fun _ => rfl) (fun _ => rfl)

/-- Nobody has been blamed; a worker whose batch is inserted is through with
it or awaits its acknowledgement. -/
structure Truthful (s : Watched D) : Prop where
  blameless : s.blamed = []
  known : ∀ w, (s.state.workers w).acksInserted = true → s.inserted w = true
  place : ∀ w, s.inserted w = true →
    s.state.workers w = .idle ∨ (s.state.workers w).acksInserted = true

theorem treatsAsFailed_of_place {phase : Phase D}
    (h : phase = .idle ∨ phase.acksInserted = true) : phase.treatsAsFailed = false := by
  rcases h with rfl | h
  · rfl
  · obtain ⟨ids,seen,pendingAck,allData,rfl⟩ := exists_of_acksInserted h
    rfl

/-- Nothing is noted when the acting worker's batch is not inserted, or it is
where it should be and no failure was reported. -/
theorem truthful_watch {cfg : Config} {s : Watched D} {e : Event D} (h : Truthful s)
    (hknown : ∀ w, ((watch cfg s e).state.workers w).acksInserted = true →
      (watch cfg s e).inserted w = true)
    (hplace : ∀ w, (watch cfg s e).inserted w = true → (watch cfg s e).state.workers w = .idle
      ∨ ((watch cfg s e).state.workers w).acksInserted = true)
    (hbreaker : ∀ w, e.worker = some w → (watch cfg s e).inserted w = true →
      (watch cfg s e).state.dbCircuitBreaker.failureCount
        ≤ s.state.dbCircuitBreaker.failureCount) : Truthful (watch cfg s e) := by
  refine ⟨?_,hknown,hplace⟩
  unfold watch
  dsimp only
  rw [h.blameless, List.nil_append, List.filter_eq_nil_iff]
  intro w hw
  have hworker : e.worker = some w := by simpa using hw
  rw [Bool.and_eq_true, not_and]
  intro hins
  have hfine := treatsAsFailed_of_place (hplace w hins)
  have hcount := hbreaker w hworker hins
  unfold treated
  rw [Bool.or_eq_true, not_or]
  refine ⟨?_,by rw [Bool.not_eq_true]; exact hfine⟩
  rw [decide_eq_true_eq]
  exact Nat.not_lt.mpr hcount

theorem truthful_acting {cfg : Config} {s : Watched D} {e : Event D} (h : Truthful s) {w : ℕ}
    (hworker : e.worker = some w)
    (hframe : ∀ v, v ≠ w → (step cfg s.state e).workers v = s.state.workers v)
    (hkept : ∀ v, v ≠ w → insertedAfter s.state s.inserted e v = s.inserted v)
    (hknown : ((step cfg s.state e).workers w).acksInserted = true →
      insertedAfter s.state s.inserted e w = true)
    (hplace : insertedAfter s.state s.inserted e w = true → (step cfg s.state e).workers w = .idle
      ∨ ((step cfg s.state e).workers w).acksInserted = true)
    (hbreaker : insertedAfter s.state s.inserted e w = true →
      (step cfg s.state e).dbCircuitBreaker.failureCount
        ≤ s.state.dbCircuitBreaker.failureCount) : Truthful (watch cfg s e) := by
  apply truthful_watch h
  · intro v hv
    rcases eq_or_ne v w with rfl | hne
    · exact hknown hv
    · simp only [watch] at hv ⊢
      rw [hframe v hne] at hv
      rw [hkept v hne]
      exact h.known v hv
  · intro v hv
    rcases eq_or_ne v w with rfl | hne
    · exact hplace hv
    · simp only [watch] at hv ⊢
      rw [hkept v hne] at hv
      rw [hframe v hne]
      exact h.place v hv
  · intro v hv hins
    obtain rfl : w = v := Option.some.inj (hworker.symm.trans hv)
    exact hbreaker hins

theorem watch_truthful (cfg : Config) (s : Watched D) (e : Event D) (h : Truthful s)
    (hok : Answered s e) : Truthful (watch cfg s e) := by
  cases step_effect cfg s.state e with
  | still hworkers hbreaker hins =>
    apply truthful_watch h <;> simp only [watch, hworkers, hins, hbreaker]
    · exact h.known
    · exact h.place
    · exact fun _ _ _ => Nat.le_refl _
  | aside hworker hworkers hins =>
    apply truthful_watch h <;> simp only [watch, hworkers, hins, hworker]
    · exact h.known
    · exact h.place
    · exact fun _ hf => absurd hf (Option.some_ne_none _).symm
  | restarted hworker hidle hins =>
    apply truthful_watch h <;> simp only [watch, hins, hidle]
    · exact fun _ hacks => absurd hacks Bool.false_ne_true
    · exact fun _ hf => absurd hf Bool.false_ne_true
    · exact fun _ _ hf => absurd hf Bool.false_ne_true
  | begun w hworker hquiet hins =>
    apply truthful_acting h hworker hquiet.frame <;> simp only [hins, Function.update_self]
    · exact fun v hv => Function.update_of_ne hv _ _
    · intro hacks
      rw [hquiet.acks] at hacks
      cases hacks
    · exact fun hf => absurd hf Bool.false_ne_true
    · exact fun hf => absurd hf Bool.false_ne_true
  | stored w hworker hframe hplace hbreaker hins =>
    apply truthful_acting h hworker hframe <;> simp only [hins, Function.update_self]
    · exact fun v hv => Function.update_of_ne hv _ _
    · exact fun _ => trivial
    · exact fun _ => hplace
    · rw [hbreaker]
      exact fun _ => Nat.zero_le _
  | acked w hworker hframe hplace hbreaker hins =>
    apply truthful_acting h hworker hframe <;> simp only [hins]
    · exact fun _ _ => trivial
    · intro hacks
      rw [hplace] at hacks
      cases hacks
    · exact fun _ => Or.inl hplace
    · rw [hbreaker]
      exact fun _ => Nat.le_refl _
  | lost w applied he hacks _ =>
    subst he
    rw [Answered, hacks] at hok
    cases hok
  | worked w hworker hbusy hacks hquiet hins =>
    have hnot : s.inserted w ≠ true := by
      intro hf
      rcases h.place w hf with hidle | hinserted
      · exact hbusy hidle
      · rw [hacks] at hinserted
        cases hinserted
    apply truthful_acting h hworker hquiet.frame <;> simp only [hins]
    · exact fun _ _ => trivial
    · intro hacked
      rw [hquiet.acks] at hacked
      cases hacked
    · exact fun hf => absurd hf hnot
    · exact fun hf => absurd hf hnot

/-- An exception of the acknowledgement is reported as a failure of the
database. -/
theorem answered_of_blameless (cfg : Config) (s : Watched D) (e : Event D) (h : Truthful s)
    (hb : (watch cfg s e).blamed = []) : Answered s e := by
  cases e with
  | ackDone w applied thrown =>
    cases thrown with
    | false => trivial
    | true =>
      by_contra hacks
      have hacks : (s.state.workers w).acksInserted = true := by
        rwa [Answered, Bool.not_eq_false] at hacks
      have hinserted : s.inserted w = true := h.known w hacks
      have hcount := failureCount_ackThrew cfg applied hacks
      simp only [watch, Event.worker, Option.toList_some, List.append_eq_nil_iff] at hb
      have hnone := List.filter_eq_nil_iff.mp hb.2 w List.mem_cons_self
      apply hnone
      rw [Bool.and_eq_true]
      refine ⟨hinserted,?_⟩
      unfold treated
      rw [Bool.or_eq_true, decide_eq_true_eq, hcount]
      exact Or.inl (Nat.lt_succ_self _)
  | _ => trivial

theorem watched_truthful (now : ℤ) : Truthful (watched now : Watched D) :=
  ⟨rfl,fun _ h => absurd h Bool.false_ne_true,fun _ h => absurd h Bool.false_ne_true⟩

/-- In a run nobody treats a batch that was inserted as failed exactly if no
acknowledgement that follows an insert throws. -/
theorem inserted_not_failed_iff (cfg : Config) (now : ℤ) (es : List (Event D)) :
    (∀ pre, pre <+: es → (run (watch cfg) pre (watched now)).blamed = [])
      ↔ Meets (watch cfg) Answered es (watched now) :=
  always_iff_meets_of_inv (fun s e h hok => watch_truthful cfg s e h hok)
    (fun _ h => h.blameless) (fun s e h hb => answered_of_blameless cfg s e h hb) es _
    (watched_truthful now)

def lostReply : List (Event ℕ) :=
  [.delivered 0 [] ["1-0"],.decoded 0 0 (some [7]),.storeDone 0 true,.ackDone 0 false true,
    .counted 0 (some 1),.deadLettered 0 0 true]

theorem inserted_and_failed :
    ¬∀ (cfg : Config) (now : ℤ) (es : List (Event ℕ)),
      (run (watch cfg) es (watched now)).blamed = [] := by
  intro h
  have hblamed := h ⟨false,1⟩ 0 lostReply
  revert hblamed
  decide

end Iotistica.Ingestion
