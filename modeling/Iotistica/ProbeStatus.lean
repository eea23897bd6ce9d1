import Iotistica.HealthProbes
import Iotistica.ThresholdRuns
import Iotistica.GuardedRun

/-!
# The status of the probes

What the results delivered for one container make of its probes, which
events they emit, and when a check is executed at all.
-/

set_option autoImplicit false

namespace Iotistica.ProbeStatus
open Iotistica Iotistica.GuardedRun Iotistica.ThresholdRuns Iotistica.HealthProbes

/-- Whether a run of that many equal results settles the status. -/
def reached (probe : HealthProbe) (success : Bool) (length : ℕ) : Bool :=
  if success then decide (successThreshold probe ≤ length)
  else decide (failureThreshold probe ≤ length)

def statusOf : Option Bool → HealthStatus
  | some true => .healthy
  | some false => .unhealthy
  | none => .unknown

theorem reached_succ (probe : HealthProbe) (success : Bool) (n : ℕ)
    (h : reached probe success n = true) : reached probe success (n+1) = true := by
  have hle : (n : ℚ) ≤ ((n+1 : ℕ) : ℚ) := by exact_mod_cast Nat.le_succ n
  cases success with
  | true =>
    have hq : successThreshold probe ≤ n := by simpa [reached] using h
    simpa [reached] using hq.trans hle
  | false =>
    have hq : failureThreshold probe ≤ n := by simpa [reached] using h
    simpa [reached] using hq.trans hle

structure Follows (state : ProbeState) (outcomes : List Bool) : Prop where
  successes : state.consecutiveSuccesses = trailing true outcomes
  failures : state.consecutiveFailures = trailing false outcomes
  status : state.status = statusOf (settled (reached state.probe) outcomes)

theorem countResult_eq (state : ProbeState) (result : HealthCheckResult) :
    countResult state result = { state with
      consecutiveSuccesses := if result.success then state.consecutiveSuccesses+1 else 0
      consecutiveFailures := if result.success then 0 else state.consecutiveFailures+1
      status := if reached state.probe result.success
          (if result.success then state.consecutiveSuccesses else state.consecutiveFailures).succ
        then statusOf (some result.success) else state.status } := by
  unfold countResult reached
  cases result.success with
  | true =>
    by_cases hle : successThreshold state.probe ≤ (state.consecutiveSuccesses : ℚ)+1
    · by_cases hs : state.status = .healthy
      · simp [hle, hs, statusOf]
      · simp [hle, hs, statusOf]
    · simp [hle]
  | false =>
    by_cases hle : failureThreshold state.probe ≤ (state.consecutiveFailures : ℚ)+1
    · by_cases hs : state.status = .unhealthy
      · simp [hle, hs, statusOf]
      · simp [hle, hs, statusOf]
    · simp [hle]

theorem countResult_probe (state : ProbeState) (result : HealthCheckResult) :
    (countResult state result).probe = state.probe := by
  rw [countResult_eq]

theorem countResult_follows {state : ProbeState} {outcomes : List Bool}
    (h : Follows state outcomes) (result : HealthCheckResult) :
    Follows (countResult state result) (outcomes++[result.success]) := by
  have hsettled := settled_append (reached_succ state.probe) outcomes result.success
  rw [countResult_eq]
  constructor
  · cases result.success with
    | true => simp [h.successes]
    | false => simp [trailing_append_ne]
  · cases result.success with
    | true => simp [trailing_append_ne]
    | false => simp [h.failures]
  · simp only
    rw [hsettled, h.status]
    cases result.success with
    | true =>
      simp only [if_true, h.successes, Nat.succ_eq_add_one]
      split <;> rfl
    | false =>
      simp only [Bool.false_eq_true, if_false, h.failures, Nat.succ_eq_add_one]
      split <;> rfl

def deliver (m : Manager) (results : List (ProbeType × HealthCheckResult)) : Manager :=
  results.foldl (fun m r => processResult m r.1 r.2) m

def outcomes (p : ProbeType) (results : List (ProbeType × HealthCheckResult)) : List Bool :=
  (results.filter (fun r => r.1 = p)).map (fun r => r.2.success)

theorem deliver_append (m : Manager) (results : List (ProbeType × HealthCheckResult))
    (r : ProbeType × HealthCheckResult) :
    deliver m (results++[r]) = processResult (deliver m results) r.1 r.2 := by
  simp [deliver]

theorem deliver_follows {m : Manager} {p : ProbeType} {state : ProbeState}
    (hp : m.probes p = some state) (hf : Follows state [])
    (results : List (ProbeType × HealthCheckResult)) :
    ∃ next, (deliver m results).probes p = some next ∧ next.probe = state.probe ∧
      Follows next (outcomes p results) := by
  induction results using List.reverseRecOn with
  | nil => exact ⟨state,hp,rfl,hf⟩
  | append_singleton results r ih =>
    obtain ⟨next,hnext,hprobe,hfollows⟩ := ih
    rw [deliver_append, processResult_probes]
    by_cases hr : r.1 = p
    · subst hr
      refine ⟨countResult next r.2,by simp [hnext],by rw [countResult_probe, hprobe],?_⟩
      have hout : outcomes r.1 (results++[r]) = outcomes r.1 results++[r.2.success] := by
        simp [outcomes]
      rw [hout]
      exact countResult_follows hfollows r.2
    · have hout : outcomes p (results++[r]) = outcomes p results := by
        simp [outcomes, hr]
      exact ⟨next,by simp [Ne.symm hr, hnext],hprobe,by rw [hout]; exact hfollows⟩

def statusIn (m : Manager) (p : ProbeType) : HealthStatus :=
  ((m.probes p).map ProbeState.status).getD .unknown

def isReady (m : Manager) : Bool := m.health.any ContainerHealth.isReady

def Entry.isLivenessFailure : Entry → Bool
  | .emitted (.livenessFailed _ _ _) => true
  | _ => false

def Entry.readiness? : Entry → Option Bool
  | .emitted (.readinessChanged _ _ isReady) => some isReady
  | _ => none

def livenessFailures (m : Manager) : ℕ := m.log.countP Entry.isLivenessFailure

/-- The values told by the readiness events, in order. -/
def readinessChanges (m : Manager) : List Bool := m.log.filterMap Entry.readiness?

theorem statusIn_processResult {m : Manager} {p : ProbeType} {state : ProbeState}
    (hp : m.probes p = some state) (result : HealthCheckResult) (q : ProbeType) :
    statusIn (processResult m p result) q =
      if q = p then (countResult state result).status else statusIn m q := by
  unfold statusIn
  rw [processResult_probes]
  by_cases hq : q = p
  · simp [hq, hp]
  · simp [hq]

theorem statusIn_eq {m : Manager} {p : ProbeType} {state : ProbeState}
    (hp : m.probes p = some state) : statusIn m p = state.status := by simp [statusIn, hp]

theorem processResult_change {m : Manager} {p : ProbeType} {state : ProbeState}
    {health : ContainerHealth} {result : HealthCheckResult} (hp : m.probes p = some state)
    (hhealth : m.health = some health) (h : (countResult state result).status ≠ state.status) :
    (processResult m p result).health =
        some (changedHealth health p (countResult state result).status) ∧
      (processResult m p result).log = m.log++List.map Entry.emitted
        (changeEvents (countResult state result) health p (countResult state result).status) := by
  have hset : (setProbe m p (some (countResult state result))).probes p =
      some (countResult state result) := Function.update_self _ _ _
  rw [processResult_changed hp h, handleStatusChange_eq hset hhealth]
  exact ⟨rfl,rfl⟩

theorem countP_changeEvents (state : ProbeState) (health : ContainerHealth) (p : ProbeType)
    (newStatus : HealthStatus) :
    (List.map Entry.emitted (changeEvents state health p newStatus)).countP
        Entry.isLivenessFailure =
      if p = .liveness ∧ newStatus = .unhealthy then 1 else 0 := by
  unfold changeEvents
  cases p with
  | startup => by_cases h : newStatus = .healthy <;> simp [h, Entry.isLivenessFailure]
  | liveness => by_cases h : newStatus = .unhealthy <;> simp [h, Entry.isLivenessFailure]
  | readiness =>
    by_cases h : health.isReady ≠ decide (newStatus = .healthy) <;>
      simp [h, Entry.isLivenessFailure]

theorem filterMap_changeEvents (state : ProbeState) (health : ContainerHealth) (p : ProbeType)
    (newStatus : HealthStatus) :
    (List.map Entry.emitted (changeEvents state health p newStatus)).filterMap Entry.readiness? =
      if (changedHealth health p newStatus).isReady ≠ health.isReady
        then [(changedHealth health p newStatus).isReady] else [] := by
  unfold changeEvents changedHealth
  cases p with
  | startup => by_cases h : newStatus = .healthy <;> simp [h, Entry.readiness?]
  | liveness => by_cases h : newStatus = .unhealthy <;> simp [h, Entry.readiness?]
  | readiness =>
    by_cases h : health.isReady = decide (newStatus = .healthy)
    · simp [h]
    · simp [h, Ne.symm h, Entry.readiness?]

theorem livenessFailures_processResult {m : Manager} (hhealth : m.health.isSome)
    (p : ProbeType) (result : HealthCheckResult) :
    livenessFailures (processResult m p result) = livenessFailures m+
      if statusIn m .liveness ≠ .unhealthy ∧
        statusIn (processResult m p result) .liveness = .unhealthy then 1 else 0 := by
  obtain ⟨health,hhealth⟩ := Option.isSome_iff_exists.mp hhealth
  cases hp : m.probes p with
  | none =>
    rw [processResult_none hp, if_neg (fun h => h.1 h.2), Nat.add_zero]
  | some state =>
    rw [statusIn_processResult hp]
    by_cases hsame : (countResult state result).status = state.status
    · have hstay : (if ProbeType.liveness = p then (countResult state result).status
          else statusIn m .liveness) = statusIn m .liveness := by
        split
        · rename_i hl
          rw [hl, statusIn_eq hp, hsame]
        · rfl
      rw [processResult_same hp hsame, hstay, if_neg (fun h => h.1 h.2), Nat.add_zero]
      rfl
    · unfold livenessFailures
      rw [(processResult_change hp hhealth hsame).2, List.countP_append, countP_changeEvents]
      by_cases hl : p = .liveness
      · subst hl
        have hne : (countResult state result).status = .unhealthy → state.status ≠ .unhealthy :=
          fun h h' => hsame (h.trans h'.symm)
        rw [if_pos rfl, statusIn_eq hp]
        by_cases hun : (countResult state result).status = .unhealthy
        · simp [hun, hne hun]
        · simp [hun]
      · simp [hl, Ne.symm hl]

theorem readinessChanges_processResult {m : Manager} (hhealth : m.health.isSome)
    (p : ProbeType) (result : HealthCheckResult) :
    readinessChanges (processResult m p result) = readinessChanges m++
      if isReady (processResult m p result) ≠ isReady m
        then [isReady (processResult m p result)] else [] := by
  obtain ⟨health,hhealth⟩ := Option.isSome_iff_exists.mp hhealth
  cases hp : m.probes p with
  | none => simp [processResult_none hp]
  | some state =>
    by_cases hsame : (countResult state result).status = state.status
    · rw [processResult_same hp hsame]
      simp [setProbe, isReady, readinessChanges]
    · obtain ⟨hafter,hlog⟩ := processResult_change hp hhealth hsame
      unfold readinessChanges isReady
      rw [hlog, hafter, hhealth, List.filterMap_append, filterMap_changeEvents]
      simp

theorem freshState_follows (id : ℕ) (config : HealthCheckConfig) (probe : HealthProbe) :
    Follows (freshState id config probe) [] := ⟨rfl,rfl,rfl⟩

structure SameShape (m m' : Manager) : Prop where
  health : m'.health = none ↔ m.health = none
  probes : ∀ p, m'.probes p = none ↔ m.probes p = none

theorem SameShape.refl (m : Manager) : SameShape m m := ⟨Iff.rfl,fun _ => Iff.rfl⟩

theorem SameShape.trans {m m' m'' : Manager} (h : SameShape m m') (h' : SameShape m' m'') :
    SameShape m m'' :=
  ⟨h'.health.trans h.health,fun p => (h'.probes p).trans (h.probes p)⟩

theorem sameShape_of_update {m m' : Manager} {p : ProbeType} {old new : ProbeState}
    (hp : m.probes p = some old) (hhealth : m'.health = m.health)
    (hprobes : m'.probes = Function.update m.probes p (some new)) : SameShape m m' := by
  refine ⟨by rw [hhealth],fun q => ?_⟩
  rw [hprobes, Function.update_apply]
  split
  · rename_i hq
    rw [hq, hp]
    simp
  · rfl

theorem sameShape_scheduleNextCheck (m : Manager) (p : ProbeType) :
    SameShape m (scheduleNextCheck m p) := by
  unfold scheduleNextCheck
  cases hp : m.probes p with
  | none => exact SameShape.refl m
  | some state => exact sameShape_of_update hp rfl rfl

theorem sameShape_performCheck (m : Manager) (p : ProbeType) : SameShape m (performCheck m p) := by
  unfold performCheck
  cases m.probes p with
  | none => exact SameShape.refl m
  | some state =>
    simp only
    split
    · exact sameShape_scheduleNextCheck m p
    · exact ⟨Iff.rfl,fun _ => Iff.rfl⟩

theorem sameShape_setLastCheck (m : Manager) (check : Check) (result : HealthCheckResult) :
    SameShape m (setLastCheck m check result) := by
  unfold setLastCheck
  cases hp : m.probes check.probeType with
  | none => exact SameShape.refl m
  | some state =>
    simp only
    split
    · exact sameShape_of_update hp rfl rfl
    · exact SameShape.refl m

theorem sameShape_processResult (m : Manager) (p : ProbeType) (result : HealthCheckResult) :
    SameShape m (processResult m p result) := by
  constructor
  · obtain ⟨probes,health,events,hnone,he⟩ := processResult_frame m p result
    rw [he]
    exact hnone
  · intro q
    rw [processResult_probes]
    by_cases hq : q = p
    · simp [hq]
    · simp [hq]

theorem deliver_health_isSome {m : Manager} (h : m.health.isSome)
    (results : List (ProbeType × HealthCheckResult)) : (deliver m results).health.isSome := by
  induction results using List.reverseRecOn with
  | nil => exact h
  | append_singleton results r ih =>
    rw [deliver_append, Option.isSome_iff_ne_none, ne_eq, (sameShape_processResult _ _ _).health]
    exact Option.isSome_iff_ne_none.mp ih

def Monitored (m : Manager) : Prop := m.health = none → ∀ p, m.probes p = none

theorem SameShape.monitored {m m' : Manager} (h : SameShape m m') (hm : Monitored m) :
    Monitored m' :=
  fun hhealth p => (h.probes p).mpr (hm (h.health.mp hhealth) p)

def started (m : Manager) : Bool := m.health.any ContainerHealth.isStarted

def executions (p : ProbeType) (m : Manager) : ℕ := m.log.count (.executed p)

theorem clearProbe_log (m : Manager) (p : ProbeType) : (clearProbe m p).log = m.log := by
  unfold clearProbe
  cases m.probes p <;> rfl

theorem completeCheck_sameShape (m : Manager) (check : Check) (result : HealthCheckResult) :
    SameShape m (completeCheck m check result) := by
  have hmark : SameShape m (markCounted m check) := ⟨Iff.rfl,fun _ => Iff.rfl⟩
  exact (hmark.trans (sameShape_setLastCheck _ check result)).trans (sameShape_processResult _ _ _)

theorem step_monitored {m : Manager} (hm : Monitored m) {e : Event} (he : e.isStart = false) :
    Monitored (step m e) := by
  cases e with
  | start config => cases he
  | stop => exact fun _ p => stopMonitoring_probes m p
  | fire timerId =>
    simp only [step]
    split
    · exact (sameShape_performCheck _ _).monitored hm
    · exact hm
  | complete checkId result =>
    simp only [step]
    split
    · exact (completeCheck_sameShape m _ result).monitored hm
    · exact hm
  | reschedule checkId =>
    simp only [step]
    split
    · exact (sameShape_scheduleNextCheck _ _).monitored hm
    · exact hm

theorem changedHealth_isStarted {health : ContainerHealth} {p : ProbeType}
    {newStatus : HealthStatus} (h : (changedHealth health p newStatus).isStarted = true) :
    health.isStarted = true ∨ p = .startup ∧ newStatus = .healthy := by
  cases p with
  | startup =>
    by_cases hhealthy : newStatus = .healthy
    · exact Or.inr ⟨rfl,hhealthy⟩
    · exact Or.inl (by simpa [changedHealth, hhealthy] using h)
  | liveness => exact Or.inl h
  | readiness => exact Or.inl h

theorem processResult_started {m : Manager} {p : ProbeType} {result : HealthCheckResult}
    (h : started (processResult m p result) = true) :
    started m = true ∨ statusIn (processResult m p result) .startup = .healthy := by
  cases hp : m.probes p with
  | none =>
    rw [processResult_none hp] at h
    exact Or.inl h
  | some state =>
    by_cases hsame : (countResult state result).status = state.status
    · rw [processResult_same hp hsame] at h
      exact Or.inl h
    · cases hhealth : m.health with
      | none =>
        have hnone := (sameShape_processResult m p result).health.mpr hhealth
        simp [started, hnone] at h
      | some health =>
        unfold started at h ⊢
        rw [(processResult_change hp hhealth hsame).1] at h
        rcases changedHealth_isStarted h with hs | ⟨rfl,hhealthy⟩
        · exact Or.inl (by simp [hhealth, hs])
        · rw [statusIn_processResult hp, if_pos rfl]
          exact Or.inr hhealthy

theorem step_started {m : Manager} {e : Event} (he : e.isStart = false)
    (h : started (step m e) = true) :
    started m = true ∨ statusIn (step m e) .startup = .healthy := by
  cases e with
  | start config => cases he
  | stop => cases h
  | fire timerId =>
    simp only [step] at h ⊢
    split at h
    · unfold started at h
      rw [performCheck_health] at h
      exact Or.inl h
    · exact Or.inl h
  | complete checkId result =>
    simp only [step] at h ⊢
    split at h
    · rename_i check _
      rcases processResult_started h with hs | hs
      · unfold started at hs
        rw [setLastCheck_health] at hs
        exact Or.inl hs
      · exact Or.inr hs
    · exact Or.inl h
  | reschedule checkId =>
    simp only [step] at h ⊢
    split at h
    · unfold started at h
      rw [scheduleNextCheck_health] at h
      exact Or.inl h
    · exact Or.inl h

theorem executions_processResult (q : ProbeType) (m : Manager) (p : ProbeType)
    (result : HealthCheckResult) :
    executions q (processResult m p result) = executions q m := by
  obtain ⟨probes,health,events,-,he⟩ := processResult_frame m p result
  rw [he]
  simp [executions, List.count_eq_zero]

theorem executions_completeCheck (q : ProbeType) (m : Manager) (check : Check)
    (result : HealthCheckResult) :
    executions q (completeCheck m check result) = executions q m := by
  unfold completeCheck
  rw [executions_processResult]
  unfold executions
  rw [setLastCheck_log]
  unfold markCounted
  cases m.probes check.probeType with
  | none => simp
  | some state => simp

theorem performCheck_executed {m : Manager} (hm : Monitored m) {p q : ProbeType}
    (hq : q ≠ .startup) (h : executions q (performCheck m p) ≠ executions q m) :
    started m = true := by
  unfold performCheck at h
  cases hp : m.probes p with
  | none => simp [hp] at h
  | some state =>
    simp only [hp] at h
    split at h
    · simp [executions, scheduleNextCheck_log] at h
    · rename_i hopen
      by_cases hpq : p = q
      · subst hpq
        cases hhealth : m.health with
        | none =>
          rw [hm hhealth p] at hp
          cases hp
        | some health => simpa [hq, hhealth, started] using hopen
      · simp [executions, hpq] at h

theorem step_executed {m : Manager} (hm : Monitored m) {e : Event} (he : e.isStart = false)
    {q : ProbeType} (hq : q ≠ .startup) (h : executions q (step m e) ≠ executions q m) :
    started m = true := by
  cases e with
  | start config => cases he
  | stop =>
    simp [step, stopMonitoring, executions, clearProbe_log] at h
  | fire timerId =>
    simp only [step] at h
    split at h
    · exact performCheck_executed (m := { m with
        timers := m.timers.filter (fun t => t.id ≠ timerId) }) hm hq h
    · exact absurd rfl h
  | complete checkId result =>
    simp only [step] at h
    split at h
    · exact absurd (executions_completeCheck q m _ result) h
    · exact absurd rfl h
  | reschedule checkId =>
    simp only [step] at h
    split at h
    · simp [executions, scheduleNextCheck_log] at h
    · exact absurd rfl h

theorem run_monitored (m : Manager) (config : HealthCheckConfig) (events : List Event)
    (h : ∀ e ∈ events, e.isStart = false) :
    Monitored (run step events (startMonitoring m config)) := by
  induction events using List.reverseRecOn with
  | nil =>
    intro hhealth
    rw [run_nil, startMonitoring_health] at hhealth
    cases hhealth
  | append_singleton events e ih =>
    rw [run_append]
    exact step_monitored (ih (fun e' he' => h e' (by simp [he']))) (h e (by simp))

theorem healthy_of_started (m : Manager) (config : HealthCheckConfig) (events : List Event)
    (h : ∀ e ∈ events, e.isStart = false)
    (hs : started (run step events (startMonitoring m config)) = true) :
    config.startupProbe = none ∨ ∃ earlier, earlier <+: events ∧
      statusIn (run step earlier (startMonitoring m config)) .startup = .healthy := by
  induction events using List.reverseRecOn with
  | nil =>
    rw [run_nil] at hs
    unfold started at hs
    rw [startMonitoring_health] at hs
    exact Or.inl (by simpa using hs)
  | append_singleton events e ih =>
    rw [run_append] at hs
    rcases step_started (h e (by simp)) hs with hbefore | hhealthy
    · rcases ih (fun e' he' => h e' (by simp [he'])) hbefore with hnone | ⟨earlier,hpre,hst⟩
      · exact Or.inl hnone
      · exact Or.inr ⟨earlier,hpre.trans (List.prefix_append events [e]),hst⟩
    · exact Or.inr ⟨events++[e],List.prefix_rfl,by rw [run_append]; exact hhealthy⟩

theorem probes_follow_results (m : Manager) (config : HealthCheckConfig) :
    (∀ p probe results, config.probe p = some probe →
      statusIn (deliver (startMonitoring m config) results) p =
        statusOf (settled (reached probe) (outcomes p results))) ∧
    (∀ results p result, livenessFailures (processResult
        (deliver (startMonitoring m config) results) p result) =
      livenessFailures (deliver (startMonitoring m config) results)+
        if statusIn (deliver (startMonitoring m config) results) .liveness ≠ .unhealthy ∧
          statusIn (processResult (deliver (startMonitoring m config) results) p result)
            .liveness = .unhealthy then 1 else 0) ∧
    (∀ results p result, readinessChanges (processResult
        (deliver (startMonitoring m config) results) p result) =
      readinessChanges (deliver (startMonitoring m config) results)++
        if isReady (processResult (deliver (startMonitoring m config) results) p result) ≠
            isReady (deliver (startMonitoring m config) results)
          then [isReady (processResult (deliver (startMonitoring m config) results) p result)]
          else []) ∧
    (∀ events e p, (∀ e' ∈ events++[e], e'.isStart = false) → p ≠ ProbeType.startup →
      executions p (run step (events++[e]) (startMonitoring m config)) ≠
        executions p (run step events (startMonitoring m config)) →
      config.startupProbe = none ∨ ∃ earlier, earlier <+: events ∧
        statusIn (run step earlier (startMonitoring m config)) .startup = .healthy) := by
  have hhealth : (startMonitoring m config).health.isSome := by
    rw [startMonitoring_health]
    rfl
  refine ⟨?_,?_,?_,?_⟩
  · intro p probe results hprobe
    obtain ⟨id,hid⟩ := startMonitoring_probe m hprobe
    obtain ⟨next,hnext,hsame,hfollows⟩ :=
      deliver_follows hid (freshState_follows id config probe) results
    have hstatus : next.status = statusOf (settled (reached probe) (outcomes p results)) := by
      rw [hfollows.status, hsame]
      rfl
    rw [← hstatus]
    simp [statusIn, hnext]
  · intro results p result
    exact livenessFailures_processResult (deliver_health_isSome hhealth results) p result
  · intro results p result
    exact readinessChanges_processResult (deliver_health_isSome hhealth results) p result
  · intro events e p hnone hp hexec
    rw [run_append] at hexec
    have hnone' : ∀ e' ∈ events, e'.isStart = false := fun e' he' => hnone e' (by simp [he'])
    exact healthy_of_started m config events hnone'
      (step_executed (run_monitored m config events hnone') (hnone e (by simp)) hp hexec)

/-- A slow web server: two successes let it start, failures count three in a
row. -/
def webConfig : HealthCheckConfig where
  containerId := "c0de"
  serviceName := "web"
  livenessProbe := some {}
  startupProbe := some { successThreshold := some 2 }

/-- Both checks of the startup probe succeed before the timer of the liveness
probe fires. -/
def webStart : List Event :=
  [.fire 0,.complete 2 ⟨true,none⟩,.reschedule 2,.fire 3,.complete 4 ⟨true,none⟩]

theorem web_server :
    statusIn (deliver (startMonitoring {} webConfig) [(.liveness,⟨false,none⟩),
        (.liveness,⟨false,none⟩),(.liveness,⟨true,none⟩),(.liveness,⟨false,none⟩)]) .liveness =
      .healthy ∧
    statusIn (deliver (startMonitoring {} webConfig) [(.liveness,⟨false,none⟩),
        (.liveness,⟨false,none⟩),(.liveness,⟨false,none⟩),(.startup,⟨true,none⟩)]) .liveness =
      .unhealthy ∧
    (webConfig.startupProbe = none ∨ ∃ earlier, earlier <+: webStart ∧
      statusIn (run step earlier (startMonitoring {} webConfig)) .startup = .healthy) := by
  have h := probes_follow_results {} webConfig
  refine ⟨(h.1 .liveness {} _ rfl).trans ?_,(h.1 .liveness {} _ rfl).trans ?_,?_⟩
  · decide +kernel
  · decide +kernel
  · exact h.2.2.2 webStart (.fire 1) .liveness (by decide) (by decide) (by decide +kernel)

end Iotistica.ProbeStatus
