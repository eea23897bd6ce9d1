import Mathlib.Algebra.Order.Ring.Rat
import Mathlib.Data.Rat.Cast.Order
import Mathlib.Logic.Function.Basic

/-!
# Health probes

The manager keeps a state per probe of a container under a key of its own.
Checks run in chains: a timer fires, the check is executed, its result is
counted and the next timer is set. The manager is modelled for one container,
whose keys no other container shares. Time and outcome of a check are open:
timers fire in any order, and a check completes with any result at any later
moment, with anything else in between. Listeners of the emitted events may
act before the next timer is set, so that is a step of its own.
-/

set_option autoImplicit false

namespace Iotistica.HealthProbes
inductive ProbeType
  | startup
  | liveness
  | readiness
  deriving DecidableEq

inductive HealthStatus
  | healthy
  | unhealthy
  | unknown
  deriving DecidableEq

structure HealthProbe where
  initialDelaySeconds : Option ℚ := none
  periodSeconds : Option ℚ := none
  timeoutSeconds : Option ℚ := none
  successThreshold : Option ℚ := none
  failureThreshold : Option ℚ := none
  deriving DecidableEq

structure HealthCheckConfig where
  containerId : String
  serviceName : String
  livenessProbe : Option HealthProbe := none
  readinessProbe : Option HealthProbe := none
  startupProbe : Option HealthProbe := none
  deriving DecidableEq

def HealthCheckConfig.probe (config : HealthCheckConfig) : ProbeType → Option HealthProbe
  | .startup => config.startupProbe
  | .liveness => config.livenessProbe
  | .readiness => config.readinessProbe

structure HealthCheckResult where
  success : Bool
  message : Option String := none
  deriving DecidableEq

/-- `session` tells one state object from another. -/
structure ProbeState where
  session : ℕ
  probe : HealthProbe
  containerId : String
  serviceName : String
  status : HealthStatus := .unknown
  consecutiveSuccesses : ℕ := 0
  consecutiveFailures : ℕ := 0
  lastCheck : Option HealthCheckResult := none
  timerId : Option ℕ := none
  deriving DecidableEq

structure ContainerHealth where
  isLive : Bool := true
  isReady : Bool := false
  isStarted : Bool := false
  deriving DecidableEq

inductive HealthEvent
  | startupCompleted (containerId serviceName : String)
  | livenessFailed (containerId serviceName : String) (message : Option String)
  | readinessChanged (containerId serviceName : String) (isReady : Bool)
  deriving DecidableEq

structure Timer where
  id : ℕ
  probeType : ProbeType
  delayMs : ℚ
  deriving DecidableEq

/-- A check from its execution to the end of `performCheck`. It holds the
state object it was started for. -/
structure Check where
  id : ℕ
  session : ℕ
  probeType : ProbeType
  timeoutMs : ℚ
  counted : Bool := false
  deriving DecidableEq

/-- What happened: a check was executed, a result of a check started for one
state was counted in another, an event was emitted. -/
inductive Entry
  | executed (probeType : ProbeType)
  | counted (probeType : ProbeType) (startedFor countedIn : ℕ)
  | emitted (event : HealthEvent)
  deriving DecidableEq

structure Manager where
  probes : ProbeType → Option ProbeState := fun _ => none
  health : Option ContainerHealth := none
  timers : List Timer := []
  checks : List Check := []
  nextId : ℕ := 0
  log : List Entry := []

/-- `value || default` on a number. -/
def orDefault (value : Option ℚ) (default : ℚ) : ℚ :=
  match value with
  | some q => if q = 0 then default else q
  | none => default

def setProbe (m : Manager) (p : ProbeType) (state : Option ProbeState) : Manager :=
  { m with probes := Function.update m.probes p state }

def emit (m : Manager) (event : HealthEvent) : Manager :=
  { m with log := m.log++[.emitted event] }

def successThreshold (probe : HealthProbe) : ℚ := orDefault probe.successThreshold 1

def failureThreshold (probe : HealthProbe) : ℚ := orDefault probe.failureThreshold 3

def countResult (state : ProbeState) (result : HealthCheckResult) : ProbeState :=
  if result.success then
    let state := { state with
      consecutiveSuccesses := state.consecutiveSuccesses+1, consecutiveFailures := 0 }
    if successThreshold state.probe ≤ state.consecutiveSuccesses ∧ state.status ≠ .healthy
      then { state with status := .healthy } else state
  else
    let state := { state with
      consecutiveFailures := state.consecutiveFailures+1, consecutiveSuccesses := 0 }
    if failureThreshold state.probe ≤ state.consecutiveFailures ∧ state.status ≠ .unhealthy
      then { state with status := .unhealthy } else state

def handleStatusChange (m : Manager) (p : ProbeType) (newStatus : HealthStatus) : Manager :=
  match m.probes p, m.health with
  | some state, some health =>
    match p with
    | .startup =>
      if newStatus = .healthy then
        emit { m with health := some { health with isStarted := true } }
          (.startupCompleted state.containerId state.serviceName)
      else m
    | .liveness =>
      let m := { m with health := some { health with isLive := decide (newStatus = .healthy) } }
      if newStatus = .unhealthy then
        emit m (.livenessFailed state.containerId state.serviceName
          (state.lastCheck.bind HealthCheckResult.message))
      else m
    | .readiness =>
      let isReady := decide (newStatus = .healthy)
      let m := { m with health := some { health with isReady := isReady } }
      if health.isReady ≠ isReady then
        emit m (.readinessChanged state.containerId state.serviceName isReady)
      else m
  | _, _ => m

/-- The status is set only where it differs, so a change is handled just when
there is one. -/
def processResult (m : Manager) (p : ProbeType) (result : HealthCheckResult) : Manager :=
  match m.probes p with
  | none => m
  | some state =>
    let next := countResult state result
    let m := setProbe m p (some next)
    if next.status ≠ state.status then handleStatusChange m p next.status else m

def freshState (id : ℕ) (config : HealthCheckConfig) (probe : HealthProbe) : ProbeState where
  session := id
  probe := probe
  containerId := config.containerId
  serviceName := config.serviceName
  timerId := some id

def startProbe (m : Manager) (config : HealthCheckConfig) (p : ProbeType) (probe : HealthProbe) :
    Manager :=
  { setProbe m p (some (freshState m.nextId config probe)) with
    timers := m.timers++[⟨m.nextId,p,orDefault probe.initialDelaySeconds 0*1000⟩]
    nextId := m.nextId+1 }

def startConfigured (m : Manager) (config : HealthCheckConfig) (p : ProbeType) : Manager :=
  match config.probe p with
  | some probe => startProbe m config p probe
  | none => m

def startMonitoring (m : Manager) (config : HealthCheckConfig) : Manager :=
  let m := { m with health := some {} }
  let m := startConfigured m config .startup
  let m := startConfigured m config .liveness
  let m := startConfigured m config .readiness
  if config.startupProbe = none
    then { m with health := m.health.map (fun health => { health with isStarted := true }) } else m

def clearProbe (m : Manager) (p : ProbeType) : Manager :=
  match m.probes p with
  | some state =>
    { setProbe m p none with timers := m.timers.filter (fun t => some t.id ≠ state.timerId) }
  | none => m

def stopMonitoring (m : Manager) : Manager :=
  { clearProbe (clearProbe (clearProbe m .startup) .liveness) .readiness with health := none }

def scheduleNextCheck (m : Manager) (p : ProbeType) : Manager :=
  match m.probes p with
  | none => m
  | some state =>
    { setProbe m p (some { state with timerId := some m.nextId }) with
      timers := m.timers++[⟨m.nextId,p,orDefault state.probe.periodSeconds 10*1000⟩]
      nextId := m.nextId+1 }

/-- `performCheck` up to the execution of the check. -/
def performCheck (m : Manager) (p : ProbeType) : Manager :=
  match m.probes p with
  | none => m
  | some state =>
    if p ≠ .startup ∧ m.health.any (fun health => !health.isStarted) then scheduleNextCheck m p
    else { m with
      checks := m.checks++[⟨m.nextId,state.session,p,orDefault state.probe.timeoutSeconds 1*1000,
        false⟩]
      nextId := m.nextId+1
      log := m.log++[.executed p] }

def setLastCheck (m : Manager) (check : Check) (result : HealthCheckResult) : Manager :=
  match m.probes check.probeType with
  | some state =>
    if state.session = check.session
      then setProbe m check.probeType (some { state with lastCheck := some result }) else m
  | none => m

/-- The execution of the check is over, and its result is about to be counted
if there is a state under its key. -/
def markCounted (m : Manager) (check : Check) : Manager :=
  { m with
    checks := m.checks.map (fun c => if c.id = check.id then { c with counted := true } else c)
    log := m.log++(m.probes check.probeType).toList.map
      (fun state => .counted check.probeType check.session state.session) }

/-- `performCheck` from the result, or the exception, that the execution ends
with. The state object takes the result, the counters are found by key. -/
def completeCheck (m : Manager) (check : Check) (result : HealthCheckResult) : Manager :=
  processResult (setLastCheck (markCounted m check) check result) check.probeType result

inductive Event
  | start (config : HealthCheckConfig)
  | stop
  | fire (timerId : ℕ)
  | complete (checkId : ℕ) (result : HealthCheckResult)
  | reschedule (checkId : ℕ)
  deriving DecidableEq

def Event.isStart : Event → Bool
  | .start _ => true
  | _ => false

def step (m : Manager) : Event → Manager
  | .start config => startMonitoring m config
  | .stop => stopMonitoring m
  | .fire timerId =>
    match m.timers.find? (fun t => t.id = timerId) with
    | some t =>
      performCheck { m with timers := m.timers.filter (fun t => t.id ≠ timerId) } t.probeType
    | none => m
  | .complete checkId result =>
    match m.checks.find? (fun c => c.id = checkId ∧ c.counted = false) with
    | some check => completeCheck m check result
    | none => m
  | .reschedule checkId =>
    match m.checks.find? (fun c => c.id = checkId ∧ c.counted = true) with
    | some check => scheduleNextCheck { m with checks := m.checks.filter (fun c => c.id ≠ checkId) }
        check.probeType
    | none => m

def changedHealth (health : ContainerHealth) (p : ProbeType) (newStatus : HealthStatus) :
    ContainerHealth :=
  match p with
  | .startup => if newStatus = .healthy then { health with isStarted := true } else health
  | .liveness => { health with isLive := decide (newStatus = .healthy) }
  | .readiness => { health with isReady := decide (newStatus = .healthy) }

def changeEvents (state : ProbeState) (health : ContainerHealth) (p : ProbeType)
    (newStatus : HealthStatus) : List HealthEvent :=
  match p with
  | .startup =>
    if newStatus = .healthy then [.startupCompleted state.containerId state.serviceName] else []
  | .liveness =>
    if newStatus = .unhealthy then
      [.livenessFailed state.containerId state.serviceName
        (state.lastCheck.bind HealthCheckResult.message)]
    else []
  | .readiness =>
    if health.isReady ≠ decide (newStatus = .healthy) then
      [.readinessChanged state.containerId state.serviceName (decide (newStatus = .healthy))]
    else []

theorem handleStatusChange_eq {m : Manager} {p : ProbeType} {state : ProbeState}
    {health : ContainerHealth} (hp : m.probes p = some state) (hhealth : m.health = some health)
    (newStatus : HealthStatus) :
    handleStatusChange m p newStatus = { m with
      health := some (changedHealth health p newStatus)
      log := m.log++List.map Entry.emitted (changeEvents state health p newStatus) } := by
  unfold handleStatusChange changedHealth changeEvents emit
  rw [hp, hhealth]
  cases p with
  | startup =>
    simp only
    split
    · rfl
    · rw [List.map_nil, List.append_nil, ← hhealth]
  | liveness =>
    simp only
    split
    · rfl
    · rw [List.map_nil, List.append_nil]
  | readiness =>
    simp only
    split
    · rfl
    · rw [List.map_nil, List.append_nil]

/-- A status change is noted in the health of the container and told by
events. -/
theorem handleStatusChange_frame (m : Manager) (p : ProbeType) (newStatus : HealthStatus) :
    ∃ health events, (health = none ↔ m.health = none) ∧ handleStatusChange m p newStatus =
      { m with health := health, log := m.log++List.map Entry.emitted events } := by
  cases hp : m.probes p with
  | none => exact ⟨m.health,[],Iff.rfl,by simp [handleStatusChange, hp]⟩
  | some state =>
    rcases Option.eq_none_or_eq_some m.health with hhealth | ⟨health,hhealth⟩
    · have hsame : handleStatusChange m p newStatus = m := by
        simp [handleStatusChange, hp, hhealth]
      exact ⟨m.health,[],Iff.rfl,by rw [hsame, List.map_nil, List.append_nil]⟩
    · exact ⟨_,_,by simp [hhealth],handleStatusChange_eq hp hhealth newStatus⟩

theorem handleStatusChange_probes (m : Manager) (p : ProbeType) (newStatus : HealthStatus) :
    (handleStatusChange m p newStatus).probes = m.probes := by
  obtain ⟨health,events,-,he⟩ := handleStatusChange_frame m p newStatus
  rw [he]

theorem processResult_probes (m : Manager) (p : ProbeType) (result : HealthCheckResult) :
    (processResult m p result).probes = fun q =>
      if q = p then (m.probes p).map (fun state => countResult state result) else m.probes q := by
  funext q
  unfold processResult
  cases hp : m.probes p with
  | none =>
    by_cases hq : q = p
    · simp [hq, hp]
    · simp [hq]
  | some state =>
    have hset : ∀ m' : Manager, m'.probes = Function.update m.probes p (some (countResult state
        result)) → m'.probes q = if q = p then some (countResult state result)
          else m.probes q := by
      intro m' hm'
      rw [hm', Function.update_apply]
    simp only [Option.map_some]
    split
    · exact hset _ (handleStatusChange_probes _ p _)
    · exact hset _ rfl

theorem processResult_frame (m : Manager) (p : ProbeType) (result : HealthCheckResult) :
    ∃ probes health events, (health = none ↔ m.health = none) ∧ processResult m p result =
      { m with probes := probes, health := health, log := m.log++List.map Entry.emitted events } := by
  unfold processResult
  cases m.probes p with
  | none => exact ⟨m.probes,m.health,[],Iff.rfl,by simp⟩
  | some state =>
    simp only
    split
    · obtain ⟨health,events,hnone,he⟩ := handleStatusChange_frame
        (setProbe m p (some (countResult state result))) p (countResult state result).status
      exact ⟨_,health,events,hnone,he⟩
    · exact ⟨Function.update m.probes p (some (countResult state result)),m.health,[],Iff.rfl,
        by simp [setProbe]⟩

theorem processResult_none {m : Manager} {p : ProbeType} (hp : m.probes p = none)
    (result : HealthCheckResult) : processResult m p result = m := by
  unfold processResult
  rw [hp]

theorem processResult_same {m : Manager} {p : ProbeType} {state : ProbeState}
    {result : HealthCheckResult} (hp : m.probes p = some state)
    (h : (countResult state result).status = state.status) :
    processResult m p result = setProbe m p (some (countResult state result)) := by
  unfold processResult
  simp [hp, h]

theorem processResult_changed {m : Manager} {p : ProbeType} {state : ProbeState}
    {result : HealthCheckResult} (hp : m.probes p = some state)
    (h : (countResult state result).status ≠ state.status) :
    processResult m p result =
      handleStatusChange (setProbe m p (some (countResult state result))) p
        (countResult state result).status := by
  unfold processResult
  simp [hp, h]

theorem startConfigured_other (m : Manager) (config : HealthCheckConfig) {p q : ProbeType}
    (h : q ≠ p) : (startConfigured m config p).probes q = m.probes q := by
  unfold startConfigured
  cases config.probe p with
  | none => rfl
  | some probe => exact Function.update_of_ne h _ _

theorem startConfigured_self (m : Manager) {config : HealthCheckConfig} {p : ProbeType}
    {probe : HealthProbe} (h : config.probe p = some probe) :
    (startConfigured m config p).probes p = some (freshState m.nextId config probe) := by
  unfold startConfigured
  rw [h]
  exact Function.update_self _ _ _

theorem startConfigured_health (m : Manager) (config : HealthCheckConfig) (p : ProbeType) :
    (startConfigured m config p).health = m.health := by
  unfold startConfigured
  cases config.probe p <;> rfl

/-- The probes as they are set up, before the container counts as started. -/
def startProbes (m : Manager) (config : HealthCheckConfig) : Manager :=
  startConfigured (startConfigured (startConfigured { m with health := some {} } config .startup)
    config .liveness) config .readiness

theorem startMonitoring_eq (m : Manager) (config : HealthCheckConfig) :
    startMonitoring m config = { startProbes m config with
      health := some { isStarted := decide (config.startupProbe = none) } } := by
  have hhealth : (startProbes m config).health = some {} := by
    simp only [startProbes, startConfigured_health]
  unfold startMonitoring
  show (if config.startupProbe = none then { startProbes m config with
      health := (startProbes m config).health.map
        (fun health => { health with isStarted := true }) } else startProbes m config) = _
  by_cases hs : config.startupProbe = none
  · simp [hs, hhealth]
  · rw [if_neg hs, decide_eq_false hs, ← hhealth]

theorem startMonitoring_probe (m : Manager) {config : HealthCheckConfig} {p : ProbeType}
    {probe : HealthProbe} (h : config.probe p = some probe) :
    ∃ id, (startMonitoring m config).probes p = some (freshState id config probe) := by
  rw [startMonitoring_eq]
  unfold startProbes
  cases p with
  | startup =>
    refine ⟨m.nextId,?_⟩
    rw [startConfigured_other _ _ (by decide), startConfigured_other _ _ (by decide)]
    exact startConfigured_self _ h
  | liveness =>
    refine ⟨(startConfigured { m with health := some {} } config .startup).nextId,?_⟩
    rw [startConfigured_other _ _ (by decide)]
    exact startConfigured_self _ h
  | readiness => exact ⟨_,startConfigured_self _ h⟩

theorem startMonitoring_health (m : Manager) (config : HealthCheckConfig) :
    (startMonitoring m config).health =
      some { isStarted := decide (config.startupProbe = none) } := by
  rw [startMonitoring_eq]

theorem clearProbe_probes (m : Manager) (p : ProbeType) :
    (clearProbe m p).probes = Function.update m.probes p none := by
  unfold clearProbe
  cases hp : m.probes p with
  | none => simp [← hp]
  | some state => rfl

theorem stopMonitoring_probes (m : Manager) (p : ProbeType) :
    (stopMonitoring m).probes p = none := by
  show (clearProbe (clearProbe (clearProbe m .startup) .liveness) .readiness).probes p = none
  rw [clearProbe_probes, clearProbe_probes, clearProbe_probes]
  cases p with
  | startup => simp
  | liveness => simp
  | readiness => simp

theorem scheduleNextCheck_frame (m : Manager) (p : ProbeType) :
    (scheduleNextCheck m p).health = m.health ∧ (scheduleNextCheck m p).log = m.log := by
  unfold scheduleNextCheck
  cases m.probes p <;> exact ⟨rfl,rfl⟩

theorem scheduleNextCheck_health (m : Manager) (p : ProbeType) :
    (scheduleNextCheck m p).health = m.health := (scheduleNextCheck_frame m p).1

theorem scheduleNextCheck_log (m : Manager) (p : ProbeType) :
    (scheduleNextCheck m p).log = m.log := (scheduleNextCheck_frame m p).2

theorem performCheck_health (m : Manager) (p : ProbeType) :
    (performCheck m p).health = m.health := by
  unfold performCheck
  cases m.probes p with
  | none => rfl
  | some state =>
    simp only
    split
    · exact scheduleNextCheck_health m p
    · rfl

theorem setLastCheck_frame (m : Manager) (check : Check) (result : HealthCheckResult) :
    (setLastCheck m check result).health = m.health ∧
      (setLastCheck m check result).log = m.log := by
  unfold setLastCheck
  cases m.probes check.probeType with
  | none => exact ⟨rfl,rfl⟩
  | some state =>
    simp only
    split <;> exact ⟨rfl,rfl⟩

theorem setLastCheck_health (m : Manager) (check : Check) (result : HealthCheckResult) :
    (setLastCheck m check result).health = m.health := (setLastCheck_frame m check result).1

theorem setLastCheck_log (m : Manager) (check : Check) (result : HealthCheckResult) :
    (setLastCheck m check result).log = m.log := (setLastCheck_frame m check result).2

end Iotistica.HealthProbes
