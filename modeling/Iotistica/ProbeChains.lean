import Iotistica.HealthProbes
import Iotistica.GuardedRun

/-!
# Chains of checks

A probe's checks form a chain: the timer leads to a check, and the check to
the next timer. The manager finds the state of a probe by its key at every
link, and only the timer that the state knows is cleared when monitoring
stops. A check that is still running then, or a timer that was left, goes on
in the state that a later start puts under the same key. So the chains stay
single, and results stay with the state their check was started for, exactly
when monitoring starts only where nothing of the kind is left.
-/

set_option autoImplicit false

namespace Iotistica.ProbeChains
open Iotistica Iotistica.GuardedRun Iotistica.HealthProbes

def timersOf (m : Manager) (p : ProbeType) : ℕ := m.timers.countP (fun t => t.probeType = p)

def checksOf (m : Manager) (p : ProbeType) : ℕ := m.checks.countP (fun c => c.probeType = p)

def pending (m : Manager) (p : ProbeType) : ℕ := timersOf m p+checksOf m p

/-- Only what finds a state under its key leads to a further check. -/
structure OneChain (m : Manager) : Prop where
  single : ∀ p state, m.probes p = some state → pending m p ≤ 1
  own : ∀ p startedFor countedIn, .counted p startedFor countedIn ∈ m.log → startedFor = countedIn

/-- Monitoring starts only when nothing is pending for the probes it sets up. -/
def StartsIdle (m : Manager) : Event → Prop
  | .start config => ∀ p, config.probe p ≠ none → pending m p = 0
  | _ => True

structure Inv (m : Manager) : Prop where
  single : ∀ p, pending m p ≤ 1
  cleared : ∀ p, m.probes p = none → timersOf m p = 0
  timer : ∀ t ∈ m.timers, ∀ state, m.probes t.probeType = some state → state.timerId = some t.id
  session : ∀ c ∈ m.checks, ∀ state, m.probes c.probeType = some state → state.session = c.session
  own : ∀ p startedFor countedIn, .counted p startedFor countedIn ∈ m.log → startedFor = countedIn

theorem Inv.oneChain {m : Manager} (h : Inv m) : OneChain m := ⟨fun p _ _ => h.single p,h.own⟩

theorem inv_empty : Inv {} where
  single := fun _ => Nat.zero_le 1
  cleared := fun _ _ => rfl
  timer := by simp
  session := by simp
  own := by simp

theorem timersOf_eq_zero {m : Manager} {p : ProbeType} :
    timersOf m p = 0 ↔ ∀ t ∈ m.timers, t.probeType ≠ p := by
  simp [timersOf, List.countP_eq_zero]

theorem checksOf_eq_zero {m : Manager} {p : ProbeType} :
    checksOf m p = 0 ↔ ∀ c ∈ m.checks, c.probeType ≠ p := by
  simp [checksOf, List.countP_eq_zero]

def armed (m : Manager) (p : ProbeType) (state : ProbeState) (delayMs : ℚ) : Manager :=
  { setProbe m p (some { state with timerId := some m.nextId }) with
    timers := m.timers++[⟨m.nextId,p,delayMs⟩]
    nextId := m.nextId+1 }

theorem pending_armed (m : Manager) (p q : ProbeType) (state : ProbeState) (delayMs : ℚ) :
    pending (armed m p state delayMs) q = pending m q+if p = q then 1 else 0 := by
  have ht : timersOf (armed m p state delayMs) q = timersOf m q+if p = q then 1 else 0 := by
    by_cases hpq : p = q
    · simp [timersOf, armed, hpq]
    · simp [timersOf, armed, hpq]
  have hc : checksOf (armed m p state delayMs) q = checksOf m q := rfl
  unfold pending
  omega

theorem single_of_added {m : Manager} (h : Inv m) {p : ProbeType} (hp : pending m p = 0)
    (q : ProbeType) : pending m q+(if p = q then 1 else 0) ≤ 1 := by
  by_cases hpq : p = q
  · rw [← hpq, hp, if_pos rfl]
  · rw [if_neg hpq]
    exact h.single q

theorem inv_armed {m : Manager} (h : Inv m) {p : ProbeType} (hp : pending m p = 0)
    (state : ProbeState) (delayMs : ℚ) : Inv (armed m p state delayMs) := by
  have htimers : timersOf m p = 0 := by unfold pending at hp; omega
  have hchecks : checksOf m p = 0 := by unfold pending at hp; omega
  have hprobe : ∀ q, (armed m p state delayMs).probes q =
      if q = p then some { state with timerId := some m.nextId } else m.probes q := by
    intro q
    exact Function.update_apply _ _ _ _
  constructor
  · intro q
    rw [pending_armed]
    exact single_of_added h hp q
  · intro q hq
    rw [hprobe] at hq
    split at hq
    · cases hq
    · rename_i hqp
      have ht : timersOf (armed m p state delayMs) q = timersOf m q := by
        simp [timersOf, armed, Ne.symm hqp]
      rw [ht]
      exact h.cleared q hq
  · intro t ht old hold
    rw [hprobe] at hold
    rcases List.mem_append.mp ht with ht | ht
    · have hne := timersOf_eq_zero.mp htimers t ht
      rw [if_neg hne] at hold
      exact h.timer t ht old hold
    · obtain rfl := List.mem_singleton.mp ht
      rw [if_pos rfl] at hold
      rw [← Option.some.inj hold]
  · intro c hc old hold
    have hne := checksOf_eq_zero.mp hchecks c hc
    rw [hprobe, if_neg hne] at hold
    exact h.session c hc old hold
  · exact h.own

theorem inv_scheduleNextCheck {m : Manager} (h : Inv m) {p : ProbeType} (hp : pending m p = 0) :
    Inv (scheduleNextCheck m p) := by
  unfold scheduleNextCheck
  cases m.probes p with
  | none => exact h
  | some state => exact inv_armed h hp state _

theorem startConfigured_some (m : Manager) {config : HealthCheckConfig} {p : ProbeType}
    {probe : HealthProbe} (h : config.probe p = some probe) :
    startConfigured m config p = armed m p (freshState m.nextId config probe)
      (orDefault probe.initialDelaySeconds 0*1000) := by
  unfold startConfigured
  rw [h]
  rfl

theorem startConfigured_none (m : Manager) {config : HealthCheckConfig} {p : ProbeType}
    (h : config.probe p = none) : startConfigured m config p = m := by
  unfold startConfigured
  rw [h]

theorem pending_startConfigured (m : Manager) (config : HealthCheckConfig) (p q : ProbeType) :
    pending (startConfigured m config p) q =
      pending m q+if p = q ∧ config.probe p ≠ none then 1 else 0 := by
  cases hc : config.probe p with
  | none => simp [startConfigured_none m hc]
  | some probe =>
    rw [startConfigured_some m hc, pending_armed]
    simp

theorem inv_startConfigured {m : Manager} (h : Inv m) {config : HealthCheckConfig} {p : ProbeType}
    (hp : config.probe p ≠ none → pending m p = 0) : Inv (startConfigured m config p) := by
  cases hc : config.probe p with
  | none =>
    rw [startConfigured_none m hc]
    exact h
  | some probe =>
    rw [startConfigured_some m hc]
    exact inv_armed h (hp (by simp [hc])) _ _

theorem inv_health {m : Manager} (h : Inv m) (health : Option ContainerHealth) :
    Inv { m with health := health } := ⟨h.single,h.cleared,h.timer,h.session,h.own⟩

theorem pending_startMonitoring (m : Manager) (config : HealthCheckConfig) (p : ProbeType) :
    pending (startMonitoring m config) p =
      pending m p+if config.probe p ≠ none then 1 else 0 := by
  rw [startMonitoring_eq]
  show pending (startProbes m config) p = _
  unfold startProbes
  rw [pending_startConfigured, pending_startConfigured, pending_startConfigured]
  show pending m p+_+_+_ = _
  cases p with
  | startup => simp
  | liveness => simp
  | readiness => simp

theorem inv_startMonitoring {m : Manager} (h : Inv m) {config : HealthCheckConfig}
    (hidle : ∀ p, config.probe p ≠ none → pending m p = 0) : Inv (startMonitoring m config) := by
  rw [startMonitoring_eq]
  apply inv_health
  unfold startProbes
  apply inv_startConfigured
  · apply inv_startConfigured
    · exact inv_startConfigured (inv_health h _) (hidle .startup)
    · intro hc
      rw [pending_startConfigured, if_neg (by simp)]
      exact hidle .liveness hc
  · intro hc
    rw [pending_startConfigured, if_neg (by simp), pending_startConfigured, if_neg (by simp)]
    exact hidle .readiness hc

theorem probe_of_removed {m : Manager} {p q : ProbeType} {state : ProbeState}
    (h : (setProbe m p none).probes q = some state) : m.probes q = some state := by
  have hne : q ≠ p := by
    intro hq
    simp [setProbe, hq] at h
  simpa [setProbe, Function.update_of_ne hne] using h

theorem inv_clearProbe {m : Manager} (h : Inv m) (p : ProbeType) : Inv (clearProbe m p) := by
  unfold clearProbe
  cases hp : m.probes p with
  | none => exact h
  | some state =>
    have hsub : (m.timers.filter (fun t => some t.id ≠ state.timerId)).Sublist m.timers :=
      List.filter_sublist
    have hle : ∀ q, (m.timers.filter (fun t => some t.id ≠ state.timerId)).countP
        (fun t => t.probeType = q) ≤ timersOf m q := fun q => hsub.countP_le
    constructor
    · intro q
      have hq := h.single q
      have hleq := hle q
      show _+checksOf m q ≤ 1
      unfold pending at hq
      exact (Nat.add_le_add_right hleq _).trans hq
    · intro q hq
      by_cases hqp : q = p
      · -- every timer of the probe is the one its state knows
        subst hqp
        rw [timersOf_eq_zero]
        intro t ht htype
        obtain ⟨hmem,hid⟩ := List.mem_filter.mp ht
        subst htype
        exact of_decide_eq_true hid (h.timer t hmem state hp).symm
      · have hnone : m.probes q = none := by
          simpa [setProbe, Function.update_of_ne hqp] using hq
        exact Nat.le_zero.mp ((hle q).trans (h.cleared q hnone).le)
    · intro t ht old hold
      exact h.timer t (hsub.subset ht) old (probe_of_removed hold)
    · intro c hc old hold
      exact h.session c hc old (probe_of_removed hold)
    · exact h.own

theorem inv_stopMonitoring {m : Manager} (h : Inv m) : Inv (stopMonitoring m) :=
  inv_health (inv_clearProbe (inv_clearProbe (inv_clearProbe h .startup) .liveness) .readiness)
    none

theorem inv_sublist {m : Manager} (h : Inv m) {timers : List Timer} {checks : List Check}
    (ht : timers.Sublist m.timers) (hc : checks.Sublist m.checks) :
    Inv { m with timers := timers, checks := checks } where
  single := fun p => (Nat.add_le_add ht.countP_le hc.countP_le).trans (h.single p)
  cleared := fun p hp => Nat.le_zero.mp (ht.countP_le.trans (h.cleared p hp).le)
  timer := fun t hmem => h.timer t (ht.subset hmem)
  session := fun c hmem => h.session c (hc.subset hmem)
  own := h.own

theorem countP_filter_lt {α : Type*} {l : List α} {p q : α → Bool} {a : α} (ha : a ∈ l)
    (hp : p a = true) (hq : q a = false) : (l.filter q).countP p < l.countP p := by
  rw [List.countP_eq_countP_filter_add l p q]
  have hpos : 0 < (l.filter (fun a => !q a)).countP p := by
    rw [List.countP_pos_iff]
    exact ⟨a,List.mem_filter.mpr ⟨ha,by simp [hq]⟩,hp⟩
  omega

theorem pending_fired {m : Manager} (h : Inv m) {t : Timer} (ht : t ∈ m.timers) :
    pending { m with timers := m.timers.filter (fun t' => t'.id ≠ t.id) } t.probeType = 0 := by
  have hlt : (m.timers.filter (fun t' => t'.id ≠ t.id)).countP
      (fun t' => t'.probeType = t.probeType) < timersOf m t.probeType :=
    countP_filter_lt ht (by simp) (by simp)
  have hle := h.single t.probeType
  show _+checksOf m t.probeType = 0
  unfold pending at hle
  show (m.timers.filter (fun t' => t'.id ≠ t.id)).countP
      (fun t' => t'.probeType = t.probeType)+_ = 0
  omega

theorem pending_ended {m : Manager} (h : Inv m) {c : Check} (hc : c ∈ m.checks) :
    pending { m with checks := m.checks.filter (fun c' => c'.id ≠ c.id) } c.probeType = 0 := by
  have hlt : (m.checks.filter (fun c' => c'.id ≠ c.id)).countP
      (fun c' => c'.probeType = c.probeType) < checksOf m c.probeType :=
    countP_filter_lt hc (by simp) (by simp)
  have hle := h.single c.probeType
  unfold pending at hle
  show timersOf m c.probeType+(m.checks.filter (fun c' => c'.id ≠ c.id)).countP
      (fun c' => c'.probeType = c.probeType) = 0
  omega

def executing (m : Manager) (p : ProbeType) (state : ProbeState) (timeoutMs : ℚ) : Manager :=
  { m with
    checks := m.checks++[⟨m.nextId,state.session,p,timeoutMs,false⟩]
    nextId := m.nextId+1
    log := m.log++[.executed p] }

theorem pending_executing (m : Manager) (p q : ProbeType) (state : ProbeState) (timeoutMs : ℚ) :
    pending (executing m p state timeoutMs) q = pending m q+if p = q then 1 else 0 := by
  have ht : timersOf (executing m p state timeoutMs) q = timersOf m q := rfl
  have hc : checksOf (executing m p state timeoutMs) q = checksOf m q+if p = q then 1 else 0 := by
    by_cases hpq : p = q
    · simp [checksOf, executing, hpq]
    · simp [checksOf, executing, hpq]
  unfold pending
  omega

theorem inv_executing {m : Manager} (h : Inv m) {p : ProbeType} (hp : pending m p = 0)
    {state : ProbeState} (hstate : m.probes p = some state) (timeoutMs : ℚ) :
    Inv (executing m p state timeoutMs) := by
  constructor
  · intro q
    rw [pending_executing]
    exact single_of_added h hp q
  · exact h.cleared
  · exact h.timer
  · intro c hc old hold
    rcases List.mem_append.mp hc with hc | hc
    · exact h.session c hc old hold
    · obtain rfl := List.mem_singleton.mp hc
      have hsame : state = old := Option.some.inj (hstate.symm.trans hold)
      rw [hsame]
  · intro q startedFor countedIn hentry
    rcases List.mem_append.mp hentry with hentry | hentry
    · exact h.own q startedFor countedIn hentry
    · simp at hentry

theorem inv_performCheck {m : Manager} (h : Inv m) {p : ProbeType} (hp : pending m p = 0) :
    Inv (performCheck m p) := by
  unfold performCheck
  cases hprobe : m.probes p with
  | none => exact h
  | some state =>
    simp only
    split
    · exact inv_scheduleNextCheck h hp
    · exact inv_executing h hp hprobe _

structure SameChains (m m' : Manager) : Prop where
  timers : m'.timers = m.timers
  checks : m'.checks.map (fun c => (c.probeType,c.session)) =
    m.checks.map (fun c => (c.probeType,c.session))
  probes : ∀ p, (m'.probes p).map (fun s => (s.session,s.timerId)) =
    (m.probes p).map (fun s => (s.session,s.timerId))

theorem SameChains.trans {m m' m'' : Manager} (h : SameChains m m') (h' : SameChains m' m'') :
    SameChains m m'' :=
  ⟨h'.timers.trans h.timers,h'.checks.trans h.checks,fun p => (h'.probes p).trans (h.probes p)⟩

theorem SameChains.pending {m m' : Manager} (h : SameChains m m') (p : ProbeType) :
    pending m' p = pending m p := by
  have hcount : ∀ cs : List Check, cs.countP (fun c => c.probeType = p) =
      (cs.map (fun c => (c.probeType,c.session))).countP (fun e => e.1 = p) := by
    intro cs
    rw [List.countP_map]
    rfl
  show timersOf m' p+m'.checks.countP _ = timersOf m p+m.checks.countP _
  rw [hcount, hcount, h.checks]
  unfold timersOf
  rw [h.timers]

theorem SameChains.probe {m m' : Manager} (h : SameChains m m') {p : ProbeType}
    {state : ProbeState} (hp : m'.probes p = some state) :
    ∃ old, m.probes p = some old ∧ old.session = state.session ∧ old.timerId = state.timerId := by
  have hprobes := h.probes p
  rw [hp] at hprobes
  obtain ⟨old,hold,heq⟩ := Option.map_eq_some_iff.mp hprobes.symm
  injection heq with hsession htimer
  exact ⟨old,hold,hsession,htimer⟩

theorem inv_sameChains {m m' : Manager} (h : Inv m) (hs : SameChains m m')
    (hown : ∀ p startedFor countedIn, .counted p startedFor countedIn ∈ m'.log →
      startedFor = countedIn) : Inv m' := by
  constructor
  · intro p
    rw [hs.pending]
    exact h.single p
  · intro p hp
    have hnone : m.probes p = none := by
      have hprobes := hs.probes p
      rw [hp] at hprobes
      exact Option.map_eq_none_iff.mp hprobes.symm
    unfold timersOf
    rw [hs.timers]
    exact h.cleared p hnone
  · intro t ht state hstate
    obtain ⟨old,hold,-,htimer⟩ := hs.probe hstate
    rw [← htimer]
    rw [hs.timers] at ht
    exact h.timer t ht old hold
  · intro c hc state hstate
    obtain ⟨old,hold,hsession,-⟩ := hs.probe hstate
    have hmem : (c.probeType,c.session) ∈ m.checks.map (fun c => (c.probeType,c.session)) := by
      rw [← hs.checks]
      exact List.mem_map_of_mem (f := fun c => (c.probeType,c.session)) hc
    obtain ⟨c',hc',heq⟩ := List.mem_map.mp hmem
    injection heq with htype hsame
    rw [← hsession, ← hsame]
    exact h.session c' hc' old (by rw [htype]; exact hold)
  · exact hown

theorem sameChains_markCounted (m : Manager) (check : Check) :
    SameChains m (markCounted m check) := by
  refine ⟨rfl,?_,fun _ => rfl⟩
  unfold markCounted
  rw [List.map_map]
  apply List.map_congr_left
  intro c _
  simp only [Function.comp]
  split <;> rfl

theorem sameChains_setLastCheck (m : Manager) (check : Check) (result : HealthCheckResult) :
    SameChains m (setLastCheck m check result) := by
  unfold setLastCheck
  cases hp : m.probes check.probeType with
  | none => exact ⟨rfl,rfl,fun _ => rfl⟩
  | some state =>
    simp only
    split
    · refine ⟨rfl,rfl,fun q => ?_⟩
      show (Function.update m.probes check.probeType _ q).map _ = _
      rw [Function.update_apply]
      split
      · rename_i hq
        rw [hq, hp]
        rfl
      · rfl
    · exact ⟨rfl,rfl,fun _ => rfl⟩

theorem countResult_chain (state : ProbeState) (result : HealthCheckResult) :
    (countResult state result).session = state.session ∧
      (countResult state result).timerId = state.timerId := by
  unfold countResult
  cases result.success with
  | true =>
    simp only [if_true]
    split <;> exact ⟨rfl,rfl⟩
  | false =>
    simp only [Bool.false_eq_true, if_false]
    split <;> exact ⟨rfl,rfl⟩

theorem sameChains_processResult (m : Manager) (p : ProbeType) (result : HealthCheckResult) :
    SameChains m (processResult m p result) := by
  refine ⟨?_,?_,fun q => ?_⟩
  · obtain ⟨probes,health,events,-,he⟩ := processResult_frame m p result
    rw [he]
  · obtain ⟨probes,health,events,-,he⟩ := processResult_frame m p result
    rw [he]
  · rw [processResult_probes]
    by_cases hq : q = p
    · subst hq
      simp only [if_true, Option.map_map]
      apply Option.map_congr
      intro state _
      simp only [Function.comp, countResult_chain]
    · simp [hq]

theorem counted_processResult {m : Manager} {p q : ProbeType} {result : HealthCheckResult}
    {startedFor countedIn : ℕ}
    (h : .counted q startedFor countedIn ∈ (processResult m p result).log) :
    .counted q startedFor countedIn ∈ m.log := by
  obtain ⟨probes,health,events,-,he⟩ := processResult_frame m p result
  rw [he] at h
  simpa using h

theorem inv_completeCheck {m : Manager} (h : Inv m) {check : Check} (hc : check ∈ m.checks)
    (result : HealthCheckResult) : Inv (completeCheck m check result) := by
  apply inv_sameChains h
  · exact ((sameChains_markCounted m check).trans (sameChains_setLastCheck _ check result)).trans
      (sameChains_processResult _ _ result)
  · intro p startedFor countedIn hentry
    have hbefore := counted_processResult hentry
    rw [setLastCheck_log] at hbefore
    rcases List.mem_append.mp hbefore with hold | hnew
    · exact h.own p startedFor countedIn hold
    · obtain ⟨state,hstate,heq⟩ := List.mem_map.mp hnew
      injection heq with _ hstarted hcounted
      rw [← hstarted, ← hcounted]
      exact (h.session check hc state (Option.mem_toList.mp hstate)).symm

theorem inv_step {m : Manager} {e : Event} (h : Inv m) (hok : StartsIdle m e) :
    Inv (step m e) := by
  cases e with
  | start config => exact inv_startMonitoring h hok
  | stop => exact inv_stopMonitoring h
  | fire timerId =>
    simp only [step]
    split
    · rename_i t hfind
      have hid : t.id = timerId := by simpa using List.find?_some hfind
      have hmem := List.mem_of_find?_eq_some hfind
      subst hid
      exact inv_performCheck (inv_sublist h List.filter_sublist (List.Sublist.refl _))
        (pending_fired h hmem)
    · exact h
  | complete checkId result =>
    simp only [step]
    split
    · rename_i check hfind
      exact inv_completeCheck h (List.mem_of_find?_eq_some hfind) result
    · exact h
  | reschedule checkId =>
    simp only [step]
    split
    · rename_i check hfind
      have hid : check.id = checkId := by
        have hsome := List.find?_some hfind
        simp only [decide_eq_true_eq] at hsome
        exact hsome.1
      have hmem := List.mem_of_find?_eq_some hfind
      subst hid
      exact inv_scheduleNextCheck (inv_sublist h (List.Sublist.refl _) List.filter_sublist)
        (pending_ended h hmem)
    · exact h

theorem startsIdle_of_oneChain {m : Manager} {e : Event} (h : OneChain (step m e)) :
    StartsIdle m e := by
  cases e with
  | start config =>
    intro p hp
    obtain ⟨probe,hprobe⟩ := Option.ne_none_iff_exists'.mp hp
    obtain ⟨id,hid⟩ := startMonitoring_probe m hprobe
    have hle := h.single p _ hid
    have hsum := pending_startMonitoring m config p
    rw [if_pos hp] at hsum
    change pending (startMonitoring m config) p ≤ 1 at hle
    omega
  | stop => trivial
  | fire timerId => trivial
  | complete checkId result => trivial
  | reschedule checkId => trivial

theorem one_chain_iff (events : List Event) :
    (∀ pre, pre <+: events → OneChain (run step pre {})) ↔ Meets step StartsIdle events {} :=
  always_iff_meets_of_inv (fun _ _ h hok => inv_step h hok) (fun _ h => h.oneChain)
    (fun _ _ _ h => startsIdle_of_oneChain h) events {} inv_empty

/-- Monitoring stops and starts again while a check is running. Its failure
is the first result of the new state, and two timers are set. -/
def restartDuringCheck : List Event :=
  [.start { containerId := "c0de", serviceName := "web", livenessProbe := some {} },.fire 0,.stop,
    .start { containerId := "c0de", serviceName := "web", livenessProbe := some {} },
    .complete 1 ⟨false,some "timeout"⟩,.reschedule 1]

theorem restart_during_check :
    (run step restartDuringCheck {}).log = [.executed .liveness,.counted .liveness 0 2] ∧
      timersOf (run step restartDuringCheck {}) .liveness = 2 ∧
      ¬∀ pre, pre <+: restartDuringCheck → OneChain (run step pre {}) := by
  have hlog : (run step restartDuringCheck {}).log = [.executed .liveness,
      .counted .liveness 0 2] := by decide +kernel
  refine ⟨hlog,by decide +kernel,?_⟩
  intro h
  have hown := (h restartDuringCheck List.prefix_rfl).own .liveness 0 2 (by rw [hlog]; simp)
  cases hown

end Iotistica.ProbeChains
