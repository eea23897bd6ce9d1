import Iotistica.StateReporter

/-!
# What the cloud holds after a report

Once a report with metrics has been sent and the queue is empty, the cloud
holds the agent's values, provided that the marks of the reporter stay true:
a cycle that remembers a value also hands it to the transport, a report that
fails loses nothing the queue does not keep, and a report is replayed only
while it says nothing else than the marks.
-/

set_option autoImplicit false

namespace Iotistica.StateReporter
open Iotistica Iotistica.GuardedRun Iotistica.MarkedField
open Iotistica.StatePoller (Members)

variable {J : Type}

def Agrees (c : Cloud J) (v : Values J) : Prop :=
  c.apps = some v.apps ∧ c.config = some v.config ∧ c.devices = some v.devices ∧
    c.os_version = v.osVersion ∧ c.agent_version = v.agentVersion ∧
    c.architecture = some v.architecture ∧ c.local_ip = v.localIp

/-- A report with metrics has been sent, no value has changed since, and the
queue is empty. -/
def Settled (s : Reporter J) : Prop :=
  s.fresh = true → s.reportQueue = [] → Agrees s.cloud s.values

def Told (s : Reporter J) : Prop :=
  s.lastOsVersion = s.values.osVersion ∧ s.lastAgentVersion = s.values.agentVersion ∧
    s.lastArchitecture = some s.values.architecture

def Current (s : Reporter J) (r : Report J) : Prop :=
  (∀ last ∈ s.lastReport, r.apps = last.apps) ∧
    (r.config = none ∨ s.lastConfigHash = none ∨ r.config = s.lastConfigHash) ∧
    (r.devices = none ∨ s.lastDevicesHash = none ∨ r.devices = s.lastDevicesHash) ∧
    (r.os_version = none ∨ r.os_version = s.lastOsVersion) ∧
    (r.agent_version = none ∨ r.agent_version = s.lastAgentVersion) ∧
    (r.local_ip = none ∨ r.local_ip = s.lastLocalIp)

/-- A report has no way to say that a value is gone, and it says the address
only beside the processor load. -/
def Expressible (cfg : Config) (s : Reporter J) (i : Inputs J) : Prop :=
  (s.values.osVersion = none → s.lastOsVersion = none) ∧
    (s.values.agentVersion = none → s.lastAgentVersion = none) ∧
    (includeMetrics cfg s i = true → ∀ cpu ∈ i.metrics,
      (s.values.localIp = none → s.lastLocalIp = none) ∧
        (cpu = none → s.values.localIp = s.lastLocalIp))

/-- A cycle sends what it remembers or has nothing new to remember; a report
that fails does not carry the architecture; a replay is not out of date. -/
def Faithful [DecidableEq J] (cfg : Config) (noConfig : J) (s : Reporter J) : Event J → Prop
  | .report i => due cfg s i = true →
      (sends cfg noConfig s i = true → Expressible cfg s i) ∧
        (sends cfg noConfig s i = false → Told s)
  | .sendFails => ∀ p ∈ s.sending, p.report.architecture = none
  | .replay k => ∀ r ∈ s.reportQueue[k]?, Current s r
  | _ => True

structure Carries (s : Reporter J) (p : Sending J) : Prop where
  apps : p.stateOnly.apps = p.report.apps
  config : p.report.config = some p.configHash ∨
    (p.report.config = none ∧ s.lastConfigHash = some p.configHash)
  devices : p.report.devices = some p.devicesHash ∨
    (p.report.devices = none ∧ s.lastDevicesHash = some p.devicesHash)
  read : p.unchanged = true → p.report.apps = s.values.apps ∧ p.configHash = s.values.config ∧
    p.devicesHash = s.values.devices ∧ Told s
  address : p.unchanged = true → p.withMetrics = true → s.lastLocalIp = s.values.localIp

def Silent (r : Report J) : Prop :=
  r.os_version = none ∧ r.agent_version = none ∧ r.architecture = none ∧ r.local_ip = none

structure UpToDate (s : Reporter J) : Prop where
  apps : ∃ last ∈ s.lastReport, last.apps = s.values.apps
  config : s.lastConfigHash = some s.values.config
  devices : s.lastDevicesHash = some s.values.devices
  told : Told s
  address : s.lastLocalIp = s.values.localIp
  sending : ∀ p ∈ s.sending, p.unchanged = true ∧ Silent p.report

structure Tracked (s : Reporter J) : Prop where
  os : Marked Report.os_version s.lastOsVersion s.cloud.os_version
    (s.sending.map Sending.report) s.reportQueue
  agent : Marked Report.agent_version s.lastAgentVersion s.cloud.agent_version
    (s.sending.map Sending.report) s.reportQueue
  architecture : Marked Report.architecture s.lastArchitecture s.cloud.architecture
    (s.sending.map Sending.report) s.reportQueue
  address : Marked Report.local_ip s.lastLocalIp s.cloud.local_ip
    (s.sending.map Sending.report) s.reportQueue
  config : ∀ c, s.lastConfigHash = some c → s.cloud.config = some c
  devices : ∀ d, s.lastDevicesHash = some d → s.cloud.devices = some d
  apps : ∀ last ∈ s.lastReport, s.cloud.apps = some last.apps
  stripped : ∀ r ∈ s.reportQueue, r.architecture = none
  sending : ∀ p ∈ s.sending, Carries s p
  fresh : s.fresh = true → UpToDate s

theorem Tracked.settled {s : Reporter J} (h : Tracked s) : Settled s := by
  intro hf hq
  have hu := h.fresh hf
  have hs : ∀ r ∈ s.sending.map Sending.report, Silent r := by
    intro r hr
    obtain ⟨p,hp,rfl⟩ := Option.mem_map.mp hr
    exact (hu.sending p hp).2
  have hos := h.os
  have hag := h.agent
  have har := h.architecture
  have had := h.address
  rw [hq] at hos hag har had
  obtain ⟨last,hlast,ha⟩ := hu.apps
  refine ⟨?_,h.config _ hu.config,h.devices _ hu.devices,?_,?_,?_,?_⟩
  · rw [h.apps last hlast, ha]
  · exact (hos.settled (fun r hr => (hs r hr).1)).trans hu.told.1
  · exact (hag.settled (fun r hr => (hs r hr).2.1)).trans hu.told.2.1
  · exact (har.settled (fun r hr => (hs r hr).2.2.1)).trans hu.told.2.2
  · exact (had.settled (fun r hr => (hs r hr).2.2.2)).trans hu.address

theorem tracked_created (values : Values J) : Tracked (created values) where
  os := Marked.initial _
  agent := Marked.initial _
  architecture := Marked.initial _
  address := Marked.initial _
  config _ hc := absurd hc.symm (Option.some_ne_none _)
  devices _ hd := absurd hd.symm (Option.some_ne_none _)
  apps last hl := absurd hl (Option.not_mem_none last)
  stripped _ hr := absurd hr List.not_mem_nil
  sending p hp := absurd hp (Option.not_mem_none p)
  fresh hf := Bool.noConfusion hf

theorem tracked_change (s : Reporter J) (values : Values J) (h : Tracked s) :
    Tracked (change s values) := by
  have hf : (change s values).sending.map Sending.report = s.sending.map Sending.report := by
    rw [change, Option.map_map]
    rfl
  refine ⟨hf ▸ h.os,hf ▸ h.agent,hf ▸ h.architecture,hf ▸ h.address,h.config,h.devices,h.apps,
    h.stripped,?_,fun hn => Bool.noConfusion hn⟩
  intro p hp
  obtain ⟨q,hq,rfl⟩ := Option.mem_map.mp hp
  have hc := h.sending q hq
  exact ⟨hc.apps,hc.config,hc.devices,fun hn => Bool.noConfusion hn,fun hn => Bool.noConfusion hn⟩

theorem tracked_force (s : Reporter J) (h : Tracked s) : Tracked { s with forceNextReport := true } :=
  ⟨h.os,h.agent,h.architecture,h.address,h.config,h.devices,h.apps,h.stripped,
    fun p hp =>
      have hc := h.sending p hp
      ⟨hc.apps,hc.config,hc.devices,hc.read,hc.address⟩,
    fun hf =>
      have hu := h.fresh hf
      ⟨hu.apps,hu.config,hu.devices,hu.told,hu.address,hu.sending⟩⟩

theorem confirmed_replay {V : Type} (last held x : Option V) (h : ∀ v, last = some v → held = some v)
    (hok : x = none ∨ last = none ∨ x = last) : ∀ v, last = some v → x.or held = some v := by
  intro v hv
  rcases hok with hx | hx | hx
  · rw [hx, Option.none_or]
    exact h v hv
  · rw [hv] at hx
    exact absurd hx (Option.some_ne_none v)
  · rw [hx, hv]
    rfl

theorem tracked_replay (s : Reporter J) (k : ℕ) (h : Tracked s)
    (hok : ∀ r ∈ s.reportQueue[k]?, Current s r) : Tracked (replay s k) := by
  rw [replay]
  split
  · exact h
  · next r hr =>
    obtain ⟨happs,hconfig,hdevices,hos,hagent,haddress⟩ := hok r hr
    refine ⟨h.os.replay hr hos,h.agent.replay hr hagent,
      h.architecture.replay hr (.inl (h.stripped r (List.mem_of_getElem? hr))),
      h.address.replay hr haddress,confirmed_replay _ _ _ h.config hconfig,
      confirmed_replay _ _ _ h.devices hdevices,?_,?_,?_,?_⟩
    · intro last hl
      exact congrArg some (happs last hl)
    · exact fun x hx => h.stripped x (List.mem_of_mem_eraseIdx hx)
    · intro p hp
      have hc := h.sending p hp
      exact ⟨hc.apps,hc.config,hc.devices,hc.read,hc.address⟩
    · intro hf
      have hu := h.fresh hf
      exact ⟨hu.apps,hu.config,hu.devices,hu.told,hu.address,hu.sending⟩

theorem flight_eq {s : Reporter J} {p : Sending J} (hp : s.sending = some p) :
    s.sending.map Sending.report = some p.report := by
  rw [hp]
  rfl

theorem confirmed_sendDone {V : Type} (last held x : Option V) (v : V)
    (h : ∀ v, last = some v → held = some v) (hx : x = some v ∨ (x = none ∧ last = some v)) :
    ∀ w, some v = some w → x.or held = some w := by
  intro w hw
  cases hw
  rcases hx with hx | ⟨hx,hl⟩
  · rw [hx]
    rfl
  · rw [hx, Option.none_or]
    exact h v hl

theorem tracked_sendDone (s : Reporter J) (p : Sending J) (h : Tracked s) (hp : s.sending = some p) :
    Tracked (sendDone s p) := by
  have hc := h.sending p hp
  have hos := h.os
  have hag := h.agent
  have har := h.architecture
  have had := h.address
  rw [flight_eq hp] at hos hag har had
  refine ⟨hos.arrives,hag.arrives,har.arrives,had.arrives,
    confirmed_sendDone _ _ _ _ h.config hc.config,confirmed_sendDone _ _ _ _ h.devices hc.devices,
    ?_,h.stripped,fun q hq => absurd hq (Option.not_mem_none q),?_⟩
  · intro last hl
    cases hl
    exact congrArg some hc.apps.symm
  · intro hf
    have hun : p.unchanged = true ∧ s.lastLocalIp = s.values.localIp := by
      have hf' : (if p.withMetrics then p.unchanged else s.fresh) = true := hf
      by_cases hm : p.withMetrics = true
      · rw [if_pos hm] at hf'
        exact ⟨hf',hc.address hf' hm⟩
      · rw [if_neg hm] at hf'
        have hu := h.fresh hf'
        exact ⟨(hu.sending p hp).1,hu.address⟩
    obtain ⟨happs,hconfig,hdevices,htold⟩ := hc.read hun.1
    exact ⟨⟨p.stateOnly,rfl,hc.apps.trans happs⟩,congrArg some hconfig,congrArg some hdevices,htold,
      hun.2,fun q hq => absurd hq (Option.not_mem_none q)⟩

theorem tracked_sendFails (s : Reporter J) (p : Sending J) (h : Tracked s) (hp : s.sending = some p)
    (hok : p.report.architecture = none) : Tracked (sendFails s p) := by
  have hos := h.os
  have hag := h.agent
  have har := h.architecture
  have had := h.address
  rw [flight_eq hp] at hos hag har had
  refine ⟨hos.fails rfl,hag.fails rfl,har.fails hok.symm,had.fails rfl,h.config,h.devices,h.apps,
    ?_,fun q hq => absurd hq (Option.not_mem_none q),?_⟩
  · intro r hr
    rcases List.mem_append.mp hr with hr | hr
    · exact h.stripped r hr
    · rw [List.mem_singleton.mp hr]
      rfl
  · intro hf
    have hu := h.fresh hf
    exact ⟨hu.apps,hu.config,hu.devices,hu.told,hu.address,
      fun q hq => absurd hq (Option.not_mem_none q)⟩

theorem localIpRead_of_none (cfg : Config) (s : Reporter J) (i : Inputs J)
    (h : includeMetrics cfg s i = false) : localIpRead cfg s i = s.lastLocalIp := by
  rw [localIpRead, h]
  rfl

theorem localIpRead_eq (cfg : Config) (s : Reporter J) (i : Inputs J)
    (h : s.lastLocalIp = s.values.localIp) : localIpRead cfg s i = s.values.localIp := by
  rw [localIpRead, h]
  split
  · exact Option.or_self
  · rfl

theorem localIpRead_withMetrics (cfg : Config) (s : Reporter J) (i : Inputs J)
    (hx : Expressible cfg s i) (hm : (includeMetrics cfg s i && i.metrics.isSome) = true) :
    localIpRead cfg s i = s.values.localIp := by
  rw [localIpRead, if_pos hm]
  obtain ⟨hi,hs⟩ := Bool.and_eq_true_iff.mp hm
  obtain ⟨cpu,hcpu⟩ := Option.isSome_iff_exists.mp hs
  cases hv : s.values.localIp with
  | none => exact (hx.2.2 hi cpu hcpu).1 hv
  | some ip => rfl

theorem localIpRead_none (cfg : Config) (s : Reporter J) (i : Inputs J)
    (h : localIpRead cfg s i = none) : s.lastLocalIp = none := by
  rw [localIpRead] at h
  split at h
  · exact (Option.or_eq_none_iff.mp h).2
  · exact h

theorem upToDate_markersSet (cfg : Config) (s : Reporter J) (i : Inputs J) (h : UpToDate s)
    (hs : s.sending = none) : UpToDate (markersSet cfg s i) :=
  ⟨h.apps,h.config,h.devices,⟨rfl,rfl,rfl⟩,localIpRead_eq cfg s i h.address,
    fun p hp => absurd (hs ▸ hp) (Option.not_mem_none p)⟩

variable [DecidableEq J]

theorem sends_of_includeMetrics (cfg : Config) (noConfig : J) (s : Reporter J) (i : Inputs J)
    (h : includeMetrics cfg s i = true) : sends cfg noConfig s i = true := by
  simp [sends, shouldReport, hasAnyData, reportToSend, h]

theorem reportToSend_local_ip (cfg : Config) (s : Reporter J) (i : Inputs J)
    (hx : Expressible cfg s i) :
    (reportToSend cfg s i).local_ip = changed s.lastLocalIp (localIpRead cfg s i) := by
  have hsame : localIpRead cfg s i = s.lastLocalIp →
      none = changed s.lastLocalIp (localIpRead cfg s i) := by
    intro h
    rw [h]
    exact (if_pos rfl).symm
  show (if _ then _ else none) = _
  split
  · rfl
  · next hn =>
    apply hsame
    by_cases hi : includeMetrics cfg s i = true
    · cases hmet : i.metrics with
      | none =>
        rw [localIpRead, hmet, Option.isSome_none, Bool.and_false]
        rfl
      | some cpu =>
        cases cpu with
        | some load =>
          rw [hi, hmet] at hn
          exact absurd rfl hn
        | none =>
          have hm : (includeMetrics cfg s i && i.metrics.isSome) = true := by
            rw [hi, hmet]
            rfl
          rw [localIpRead_withMetrics cfg s i hx hm]
          exact (hx.2.2 hi none hmet).2 rfl
    · exact localIpRead_of_none cfg s i (Bool.not_eq_true _ ▸ hi)

theorem confirmed_start (last : Option J) (value : J) (force : Bool) :
    (if decide (last ≠ some value) || force then some value else none) = some value ∨
      ((if decide (last ≠ some value) || force then some value else none) = none ∧
        last = some value) := by
  by_cases h : last = some value
  · cases force with
    | true => exact .inl (by simp)
    | false => exact .inr (by simp [h])
  · exact .inl (by simp [h])

theorem changed_self {V : Type} [DecidableEq V] {last value : Option V} (h : last = value) :
    changed last value = none := if_pos h.symm

theorem tracked_markersSet (cfg : Config) (noConfig : J) (s : Reporter J) (i : Inputs J)
    (h : Tracked s) (hs : s.sending = none) (hn : sends cfg noConfig s i = false) (ht : Told s) :
    Tracked (markersSet cfg s i) := by
  have hi : includeMetrics cfg s i = false := by
    by_contra hi
    rw [sends_of_includeMetrics cfg noConfig s i (Bool.not_eq_false _ ▸ hi)] at hn
    cases hn
  have hos := h.os
  have hag := h.agent
  have har := h.architecture
  have had := h.address
  rw [ht.1] at hos
  rw [ht.2.1] at hag
  rw [ht.2.2] at har
  rw [← localIpRead_of_none cfg s i hi] at had
  exact ⟨hos,hag,har,had,h.config,h.devices,h.apps,h.stripped,
    fun p hp => absurd (hs ▸ hp) (Option.not_mem_none p),
    fun hf => upToDate_markersSet cfg s i (h.fresh hf) hs⟩

theorem silent_reportToSend (cfg : Config) (s : Reporter J) (i : Inputs J) (h : UpToDate s)
    (hx : Expressible cfg s i) : Silent (reportToSend cfg s i) := by
  refine ⟨changed_self h.told.1,changed_self h.told.2.1,changed_self h.told.2.2,?_⟩
  rw [reportToSend_local_ip cfg s i hx]
  exact changed_self (h.address.trans (localIpRead_eq cfg s i h.address).symm)

theorem carries_prepared (cfg : Config) (s : Reporter J) (i : Inputs J) (hx : Expressible cfg s i) :
    Carries { markersSet cfg s i with sending := some (prepared cfg s i) } (prepared cfg s i) where
  apps := rfl
  config := confirmed_start s.lastConfigHash s.values.config s.forceNextReport
  devices := by
    have h := confirmed_start s.lastDevicesHash s.values.devices false
    rw [Bool.or_false] at h
    exact h
  read _ := ⟨rfl,rfl,rfl,rfl,rfl,rfl⟩
  address _ hm := localIpRead_withMetrics cfg s i hx hm

theorem tracked_sending (cfg : Config) (s : Reporter J) (i : Inputs J) (h : Tracked s)
    (hs : s.sending = none) (hx : Expressible cfg s i) :
    Tracked { markersSet cfg s i with sending := some (prepared cfg s i) } := by
  have hos := h.os
  have hag := h.agent
  have har := h.architecture
  have had := h.address
  rw [hs] at hos hag har had
  refine ⟨hos.start _ _ rfl hx.1,hag.start _ _ rfl hx.2.1,
    har.start _ _ rfl (fun hn => absurd hn (Option.some_ne_none _)),
    had.start _ _ (reportToSend_local_ip cfg s i hx) (localIpRead_none cfg s i),
    h.config,h.devices,h.apps,h.stripped,?_,?_⟩
  · intro p hp
    cases hp
    exact carries_prepared cfg s i hx
  · intro hf
    have hu := h.fresh hf
    have hm := upToDate_markersSet cfg s i hu hs
    refine ⟨hm.apps,hm.config,hm.devices,hm.told,hm.address,fun p hp => ?_⟩
    cases hp
    exact ⟨rfl,silent_reportToSend cfg s i hu hx⟩

theorem tracked_reportCurrentState (cfg : Config) (noConfig : J) (s : Reporter J) (i : Inputs J)
    (h : Tracked s) (hok : Faithful cfg noConfig s (.report i)) :
    Tracked (reportCurrentState cfg noConfig s i) := by
  rw [reportCurrentState]
  split
  · next hd =>
    have hs : s.sending = none := Option.isNone_iff_eq_none.mp (Bool.and_eq_true_iff.mp hd).1
    split
    · next hsend => exact tracked_sending cfg s i h hs ((hok hd).1 hsend)
    · next hsend =>
      have hn : sends cfg noConfig s i = false := Bool.not_eq_true _ ▸ hsend
      exact tracked_markersSet cfg noConfig s i h hs hn ((hok hd).2 hn)
  · exact h

theorem tracked_step (cfg : Config) (noConfig : J) (s : Reporter J) (e : Event J)
    (hok : Faithful cfg noConfig s e) (h : Tracked s) : Tracked (step cfg noConfig s e) := by
  cases e with
  | change values => exact tracked_change s values h
  | requestImmediateReport => exact tracked_force s h
  | report i => exact tracked_reportCurrentState cfg noConfig s i h hok
  | sendDone =>
    rw [step]
    split
    · exact h
    · next p hp => exact tracked_sendDone s p h hp
  | sendFails =>
    rw [step]
    split
    · exact h
    · next p hp => exact tracked_sendFails s p h hp (hok p hp)
  | replay k => exact tracked_replay s k h hok

/-- Once a report with metrics has been sent and the queue is empty, the
cloud holds the agent's value of every field. -/
theorem no_change_lost (cfg : Config) (noConfig : J) (values : Values J) (es : List (Event J))
    (h : Meets (step cfg noConfig) (Faithful cfg noConfig) es (created values)) :
    ∀ pre, pre <+: es → Settled (run (step cfg noConfig) pre (created values)) := by
  rintro pre ⟨post,rfl⟩
  rw [meets_append] at h
  have ht := run_invariant (fun s e hok hi => tracked_step cfg noConfig s e hok hi) pre
    (created values) h.1 (tracked_created values)
  exact ht.settled

instance (c : Cloud J) (v : Values J) : Decidable (Agrees c v) :=
  inferInstanceAs (Decidable (_ ∧ _ ∧ _ ∧ _ ∧ _ ∧ _ ∧ _))

instance (s : Reporter J) : Decidable (Settled s) := inferInstanceAs (Decidable (_ → _ → _))

instance (s : Reporter J) : Decidable (Told s) := inferInstanceAs (Decidable (_ ∧ _ ∧ _))

instance (s : Reporter J) (r : Report J) : Decidable (Current s r) :=
  inferInstanceAs (Decidable ((∀ last ∈ s.lastReport, r.apps = last.apps) ∧ _ ∧ _ ∧ _ ∧ _ ∧ _))

instance (cfg : Config) (s : Reporter J) (i : Inputs J) : Decidable (Expressible cfg s i) :=
  inferInstanceAs (Decidable (_ ∧ _ ∧ (includeMetrics cfg s i = true → ∀ cpu ∈ i.metrics,
    (s.values.localIp = none → s.lastLocalIp = none) ∧
      (cpu = none → s.values.localIp = s.lastLocalIp))))

instance (cfg : Config) (noConfig : J) (s : Reporter J) : (e : Event J) →
    Decidable (Faithful cfg noConfig s e)
  | .report i => inferInstanceAs (Decidable (due cfg s i = true →
      (sends cfg noConfig s i = true → Expressible cfg s i) ∧
        (sends cfg noConfig s i = false → Told s)))
  | .sendFails => inferInstanceAs (Decidable (∀ p ∈ s.sending, p.report.architecture = none))
  | .replay k => inferInstanceAs (Decidable (∀ r ∈ s.reportQueue[k]?, Current s r))
  | .change _ => .isTrue trivial
  | .requestImmediateReport => .isTrue trivial
  | .sendDone => .isTrue trivial

def gateway (osVersion : String) : Values ℕ where
  apps := ⟨[("1",{ appId := some 1, appName := none, services := [], other := ∅ })],by simp⟩
  config := 5
  devices := 6
  osVersion := some osVersion
  agentVersion := some "1.0"
  architecture := "arm64"
  localIp := some "10.0.0.2"

def cycle (now : ℤ) : Inputs ℕ where
  now := now
  isOnline := true
  version := 1
  endpointHealth := ∅
  metrics := some (some 40)
  publishHealth := none
  vpnHealth := none

def defaults : Config := ⟨10000,300000⟩

/-- A new version of the system is told by a report that fails and is sent
from the queue after a report with metrics. -/
def carefulRun : List (Event ℕ) :=
  [.report (cycle 1000000),.sendDone,.change (gateway "12.2"),.report (cycle 1020000),.sendFails,
    .report (cycle 1400000),.sendDone,.replay 0]

theorem no_change_lost_carefulRun :
    Meets (step defaults 0) (Faithful defaults 0) carefulRun (created (gateway "12.1")) ∧
      Settled (run (step defaults 0) carefulRun (created (gateway "12.1"))) :=
  have h : Meets (step defaults 0) (Faithful defaults 0) carefulRun (created (gateway "12.1")) := by
    decide +kernel
  ⟨h,no_change_lost defaults 0 (gateway "12.1") carefulRun h carefulRun List.prefix_rfl⟩

/-- The first report fails: its architecture is not queued, and no later
report carries it. -/
theorem architecture_lost : ¬∀ es : List (Event ℕ), ∀ pre, pre <+: es →
    Settled (run (step defaults 0) pre (created (gateway "12.1"))) := by
  intro h
  exact absurd (h [.report (cycle 1000000),.sendFails,.report (cycle 1400000),.sendDone,.replay 0] _
    List.prefix_rfl) (by decide +kernel)

end Iotistica.StateReporter
