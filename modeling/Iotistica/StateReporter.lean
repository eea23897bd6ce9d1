import Iotistica.OrderedMap
import Iotistica.MarkedField
import Iotistica.StatePoller

/-!
# Reporting the current state

A report cycle reads the agent's values, decides which of them to send, and
sends them. A send that fails leaves a reduced report in the offline queue,
from where it is sent later, in any order and also during another cycle.
For each value the reporter remembers what it last took for reported: for
versions, architecture and local address when the report is built, for
config and devices when it has been sent.

The cloud keeps for each field the value it received last. Hashes stand for
what was hashed. `J` is any JSON value.
-/

set_option autoImplicit false

namespace Iotistica.StateReporter
open Iotistica Iotistica.GuardedRun Iotistica.MarkedField
open Iotistica.StatePoller (Members)

variable {J : Type}

structure ServiceConfig (J : Type) where
  image : Option J
  restart : Option J
  networkMode : Option J
  ports : Option J
  volumes : Option J
  networks : Option J
  other : Members J
  deriving DecidableEq

structure Service (J : Type) where
  appId : Option J
  appName : Option J
  serviceId : Option J
  serviceName : Option J
  status : Option J
  containerId : Option J
  imageName : Option J
  config : ServiceConfig J
  other : Members J
  deriving DecidableEq

structure App (J : Type) where
  appId : Option J
  appName : Option J
  services : List (Service J)
  other : Members J
  deriving DecidableEq

abbrev Apps (J : Type) := OrderedMap String (App J)

def strippedService (svc : Service J) : Service J :=
  { svc with config := { svc.config with other := ∅ }, other := ∅ }

def strippedApp (app : App J) : App J :=
  { app with services := app.services.map strippedService, other := ∅ }

def normalizeService (service : Service J) : Service J :=
  { service with other := (service.other.erase "_containerId").erase "_status" }

def normalizeApp (app : App J) : App J :=
  { app with services := app.services.map normalizeService }

def appsChanged [DecidableEq J] (oldApps newApps : Apps J) : Bool :=
  !decide ((oldApps.mapValues normalizeApp).entries.Perm (newApps.mapValues normalizeApp).entries)

structure Report (J : Type) where
  apps : Apps J
  is_online : Bool
  version : Option ℕ
  config : Option J
  endpoints_health : Option (Members J)
  devices : Option J
  os_version : Option String
  agent_version : Option String
  architecture : Option String
  local_ip : Option String
  cpu_usage : Option J
  publish_health : Option J
  vpn_health : Option J
  deriving DecidableEq

def stripReportForQueue (report : Report J) : Report J :=
  { report with
    apps := report.apps.mapValues strippedApp
    version := none
    endpoints_health := none
    architecture := none
    publish_health := none
    vpn_health := none }

structure StateOnly (J : Type) where
  apps : Apps J
  is_online : Bool
  version : ℕ
  config : Option J
  endpoints_health : Option (Members J)
  devices : Option J
  os_version : Option String
  architecture : Option String
  agent_version : Option String
  deriving DecidableEq

/-- Whether `calculateStateDiff` finds anything. Health and devices are
objects of their own each time, so they differ whenever they are there. An
absent config counts as an empty one. -/
def differs [DecidableEq J] (noConfig : J) (old : Option (StateOnly J)) (new : StateOnly J) : Bool :=
  match old with
  | none => true
  | some old =>
    appsChanged old.apps new.apps ||
    decide (old.is_online ≠ new.is_online) ||
    decide (old.version ≠ new.version) ||
    new.config.any (fun config => decide (old.config.getD noConfig ≠ config)) ||
    new.endpoints_health.isSome ||
    new.devices.isSome ||
    (new.os_version.isSome && decide (old.os_version ≠ new.os_version)) ||
    (new.architecture.isSome && decide (old.architecture ≠ new.architecture)) ||
    decide (old.agent_version ≠ new.agent_version)

structure Values (J : Type) where
  apps : Apps J
  config : J
  devices : J
  osVersion : Option String
  agentVersion : Option String
  architecture : String
  /-- The address of the default interface. -/
  localIp : Option String
  deriving DecidableEq

/-- What else a cycle reads. `metrics` is absent if they cannot be collected,
and holds the processor load if they can. -/
structure Inputs (J : Type) where
  now : ℤ
  isOnline : Bool
  version : ℕ
  endpointHealth : Members J
  metrics : Option (Option J)
  publishHealth : Option J
  vpnHealth : Option J
  deriving DecidableEq

structure Cloud (J : Type) where
  apps : Option (Apps J)
  config : Option J
  devices : Option J
  os_version : Option String
  agent_version : Option String
  architecture : Option String
  local_ip : Option String
  deriving DecidableEq

def receive (cloud : Cloud J) (report : Report J) : Cloud J where
  apps := some report.apps
  config := report.config.or cloud.config
  devices := report.devices.or cloud.devices
  os_version := report.os_version.or cloud.os_version
  agent_version := report.agent_version.or cloud.agent_version
  architecture := report.architecture.or cloud.architecture
  local_ip := report.local_ip.or cloud.local_ip

/-- A report on its way, with what is noted once it has been sent. The last
field tells whether no value has changed since they were read. -/
structure Sending (J : Type) where
  report : Report J
  stateOnly : StateOnly J
  configHash : J
  healthHash : Members J
  devicesHash : J
  now : ℤ
  withMetrics : Bool
  unchanged : Bool
  deriving DecidableEq

/-- `fresh` holds once a report with metrics has been sent and until a value
changes. -/
structure Reporter (J : Type) where
  values : Values J
  forceNextReport : Bool
  lastReport : Option (StateOnly J)
  lastReportTime : ℤ
  lastMetricsTime : ℤ
  lastOsVersion : Option String
  lastAgentVersion : Option String
  lastArchitecture : Option String
  lastLocalIp : Option String
  lastConfigHash : Option J
  lastEndpointHealthHash : Option (Members J)
  lastDevicesHash : Option J
  sending : Option (Sending J)
  reportQueue : List (Report J)
  cloud : Cloud J
  fresh : Bool
  deriving DecidableEq

structure Config where
  reportInterval : ℤ
  metricsInterval : ℤ

def created (values : Values J) : Reporter J where
  values := values
  forceNextReport := false
  lastReport := none
  lastReportTime := 0
  lastMetricsTime := 0
  lastOsVersion := none
  lastAgentVersion := none
  lastArchitecture := none
  lastLocalIp := none
  lastConfigHash := none
  lastEndpointHealthHash := none
  lastDevicesHash := none
  sending := none
  reportQueue := []
  cloud := ⟨none,none,none,none,none,none,none⟩
  fresh := false

def includeMetrics (cfg : Config) (s : Reporter J) (i : Inputs J) : Bool :=
  decide (i.now-s.lastMetricsTime ≥ cfg.metricsInterval)

variable [DecidableEq J]

def configChanged (s : Reporter J) : Bool := decide (s.lastConfigHash ≠ some s.values.config)

def devicesChanged (s : Reporter J) : Bool := decide (s.lastDevicesHash ≠ some s.values.devices)

def healthChanged (s : Reporter J) (i : Inputs J) : Bool :=
  decide (i.endpointHealth ≠ ∅) && decide (s.lastEndpointHealthHash ≠ some i.endpointHealth)

def localIpRead (cfg : Config) (s : Reporter J) (i : Inputs J) : Option String :=
  if includeMetrics cfg s i && i.metrics.isSome then s.values.localIp.or s.lastLocalIp
  else s.lastLocalIp

def reportToSend (cfg : Config) (s : Reporter J) (i : Inputs J) : Report J where
  apps := s.values.apps
  is_online := i.isOnline
  version := some i.version
  config := if configChanged s || s.forceNextReport then some s.values.config else none
  endpoints_health := if healthChanged s i || includeMetrics cfg s i then some i.endpointHealth else none
  devices := if devicesChanged s then some s.values.devices else none
  os_version := changed s.lastOsVersion s.values.osVersion
  agent_version := changed s.lastAgentVersion s.values.agentVersion
  architecture := changed s.lastArchitecture (some s.values.architecture)
  local_ip :=
    if includeMetrics cfg s i && (i.metrics.getD none).isSome then
      changed s.lastLocalIp (localIpRead cfg s i)
    else none
  cpu_usage := if includeMetrics cfg s i then i.metrics.getD none else none
  publish_health := if includeMetrics cfg s i then i.publishHealth else none
  vpn_health := if includeMetrics cfg s i then i.vpnHealth else none

def stateOnlyReport (cfg : Config) (s : Reporter J) (i : Inputs J) : StateOnly J where
  apps := s.values.apps
  is_online := i.isOnline
  version := i.version
  config := (reportToSend cfg s i).config
  endpoints_health :=
    if decide (i.endpointHealth ≠ ∅) && (healthChanged s i || includeMetrics cfg s i) then
      some i.endpointHealth
    else none
  devices := (reportToSend cfg s i).devices
  os_version := (reportToSend cfg s i).os_version
  architecture := (reportToSend cfg s i).architecture
  agent_version := s.values.agentVersion

def shouldReport (cfg : Config) (noConfig : J) (s : Reporter J) (i : Inputs J) : Bool :=
  differs noConfig s.lastReport (stateOnlyReport cfg s i) || includeMetrics cfg s i ||
    configChanged s || healthChanged s i || devicesChanged s || s.forceNextReport

def hasAnyData (report : Report J) : Bool :=
  report.config.isSome || !report.apps.entries.isEmpty || report.endpoints_health.isSome ||
    report.devices.isSome || report.cpu_usage.isSome || report.publish_health.isSome ||
    report.vpn_health.isSome

def markersSet (cfg : Config) (s : Reporter J) (i : Inputs J) : Reporter J :=
  { s with
    lastOsVersion := s.values.osVersion
    lastAgentVersion := s.values.agentVersion
    lastArchitecture := some s.values.architecture
    lastLocalIp := localIpRead cfg s i
    lastMetricsTime :=
      if includeMetrics cfg s i && i.metrics.isSome then i.now else s.lastMetricsTime }

def due (cfg : Config) (s : Reporter J) (i : Inputs J) : Bool :=
  s.sending.isNone && (s.forceNextReport || !decide (i.now-s.lastReportTime < cfg.reportInterval))

def sends (cfg : Config) (noConfig : J) (s : Reporter J) (i : Inputs J) : Bool :=
  shouldReport cfg noConfig s i && hasAnyData (reportToSend cfg s i)

def prepared (cfg : Config) (s : Reporter J) (i : Inputs J) : Sending J where
  report := reportToSend cfg s i
  stateOnly := stateOnlyReport cfg s i
  configHash := s.values.config
  healthHash := i.endpointHealth
  devicesHash := s.values.devices
  now := i.now
  withMetrics := includeMetrics cfg s i && i.metrics.isSome
  unchanged := true

def reportCurrentState (cfg : Config) (noConfig : J) (s : Reporter J) (i : Inputs J) : Reporter J :=
  if due cfg s i then
    if sends cfg noConfig s i then
      { markersSet cfg s i with sending := some (prepared cfg s i) }
    else markersSet cfg s i
  else s

def sendDone (s : Reporter J) (p : Sending J) : Reporter J :=
  { s with
    cloud := receive s.cloud p.report
    lastConfigHash := some p.configHash
    lastEndpointHealthHash := some p.healthHash
    lastDevicesHash := some p.devicesHash
    forceNextReport := false
    lastReport := some p.stateOnly
    lastReportTime := p.now
    sending := none
    fresh := if p.withMetrics then p.unchanged else s.fresh }

def sendFails (s : Reporter J) (p : Sending J) : Reporter J :=
  { s with reportQueue := s.reportQueue++[stripReportForQueue p.report], sending := none }

def replay (s : Reporter J) (k : ℕ) : Reporter J :=
  match s.reportQueue[k]? with
  | none => s
  | some report =>
    { s with cloud := receive s.cloud report, reportQueue := s.reportQueue.eraseIdx k }

def change (s : Reporter J) (values : Values J) : Reporter J :=
  { s with
    values := values
    sending := s.sending.map (fun p => { p with unchanged := false })
    fresh := false }

inductive Event (J : Type) where
  | change (values : Values J)
  | requestImmediateReport
  | report (i : Inputs J)
  | sendDone
  | sendFails
  | replay (k : ℕ)
  deriving DecidableEq

def step (cfg : Config) (noConfig : J) (s : Reporter J) : Event J → Reporter J
  | .change values => change s values
  | .requestImmediateReport => { s with forceNextReport := true }
  | .report i => reportCurrentState cfg noConfig s i
  | .sendDone =>
    match s.sending with
    | none => s
    | some p => sendDone s p
  | .sendFails =>
    match s.sending with
    | none => s
    | some p => sendFails s p
  | .replay k => replay s k

end Iotistica.StateReporter
