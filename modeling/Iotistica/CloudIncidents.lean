import Iotistica.GuardedRun
import Iotistica.KeyedTable
import Iotistica.TopicCodec
import Mathlib.Algebra.Order.Ring.Unbundled.Rat

/-!
# Incidents of the cloud

An anomaly event is correlated with the incident of its fingerprint: the
newest row is looked at, the incident is read from Redis, counted up and
written back to Redis and then to the table. Each of these is a statement of
its own, and calls for one fingerprint may run at the same time. An incident
that is not in Redis is created. Rows are in the order of their creation.
-/

set_option autoImplicit false

namespace Iotistica.CloudIncidents
open Iotistica.KeyedTable Iotistica.Topics

inductive Severity where
  | info
  | warning
  | critical
  deriving DecidableEq

inductive Status where
  | opened
  | active
  | resolved
  deriving DecidableEq

structure AnomalyEvent where
  fingerprint : String
  metric : String
  severity : Severity
  deviceName : String
  agentUuid : String
  deviceType : String
  timestampMs : ℤ
  anomalyScore : ℚ
  confidence : ℚ
  deriving DecidableEq

structure Incident where
  incidentId : ℕ
  fingerprint : String
  metric : String
  severity : Severity
  deviceName : String
  deviceUuid : Option String
  deviceType : String
  affectedDevices : List String
  affectedAgents : List String
  firstSeen : ℤ
  lastSeen : ℤ
  maxAnomalyScore : ℚ
  maxConfidence : ℚ
  eventCount : ℕ
  status : Status
  deriving DecidableEq

/-- A uuid with an underscore behind it, and the rest, which is not empty and
has no line end. -/
def uuidPrefix (metric : String) : Option (String × String) :=
  let uuid := String.ofList (metric.toList.take 36)
  let rest := metric.toList.drop 37
  if isUuid uuid = true ∧ metric.toList[36]? = some '_' ∧ rest ≠ [] ∧
      rest.all (fun c => c ≠ '\n' ∧ c ≠ '\r' ∧ c.toNat ≠ 0x2028 ∧ c.toNat ≠ 0x2029) then
    some (uuid,String.ofList rest)
  else none

def extractDeviceUuidFromMetric (metric : String) : Option String :=
  match uuidPrefix metric with
  | some (first,rest) =>
    match uuidPrefix rest with
    | some (second,_) => some second
    | none => some first
  | none => none

def extractMetricSuffix (metric : String) : String :=
  match uuidPrefix metric with
  | some (_,rest) =>
    match uuidPrefix rest with
    | some (_,suffix) => suffix
    | none => rest
  | none => metric

def newIncident (id : ℕ) (event : AnomalyEvent) : Incident where
  incidentId := id
  fingerprint := event.fingerprint
  metric := extractMetricSuffix event.metric
  severity := event.severity
  deviceName := event.deviceName
  deviceUuid := extractDeviceUuidFromMetric event.metric
  deviceType := event.deviceType
  affectedDevices := [event.deviceName]
  affectedAgents := [event.agentUuid]
  firstSeen := event.timestampMs
  lastSeen := event.timestampMs
  maxAnomalyScore := event.anomalyScore
  maxConfidence := event.confidence
  eventCount := 1
  status := .opened

def pushNew (names : List String) (name : String) : List String :=
  if name ∈ names then names else names++[name]

def escalate (severity : Severity) (maxAnomalyScore : ℚ) : Severity :=
  if 9/10 ≤ maxAnomalyScore ∧ severity ≠ .critical then .critical
  else if 7/10 ≤ maxAnomalyScore ∧ severity = .info then .warning
  else severity

def updatedIncident (incident : Incident) (event : AnomalyEvent) : Incident :=
  { incident with
    deviceName := if incident.deviceName = "" then event.deviceName else incident.deviceName
    deviceType := if incident.deviceType = "" then event.deviceType else incident.deviceType
    affectedDevices := pushNew incident.affectedDevices event.deviceName
    affectedAgents := pushNew incident.affectedAgents event.agentUuid
    eventCount := incident.eventCount+1
    lastSeen := event.timestampMs
    maxAnomalyScore := max incident.maxAnomalyScore event.anomalyScore
    maxConfidence := max incident.maxConfidence event.confidence
    severity := escalate incident.severity (max incident.maxAnomalyScore event.anomalyScore)
    status := if incident.status = .opened then .active else incident.status }

/-- What a call does next. `loaded` has what it read from Redis, with the
number of incidents stored there until then; `stored` has what it stored,
and whether it is new. -/
inductive Phase where
  | arrived
  | stale
  | checked
  | loaded (existing : Option Incident) (seen : ℕ)
  | stored (incident : Incident) (created : Bool)

structure Call where
  id : ℕ
  event : AnomalyEvent
  phase : Phase

/-- The entry in Redis, the rows, and the calls in progress. `latest` is the
incident that was stored in Redis last, the `storedCount`-th; `handled` are
the events whose incident was stored, and `createdAt` says how many there
were before an incident. -/
structure Track where
  redis : Option Incident
  rows : List Incident
  calls : Table Call Call.id
  nextId : ℕ
  latest : Option Incident
  storedCount : ℕ
  handled : List AnomalyEvent
  createdAt : ℕ → ℕ

def Track.empty : Track := ⟨none,[],.empty,0,none,0,[],fun _ => 0⟩

inductive Action where
  /-- The event is in the table of events. -/
  | arrive (event : AnomalyEvent)
  | select (call : ℕ)
  | del (call : ℕ)
  | get (call : ℕ)
  | setex (call : ℕ)
  | persist (call : ℕ)
  /-- The entry in Redis expires or is deleted. -/
  | expire
  /-- The row is resolved by hand. -/
  | resolve (incidentId : ℕ)

def setPhase (t : Track) (c : Call) (phase : Phase) : Track :=
  { t with
    calls := t.calls.update (fun d => d.id = c.id) (fun d => { d with phase := phase })
      (fun _ => rfl) }

def select (t : Track) (c : Call) : Track :=
  match c.phase with
  | .arrived =>
    match t.rows.getLast? with
    | some row => setPhase t c (if row.status = .resolved then .stale else .checked)
    | none => setPhase t c .checked
  | _ => t

def del (t : Track) (c : Call) : Track :=
  match c.phase with
  | .stale => setPhase { t with redis := none } c .checked
  | _ => t

def get (t : Track) (c : Call) : Track :=
  match c.phase with
  | .checked => setPhase t c (.loaded t.redis t.storedCount)
  | _ => t

/-- `setex` of an incident. -/
def store (t : Track) (incident : Incident) (event : AnomalyEvent) : Track :=
  { t with
    redis := some incident
    latest := some incident
    storedCount := t.storedCount+1
    handled := t.handled++[event] }

def setex (t : Track) (c : Call) : Track :=
  match c.phase with
  | .loaded none _ =>
    setPhase (store { t with
        nextId := t.nextId+1
        createdAt := fun id => if id = t.nextId then t.handled.length else t.createdAt id }
      (newIncident t.nextId c.event) c.event) c (.stored (newIncident t.nextId c.event) true)
  | .loaded (some incident) _ =>
    setPhase (store t (updatedIncident incident c.event) c.event) c
      (.stored (updatedIncident incident c.event) false)
  | _ => t

def finish (t : Track) (c : Call) : Track := { t with calls := t.calls.delete (fun d => d.id = c.id) }

def storeIncident (t : Track) (incident : Incident) : Track :=
  { t with rows := t.rows++[incident] }

def updateIncident (t : Track) (incident : Incident) : Track :=
  { t with rows := t.rows.map (fun row => if row.incidentId = incident.incidentId then
      { incident with
        fingerprint := row.fingerprint
        metric := row.metric
        firstSeen := row.firstSeen } else row) }

def persist (t : Track) (c : Call) : Track :=
  match c.phase with
  | .stored incident true => finish (storeIncident t incident) c
  | .stored incident false => finish (updateIncident t incident) c
  | _ => t

def resolve (t : Track) (incidentId : ℕ) : Track :=
  { t with rows := t.rows.map (fun row => if row.incidentId = incidentId then
      { row with status := .resolved } else row) }

def withCall (t : Track) (id : ℕ) (f : Call → Track) : Track :=
  match t.calls.rows.find? (fun c => c.id = id) with
  | some c => f c
  | none => t

def trackStep (t : Track) : Action → Track
  | .arrive event => { t with calls := t.calls.insert (fun id => ⟨id,event,.arrived⟩) (fun _ => rfl) }
  | .select id => withCall t id (select t)
  | .del id => withCall t id (del t)
  | .get id => withCall t id (get t)
  | .setex id => withCall t id (setex t)
  | .persist id => withCall t id (persist t)
  | .expire => { t with redis := none }
  | .resolve incidentId => resolve t incidentId

abbrev State := String → Track

def started : State := fun _ => .empty

structure Event where
  fingerprint : String
  action : Action

def Event.fits (e : Event) : Bool :=
  match e.action with
  | .arrive event => event.fingerprint = e.fingerprint
  | _ => true

def step (s : State) (e : Event) : State :=
  if e.fits then fun f => if f = e.fingerprint then trackStep (s f) e.action else s f else s

end Iotistica.CloudIncidents
