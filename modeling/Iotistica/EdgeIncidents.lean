import Iotistica.GuardedRun
import Iotistica.KeyedTable
import Mathlib.Algebra.Order.Ring.Unbundled.Rat

/-!
# Incidents of an agent

An anomaly event is counted by the open incident of its fingerprint, which it
creates if there is none, and the incident may raise an alert. Incidents end
by hand or when they have been silent. Every operation runs to its end before
the next, at a clock that it is given.
-/

set_option autoImplicit false

namespace Iotistica.EdgeIncidents
open Iotistica.KeyedTable

inductive Severity where
  | info
  | warning
  | critical
  deriving DecidableEq

inductive Status where
  | opened
  | active
  | resolved
  deriving DecidableEq

structure AnomalyEventPayload where
  metric : String
  fingerprint : String
  timestampMs : ℤ
  observedValue : ℚ
  anomalyScore : ℚ
  confidence : ℚ
  severity : Severity
  deviceName : Option String
  deviceType : Option String

structure Incident where
  incidentId : ℕ
  fingerprint : String
  metric : String
  severity : Severity
  deviceName : String
  deviceType : Option String
  firstSeen : ℤ
  lastSeen : ℤ
  maxAnomalyScore : ℚ
  maxConfidence : ℚ
  eventCount : ℕ
  status : Status
  lastAlertAt : Option ℤ
  acknowledgedAt : Option ℤ
  acknowledgedBy : Option String
  resolutionNotes : Option String
  createdAt : ℤ

def Incident.unresolved (v : Incident) : Bool := v.status ≠ .resolved

/-- An alert, with the clock and the number of processed events when it was
raised. -/
structure Alert where
  incidentId : ℕ
  severity : Severity
  metric : String
  deviceName : String
  maxAnomalyScore : ℚ
  message : String
  raisedAt : ℤ
  raisedAfter : ℕ

structure Silenced where
  incidentId : ℕ
  clock : ℤ
  after : ℕ

/-- The tables, the processed events, how many there were before an incident,
and the incidents found silent. -/
structure State where
  incidents : Table Incident Incident.incidentId
  alerts : List Alert
  processed : List AnomalyEventPayload
  createdAfter : ℕ → ℕ
  silenced : List Silenced

def started : State := ⟨.empty,[],[],fun _ => 0,[]⟩

def activeThreshold : ℕ := 3
def silenceWindowMs : ℤ := 30*60*1000
def alertCooldownMs : ℤ := 60*60*1000

def alertThreshold : Severity → ℕ
  | .critical => 1
  | .warning => 3
  | .info => 5

def severityRank : Severity → ℕ
  | .info => 0
  | .warning => 1
  | .critical => 2

def escalateSeverity (current incoming : Severity) : Severity :=
  if severityRank incoming > severityRank current then incoming else current

def upperCase : Severity → String
  | .info => "INFO"
  | .warning => "WARNING"
  | .critical => "CRITICAL"

/-- The row that `create` inserts; the table dates it by the second. -/
def newIncident (payload : AnomalyEventPayload) (now : ℤ) (id : ℕ) : Incident where
  incidentId := id
  fingerprint := payload.fingerprint
  metric := payload.metric
  severity := payload.severity
  deviceName := payload.deviceName.getD "Unknown"
  deviceType := payload.deviceType
  firstSeen := payload.timestampMs
  lastSeen := payload.timestampMs
  maxAnomalyScore := payload.anomalyScore
  maxConfidence := payload.confidence
  eventCount := 1
  status := .opened
  lastAlertAt := none
  acknowledgedAt := none
  acknowledgedBy := none
  resolutionNotes := none
  createdAt := now/1000*1000

def create (s : State) (payload : AnomalyEventPayload) (now : ℤ) : State :=
  { s with
    incidents := s.incidents.insert (newIncident payload now) (fun _ => rfl)
    createdAfter := fun id =>
      if id = s.incidents.next then s.processed.length else s.createdAfter id }

/-- `ORDER BY created_at DESC LIMIT 1` over the open and active rows. -/
def findActiveByFingerprint (s : State) (fingerprint : String) : Option Incident :=
  ((s.incidents.select (fun v => v.fingerprint = fingerprint && v.unresolved)).insertionSort
    (fun a b => b.createdAt ≤ a.createdAt)).head?

def updateByEvent (s : State) (incidentId : ℕ) (v : Incident) (lastSeen : ℤ) : State :=
  { s with
    incidents := s.incidents.update (fun row => row.incidentId = incidentId)
      (fun row => { row with
        lastSeen := lastSeen
        eventCount := v.eventCount
        maxAnomalyScore := v.maxAnomalyScore
        maxConfidence := v.maxConfidence
        severity := v.severity
        status := v.status }) (fun _ => rfl) }

def setLastAlertAt (s : State) (incidentId : ℕ) (now : ℤ) : State :=
  { s with
    incidents := s.incidents.update (fun row => row.incidentId = incidentId)
      (fun row => { row with lastAlertAt := some now }) (fun _ => rfl) }

def resolve (s : State) (incidentId : ℕ) (resolvedBy : String) (notes : Option String)
    (now : ℤ) : State :=
  { s with
    incidents := s.incidents.update (fun row => row.incidentId = incidentId && row.unresolved)
      (fun row => { row with
        status := .resolved
        acknowledgedAt := some now
        acknowledgedBy := some resolvedBy
        resolutionNotes := notes }) (fun _ => rfl) }

def stale (cutoff : ℤ) (row : Incident) : Bool := row.unresolved && row.lastSeen < cutoff

def autoResolveStale (s : State) (cutoff : ℤ) : State :=
  { s with
    incidents := s.incidents.update (stale cutoff) (fun row => { row with status := .resolved })
      (fun _ => rfl) }

structure Numbers where
  toFixed : ℚ → String
  print : ℚ → String

def buildMessage (numbers : Numbers) (v : Incident) (payload : AnomalyEventPayload) : String :=
  upperCase v.severity++": Anomaly in \""++v.metric++"\""++" on "++v.deviceName++"."++
    " Score: "++numbers.toFixed v.maxAnomalyScore++","++
    " observed: "++numbers.print payload.observedValue++","++
    " events: "++toString v.eventCount++"."

/-- A time of 0 counts as no time. -/
def coolingDown (lastAlertAt : Option ℤ) (now : ℤ) : Bool :=
  match lastAlertAt with
  | some last => last ≠ 0 && now-last < alertCooldownMs
  | none => false

def promote (numbers : Numbers) (s : State) (v : Incident) (payload : AnomalyEventPayload)
    (now : ℤ) : State :=
  setLastAlertAt { s with
    alerts := s.alerts++[{
      incidentId := v.incidentId
      severity := v.severity
      metric := v.metric
      deviceName := v.deviceName
      maxAnomalyScore := v.maxAnomalyScore
      message := buildMessage numbers v payload
      raisedAt := now
      raisedAfter := s.processed.length }] } v.incidentId now

def maybePromote (numbers : Numbers) (s : State) (v : Incident) (payload : AnomalyEventPayload)
    (now : ℤ) : State :=
  if v.eventCount < alertThreshold v.severity then s
  else if coolingDown v.lastAlertAt now then s
  else promote numbers s v payload now

def counted (v : Incident) (payload : AnomalyEventPayload) : Incident :=
  { v with
    eventCount := v.eventCount+1
    maxAnomalyScore := max v.maxAnomalyScore payload.anomalyScore
    maxConfidence := max v.maxConfidence payload.confidence
    severity := escalateSeverity v.severity payload.severity
    status := if activeThreshold ≤ v.eventCount+1 then .active else v.status }

def count (s : State) (payload : AnomalyEventPayload) (now : ℤ) : Incident × State :=
  match findActiveByFingerprint s payload.fingerprint with
  | none => (newIncident payload now s.incidents.next,create s payload now)
  | some v => (counted v payload,updateByEvent s v.incidentId (counted v payload) payload.timestampMs)

def log (s : State) (payload : AnomalyEventPayload) : State :=
  { s with processed := s.processed++[payload] }

def processEvent (numbers : Numbers) (s : State) (payload : AnomalyEventPayload) (now : ℤ) :
    State :=
  if payload.metric = "" ∨ payload.fingerprint = "" then s
  else maybePromote numbers (log (count s payload now).2 payload) (count s payload now).1 payload now

def checkSilentResolutions (s : State) (now : ℤ) : State :=
  { autoResolveStale s (now-silenceWindowMs) with
    silenced := s.silenced++(s.incidents.select (stale (now-silenceWindowMs))).map
      (fun v => ⟨v.incidentId,now,s.processed.length⟩) }

inductive Event where
  | processEvent (payload : AnomalyEventPayload) (now : ℤ)
  | checkSilentResolutions (now : ℤ)
  | resolve (incidentId : ℕ) (resolvedBy : String) (notes : Option String) (now : ℤ)

def step (numbers : Numbers) (s : State) : Event → State
  | .processEvent payload now => processEvent numbers s payload now
  | .checkSilentResolutions now => checkSilentResolutions s now
  | .resolve incidentId resolvedBy notes now => resolve s incidentId resolvedBy notes now

end Iotistica.EdgeIncidents
