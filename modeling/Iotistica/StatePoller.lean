import Iotistica.GuardedRun
import Mathlib.Data.Finmap
import Mathlib.Data.Rat.Floor

/-!
# Polling the target state

A poll asks the cloud for the target state and sends the ETag it holds, so
that an unchanged state is answered by a 304. The ETag of a response is
stored, in memory and in the metadata table, before the body is read; the
state of the body becomes the target at the end of the poll. Members that
the cloud leaves out are taken over from the target at hand.

A value of type `J` is any JSON value. Where the source compares hashes of
two states, the states are compared.
-/

set_option autoImplicit false

namespace Iotistica.StatePoller
open Iotistica Iotistica.GuardedRun

variable {J : Type} [DecidableEq J]

abbrev Members (J : Type) := Finmap (fun _ : String => J)

/-- An absent or falsy member is `none`. -/
structure Config (J : Type) where
  endpoints : Option (List J)
  anomalyDetection : Option J
  features : Option (Members J)
  other : Members J
  deriving DecidableEq

structure AgentState (J : Type) where
  apps : J
  config : Config J
  deriving DecidableEq

/-- The member of the response under the uuid of the device. A version that
is no finite number is `none`. -/
structure DeviceState (J : Type) where
  version : Option ℚ
  apps : J
  config : Config J
  deriving DecidableEq

def targetVersion (rawVersion : Option ℚ) : ℕ :=
  match rawVersion with
  | some q => if 1 ≤ q then ⌊q⌋.toNat else 1
  | none => 1

def preservedEndpoints (existing cloud : Option (List J)) : Option (List J) :=
  if cloud.getD [] = [] ∧ existing.getD [] ≠ [] then some (existing.getD []) else cloud

/-- `{ ...existing, ...cloud }`, if there are existing ones. -/
def mergedFeatures (existing cloud : Option (Members J)) : Option (Members J) :=
  match existing with
  | none => cloud
  | some features => some (cloud.getD ∅ ∪ features)

def newTargetState (existing : AgentState J) (deviceState : DeviceState J) : AgentState J where
  apps := deviceState.apps
  config :=
    { deviceState.config with
      endpoints := preservedEndpoints existing.config.endpoints deviceState.config.endpoints
      anomalyDetection :=
        deviceState.config.anomalyDetection.or existing.config.anomalyDetection
      features := mergedFeatures existing.config.features deviceState.config.features }

/-- What a response makes of the target; one without a state for the device
leaves it alone. -/
def received (existing : AgentState J) : Option (DeviceState J) → AgentState J
  | none => existing
  | some deviceState => newTargetState existing deviceState

structure Tag (J : Type) where
  etag : String
  deviceState : Option (DeviceState J)
  deriving DecidableEq

inductive Stage (J : Type) where
  | requested (ifNoneMatch : Option (Tag J))
  | reading (deviceState : Option (DeviceState J))
  deriving DecidableEq

/-- `metadata` and `snapshot` are on disk. -/
structure Agent (J : Type) where
  isRunning : Bool
  targetStateETag : Option (Tag J)
  requireFullRefresh : Bool
  currentVersion : ℕ
  poll : Option (Stage J)
  targetState : AgentState J
  lastSavedStateHash : Option (AgentState J)
  metadata : Option (Tag J)
  snapshot : Option (AgentState J)
  deriving DecidableEq

def emptyState (noApps : J) : AgentState J where
  apps := noApps
  config := { endpoints := none, anomalyDetection := none, features := none, other := ∅ }

/-- A process that starts over what is on disk. A snapshot that cannot be
loaded counts for none. -/
def booted (noApps : J) (metadata : Option (Tag J)) (snapshot : Option (AgentState J))
    (snapshotFails : Bool) : Agent J :=
  let loaded := if snapshotFails then none else snapshot
  { isRunning := false
    targetStateETag := none
    requireFullRefresh := true
    currentVersion := 1
    poll := none
    targetState := loaded.getD (emptyState noApps)
    lastSavedStateHash := loaded
    metadata := metadata
    snapshot := snapshot }

def installed (noApps : J) : Agent J := booted noApps none none false

def start (s : Agent J) (metadataFails : Bool) : Agent J :=
  if s.isRunning then s
  else
    { s with
      isRunning := true
      targetStateETag :=
        if metadataFails then s.targetStateETag else s.metadata.or s.targetStateETag }

def ifNoneMatch (s : Agent J) : Option (Tag J) :=
  if s.requireFullRefresh then none else s.targetStateETag

def pollTargetState (s : Agent J) : Agent J :=
  match s.poll with
  | some _ => s
  | none => { s with poll := some (.requested (ifNoneMatch s)) }

def pollNow (s : Agent J) (forceFullRefresh circuitOpen : Bool) : Agent J :=
  let s := { s with requireFullRefresh := forceFullRefresh || s.requireFullRefresh }
  if circuitOpen then s else pollTargetState s

def storeETag (s : Agent J) (etag : Option String) (deviceState : Option (DeviceState J))
    (persistFails : Bool) : Agent J :=
  match etag with
  | none => s
  | some e =>
    if e = "" then s
    else
      { s with
        targetStateETag := some ⟨e,deviceState⟩
        metadata := if persistFails then s.metadata else some ⟨e,deviceState⟩ }

def okResponse (s : Agent J) (etag : Option String) (deviceState : Option (DeviceState J))
    (persistFails : Bool) : Agent J :=
  { storeETag s etag deviceState persistFails with
    requireFullRefresh := false
    poll := some (.reading deviceState) }

def saveTargetStateToDB (s : Agent J) (saveFails : Bool) : Agent J :=
  if s.lastSavedStateHash = some s.targetState then s
  else
    { s with
      lastSavedStateHash := some s.targetState
      snapshot := if saveFails then s.snapshot else some s.targetState }

def setTarget (s : Agent J) (state : AgentState J) (saveFails : Bool) : Agent J :=
  saveTargetStateToDB { s with targetState := state } saveFails

/-- The end of a poll whose body could be read. With `assigns` false,
`setTarget` throws before it stores the state; an exception after that is no
different from none. -/
def bodyRead (s : Agent J) (deviceState : Option (DeviceState J)) (assigns saveFails : Bool) :
    Agent J :=
  match deviceState with
  | none => { s with poll := none }
  | some d =>
    let s := { s with poll := none, currentVersion := targetVersion d.version }
    if newTargetState s.targetState d = s.targetState then s
    else if s.isRunning && assigns then setTarget s (newTargetState s.targetState d) saveFails
    else s

inductive Event (J : Type) where
  | start (metadataFails : Bool)
  | stop
  | loop
  | pollNow (forceFullRefresh circuitOpen : Bool)
  | notModified
  /-- No answer, or a status that is neither 200 nor 304. -/
  | requestFails
  | okResponse (etag : Option String) (deviceState : Option (DeviceState J)) (persistFails : Bool)
  | bodyFails
  | bodyRead (assigns saveFails : Bool)
  | restart (snapshotFails : Bool)
  deriving DecidableEq

/-- Answers reach a poll that waits for them. The server also sends a 304 to
a request without an ETag, while a deployment is pending. -/
def answered (s : Agent J) (stage : Stage J) : Event J → Agent J
  | .notModified =>
    match stage with
    | .requested _ => { s with requireFullRefresh := false, poll := none }
    | .reading _ => s
  | .requestFails =>
    match stage with
    | .requested _ => { s with poll := none }
    | .reading _ => s
  | .okResponse etag deviceState persistFails =>
    match stage with
    | .requested _ => okResponse s etag deviceState persistFails
    | .reading _ => s
  | .bodyFails =>
    match stage with
    | .requested _ => s
    | .reading _ => { s with poll := none }
  | .bodyRead assigns saveFails =>
    match stage with
    | .requested _ => s
    | .reading deviceState => bodyRead s deviceState assigns saveFails
  | _ => s

def inPoll (s : Agent J) (e : Event J) : Agent J :=
  match s.poll with
  | none => s
  | some stage => answered s stage e

def step (noApps : J) (s : Agent J) : Event J → Agent J
  | .start metadataFails => start s metadataFails
  | .stop => { s with isRunning := false }
  | .loop => if s.isRunning then pollTargetState s else s
  | .pollNow forceFullRefresh circuitOpen => pollNow s forceFullRefresh circuitOpen
  | .restart snapshotFails => booted noApps s.metadata s.snapshot snapshotFails
  | e => inPoll s e

end Iotistica.StatePoller
